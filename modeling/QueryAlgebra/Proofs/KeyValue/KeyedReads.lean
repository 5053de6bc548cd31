import QueryAlgebra.Proofs.KeyValue.Pipeline
import QueryAlgebra.Proofs.KeyValue.Rebuild
import QueryAlgebra.Proofs.Query.Rows

/-!
# Reads by keys and the scan

A selection by keys does not look at the documents that it does not answer: it goes from the keys to
the lists of an index, drops keys that come again, and fetches row by row. When the rows stand under
their own keys and the indexes are in step, it answers the documents of the scan that have one of the
keys, each once.

* `InStep.scanned`, `InStep.faithful`: what the way through an index rests on.
* `fetchAll_answer`, `lookupAll_answer`: what the fetches and the lookups answer.
* `keyed_reads_agree`: keys of the primary key, of an index, or of neither.
-/

namespace QueryAlgebra

namespace KeyValue

/-! ## 1. Rows and indexes in step -/

/-- A scan answers the documents. -/
theorem Scanned.scan {t : Table Session} {m : Content} {primaryKey : String} {docs : List Fields}
    (hdocs : Scanned m t.name primaryKey docs) : t.snapshot.scan m = .ok (docs.map .object) := by
  have hread := mapM_eq_ok_map (fun e _ h => readRecord_of_readDocument h) hdocs.read
  exact (Snapshot.ofOutcome_apply m _).trans hread

/-- **What is fetched by a key is the row of its fingerprint.** -/
theorem Scanned.document {m : Content} {t primaryKey : String} {docs : List Fields}
    (hdocs : Scanned m t primaryKey docs) (hs : OrderedMap.Sorted m) (key : Value) :
    documentAt m t key = .ok (storedRows m t key.fingerprint) := by
  have hreadable := exists_mapM_eq_ok_iff.mp ⟨docs, hdocs.read⟩
  unfold documentAt storedRows
  rw [show (Space.primary t).named key.fingerprint = (Space.primary t).key key from rfl]
  cases hread : m.read ((Space.primary t).key key) with
  | none => rfl
  | some text =>
    obtain ⟨doc, hdoc⟩ := hreadable (_, text) ((Space.mem_entries hs).mpr ⟨hread, _, rfl⟩)
    have htext : readDocument text = .ok doc := hdoc
    show some <$> readDocument text = _
    rw [Option.bind_some, htext]
    rfl

section InStep

variable {config : Config} {s : Memory} {table : String} {l : IndexList} {docs : List Fields}

/-- Every document has a primary key that is not null. -/
theorem OwnKeys.nonNull (hs : OrderedMap.Sorted s.content) (hown : OwnKeys config s table l)
    (hdocs : Scanned s.content table l.primaryKey docs) {doc : Fields} (hdoc : doc ∈ docs) :
    ∃ key, doc.get? l.primaryKey = some key ∧ key.isNull = false := by
  have hrow := (hdocs.rows _ doc).mpr ⟨hdoc, rfl⟩
  obtain ⟨text, hread, htext⟩ := Option.bind_eq_some_iff.mp hrow
  obtain ⟨doc', key, hdoc', hkey, hnull, -⟩ :=
    hown.rows (_, text) ((Space.mem_entries hs).mpr ⟨hread, _, rfl⟩)
  rw [ok_of_toOption htext] at hdoc'
  exact ⟨key, Except.ok.inj hdoc' ▸ hkey, hnull⟩

variable (hhealthy : Healthy s) (hs : OrderedMap.Sorted s.content)
  (hown : OwnKeys config s table l) (hstep : InStep config s table l docs)

include hhealthy hs hown hstep

/-- The documents of the scan are the rows under their own keys. -/
theorem InStep.scanned : Scanned s.content table l.primaryKey docs := by
  obtain ⟨docs', hdocs'⟩ := exists_scanned hs hown.rows
  have hscan := (reads_scan (t := tableOf config table) rfl s hhealthy).1
  rw [hstep.documents, Scanned.scan (t := tableOf config table) hdocs'] at hscan
  have hsame : docs = docs' :=
    List.map_injective_iff.mpr (fun _ _ h => Value.object.inj h) (Except.ok.inj hscan)
  exact hsame ▸ hdocs'

/-- Under every value an index lists the keys of the rows, under null none. -/
theorem InStep.faithful {f : String} (hf : f ∈ l.secondary) : Faithful s.content table f := by
  have hdocs := hstep.scanned hhealthy hs hown
  intro v
  cases hnull : v.isNull with
  | false =>
    obtain ⟨keys, hkeys, hperm⟩ := hstep.exact f hf v hnull
    rw [(reads_lookup table f v s hhealthy).1] at hkeys
    have howners := hdocs.owners f v.fingerprint
    exact ⟨keys, hkeys, hperm.nodup_iff.mpr howners.nodup,
      fun p => hperm.mem_iff.trans (howners.owners p)⟩
  | true =>
    -- An entry under null would be that of a value of a document.
    have hnone : s.content.read ((Space.index table f).key v) = none := by
      by_contra hsome
      obtain ⟨text, htext⟩ := Option.ne_none_iff_exists'.mp hsome
      obtain ⟨doc, -, v', -, hv', hkey⟩ :=
        hstep.nothingElse f hf (_, text) ((Space.mem_entries hs).mpr ⟨htext, _, rfl⟩)
      cases v with
      | null => exact Value.fingerprint_ne_null hv' (Space.named_injective hkey).symm
      | bool | number | string | array | object => cases hnull
    refine ⟨[], lookup_of_entry hnone (fun k hk => absurd hk List.not_mem_nil), List.nodup_nil,
      fun p => ⟨fun hp => absurd hp List.not_mem_nil, fun hp => ?_⟩⟩
    obtain ⟨u, hu, hplace⟩ := Option.map_eq_some_iff.mp hp
    cases v with
    | null => exact absurd hplace (Value.fingerprint_ne_null (isNull_indexed hu))
    | bool | number | string | array | object => cases hnull

end InStep

/-! ## 2. Fetches and lookups -/

/-- The rows that have a key, in the order of the keys. -/
def rowsOf (m : Content) (t : String) (keys : List Value) : List Fields :=
  keys.filterMap fun key => storedRows m t key.fingerprint

section Answers

variable {t : Table Session} {m : Content} {primaryKey : String} {docs : List Fields}

/-- **Fetching by keys answers the rows that have them.** -/
theorem fetchAll_answer (hs : OrderedMap.Sorted m) (hdocs : Scanned m t.name primaryKey docs)
    (keys : List Value) :
    t.snapshot.fetchAll keys m = .ok ((rowsOf m t.name keys).map .object) := by
  induction keys with
  | nil => rfl
  | cons key keys ih =>
    unfold Table.fetchAll
    rw [Snapshot.bind_apply, fetch_snapshot, hdocs.document hs, ok_bind, Snapshot.bind_apply, ih]
    simp only [rowsOf, List.filterMap_cons]
    cases storedRows m t.name key.fingerprint <;> rfl

/-- **Looking keys up answers the keys of the rows that have one of them.** -/
theorem lookupAll_answer {f : String} (hfaithful : Faithful m t.name f) (values : List Value) :
    ∃ keys, t.snapshot.lookupAll f values m = .ok keys ∧ ∀ p, p ∈ keys.map Value.fingerprint ↔
      ∃ v ∈ values, placeIn f (storedRows m t.name p) = some v.fingerprint := by
  induction values with
  | nil => exact ⟨[], rfl, fun p => by simp⟩
  | cons v values ih =>
    obtain ⟨keys, hkeys, howners⟩ := hfaithful v
    obtain ⟨rest, hrest, hmem⟩ := ih
    refine ⟨keys ++ rest, ?_, fun p => ?_⟩
    · unfold Table.lookupAll
      rw [Snapshot.bind_apply, show lookup t.snapshot.store t.snapshot.name f v m = .ok keys from hkeys,
        ok_bind, Snapshot.bind_apply, hrest]
      rfl
    · rw [List.map_append, List.mem_append, howners.owners, hmem]
      simp

/-- The rows of a list of keys are those of the documents that have one of them. -/
theorem Scanned.mem_rowsOf (hdocs : Scanned m t.name primaryKey docs) {keys : List Value}
    {doc : Fields} : doc ∈ rowsOf m t.name keys
      ↔ doc ∈ docs ∧ (primaryOf primaryKey doc).fingerprint ∈ keys.map Value.fingerprint := by
  simp only [rowsOf, List.mem_filterMap, hdocs.rows, List.mem_map]
  constructor
  · rintro ⟨key, hkey, hdoc, hp⟩
    exact ⟨hdoc, key, hkey, hp.symm⟩
  · rintro ⟨hdoc, key, hkey, hp⟩
    exact ⟨key, hkey, hdoc, hp.symm⟩

/-- What holds of the fingerprints of keys, two by two, holds of those of their rows. -/
theorem Scanned.pairwise_rowsOf (hdocs : Scanned m t.name primaryKey docs) {keys : List Value}
    {R : String → String → Prop} (h : (keys.map Value.fingerprint).Pairwise R) :
    (rowsOf m t.name keys).Pairwise fun a b =>
      R (primaryOf primaryKey a).fingerprint (primaryOf primaryKey b).fingerprint := by
  refine List.pairwise_filterMap.mpr ((List.pairwise_map.mp h).imp fun {k k'} hR a ha b hb => ?_)
  rwa [((hdocs.rows _ a).mp ha).2, ((hdocs.rows _ b).mp hb).2]

end Answers

/-! ## 3. Selections by keys -/

/-- **The documents that have one of the keys in a field,** each once; in the order in which the keys
    come first when the field is the primary key. A field that is null has no key. -/
structure KeyedBy (primaryKey field : String) (docs : List Fields) (keys : List Value)
    (answer : List Fields) : Prop where
  /-- No document comes twice. -/
  once : answer.Nodup
  /-- The answer is what the scan has of the keys. -/
  exact : ∀ doc, doc ∈ answer ↔
    doc ∈ docs ∧ ∃ key ∈ keys, placeIn field (some doc) = some key.fingerprint
  /-- A selection by primary keys is in their order. -/
  ordered : field = primaryKey → answer.Pairwise fun a b =>
    (keys.map Value.fingerprint).idxOf (primaryOf primaryKey a).fingerprint <
      (keys.map Value.fingerprint).idxOf (primaryOf primaryKey b).fingerprint

/-- What a selection does with its keys once they are known. -/
def Table.keyed {M : Type → Type} [Monad M] [MonadExceptOf Error M] (t : Table M)
    (index : Option String) (keys : List Value) : M (List Value) := do
  let indexes ← t.indexes
  let primaryKeys ← t.primaryKeys indexes index keys
  t.fetchAll (Value.distinctFrom [] primaryKeys)

/-- A selection that is not by the primary key names its index. -/
theorem exists_index {index : Option String} {primaryKey : String}
    (h : index.getD primaryKey ≠ primaryKey) : ∃ f, index = some f := by
  cases index with
  | none => exact absurd rfl h
  | some f => exact ⟨f, rfl⟩

section Keyed

variable {t : Table Session} {m : Content} {l : IndexList} {docs : List Fields}

theorem reads_keyed (ht : t.store = Memory.store) (index : Option String) (keys : List Value) :
    Reads (t.keyed index keys) (t.snapshot.keyed index keys) :=
  (reads_indexes ht).bind fun _ => (reads_primaryKeys ht _ _ _).bind fun _ => reads_fetchAll ht _

variable (hs : OrderedMap.Sorted m) (hl : loadIndexes Snapshot.store t.name m = .ok l)
  (hdocs : Scanned m t.name l.primaryKey docs)

include hl in
theorem keyed_of_primaryKeys {index : Option String} {keys : List Value}
    {r : Except Error (List Value)} (h : t.snapshot.primaryKeys l index keys m = r) :
    t.snapshot.keyed index keys m = r >>= fun primaryKeys =>
      t.snapshot.fetchAll (Value.distinctFrom [] primaryKeys) m := by
  unfold Table.keyed
  rw [Snapshot.bind_apply, show t.snapshot.indexes m = .ok l from hl, ok_bind, Snapshot.bind_apply, h]

include hdocs in
/-- Keys that come again are dropped: their rows are the documents that have them, each once. -/
theorem Scanned.distinct_rowsOf (primaryKeys : List Value) :
    (rowsOf m t.name (Value.distinctFrom [] primaryKeys)).Nodup ∧
      ∀ doc, doc ∈ rowsOf m t.name (Value.distinctFrom [] primaryKeys) ↔
        doc ∈ docs ∧ (primaryOf l.primaryKey doc).fingerprint ∈ primaryKeys.map Value.fingerprint := by
  constructor
  · have hfirst := hdocs.pairwise_rowsOf (Value.pairwise_distinctFrom [] primaryKeys)
    exact hfirst.imp fun {a b} hlt heq => absurd (heq ▸ hlt) (lt_irrefl _)
  · intro doc
    rw [hdocs.mem_rowsOf, Value.mem_distinctFrom]
    simp

include hl

/-- Keys of a field without an index select nothing. -/
theorem keyed_error {field : String} (hprimary : field ≠ l.primaryKey) (hfield : field ∉ l.secondary)
    (keys : List Value) : t.snapshot.keyed (some field) keys m
      = .error (.argument ("table `" ++ t.name ++ "` has no index on `" ++ field ++ "`")) := by
  have herror : t.snapshot.primaryKeys l (some field) keys m
      = .error (.argument ("table `" ++ t.name ++ "` has no index on `" ++ field ++ "`")) := by
    simp only [Table.primaryKeys]
    rw [if_neg hprimary, if_neg (by simpa [IndexList.has] using hfield)]
    rfl
  exact keyed_of_primaryKeys hl herror

include hs hdocs

/-- **A selection answers the documents of its keys.** -/
theorem keyed_answer (hprimary : ∀ doc ∈ docs, ∃ key,
      doc.get? l.primaryKey = some key ∧ key.isNull = false)
    (hfaithful : ∀ f ∈ l.secondary, Faithful m t.name f) {index : Option String}
    (hindex : index.getD l.primaryKey = l.primaryKey ∨ index.getD l.primaryKey ∈ l.secondary)
    (keys : List Value) : ∃ answer, t.snapshot.keyed index keys m = .ok (answer.map .object) ∧
      KeyedBy l.primaryKey (index.getD l.primaryKey) docs keys answer := by
  have hplace : ∀ doc ∈ docs, placeIn l.primaryKey (some doc)
      = some (primaryOf l.primaryKey doc).fingerprint := by
    intro doc hdoc
    obtain ⟨key, hkey, hnull⟩ := hprimary doc hdoc
    simp [placeIn, indexed, primaryOf, hkey, hnull]
  by_cases hfield : index.getD l.primaryKey = l.primaryKey
  · have hkeys : t.snapshot.primaryKeys l index keys m = .ok keys := by
      cases index with
      | none => rfl
      | some f =>
        simp only [Table.primaryKeys]
        rw [if_pos (show f = l.primaryKey from hfield)]
        rfl
    obtain ⟨hnodup, hmem⟩ := hdocs.distinct_rowsOf keys
    refine ⟨_, (keyed_of_primaryKeys hl hkeys).trans (fetchAll_answer hs hdocs _), hnodup,
      fun doc => ?_, fun _ => hdocs.pairwise_rowsOf (Value.pairwise_distinctFrom [] keys)⟩
    rw [hmem, List.mem_map, hfield]
    refine and_congr_right fun hdoc => exists_congr fun key => and_congr_right fun _ => ?_
    rw [hplace doc hdoc, Option.some.injEq, eq_comm]
  · obtain ⟨f, rfl⟩ := exists_index hfield
    have hf : f ∈ l.secondary := hindex.resolve_left hfield
    obtain ⟨primaryKeys, hanswer, howners⟩ := lookupAll_answer (hfaithful f hf) keys
    have hkeys : t.snapshot.primaryKeys l (some f) keys m = .ok primaryKeys := by
      simp only [Table.primaryKeys]
      rw [if_neg (show ¬f = l.primaryKey from hfield), if_pos (by simpa [IndexList.has] using hf)]
      exact hanswer
    obtain ⟨hnodup, hmem⟩ := hdocs.distinct_rowsOf primaryKeys
    refine ⟨_, (keyed_of_primaryKeys hl hkeys).trans (fetchAll_answer hs hdocs _), hnodup,
      fun doc => ?_, fun heq => absurd heq hfield⟩
    rw [hmem, howners]
    refine and_congr_right fun hdoc => exists_congr fun key => and_congr_right fun _ => ?_
    rw [(hdocs.rows _ doc).mpr ⟨hdoc, rfl⟩]
    rfl

end Keyed

/-- An empty queue leaves the documents as they are. -/
theorem stream_nil (t : Table Session) (scope : Scope) (keys : Option (KeyScope Session)) :
    t.stream scope keys [] = (do return .array (← t.documents scope keys)) := by
  unfold Table.stream Pipeline.ofEntries
  rw [pure_bind]
  refine bind_congr fun docs => ?_
  unfold Pipeline.run
  rw [runStages_nil, pure_bind]
  rfl

/-- **Reads by keys agree with the scan.** In a session without faults, for a table whose rows stand
    under their own keys and whose indexes are in step, and for keys that are worked out without a
    write: a selection by keys of the primary key or of an index answers the documents of the scan that
    have one of the keys, and one by keys of another field fails. -/
theorem keyed_reads_agree {t : Table Session} (ht : t.store = Memory.store) {config : Config}
    {s : Memory} (hhealthy : Healthy s) (hs : OrderedMap.Sorted s.content) {l : IndexList}
    {docs : List Fields} (hown : OwnKeys config s t.name l) (hstep : InStep config s t.name l docs)
    {scope : Scope} {operands : List (Operand Session)} (hquiet : QuietOperands operands)
    {keys : List Value} (hkeys : ((resolveAll scope operands).on s).1 = .ok keys)
    (index : Option String) :
    let field := index.getD l.primaryKey
    let read := ((t.stream scope (some ⟨index, operands⟩) []).on s).1
    (field = l.primaryKey ∨ field ∈ l.secondary → ∃ answer : List Fields,
      read = .ok (.array (answer.map .object)) ∧ KeyedBy l.primaryKey field docs keys answer) ∧
    (¬(field = l.primaryKey ∨ field ∈ l.secondary) →
      read = .error (.argument ("table `" ++ t.name ++ "` has no index on `" ++ field ++ "`"))) := by
  intro field read
  have hdocs := hstep.scanned hhealthy hs hown
  have hl := hown.loadIndexes hhealthy
  -- The keys are worked out first; what follows only reads the content, which is still the same.
  have hread : read = Value.array <$> t.snapshot.keyed index keys s.content := by
    have hkept := inert_resolveAll operands hquiet scope s hhealthy
    have hanswer := ((reads_keyed ht index keys).map Value.array _ hkept.healthy).1
    rw [hkept.content] at hanswer
    refine Eq.trans ?_ hanswer
    have hdocuments : t.documents scope (some ⟨index, operands⟩)
        = (do t.keyed index (← resolveAll scope operands)) := rfl
    show ((t.stream scope (some ⟨index, operands⟩) []).on s).1 = _
    rw [stream_nil, hdocuments, bind_assoc, Session.on_bind]
    rcases hon : (resolveAll scope operands).on s with ⟨r, s'⟩
    rw [hon] at hkeys
    subst hkeys
    rfl
  refine ⟨fun hfield => ?_, fun hfield => ?_⟩
  · obtain ⟨answer, hanswer, hkeyed⟩ := keyed_answer hs hl hdocs
      (fun doc hdoc => hown.nonNull hs hdocs hdoc) (fun f hf => hstep.faithful hhealthy hs hown hf)
      hfield keys
    exact ⟨answer, by rw [hread, hanswer]; rfl, hkeyed⟩
  · obtain ⟨hprimary, hsecondary⟩ := not_or.mp hfield
    obtain ⟨f, rfl⟩ := exists_index hprimary
    have herror := keyed_error (t := t) hl (show f ≠ _ from hprimary) (show f ∉ _ from hsecondary) keys
    rw [hread, herror]
    rfl

/-! ### Two things by their keys -/

theorem twoThings_inStep : ∃ docs, InStep {} twoThings "things" ⟨"id", ["colour"]⟩ docs := by
  obtain ⟨hs, T, hT, hthings, hl⟩ := twoThings_consistent
  exact hl ▸ hT.inStep hs hthings

/-- The second thing is asked for first, and once more after the first. -/
theorem two_things_by_key :
    let keys : List Value := [.count 2, .count 1, .count 2]
    let read := (((tableOf {} "things").stream [] (some ⟨none, keys.map .literal⟩) []).on twoThings).1
    (∃ docs answer, InStep {} twoThings "things" ⟨"id", ["colour"]⟩ docs ∧
      read = .ok (.array (answer.map .object)) ∧ KeyedBy "id" "id" docs keys answer) ∧
    read.toOption.map Value.json
      = some "[\x7b\"id\":2,\"colour\":\"red\"\x7d,\x7b\"id\":1,\"colour\":\"red\"\x7d]" := by
  intro keys read
  obtain ⟨hs, T, hT, -, -⟩ := twoThings_consistent
  obtain ⟨docs, hstep⟩ := twoThings_inStep
  have hquiet : QuietOperands (keys.map (Operand.literal (M := Session))) :=
    ⟨trivial, trivial, trivial, trivial⟩
  have hkeys : ((resolveAll [] (keys.map (Operand.literal (M := Session)))).on twoThings).1
      = .ok keys := rfl
  obtain ⟨hread, -⟩ := keyed_reads_agree (t := tableOf {} "things") rfl hs hT.sorted
    twoThings_ownKeys hstep hquiet hkeys none
  obtain ⟨answer, hanswer, hkeyed⟩ := hread (Or.inl rfl)
  exact ⟨⟨docs, answer, hstep, hanswer, hkeyed⟩, by decide +kernel⟩

end KeyValue

end QueryAlgebra
