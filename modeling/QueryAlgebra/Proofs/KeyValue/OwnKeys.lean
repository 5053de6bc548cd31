import QueryAlgebra.Proofs.KeyValue.Runs

/-!
# Documents and their own keys

Whatever sequence of operations is run on an empty store, every document of a table has a primary key
that is not null, and stands under it. This is an induction on the run, whose step is
`Identified.change`. The keys need not be apart: rows are told apart by their fingerprints, so the
indexes may be out of step.

What is asked of the operations is that what they write can be read again, that a replacement is not
for the null key, and that an update writes the key of its row as it is, if it writes it. The last is
not what a table checks: a patch with a null key passes, and so does one whose key is only loosely
equal (`clearKey`).
-/

namespace QueryAlgebra

theorem Value.fingerprint_ne_null {v : Value} (h : v.isNull = false) :
    v.fingerprint ≠ Value.null.fingerprint := by
  intro heq
  rw [Value.fingerprint_eq_iff] at heq
  cases v with
  | null => cases h
  | _ => cases heq

namespace KeyValue

/-- The fingerprint of a key that is not null. -/
def NonNull (p : String) : Prop := p ≠ Value.null.fingerprint

theorem nonNull_string (s : String) : NonNull (Value.string s).fingerprint :=
  Value.fingerprint_ne_null rfl

/-- Every document of a table has a primary key that is not null, and stands under it. -/
structure OwnKeys (config : Config) (s : Memory) (table : String) (l : IndexList) : Prop where
  indexes : ((tableOf config table).indexes.on s).1 = .ok l
  rows : ∀ e ∈ s.content.startingWith (Space.primary table).stem, ∃ doc key,
    readDocument e.2 = .ok doc ∧ doc.get? l.primaryKey = some key ∧ key.isNull = false ∧
      e.1 = (Space.primary table).key key

theorem OwnKeys.loadIndexes {config : Config} {s : Memory} {table : String} {l : IndexList}
    (hs : Healthy s) (hown : OwnKeys config s table l) :
    KeyValue.loadIndexes Snapshot.store table s.content = .ok l :=
  (reads_indexes (t := tableOf config table) rfl s hs).1.symm.trans hown.indexes

/-- Every run keeps the rows identified. -/
theorem Reachable.identified {config : Config} {P : String → String → Prop}
    (hstrings : ∀ t s, P t (Value.string s).fingerprint) {start s : Memory}
    (hstart : Healthy start) (hempty : start.content = []) (h : Reachable config P start s) :
    Healthy s ∧ ∃ T, Identified P s.content T := by
  have hstart' : ∃ T, Identified P start.content T := hempty ▸ ⟨_, identified_empty P⟩
  refine h.keep hstrings (I := fun m => ∃ T, Identified P m T) ?_ ?_ hstart hstart'
  · rintro m ⟨T, hT⟩
    exact hT.sorted
  · rintro m m' ⟨T, hT⟩ hchange
    exact hT.change hchange

/-- The rows of a table whose keys are not null stand under their own keys. -/
theorem Identified.ownKeys {config : Config} {s : Memory} (hs : Healthy s) {T : Tables}
    (h : Identified (fun _ => NonNull) s.content T) {table : String} (ht : table ∈ T.names) :
    OwnKeys config s table (T.lists table) := by
  have htable := h.table table ht
  refine ⟨?_, fun e he => ?_⟩
  · rw [(reads_indexes (t := tableOf config table) rfl s hs).1]
    exact loadIndexes_of_record htable.record
  · obtain ⟨hread, p, hp⟩ := (Space.mem_entries h.sorted).mp he
    rw [hp, htable.stored] at hread
    obtain ⟨doc, hdoc, htext⟩ := Option.map_eq_some_iff.mp hread
    have hrow := htable.row p doc hdoc
    obtain ⟨key, hkey, rfl⟩ := hrow.key
    refine ⟨doc, key, htext ▸ readDocument_json hrow.storable, hkey, ?_, hp⟩
    cases key with
    | null => exact absurd rfl hrow.known
    | _ => rfl

/-- **Rows stand under their own keys after any run of admissible operations** for keys that are not
    null, in every table that is listed then. -/
theorem rows_under_own_keys (config : Config) {start s : Memory} (hstart : Healthy start)
    (hempty : start.content = []) (h : Reachable config (fun _ => NonNull) start s) :
    ∃ names, ((Database.tables ⟨Memory.store, config⟩).on s).1 = .ok names ∧
      ∀ table ∈ names, ∃ l, OwnKeys config s table l := by
  obtain ⟨hs, T, hT⟩ := h.identified (fun _ => nonNull_string) hstart hempty
  refine ⟨T.names, ?_, fun table ht => ⟨_, hT.ownKeys hs ht⟩⟩
  rw [(reads_tables config s hs).1, tables_answer hT]

/-! ## Runs with a patch -/

/-- Makes the thing of a key big. -/
def enlarge (key : Value) : Op :=
  .update "things" [] (.literal key) (.object [("size", .string "big")])

theorem enlarge_admissible {P : String → String → Prop} (m : Content) {key : Value}
    (hkey : key.Storable) (hnumber : key.typeName = "number") :
    (enlarge key).Admissible P m := by
  refine ⟨trivial, fun l k fields _ hk hfields _ => ?_⟩
  obtain rfl : key = k := hk.of_pure
  obtain rfl : [("size", Value.string "big")] = fields := Except.ok.inj hfields
  have hsize : ∀ f ∈ [("size", Value.string "big")], f.2 = .string "big" := by simp
  refine ⟨.object (by simp) (fun f hf => hsize f hf ▸ Value.storable_string "big"), hkey,
    fun v hv hsame => ?_⟩
  obtain rfl : v = .string "big" := hsize _ (Fields.mem_of_get? hv)
  cases key with
  | number n => simp [Value.isNull, Value.looseEq] at hsame
  | _ => simp [Value.typeName] at hnumber

/-- A session with one thing. -/
def oneThing : Memory := runAll {} {} [createThings, insertRed 1 (by decide)]

theorem insertRed_ownKeys (m : Content) {i : Int}
    (h : -0x8000000000000000 ≤ i ∧ i < 0x10000000000000000) (hexact : i.natAbs ≤ 0x20000000000000) :
    (insertRed i h).Admissible (fun _ => NonNull) m := by
  intro l all _ hall doc hdoc
  obtain rfl : [redThing i h] = all := Except.ok.inj hall
  rw [List.mem_singleton.mp hdoc]
  exact ⟨(redThing_insertable l.primaryKey h hexact).storable,
    fun _ _ hnull => Value.fingerprint_ne_null hnull⟩

theorem oneThing_reachable : Reachable {} (fun _ => NonNull) {} oneThing := by
  have hcreate := (@Reachable.start {} (fun _ => NonNull) {}).step createThings trivial
  exact hcreate.step (insertRed 1 (by decide)) (insertRed_ownKeys _ _ (by decide))

/-- The thing is enlarged, and stands under its own key. -/
theorem enlarged_under_own_key :
    let s := (((enlarge (.count 1)).run {}).on oneThing).2
    (∃ names, ((Database.tables ⟨Memory.store, {}⟩).on s).1 = .ok names ∧
      ∀ table ∈ names, ∃ l, OwnKeys {} s table l) ∧
    s.content.startingWith (Space.primary "things").stem
      = [((Space.primary "things").key (.count 1),
          (Value.object (redThing 1 (by decide) ++ [("size", .string "big")])).json)] := by
  have hnumber : (Value.count 1).Storable := .number _ (Number.int_readsBack 1 (by decide))
  have henlarge := oneThing_reachable.step _ (enlarge_admissible _ hnumber rfl)
  exact ⟨rows_under_own_keys {} ⟨rfl⟩ rfl henlarge, by decide +kernel⟩

/-- Clears the primary key of a thing. -/
def clearKey (key : Value) : Op :=
  .update "things" [] (.literal key) (.object [("id", .null), ("size", .string "big")])

/-- A thing whose key was cleared. -/
def cleared : Memory := (((clearKey (.count 1)).run {}).on oneThing).2

/-- It stands where it stood, without a key of its own. -/
theorem cleared_not_ownKeys : ¬∃ l, OwnKeys {} cleared "things" l := by
  rintro ⟨l, h⟩
  have hlist : ((tableOf {} "things").indexes.on cleared).1.toOption.map IndexList.primaryKey
      = some "id" := by decide +kernel
  have hnull : (cleared.content.startingWith (Space.primary "things").stem).map
      (fun e => (readDocument e.2).toOption.map (fun doc => (doc.get? "id").map Value.isNull))
      = [some (some true)] := by decide +kernel
  rw [h.indexes] at hlist
  have hprimary : l.primaryKey = "id" := Option.some.inj hlist
  obtain ⟨e, he, hfound⟩ := List.mem_map.mp (hnull ▸ List.mem_singleton.mpr rfl)
  obtain ⟨doc, key, hread, hget, hnot, -⟩ := h.rows e he
  rw [hread, ← hprimary] at hfound
  change some ((doc.get? l.primaryKey).map Value.isNull) = some (some true) at hfound
  rw [hget, Option.map_some, hnot] at hfound
  cases hfound

end KeyValue

end QueryAlgebra
