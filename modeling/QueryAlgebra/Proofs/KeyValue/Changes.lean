import Mathlib.Logic.Relation
import QueryAlgebra.Proofs.KeyValue.Steps

/-!
# What operations can do to a store

All that operations do to a store comes down to four changes (`Change`): a row is written, an index
comes, an index goes, a table is created. So a property of stores that the changes keep is kept by
every operation, and by every run of operations.

What an operation may be given is said by `Insertable`, `Patchable` and `Replaceable`. The rows that
it writes then fit in their places (`Fits`).
-/

namespace QueryAlgebra

namespace KeyValue

/-! ## 1. Changes -/

/-- What an insert may be given: the document can be read again, and its key, if it has one, is among
those that are allowed. -/
structure Insertable (P : String → Prop) (primaryKey : String) (doc : Fields) : Prop where
  storable : doc.Storable
  known : ∀ v, doc.get? primaryKey = some v → v.isNull = false → P v.fingerprint

/-- What an update may be given: the patch and the key can be read again, and a patch that clears
the row's key, or names it, writes it as it is. -/
structure Patchable (primaryKey : String) (key : Value) (patch : Fields) : Prop where
  storable : patch.Storable
  keyStorable : key.Storable
  same : ∀ v, patch.get? primaryKey = some v → v.isNull = true ∨ v.looseEq key = true →
    v.fingerprint = key.fingerprint

/-- What a replacement may be given. -/
structure Replaceable (P : String → Prop) (key : Value) (doc : Fields) : Prop where
  storable : doc.Storable
  keyStorable : key.Storable
  known : P key.fingerprint

/-- What may come in the place of what under an allowed key: nothing, a row of the key, or the row
with a patch that leaves its key alone. -/
inductive Fits (P : String → Prop) : Rule
  | delete (primaryKey : String) (key : Value) (old : Fields) : Fits P primaryKey key (some old) none
  | put {primaryKey : String} {key : Value} {old : Option Fields} {doc : Fields}
    (hrow : Row P primaryKey key.fingerprint doc) (hkey : key.Storable) :
    Fits P primaryKey key old (some doc)
  | merge {primaryKey : String} {key : Value} {old patch : Fields} (hpatch : patch.Storable)
    (hkey : key.Storable)
    (hsame : ∀ v, patch.get? primaryKey = some v → v.fingerprint = key.fingerprint) :
    Fits P primaryKey key (some old) (some (old.merge patch))

/-- **Whatever fits in the place of a row is a row of the same key.** -/
theorem Fits.row {P : String → Prop} {primaryKey : String} {key : Value} {old new : Option Fields}
    (h : Fits P primaryKey key old new)
    (hold : ∀ doc, old = some doc → Row P primaryKey key.fingerprint doc) {doc : Fields}
    (hdoc : new = some doc) : Row P primaryKey key.fingerprint doc ∧ key.Storable := by
  cases h with
  | delete => cases hdoc
  | put hrow hkey => exact Option.some.inj hdoc ▸ ⟨hrow, hkey⟩
  | @merge _ _ old patch hpatch hkey hsame =>
    obtain rfl := Option.some.inj hdoc
    have hrow := hold old rfl
    refine ⟨⟨hrow.storable.merge hpatch, hrow.known, ?_⟩, hkey⟩
    rw [Fields.get?_merge _ hpatch.nodup]
    cases hv : patch.get? primaryKey with
    | none => exact hrow.key
    | some v => exact ⟨v, rfl, hsame v hv⟩

/-- The key of a row that is written is an allowed one. -/
theorem Fits.known {P : String → Prop} {primaryKey : String} {key : Value} {old new : Option Fields}
    (h : Fits P primaryKey key old new)
    (hold : ∀ doc, old = some doc → Row P primaryKey key.fingerprint doc) : P key.fingerprint := by
  cases h with
  | delete _ _ doc => exact (hold doc rfl).known
  | put hrow _ => exact hrow.known
  | merge => exact (hold _ rfl).known

/-- The writes that drop the index on a field. -/
def removal (m : Content) (t f : String) (l : IndexList) : List Write :=
  (m.startingWith (Space.index t f).stem).map (fun e => Write.del e.1) ++ [(l.remove f).record t]

/-- **What operations do to a store.** -/
inductive Change (P : String → String → Prop) (m : Content) : Content → Prop
  /-- A row is written, with its index entries. -/
  | row {t : String} {l : IndexList} {key : Value} {old new : Option Fields} {ws : List Write}
    (hl : loadIndexes Snapshot.store t m = .ok l) (hold : documentAt m t key = .ok old)
    (hfits : Fits (P t) l.primaryKey key old new)
    (hws : indexWrites Snapshot.store t key old new l.secondary m = .ok ws) :
    Change P m (m.applyAll (ws ++ [documentWrite t key new]))
  /-- An index comes. -/
  | addIndex {t f : String} {l : IndexList} {ws : List Write}
    (hl : loadIndexes Snapshot.store t m = .ok l) (hf : Plain f) (hprimary : f ≠ l.primaryKey)
    (hnew : f ∉ l.secondary) (hws : rebuild Snapshot.store t f l.primaryKey m = .ok ws) :
    Change P m (m.applyAll (ws ++ [(l.add f).record t]))
  /-- An index goes. -/
  | removeIndex {t f : String} {l : IndexList} (hl : loadIndexes Snapshot.store t m = .ok l)
    (hf : f ∈ l.secondary) : Change P m (m.applyAll (removal m t f l))
  /-- A table is created. -/
  | create {config : Config} {t : String} {l : IndexList} {names : List String}
    (hnames : Database.tables ⟨Snapshot.store, config⟩ m = .ok names) (ht : Plain t)
    (hnew : t ∉ names) (hdistinct : l.primaryKey ∉ l.secondary)
    (hplain : ∀ f ∈ l.secondary, Plain f) :
    Change P m (m.applyAll (creation names t l))

/-- Changes one after another. -/
abbrev Changes (P : String → String → Prop) : Content → Content → Prop :=
  Relation.ReflTransGen (Change P)

/-- **A property that every change keeps is kept by changes one after another.** -/
theorem Changes.keep {P : String → String → Prop} {I : Content → Prop}
    (hI : ∀ m m', I m → Change P m m' → I m') {m m' : Content} (h : Changes P m m') (hm : I m) :
    I m' := by
  induction h with
  | refl => exact hm
  | tail _ hchange ih => exact hI _ _ ih hchange

/-! ## 2. Operations as changes -/

/-- Rows of a table were changed, one after another; the index list is the same. -/
structure RowChanges (P : String → String → Prop) (t : String) (l : IndexList) (m m' : Content) :
    Prop where
  changes : Changes P m m'
  sorted : OrderedMap.Sorted m'
  indexes : loadIndexes Snapshot.store t m' = .ok l

section Operations

variable {P : String → String → Prop} {t : Table Session} (ht : t.store = Memory.store)
  {m : Content} {l : IndexList}

/-- **A step on a row is a change, or none.** -/
theorem RowStep.changes {R : Rule} {r : Except Error WriteResult} {m' : Content}
    (h : RowStep t.name R m r m')
    (hfits : ∀ l key old new, loadIndexes Snapshot.store t.name m = .ok l →
      R l.primaryKey key old new → Fits (P t.name) l.primaryKey key old new) : Changes P m m' := by
  cases h with
  | idle | unchanged => exact .refl
  | written hl hold hrule hws => exact .single (.row hl hold (hfits _ _ _ _ hl hrule) hws)

theorem RowStep.rowChanges {R : Rule} {r : Except Error WriteResult} {m m' : Content}
    (h : RowStep t.name R m r m') (hs : OrderedMap.Sorted m)
    (hl : loadIndexes Snapshot.store t.name m = .ok l)
    (hfits : ∀ key old new, R l.primaryKey key old new → Fits (P t.name) l.primaryKey key old new) :
    RowChanges P t.name l m m' := by
  refine ⟨h.changes (fun l' key old new hl' hrule => ?_), h.sorted hs, h.indexes hs hl⟩
  obtain rfl := Except.ok.inj (hl.symm.trans hl')
  exact hfits key old new hrule

theorem RowChanges.refl (hs : OrderedMap.Sorted m)
    (hl : loadIndexes Snapshot.store t.name m = .ok l) :
    RowChanges P t.name l m m := ⟨.refl, hs, hl⟩

theorem RowChanges.trans {m₁ m₂ m₃ : Content} (h : RowChanges P t.name l m₁ m₂)
    (h' : RowChanges P t.name l m₂ m₃) : RowChanges P t.name l m₁ m₃ :=
  ⟨h.changes.trans h'.changes, h'.sorted, h'.indexes⟩

include ht

/-! ### Deleting -/

theorem changes_deleteItems (hs : OrderedMap.Sorted m)
    (hl : loadIndexes Snapshot.store t.name m = .ok l) (total : WriteResult) (items : List Value) :
    Keeps (RowChanges P t.name l m) m (t.deleteItems l total items) := by
  induction items generalizing m total with
  | nil => exact Keeps.of_inert (Inert.pure _) (.refl hs hl)
  | cons item items ih =>
    unfold Table.deleteItems
    split
    · split
      · next key _ =>
        have hdelete : Leads (RowStep t.name Deletes m) m (t.deleteKey l key) :=
          leads_deleteKey ht hl (fun old => .delete l.primaryKey key old)
        refine Keeps.bind (hdelete.report.keeps (fun _ m' hstep => ?_)) (fun m' r hm' => ?_)
        · refine hstep.rowChanges hs hl (fun key old new hrule => ?_)
          cases hrule
          exact .delete _ _ _
        · exact (ih hm'.sorted hm'.indexes _).mono (fun _ h => hm'.trans h)
      · exact ih hs hl _
    · exact ih hs hl _

theorem changes_deleteRow {scope : Scope} {op : Operand Session} (hop : QuietOperand op) :
    Keeps (Changes P m) m (t.deleteRow scope op) :=
  (leads_deleteRow ht hop Deletes (fun l key old _ _ => .delete l.primaryKey key old)).keeps
    (fun _ _ hstep => hstep.changes (fun _ _ _ _ _ hrule => by
      cases hrule
      exact .delete _ _ _))

theorem changes_deleteStream (hs : OrderedMap.Sorted m) {scope : Scope}
    {keys : Option (KeyScope Session)} {entries : List (Entry Session)}
    (hkeys : ∀ k ∈ keys, QuietOperands k.keys) (hentries : QuietEntries entries) :
    Keeps (Changes P m) m (t.deleteStream scope keys entries) := by
  obtain ⟨hinert, hquiet⟩ := @gives_ofEntries scope entries hentries
  refine Keeps.bind_inert hinert .refl (fun p hp => Keeps.report ?_)
  refine Keeps.bind_reads (reads_indexes ht) .refl (fun l hl => ?_)
  refine Keeps.bind_inert (inert_documents ht hkeys) .refl (fun docs _ => ?_)
  refine Keeps.bind_inert (hquiet m p hp docs) .refl (fun answer _ => ?_)
  cases answer with
  | array items => exact (changes_deleteItems ht hs hl _ items).mono (fun _ h => h.changes)
  | _ => exact Keeps.of_inert (Inert.throw _) .refl

/-! ### Inserting -/

variable (hstrings : ∀ t s, P t (Value.string s).fingerprint)

include hstrings

/-- **What an admissible insert writes is a row of its key.** -/
theorem Inserts.fits {conflict : Conflict} {doc : Fields} {primaryKey : String} {key : Value}
    {old new : Option Fields} (h : Inserts t m conflict doc primaryKey key old new)
    (hdoc : Insertable (P t.name) primaryKey doc) : Fits (P t.name) primaryKey key old new := by
  have hrow : ∀ {row}, Answers (t.keyOf primaryKey doc) m (key, row) →
      Row (P t.name) primaryKey key.fingerprint row ∧ row.get? primaryKey = some key
        ∧ key.Storable := by
    intro row hanswers
    rcases keyOf_answers ht hanswers with ⟨hget, hnull, rfl⟩ | ⟨-, ⟨s, rfl⟩, -, rfl⟩
    · exact ⟨⟨hdoc.storable, hdoc.known _ hget hnull, key, hget, rfl⟩, hget, hdoc.storable.get? hget⟩
    · have hget := doc.get?_keyed primaryKey (.string s)
      have hkey := Value.storable_string s
      exact ⟨⟨hdoc.storable.keyed primaryKey hkey, hstrings t.name s, _, hget, rfl⟩, hget, hkey⟩
  cases h with
  | fresh hanswers =>
    obtain ⟨hrow, -, hkey⟩ := hrow hanswers
    exact .put hrow hkey
  | collide hanswers hnew =>
    obtain ⟨hrow, hget, hkey⟩ := hrow hanswers
    cases conflict with
    | error => cases hnew
    | replace =>
      cases hnew
      exact .put hrow hkey
    | update =>
      cases hnew
      refine .merge hrow.storable hkey (fun v hv => ?_)
      rw [Option.some.inj (hget.symm.trans hv)]

theorem changes_reportEach (hs : OrderedMap.Sorted m)
    (hl : loadIndexes Snapshot.store t.name m = .ok l) (conflict : Conflict) (total : WriteResult)
    {docs : List Fields} (hdocs : ∀ doc ∈ docs, Insertable (P t.name) l.primaryKey doc) :
    Keeps (RowChanges P t.name l m) m
      (WriteResult.reportEach (t.insertOne l conflict) total docs) := by
  induction docs generalizing m total with
  | nil => exact Keeps.of_inert (Inert.pure _) (.refl hs hl)
  | cons doc docs ih =>
    obtain ⟨hdoc, hrest⟩ := List.forall_mem_cons.mp hdocs
    refine Keeps.bind ((leads_insertOne ht hl conflict doc).report.keeps (fun _ _ hstep => ?_))
      (fun m' _ hm' => ?_)
    · exact hstep.rowChanges hs hl (fun _ _ _ hrule => hrule.fits ht hstrings hdoc)
    · exact (ih hm'.sorted hm'.indexes _ hrest).mono (fun _ h => hm'.trans h)

theorem changes_insert (hs : OrderedMap.Sorted m) {docs : Value} (choice : Option Conflict)
    (hdocs : ∀ l all, loadIndexes Snapshot.store t.name m = .ok l → docs.documents = .ok all →
      ∀ doc ∈ all, Insertable (P t.name) l.primaryKey doc) :
    Keeps (Changes P m) m (t.insert docs choice) := by
  refine Keeps.bind_reads (Reads.ofOutcome _) .refl (fun all hall => ?_)
  rw [Snapshot.ofOutcome_apply] at hall
  refine Keeps.bind_reads (reads_attempt (reads_indexes ht)) .refl (fun loaded hloaded => ?_)
  obtain rfl := Except.ok.inj hloaded
  cases hl : loadIndexes Snapshot.store t.name m with
  | error e => exact Keeps.of_inert (Inert.ofOutcome _) .refl
  | ok l =>
    exact (changes_reportEach ht hstrings hs hl _ _ (hdocs _ all hl hall)).mono
      (fun _ h => h.changes)

omit hstrings

/-! ### Changing a document -/

theorem changes_update {scope : Scope} {op : Operand Session} (hop : QuietOperand op)
    {patch : Value} (hpatch : ∀ l k fields, loadIndexes Snapshot.store t.name m = .ok l →
      Answers (op.resolve scope) m k → patch.singleDocument "update" = .ok fields →
      fields.isErasure = false → Patchable l.primaryKey k fields) :
    Keeps (Changes P m) m (t.update scope op patch) := by
  refine (leads_update ht hop patch).keeps (fun _ _ hstep => hstep.changes ?_)
  intro l key old new hl hrule
  cases hrule with
  | delete => exact .delete _ _ _
  | merge hfields herase hkey hcheck =>
    have hfit := hpatch l key _ hl hkey hfields herase
    exact .merge hfit.storable hfit.keyStorable (fun v hv => hfit.same v hv (Fields.of_checkKey hcheck hv))

theorem changes_replace {scope : Scope} {op : Operand Session} (hop : QuietOperand op)
    {doc : Value} (hdoc : ∀ k fields, Answers (op.resolve scope) m k →
      doc.singleDocument "replace" = .ok fields → fields.isErasure = false →
      Replaceable (P t.name) k fields) : Keeps (Changes P m) m (t.replace scope op doc) := by
  refine (leads_replace ht hop doc).keeps (fun _ _ hstep => hstep.changes ?_)
  intro l key old new hl hrule
  cases hrule with
  | delete => exact .delete _ _ _
  | put hfields herase hkey hcheck =>
    have hfit := hdoc key _ hkey hfields herase
    have hrow := hfit.storable.keyed l.primaryKey hfit.keyStorable
    exact .put ⟨hrow, hfit.known, key, Fields.get?_keyed _ _ _, rfl⟩ hfit.keyStorable

/-! ### Indexes -/

theorem changes_createIndex (field : String) : Keeps (Changes P m) m (t.createIndex field) := by
  refine Keeps.bind_reads (Reads.ofOutcome _) .refl (fun _ hname => ?_)
  rw [Snapshot.ofOutcome_apply] at hname
  refine Keeps.bind_reads (reads_indexes ht) .refl (fun l hl => ?_)
  split
  · exact Keeps.of_inert (Inert.throw _) .refl
  · next hnew =>
    simp only [Bool.or_eq_true, decide_eq_true_eq, IndexList.has, List.contains_iff_mem, not_or]
      at hnew
    rw [ht]
    refine Keeps.bind_reads (reads_rebuild _ _ _) .refl (fun ws hws => Keeps.batch (.single ?_))
    exact .addIndex hl (plain_of_checkName hname) hnew.1 hnew.2 hws

theorem changes_dropIndex (field : String) : Keeps (Changes P m) m (t.dropIndex field) := by
  refine Keeps.bind_reads (reads_indexes ht) .refl (fun l hl => ?_)
  split
  · exact Keeps.of_inert (Inert.throw _) .refl
  · next hhas =>
    rw [ht]
    refine Keeps.bind_reads (Reads.scan _) .refl (fun entries hentries => ?_)
    obtain rfl := Except.ok.inj hentries
    exact Keeps.batch (.single (.removeIndex hl (by simpa [IndexList.has] using hhas)))

end Operations

/-! ### Tables -/

theorem plain_of_checkTable {name : String} {schema : Schema}
    (h : Database.checkTable name schema = .ok ()) :
    Plain name ∧ ∀ f ∈ Database.indexedNames schema, Plain f := by
  unfold Database.checkTable at h
  obtain ⟨_, -, h⟩ := bind_eq_ok.mp h
  obtain ⟨_, hname, h⟩ := bind_eq_ok.mp h
  refine ⟨plain_of_checkName hname, ?_⟩
  generalize Database.indexedNames schema = fields at h
  induction fields with
  | nil => exact fun f hf => absurd hf List.not_mem_nil
  | cons f fields ih =>
    obtain ⟨_, hf, hrest⟩ := bind_eq_ok.mp h
    exact List.forall_mem_cons.mpr ⟨plain_of_checkName hf, ih hrest⟩

theorem changes_create {P : String → String → Prop} {m : Content} (config : Config)
    (name : String) (schema : Schema) :
    Keeps (Changes P m) m (Database.create ⟨Memory.store, config⟩ name schema) := by
  refine Keeps.bind_reads (Reads.ofOutcome _) .refl (fun _ hcheck => ?_)
  rw [Snapshot.ofOutcome_apply] at hcheck
  obtain ⟨hname, hfields⟩ := plain_of_checkTable hcheck
  refine Keeps.bind_reads (reads_tables config) .refl (fun names hnames => ?_)
  split
  · exact Keeps.of_inert (Inert.throw _) .refl
  · next hnew =>
    refine Keeps.bind ?_ (fun _ _ hm => Keeps.of_inert (Inert.pure _) hm)
    refine Keeps.batch (.single (.create hnames hname (by simpa using hnew) ?_ ?_))
    · simp [IndexList.ofFields]
    · exact fun f hf => hfields f (List.mem_of_mem_filter hf)

end KeyValue

end QueryAlgebra
