import QueryAlgebra.KeyValue.Database
import QueryAlgebra.Proofs.KeyValue.Space
import QueryAlgebra.Proofs.Value.Layout

/-!
# The keys of the store

All that a database stores stands at one of four kinds of places: the rows of a table, the entries of
its indexes, its index list, and the table list. Two places have one key only when they are one place,
with values that are not told apart (`storeKey_eq_iff`).
-/

namespace QueryAlgebra

namespace KeyValue

/-- A place of the store. -/
inductive Place where
  /-- The row of a table with a primary key. -/
  | row (table : String) (key : Value)
  /-- The entry of an index for a value. -/
  | entry (table field : String) (v : Value)
  /-- The index list of a table. -/
  | indexList (table : String)
  /-- The table list. -/
  | tableList

namespace Place

/-- The key of a place. -/
def storeKey : Place → String
  | .row t key => (Space.primary t).key key
  | .entry t f v => (Space.index t f).key v
  | .indexList t => (Space.records t).named indexListName
  | .tableList => Database.tablesKey

/-- The names of the place are accepted. -/
def Accepted : Place → Prop
  | .row t _ => checkName "table" t = .ok ()
  | .entry t f _ => checkName "table" t = .ok () ∧ checkName "index" f = .ok ()
  | .indexList t => checkName "table" t = .ok ()
  | .tableList => True

/-- The objects in the value of the place have distinct field names. -/
def Proper : Place → Prop
  | .row _ key => key.Proper
  | .entry _ _ v => v.Proper
  | .indexList _ | .tableList => True

/-- The places are of one kind, of one table and one field, and hold values that are loosely equal
    and have one fingerprint. -/
inductive Same : Place → Place → Prop
  | row {t : String} {v w : Value} (hequal : v.looseEq w = true)
    (hprint : v.fingerprint = w.fingerprint) : Same (.row t v) (.row t w)
  | entry {t f : String} {v w : Value} (hequal : v.looseEq w = true)
    (hprint : v.fingerprint = w.fingerprint) : Same (.entry t f v) (.entry t f w)
  | indexList {t : String} : Same (.indexList t) (.indexList t)
  | tableList : Same .tableList .tableList

/-- The part of the store that the place is in. -/
def space : Place → Space
  | .row t _ => .primary t
  | .entry t f _ => .index t f
  | .indexList t => .records t
  | .tableList => .database

/-- What stands in the key of the place after the stem of its part. -/
def rest : Place → String
  | .row _ key => key.fingerprint
  | .entry _ _ v => v.fingerprint
  | .indexList _ => indexListName
  | .tableList => tableListName

theorem storeKey_eq_named (p : Place) : p.storeKey = p.space.named p.rest := by
  cases p <;> rfl

theorem Accepted.wellNamed {p : Place} (h : p.Accepted) : p.space.WellNamed := by
  cases p with
  | row t key => exact Space.wellNamed_primary (plain_of_checkName h)
  | entry t f v => exact Space.wellNamed_index (plain_of_checkName h.1) (plain_of_checkName h.2)
  | indexList t => exact Space.wellNamed_records (plain_of_checkName h)
  | tableList => exact Space.wellNamed_database

theorem Same.storeKey {p q : Place} (h : p.Same q) : p.storeKey = q.storeKey := by
  cases h with
  | row hequal hprint => exact congrArg (Space.primary _).named hprint
  | entry hequal hprint => exact congrArg (Space.index _ _).named hprint
  | indexList => rfl
  | tableList => rfl

/-- **Places have one key only when they are the same,** whatever their values hold: a value may
    contain separators, for it stands behind all the names. -/
theorem storeKey_eq_iff {p q : Place} (hp : p.Accepted) (hq : q.Accepted) (hproper : p.Proper) :
    p.storeKey = q.storeKey ↔ p.Same q := by
  refine ⟨fun h => ?_, Same.storeKey⟩
  rw [storeKey_eq_named, storeKey_eq_named] at h
  obtain ⟨hspace, hrest⟩ := Space.named_inj hp.wellNamed hq.wellNamed h
  cases p with
  | row t v =>
    cases q with
    | row t' w =>
      obtain rfl := Space.primary.inj hspace
      exact .row (Value.looseEq_of_fingerprint_eq hproper hrest) hrest
    | _ => cases hspace
  | entry t f v =>
    cases q with
    | entry t' f' w =>
      obtain ⟨rfl, rfl⟩ := Space.index.inj hspace
      exact .entry (Value.looseEq_of_fingerprint_eq hproper hrest) hrest
    | _ => cases hspace
  | indexList t =>
    cases q with
    | indexList t' =>
      obtain rfl := Space.records.inj hspace
      exact .indexList
    | _ => cases hspace
  | tableList =>
    cases q with
    | tableList => exact .tableList
    | _ => cases hspace

/-- The keys `3` and `3.0` have one row, and a key made to look like an entry of an index is not taken
    for one. -/
theorem three_and_disguised_entry :
    (row "a" (.count 3)).Same (row "a" .threePointZero) ∧
      (row "a" (.string "!a!i!b!1")).storeKey ≠ (entry "a" "b" (.count 1)).storeKey := by
  have hthree : (row "a" (.count 3)).storeKey = (row "a" .threePointZero).storeKey := by
    decide +kernel
  have hrow : ∀ v, (row "a" v).Accepted := fun _ => rfl
  have hentry : ∀ v, (entry "a" "b" v).Accepted := fun _ => ⟨rfl, rfl⟩
  have hproper : (row "a" (.count 3)).Proper := by simp [Proper, Value.count, Value.Proper]
  have hproper' : (row "a" (.string "!a!i!b!1")).Proper := by simp [Proper, Value.Proper]
  refine ⟨(storeKey_eq_iff (hrow _) (hrow _) hproper).mp hthree, fun h => ?_⟩
  cases (storeKey_eq_iff (hrow _) (hentry _) hproper').mp h

end Place

end KeyValue

end QueryAlgebra
