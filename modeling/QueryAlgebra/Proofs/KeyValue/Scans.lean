import QueryAlgebra.Proofs.KeyValue.Store
import QueryAlgebra.Proofs.Text.Utf8

/-!
# Scans are complete

A scan skips what comes before a word and stops at the first key that does not extend it. After any
history of writes that finds exactly the entries under the word: for each key that extends it and was
last set, and not removed since, the value it was last set to, once, in ascending order
(`OrderedMap.mem_under_history`).

The laws hold over any ordered alphabet, bytes among them. The store of a session has texts for keys;
its scans are those of the store with the bytes of the texts for keys (`scans_complete`), because texts
are in the order of their bytes.
-/

namespace QueryAlgebra

namespace OrderedMap

/-! ## 1. Histories -/

/-- A change of an ordered map. -/
inductive Edit (κ ν : Type) where
  /-- Sets a key to a value. -/
  | put (key : List κ) (v : ν)
  /-- Removes a key. -/
  | del (key : List κ)

namespace Edit

variable {κ ν : Type}

/-- The key that a change is about. -/
def key : Edit κ ν → List κ
  | .put k _ => k
  | .del k => k

/-- What a change leaves under its key. -/
def value : Edit κ ν → Option ν
  | .put _ v => some v
  | .del _ => none

theorem eq_put_iff {e : Edit κ ν} {k : List κ} {v : ν} :
    e = .put k v ↔ e.key = k ∧ e.value = some v := by
  cases e <;> simp [key, value]

end Edit

/-- **The value was last set under the key,** and the key has not been removed since. -/
def Standing {κ ν : Type} (history : List (Edit κ ν)) (k : List κ) (v : ν) : Prop :=
  ∃ earlier later, history = earlier ++ .put k v :: later ∧ ∀ edit ∈ later, edit.key ≠ k

section Edits

variable {κ ν : Type} [DecidableEq κ] [LT κ] [DecidableLT κ]

/-- Applies a change. -/
def edit (m : OrderedMap κ ν) : Edit κ ν → OrderedMap κ ν
  | .put k v => m.put k v
  | .del k => m.del k

/-- Applies changes in order. -/
def editAll (m : OrderedMap κ ν) (edits : List (Edit κ ν)) : OrderedMap κ ν := edits.foldl edit m

/-- What calls leave in an empty map, each of them a batch of changes. -/
def history (calls : List (List (Edit κ ν))) : OrderedMap κ ν := calls.foldl editAll []

end Edits

theorem standing_cons {κ ν : Type} {edits : List (Edit κ ν)} {e : Edit κ ν} {k : List κ} {v : ν} :
    Standing (e :: edits) k v ↔
      Standing edits k v ∨ e = .put k v ∧ ∀ later ∈ edits, later.key ≠ k := by
  constructor
  · intro ⟨earlier, later, hsplit, hlater⟩
    cases earlier with
    | nil =>
      obtain ⟨rfl, rfl⟩ := List.cons.inj hsplit
      exact .inr ⟨rfl, hlater⟩
    | cons e' earlier =>
      obtain ⟨rfl, rfl⟩ := List.cons.inj hsplit
      exact .inl ⟨earlier, later, rfl, hlater⟩
  · rintro (⟨earlier, later, rfl, hlater⟩ | ⟨rfl, hlater⟩)
    · exact ⟨e :: earlier, later, rfl, hlater⟩
    · exact ⟨[], edits, rfl, hlater⟩

/-! ## 2. Over an ordered alphabet -/

section Laws

variable {κ ν : Type} [LinearOrder κ] {m : OrderedMap κ ν} {k : List κ} {v : ν}

theorem ascending_edit (hs : Ascending m) (e : Edit κ ν) : Ascending (m.edit e) := by
  cases e with
  | put k v => exact sorted_put hs k v
  | del k => exact sorted_del hs k

theorem ascending_editAll (hs : Ascending m) (edits : List (Edit κ ν)) :
    Ascending (m.editAll edits) := by
  unfold editAll
  induction edits generalizing m with
  | nil => exact hs
  | cons e edits ih => exact ih (ascending_edit hs e)

theorem get?_edit (hs : Ascending m) (e : Edit κ ν) (k : List κ) :
    (m.edit e).get? k = if e.key = k then e.value else m.get? k := by
  cases e with
  | put k₀ v => exact get?_put m k₀ k v
  | del k₀ => exact get?_del hs k₀ k

/-- **A key holds what it was last set to,** or what it held before where no change is about it. -/
theorem get?_editAll (hs : Ascending m) (edits : List (Edit κ ν)) :
    (m.editAll edits).get? k = some v ↔
      Standing edits k v ∨ (∀ e ∈ edits, e.key ≠ k) ∧ m.get? k = some v := by
  induction edits generalizing m with
  | nil =>
    have hnone : ¬Standing [] k v := fun ⟨earlier, later, hsplit, _⟩ => by simp at hsplit
    simp [editAll, hnone]
  | cons e edits ih =>
    have hstep : m.editAll (e :: edits) = (m.edit e).editAll edits := rfl
    rw [hstep, ih (ascending_edit hs e), standing_cons, get?_edit hs, or_assoc]
    refine or_congr_right ?_
    by_cases hkey : e.key = k
    · simp [Edit.eq_put_iff, hkey, and_comm]
    · simp [Edit.eq_put_iff, hkey]

theorem history_eq (calls : List (List (Edit κ ν))) :
    history calls = editAll [] calls.flatten := by
  have hfold : ∀ m : OrderedMap κ ν, calls.foldl editAll m = m.editAll calls.flatten := by
    induction calls with
    | nil => exact fun m => rfl
    | cons edits calls ih =>
      intro m
      rw [List.foldl_cons, ih, List.flatten_cons, editAll, editAll, editAll, List.foldl_append]
  exact hfold []

theorem ascending_history (calls : List (List (Edit κ ν))) : Ascending (history calls) := by
  rw [history_eq]
  exact ascending_editAll List.Pairwise.nil _

/-- **After any history a scan finds what stands under a word.** -/
theorem mem_under_history (calls : List (List (Edit κ ν))) (word : List κ) (k : List κ) (v : ν) :
    (k, v) ∈ (history calls).under word ↔ Standing calls.flatten k v ∧ word <+: k := by
  have hs : Ascending ([] : OrderedMap κ ν) := List.Pairwise.nil
  have hempty : OrderedMap.get? ([] : OrderedMap κ ν) k ≠ some v := by simp [get?]
  rw [mem_under (ascending_history calls), mem_iff_get? (ascending_history calls), history_eq,
    get?_editAll hs, or_iff_left fun h => hempty h.2]

end Laws

/-! ## 3. Changing the alphabet -/

/-- Words of one alphabet as words of another, in the same order and with the same beginnings. -/
structure KeepsOrder {κ κ' : Type} [LT κ] [LT κ'] (f : List κ → List κ') : Prop where
  lt : ∀ k k', f k < f k' ↔ k < k'
  start : ∀ word k, f word <+: f k ↔ word <+: k

section Recoding

variable {κ κ' ν ν' : Type}

/-- The map with recoded keys and values. -/
def recode (f : List κ → List κ') (g : ν → ν') (m : OrderedMap κ ν) : OrderedMap κ' ν' :=
  m.map fun e => (f e.1, g e.2)

theorem KeepsOrder.inj [LT κ] [LT κ'] {f : List κ → List κ'} (hf : KeepsOrder f) {k k' : List κ} :
    f k = f k' ↔ k = k' := by
  refine ⟨fun h => ?_, congrArg f⟩
  have hle : k <+: k' := (hf.start k k').mp (h ▸ List.prefix_rfl)
  have hge : k' <+: k := (hf.start k' k).mp (h ▸ List.prefix_rfl)
  exact hle.eq_of_length (Nat.le_antisymm hle.length_le hge.length_le)

variable [DecidableEq κ] [LT κ] [DecidableLT κ] [DecidableEq κ'] [LT κ'] [DecidableLT κ']
  {f : List κ → List κ'} (g : ν → ν') (hf : KeepsOrder f) (m : OrderedMap κ ν)

include hf

theorem recode_put (k : List κ) (v : ν) :
    recode f g (m.put k v) = (recode f g m).put (f k) (g v) := by
  induction m with
  | nil => rfl
  | cons e m ih =>
    obtain ⟨k₀, v₀⟩ := e
    simp only [recode, put, List.map_cons, hf.inj, hf.lt] at ih ⊢
    split
    · rfl
    · split
      · rfl
      · rw [List.map_cons, ih]

omit [DecidableLT κ] [DecidableLT κ'] in
theorem recode_del (k : List κ) : recode f g (m.del k) = (recode f g m).del (f k) := by
  induction m with
  | nil => rfl
  | cons e m ih =>
    obtain ⟨k₀, v₀⟩ := e
    simp only [recode, del, List.map_cons, hf.inj] at ih ⊢
    split
    · rfl
    · rw [List.map_cons, ih]

/-- **A scan of the recoded map is the recoded scan.** -/
theorem recode_under (word : List κ) : recode f g (m.under word) = (recode f g m).under (f word) := by
  have hstart : ∀ k, (f word).isPrefixOf (f k) = word.isPrefixOf k := fun k => by
    rw [Bool.eq_iff_iff, List.isPrefixOf_iff_prefix, List.isPrefixOf_iff_prefix, hf.start]
  unfold recode under
  rw [List.dropWhile_map, List.takeWhile_map]
  simp only [Function.comp_def, hf.lt, hstart]

end Recoding

end OrderedMap

namespace KeyValue

open OrderedMap

/-! ## 4. Sessions -/

theorem keepsOrder_utf8 : KeepsOrder Text.utf8 :=
  ⟨fun _ _ => Text.utf8_lt_iff, fun _ _ => Text.utf8_prefix_iff⟩

/-- A write, of bytes. -/
def Write.edit : Write → Edit UInt8 (List UInt8)
  | .put k v => .put (Text.bytes k) (Text.bytes v)
  | .del k => .del (Text.bytes k)

/-- What is stored, as bytes. -/
def Content.recoded (m : Content) : OrderedMap UInt8 (List UInt8) := recode Text.utf8 Text.bytes m

theorem Content.recoded_apply (m : Content) (w : Write) :
    (m.apply w).recoded = m.recoded.edit w.edit := by
  cases w with
  | put k v =>
    rw [Write.edit, Text.bytes_eq_utf8 k]
    exact recode_put Text.bytes keepsOrder_utf8 m k.toList v
  | del k =>
    rw [Write.edit, Text.bytes_eq_utf8 k]
    exact recode_del Text.bytes keepsOrder_utf8 m k.toList

theorem Content.recoded_applyAll (m : Content) (writes : List Write) :
    (m.applyAll writes).recoded = m.recoded.editAll (writes.map Write.edit) := by
  unfold Content.applyAll editAll
  induction writes generalizing m with
  | nil => rfl
  | cons w writes ih => rw [List.foldl_cons, ih, List.map_cons, List.foldl_cons, recoded_apply]

/-- The entries of a scan, as bytes, are those of the scan of bytes. -/
theorem Content.recoded_startingWith (m : Content) (start : String) :
    (m.startingWith start).map (fun e => (Text.bytes e.1, Text.bytes e.2))
      = m.recoded.under (Text.bytes start) := by
  rw [Text.bytes_eq_utf8, recoded, ← recode_under Text.bytes keepsOrder_utf8, startingWith,
    List.map_map, recode]
  refine List.map_congr_left fun e _ => ?_
  simp [Text.bytes_eq_utf8]

/-- A call that changes a store. -/
inductive StoreUpdate where
  /-- Sets a key to a value. -/
  | put (key value : String)
  /-- Removes a key. -/
  | del (key : String)
  /-- Applies writes in order. -/
  | batch (writes : List Write)

namespace StoreUpdate

/-- The call. -/
def run : StoreUpdate → Session Unit
  | .put k v => Memory.store.put k v
  | .del k => Memory.store.del k
  | .batch writes => Memory.store.batch writes

/-- What the call writes. -/
def writes : StoreUpdate → List Write
  | .put k v => [.put k v]
  | .del k => [.del k]
  | .batch writes => writes

/-- Calls, one after another. -/
def runAll : List StoreUpdate → Session Unit
  | [] => pure ()
  | change :: changes => do
    change.run
    runAll changes

variable {s : Memory}

/-- **A call writes what it is given,** and leaves the session healthy. -/
theorem on_run (h : Healthy s) (change : StoreUpdate) : ∃ s', change.run.on s = (.ok (), s') ∧
    s'.content = s.content.applyAll change.writes ∧ Healthy s' := by
  cases change with
  | put k v =>
    refine ⟨{ s with calls := .put :: s.calls, content := s.content.apply (.put k v) }, ?_, rfl,
      ⟨h.fault⟩⟩
    show (Memory.charge .put >>= _).on s = _
    rw [Session.on_bind, on_charge h]
    rfl
  | del k =>
    refine ⟨{ s with calls := .del :: s.calls, content := s.content.apply (.del k) }, ?_, rfl,
      ⟨h.fault⟩⟩
    show (Memory.charge .del >>= _).on s = _
    rw [Session.on_bind, on_charge h]
    rfl
  | batch writes => exact ⟨_, on_batch h writes, rfl, ⟨h.fault⟩⟩

theorem on_runAll (h : Healthy s) (changes : List StoreUpdate) :
    ∃ s', (runAll changes).on s = (.ok (), s') ∧
      s'.content = s.content.applyAll (changes.flatMap writes) ∧ Healthy s' := by
  induction changes generalizing s with
  | nil => exact ⟨s, rfl, rfl, h⟩
  | cons change changes ih =>
    obtain ⟨s₁, hrun, hcontent, h₁⟩ := on_run h change
    obtain ⟨s₂, hrunAll, hcontent', h₂⟩ := ih h₁
    refine ⟨s₂, ?_, ?_, h₂⟩
    · rw [runAll, Session.on_bind, hrun]
      exact hrunAll
    · rw [hcontent', hcontent, List.flatMap_cons, Content.applyAll, Content.applyAll,
        Content.applyAll, List.foldl_append]

end StoreUpdate

/-- **A scan is complete.** After any history of calls on bytes it finds, in ascending order, exactly
    the entries under the word that were last set and not removed since. After any history of calls on
    a session that begins empty it succeeds, and answers what the scan of bytes finds. -/
theorem scans_complete (s : Memory) (hs : Healthy s) (hempty : s.content = []) :
    (∀ (calls : List (List (Edit UInt8 (List UInt8)))) (word : List UInt8),
      Ascending ((history calls).under word) ∧
      ∀ k v, (k, v) ∈ (history calls).under word ↔ Standing calls.flatten k v ∧ word <+: k) ∧
    ∀ (changes : List StoreUpdate) (start : String), ∃ s' entries,
      (StoreUpdate.runAll changes).on s = (.ok (), s') ∧
      ((Memory.store.scan start).on s').1 = .ok entries ∧
      entries.map (fun e => (Text.bytes e.1, Text.bytes e.2))
        = (history (changes.map fun c => c.writes.map Write.edit)).under (Text.bytes start) := by
  refine ⟨fun calls word => ⟨?_, mem_under_history calls word⟩, fun changes start => ?_⟩
  · exact sorted_under (ascending_history calls) word
  · obtain ⟨s', hrun, hcontent, hs'⟩ := StoreUpdate.on_runAll hs changes
    refine ⟨s', _, hrun, congrArg Prod.fst (on_scan hs' start), ?_⟩
    rw [Content.recoded_startingWith, hcontent, hempty, Content.recoded_applyAll, history_eq]
    rw [← List.flatMap_def, List.map_flatMap]
    rfl

/-- Four entries under three tables' places, written in no order; one is overwritten and one removed. -/
def places : List StoreUpdate :=
  [.put "!t!p!b" "1", .put "!t!p!a" "2", .put "!t!q!a" "3",
    .batch [.put "!t!p!c" "4", .put "!t!p!b" "5", .del "!t!p!c"], .put "!s!p!a" "6"]

theorem places_scanned : Healthy {} ∧ ({} : Memory).content = [] ∧ ∃ s' entries,
    (StoreUpdate.runAll places).on {} = (.ok (), s') ∧
    ((Memory.store.scan "!t!p!").on s').1 = .ok entries ∧
    entries.map (fun e => (Text.bytes e.1, Text.bytes e.2))
      = [(Text.bytes "!t!p!a", Text.bytes "2"), (Text.bytes "!t!p!b", Text.bytes "5")] := by
  have hhealthy : Healthy {} := ⟨rfl⟩
  have hfound : (history (places.map fun c => c.writes.map Write.edit)).under (Text.bytes "!t!p!")
      = [(Text.bytes "!t!p!a", Text.bytes "2"), (Text.bytes "!t!p!b", Text.bytes "5")] := by
    decide +kernel
  obtain ⟨s', entries, hrun, hscan, hentries⟩ := (scans_complete {} hhealthy rfl).2 places "!t!p!"
  exact ⟨hhealthy, rfl, s', entries, hrun, hscan, hentries.trans hfound⟩

end KeyValue

end QueryAlgebra
