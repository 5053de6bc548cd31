import QueryAlgebra.Proofs.KeyValue.Records

/-!
# What an entry of an index lists

An entry lists the primary keys of the rows that stand under it (`Lists`). When one row changes, an
entry loses the row's key, gains it, or stays (`keysAfter`), and lists the right keys again
(`Lists.after`).

The store tells keys apart by their fingerprints, and the lists by loose equality. The two agree on
the keys of a table as long as no two of them are loosely equal with different fingerprints
(`Apart`): then `withKey` and `withoutKey` work on fingerprints.
-/

namespace QueryAlgebra

namespace KeyValue

/-! ## 1. Keys apart -/

/-- Fingerprints of primary keys among which loose equality is equality, the random ones among
them. -/
structure Apart (P : String → Prop) : Prop where
  strings : ∀ s, P (Value.string s).fingerprint
  eq_of_looseEq : ∀ a b : Value, P a.fingerprint → P b.fingerprint → a.looseEq b = true →
    a.fingerprint = b.fingerprint

theorem Apart.looseEq_iff {P : String → Prop} (hP : Apart P) {a b : Value}
    (ha : P a.fingerprint) (hb : P b.fingerprint) (hs : a.Storable) :
    a.looseEq b = true ↔ a.fingerprint = b.fingerprint :=
  ⟨hP.eq_of_looseEq a b ha hb, Value.looseEq_of_fingerprint_eq hs.proper⟩

/-- A key that is a string, or an integer that a double holds exactly. -/
inductive OrdinaryKey : Value → Prop
  | string (s : String) : OrdinaryKey (.string s)
  | int (i : Int) (h : -0x8000000000000000 ≤ i ∧ i < 0x10000000000000000)
    (hexact : i.natAbs ≤ 0x20000000000000) : OrdinaryKey (.number (.int i h))

theorem OrdinaryKey.eq_of_looseEq {a b : Value} (ha : OrdinaryKey a) (hb : OrdinaryKey b)
    (h : a.looseEq b = true) : a = b := by
  cases ha with
  | string s =>
    cases hb with
    | string s' => simpa [Value.looseEq] using h
    | int j hj _ => simp [Value.looseEq] at h
  | int i hi hexact =>
    cases hb with
    | string s' => simp [Value.looseEq] at h
    | int j hj hexact' =>
      have hvalue : (Double.ofInt i (by omega)).toInt = (Double.ofInt j (by omega)).toInt := by
        simpa [Value.looseEq, Number.same, Double.same, Number.toDouble] using h
      rw [Double.toInt_ofInt hexact, Double.toInt_ofInt hexact'] at hvalue
      have hone : (Double.one : Int) ≠ 0 := by exact_mod_cast Double.one_pos.ne'
      obtain rfl := mul_right_cancel₀ hone hvalue
      rfl

/-- **Ordinary keys are apart.** -/
theorem apart_ordinary : Apart (fun p => ∃ k, OrdinaryKey k ∧ k.fingerprint = p) := by
  refine ⟨fun s => ⟨_, .string s, rfl⟩, ?_⟩
  rintro a b ⟨a', ha', ha⟩ ⟨b', hb', hb⟩ h
  rw [← Value.looseEq_congr_left b ha, ← Value.looseEq_congr_right a' hb] at h
  rw [← ha, ← hb, ha'.eq_of_looseEq hb' h]

section Lists

variable {P : String → Prop} (hP : Apart P) {keys : List Value} {key : Value}

include hP

theorem mem_withoutKey (hkeys : ∀ k ∈ keys, k.Storable ∧ P k.fingerprint) (hkey : P key.fingerprint)
    {k : Value} : k ∈ withoutKey keys key ↔ k ∈ keys ∧ k.fingerprint ≠ key.fingerprint := by
  unfold withoutKey
  rw [List.mem_filter]
  refine and_congr_right (fun hk => ?_)
  rw [ne_eq, ← hP.looseEq_iff (hkeys k hk).2 hkey (hkeys k hk).1]
  simp

theorem withKey_eq (hkeys : ∀ k ∈ keys, k.Storable ∧ P k.fingerprint) (hkey : P key.fingerprint) :
    withKey keys key
      = if key.fingerprint ∈ keys.map Value.fingerprint then keys else keys ++ [key] := by
  unfold withKey
  refine if_congr ?_ rfl rfl
  rw [List.any_eq_true, List.mem_map]
  refine exists_congr (fun k => and_congr_right (fun hk => ?_))
  exact hP.looseEq_iff (hkeys k hk).2 hkey (hkeys k hk).1

end Lists

/-! ## 2. What an entry lists -/

/-- The documents of a table by the fingerprints of their keys. -/
abbrev Rows := String → Option Fields

/-- The fingerprint under which a document stands in an index on a field. -/
def placeIn (field : String) (doc : Option Fields) : Option String :=
  (indexed doc field).map Value.fingerprint

/-- The list has the key of every row under a fingerprint once, and no other. -/
structure Lists (rows : Rows) (field place : String) (keys : List Value) : Prop where
  storable : ∀ k ∈ keys, k.Storable
  nodup : (keys.map Value.fingerprint).Nodup
  owners : ∀ p, p ∈ keys.map Value.fingerprint ↔ placeIn field (rows p) = some place

/-- A list has the key of every row under a place once, and no other key. Nothing is said of whether
    the keys can be read back. -/
structure Owners (rows : Rows) (field place : String) (keys : List Value) : Prop where
  nodup : (keys.map Value.fingerprint).Nodup
  owners : ∀ p, p ∈ keys.map Value.fingerprint ↔ placeIn field (rows p) = some place

section Owners

variable {rows : Rows} {field place : String} {keys keys' : List Value}

theorem Lists.toOwners (h : Lists rows field place keys) : Owners rows field place keys :=
  ⟨h.nodup, h.owners⟩

theorem Owners.lists (h : Owners rows field place keys) (hkeys : ∀ k ∈ keys, k.Storable) :
    Lists rows field place keys := ⟨hkeys, h.nodup, h.owners⟩

/-- A place under which no key is listed is the place of no row. -/
theorem Owners.placeIn_ne {p : String} (h : Owners rows field place []) :
    placeIn field (rows p) ≠ some place := by
  intro hplace
  have hmem := (h.owners p).mpr hplace
  exact absurd hmem List.not_mem_nil

/-- The rows decide the keys under a place. -/
theorem Owners.perm (h : Owners rows field place keys) (h' : Owners rows field place keys') :
    (keys.map Value.fingerprint).Perm (keys'.map Value.fingerprint) := by
  refine (List.perm_ext_iff_of_nodup h.nodup h'.nodup).mpr fun p => ?_
  rw [h.owners, h'.owners]

end Owners

/-- The list of a place when the row of a key moves from one place to another. -/
def keysAfter (key : Value) (before after : Option String) (place : String) (keys : List Value) :
    List Value :=
  if before = after then keys
  else if after = some place then withKey keys key
  else if before = some place then withoutKey keys key
  else keys

/-- The rows with another document, or none, under a key. -/
def Rows.write (rows : Rows) (place : String) (doc : Option Fields) : Rows :=
  fun p => if p = place then doc else rows p

section Changes

variable {P : String → Prop} (hP : Apart P) {rows : Rows} (hrows : ∀ p doc, rows p = some doc → P p)
  {field place : String} {keys : List Value}

include hrows in
theorem Lists.known (h : Lists rows field place keys) : ∀ k ∈ keys, k.Storable ∧ P k.fingerprint := by
  intro k hk
  refine ⟨h.storable k hk, ?_⟩
  have howner := (h.owners k.fingerprint).mp (List.mem_map_of_mem hk)
  cases hdoc : rows k.fingerprint with
  | some doc => exact hrows _ doc hdoc
  | none =>
    rw [hdoc] at howner
    cases howner

/-- It is enough to say of the row that changed where it stands now; the others have not moved. -/
theorem Lists.owners_write (h : Lists rows field place keys) {key : Value} {new : Option Fields}
    {keys' : List Value}
    (hothers : ∀ p, p ≠ key.fingerprint →
      (p ∈ keys'.map Value.fingerprint ↔ p ∈ keys.map Value.fingerprint))
    (hplace : key.fingerprint ∈ keys'.map Value.fingerprint ↔ placeIn field new = some place)
    (p : String) :
    p ∈ keys'.map Value.fingerprint
      ↔ placeIn field ((rows.write key.fingerprint new) p) = some place := by
  unfold Rows.write
  split
  · next hp => rw [hp, hplace]
  · next hp => rw [hothers p hp, h.owners p]

/-- An entry keeps its list when the row is under it after the change exactly if it was before. -/
theorem Lists.stays (h : Lists rows field place keys) {key : Value} {new : Option Fields}
    (hplace : placeIn field (rows key.fingerprint) = some place ↔ placeIn field new = some place) :
    Lists (rows.write key.fingerprint new) field place keys where
  storable := h.storable
  nodup := h.nodup
  owners := h.owners_write (fun _ _ => Iff.rfl) ((h.owners _).trans hplace)

include hP hrows

/-- The entry under which a row comes to stand gains its key. -/
theorem Lists.gains (h : Lists rows field place keys) {key : Value} (hkey : P key.fingerprint)
    (hstorable : key.Storable) {new : Option Fields}
    (hbefore : placeIn field (rows key.fingerprint) ≠ some place)
    (hafter : placeIn field new = some place) :
    Lists (rows.write key.fingerprint new) field place (withKey keys key) := by
  have habsent : key.fingerprint ∉ keys.map Value.fingerprint := mt (h.owners _).mp hbefore
  rw [withKey_eq hP (h.known hrows) hkey, if_neg habsent]
  refine ⟨fun k hk => ?_, ?_, h.owners_write (fun p hp => ?_) ?_⟩
  · rcases List.mem_append.mp hk with hk | hk
    · exact h.storable k hk
    · exact List.mem_singleton.mp hk ▸ hstorable
  · rw [List.map_append, List.nodup_append]
    refine ⟨h.nodup, List.nodup_singleton _, fun a ha b hb heq => habsent ?_⟩
    exact List.mem_singleton.mp hb ▸ heq ▸ ha
  · simp [hp]
  · simp [hafter]

/-- The entry under which a row no longer stands loses its key. -/
theorem Lists.loses (h : Lists rows field place keys) {key : Value} (hkey : P key.fingerprint)
    {new : Option Fields} (hafter : placeIn field new ≠ some place) :
    Lists (rows.write key.fingerprint new) field place (withoutKey keys key) := by
  have hmem : ∀ p, p ∈ (withoutKey keys key).map Value.fingerprint
      ↔ p ∈ keys.map Value.fingerprint ∧ p ≠ key.fingerprint := by
    intro p
    simp only [List.mem_map, mem_withoutKey hP (h.known hrows) hkey]
    constructor
    · rintro ⟨k, ⟨hk, hne⟩, rfl⟩
      exact ⟨⟨k, hk, rfl⟩, hne⟩
    · rintro ⟨⟨k, hk, rfl⟩, hne⟩
      exact ⟨k, ⟨hk, hne⟩, rfl⟩
  have hsub : (withoutKey keys key).Sublist keys := List.filter_sublist
  refine ⟨fun k hk => h.storable k (hsub.subset hk), (hsub.map _).nodup h.nodup,
    h.owners_write (fun p hp => ?_) ?_⟩
  · rw [hmem]
    exact and_iff_left hp
  · rw [hmem]
    exact ⟨fun hin => absurd rfl hin.2, fun hin => absurd hin hafter⟩

/-- **An entry lists the right keys again after one row has changed.** -/
theorem Lists.after (h : Lists rows field place keys) {key : Value} (hkey : P key.fingerprint)
    {new : Option Fields} (hnew : new.isSome → key.Storable) :
    Lists (rows.write key.fingerprint new) field place
      (keysAfter key (placeIn field (rows key.fingerprint)) (placeIn field new) place keys) := by
  unfold keysAfter
  split
  · next hsame => exact h.stays (by rw [hsame])
  · next hmoved =>
    split
    · next hafter =>
      have hsome : new.isSome := by
        cases new with
        | none => cases hafter
        | some doc => rfl
      exact h.gains hP hrows hkey (hnew hsome) (fun hbefore => hmoved (hbefore.trans hafter.symm))
        hafter
    · next hafter =>
      split
      · exact h.loses hP hrows hkey hafter
      · next hbefore => exact h.stays (iff_of_false hbefore hafter)

end Changes

end KeyValue

end QueryAlgebra
