import Mathlib.Data.Char
import Mathlib.Data.List.Lex

/-!
# Texts as bytes

The order of texts is the order of their UTF-8 bytes, and a text begins with another when its bytes
begin with the bytes of the other (`utf8_lt_iff`, `utf8_prefix_iff`). Both come from one fact: the bytes
of two characters differ before either ends, and the first that differ are in the order of the
characters (`before_encode`).
-/

namespace QueryAlgebra

instance linearOrderByte : LinearOrder UInt8 where
  le_refl a := UInt8.le_refl a
  le_trans a b c := UInt8.le_trans
  le_antisymm a b := UInt8.le_antisymm
  le_total a b := UInt8.le_total a b
  lt_iff_le_not_ge a b := by
    rw [UInt8.lt_iff_toNat_lt, UInt8.le_iff_toNat_le, UInt8.le_iff_toNat_le]
    omega
  toDecidableLE := inferInstance
  toDecidableEq := inferInstance
  toDecidableLT := inferInstance

namespace Text

/-! ## 1. Words that differ -/

/-- The words differ before either ends, and the first has the smaller letter there. -/
inductive Before : List UInt8 → List UInt8 → Prop
  | here {x y : UInt8} {a b : List UInt8} (h : x < y) : Before (x :: a) (y :: b)
  | next {x : UInt8} {a b : List UInt8} (h : Before a b) : Before (x :: a) (x :: b)

namespace Before

variable {a b : List UInt8}

theorem lt_append (h : Before a b) (r r' : List UInt8) : a ++ r < b ++ r' := by
  induction h with
  | here h => exact List.cons_lt_cons_iff.mpr (.inl h)
  | next _ ih => exact List.cons_lt_cons_iff.mpr (.inr ⟨rfl, ih⟩)

/-- Neither word begins with the other, whatever follows them. -/
theorem apart (h : Before a b) (r r' : List UInt8) :
    ¬a ++ r <+: b ++ r' ∧ ¬b ++ r' <+: a ++ r := by
  induction h with
  | here h =>
    exact ⟨fun hp => absurd (List.cons_prefix_cons.mp hp).1 (ne_of_lt h),
      fun hp => absurd (List.cons_prefix_cons.mp hp).1 (ne_of_gt h)⟩
  | next _ ih =>
    exact ⟨fun hp => ih.1 (List.cons_prefix_cons.mp hp).2,
      fun hp => ih.2 (List.cons_prefix_cons.mp hp).2⟩

/-- Bytes given as numbers: the first are in order, and where they are the same the others decide. -/
theorem ofNat {m n : Nat} (hle : m ≤ n) (hn : n < 256) (h : m = n → Before a b) :
    Before (UInt8.ofNat m :: a) (UInt8.ofNat n :: b) := by
  rcases Nat.eq_or_lt_of_le hle with heq | hlt
  · rw [heq]
    exact .next (h heq)
  · refine .here (UInt8.lt_iff_toNat_lt.mpr ?_)
    rw [UInt8.toNat_ofNat', UInt8.toNat_ofNat', Nat.mod_eq_of_lt (by omega), Nat.mod_eq_of_lt hn]
    exact hlt

theorem ofNat_lt {m n : Nat} (hlt : m < n) (hn : n < 256) :
    Before (UInt8.ofNat m :: a) (UInt8.ofNat n :: b) :=
  ofNat (Nat.le_of_lt hlt) hn fun heq => absurd heq (Nat.ne_of_lt hlt)

end Before

/-! ## 2. Characters -/

/-- A character has one to four bytes. -/
inductive Encoded : Nat → List UInt8 → Prop
  | one {v : Nat} (h : v < 0x80) : Encoded v [.ofNat v]
  | two {v : Nat} (h : 0x80 ≤ v) (h' : v < 0x800) :
    Encoded v [.ofNat (v / 64 % 32 + 192), .ofNat (v % 64 + 128)]
  | three {v : Nat} (h : 0x800 ≤ v) (h' : v < 0x10000) :
    Encoded v [.ofNat (v / 4096 % 16 + 224), .ofNat (v / 64 % 64 + 128), .ofNat (v % 64 + 128)]
  | four {v : Nat} (h : 0x10000 ≤ v) (h' : v < 0x110000) :
    Encoded v [.ofNat (v / 262144 % 8 + 240), .ofNat (v / 4096 % 64 + 128),
      .ofNat (v / 64 % 64 + 128), .ofNat (v % 64 + 128)]

theorem encoded (c : Char) : Encoded c.val.toNat (String.utf8EncodeChar c) := by
  have hvalid : c.val.toNat < 0xD800 ∨ 0xDFFF < c.val.toNat ∧ c.val.toNat < 0x110000 := c.valid
  unfold String.utf8EncodeChar
  dsimp only
  generalize c.val.toNat = v at hvalid
  split
  · exact .one (by omega)
  · split
    · exact .two (by omega) (by omega)
    · split
      · exact .three (by omega) (by omega)
      · exact .four (by omega) (by omega)

theorem Encoded.ne_nil {v : Nat} {bytes : List UInt8} (h : Encoded v bytes) : bytes ≠ [] := by
  cases h <;> exact List.cons_ne_nil _ _

/-- A larger number of bytes begins with a larger byte; of one number of bytes the first that differ
    decide. -/
theorem Encoded.before {v w : Nat} {a b : List UInt8} (h : Encoded v a) (h' : Encoded w b)
    (hlt : v < w) : Before a b := by
  cases h with
  | one hv =>
    cases h' with
    | one hw => exact .ofNat_lt hlt (by omega)
    | two => exact .ofNat_lt (by omega) (by omega)
    | three => exact .ofNat_lt (by omega) (by omega)
    | four => exact .ofNat_lt (by omega) (by omega)
  | two =>
    cases h' with
    | one => omega
    | two => exact .ofNat (by omega) (by omega) fun _ => .ofNat_lt (by omega) (by omega)
    | three => exact .ofNat_lt (by omega) (by omega)
    | four => exact .ofNat_lt (by omega) (by omega)
  | three =>
    cases h' with
    | one => omega
    | two => omega
    | three =>
      exact .ofNat (by omega) (by omega) fun _ => .ofNat (by omega) (by omega) fun _ =>
        .ofNat_lt (by omega) (by omega)
    | four => exact .ofNat_lt (by omega) (by omega)
  | four =>
    cases h' with
    | one => omega
    | two => omega
    | three => omega
    | four =>
      exact .ofNat (by omega) (by omega) fun _ => .ofNat (by omega) (by omega) fun _ =>
        .ofNat (by omega) (by omega) fun _ => .ofNat_lt (by omega) (by omega)

/-- **The bytes of two characters differ before either ends,** in the order of the characters. -/
theorem before_encode {c d : Char} (h : c < d) :
    Before (String.utf8EncodeChar c) (String.utf8EncodeChar d) :=
  (encoded c).before (encoded d) (UInt32.lt_iff_toNat_lt.mp h)

/-! ## 3. Texts -/

/-- The bytes of characters. -/
def utf8 (chars : List Char) : List UInt8 := chars.flatMap String.utf8EncodeChar

theorem utf8_cons (c : Char) (chars : List Char) :
    utf8 (c :: chars) = String.utf8EncodeChar c ++ utf8 chars := rfl

theorem utf8_append (chars chars' : List Char) : utf8 (chars ++ chars') = utf8 chars ++ utf8 chars' :=
  List.flatMap_append

theorem lt_append_left_iff (p a b : List UInt8) : p ++ a < p ++ b ↔ a < b := by
  induction p with
  | nil => rfl
  | cons x p ih => simp [ih]

theorem utf8_lt {chars chars' : List Char} (h : chars < chars') : utf8 chars < utf8 chars' := by
  induction chars generalizing chars' with
  | nil =>
    cases chars' with
    | nil => exact absurd h (lt_irrefl _)
    | cons c chars' =>
      obtain ⟨b, bytes, hbytes⟩ := List.exists_cons_of_ne_nil (encoded c).ne_nil
      rw [utf8_cons, hbytes]
      exact List.nil_lt_cons b _
  | cons c chars ih =>
    cases chars' with
    | nil => exact absurd h (List.not_lt_nil _)
    | cons d chars' =>
      rw [List.cons_lt_cons_iff] at h
      rw [utf8_cons, utf8_cons]
      rcases h with hlt | ⟨rfl, hlt⟩
      · exact (before_encode hlt).lt_append _ _
      · exact (lt_append_left_iff _ _ _).mpr (ih hlt)

/-- **The order of texts is the order of their bytes.** -/
theorem utf8_lt_iff {chars chars' : List Char} : utf8 chars < utf8 chars' ↔ chars < chars' := by
  refine ⟨fun h => ?_, utf8_lt⟩
  rcases lt_trichotomy chars chars' with hlt | rfl | hgt
  · exact hlt
  · exact absurd h (lt_irrefl _)
  · exact absurd (utf8_lt hgt) h.not_gt

/-- **A text begins with another when its bytes begin with the bytes of the other.** -/
theorem utf8_prefix_iff {word chars : List Char} : utf8 word <+: utf8 chars ↔ word <+: chars := by
  constructor
  · intro h
    induction word generalizing chars with
    | nil => exact List.nil_prefix
    | cons c word ih =>
      cases chars with
      | nil =>
        rw [utf8_cons] at h
        exact absurd (List.append_eq_nil_iff.mp (List.prefix_nil.mp h)).1 (encoded c).ne_nil
      | cons d chars =>
        rw [utf8_cons, utf8_cons] at h
        rcases lt_trichotomy c d with hlt | rfl | hgt
        · exact absurd h ((before_encode hlt).apart _ _).1
        · exact List.cons_prefix_cons.mpr ⟨rfl, ih ((List.prefix_append_right_inj _).mp h)⟩
        · exact absurd h ((before_encode hgt).apart _ _).2
  · intro ⟨rest, hrest⟩
    rw [← hrest, utf8_append]
    exact List.prefix_append _ _

/-- The bytes of a text, as a list. -/
def bytes (s : String) : List UInt8 := s.toUTF8.data.toList

theorem bytes_eq_utf8 (s : String) : bytes s = utf8 s.toList := by
  have hchars : s.toByteArray = s.toList.utf8Encode := by
    rw [← String.toByteArray_ofList, String.ofList_toList]
  rw [bytes, String.toUTF8, hchars, List.utf8Encode, List.data_toByteArray, utf8]

end Text

end QueryAlgebra
