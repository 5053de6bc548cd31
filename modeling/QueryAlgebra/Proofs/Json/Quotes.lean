import QueryAlgebra.Proofs.Json.Text

/-!
# Inside and outside of strings

A text of a value is read from outside of its strings. It ends outside of them, and an exclamation
mark stands in it only within a string. The same text read as if it began within a string does not end
outside: every quote opens where it closed before, and a backslash would stand outside of strings,
where no text has one.

So what stands behind an exclamation mark in the text of a value is no text of a value
(`json_ne_behind`).
-/

namespace QueryAlgebra

namespace Json

/-! ## 1. Where a character stands -/

/-- Where the next character of a text stands. -/
inductive Side where
  /-- Outside of strings. -/
  | outside
  /-- Within a string. -/
  | inside
  /-- Within a string, after a backslash. -/
  | escaped
  /-- Behind what no text of a value has outside of strings: a backslash or an exclamation mark. -/
  | nowhere
deriving DecidableEq

/-- Where the character after a character stands. -/
def Side.next : Side → Char → Side
  | .outside, c => if c = '"' then .inside else if c = '\\' ∨ c = '!' then .nowhere else .outside
  | .inside, c => if c = '"' then .outside else if c = '\\' then .escaped else .inside
  | .escaped, _ => .inside
  | .nowhere, _ => .nowhere

/-- Where the character after a text stands. -/
def Side.after (side : Side) (cs : List Char) : Side := cs.foldl Side.next side

theorem Side.after_append (side : Side) (xs ys : List Char) :
    side.after (xs ++ ys) = (side.after xs).after ys := List.foldl_append

theorem Side.after_cons (side : Side) (c : Char) (cs : List Char) :
    side.after (c :: cs) = (side.next c).after cs := rfl

theorem Side.nowhere_after (cs : List Char) : Side.nowhere.after cs = .nowhere := by
  induction cs with
  | nil => rfl
  | cons c cs ih => exact ih

/-- **No text ends outside of strings from both sides.** -/
theorem Side.inside_after_ne (cs : List Char) (h : Side.outside.after cs = .outside) :
    Side.inside.after cs ≠ .outside := by
  induction cs with
  | nil => decide
  | cons c cs ih =>
    rw [after_cons] at h ⊢
    by_cases hquote : c = '"'
    · -- the sides change places
      subst hquote
      have hinside : Side.inside.after cs = .outside := h
      exact fun houtside => ih houtside hinside
    · by_cases hmark : c = '\\' ∨ c = '!'
      · have hnowhere : Side.outside.next c = .nowhere := by
          rw [next, if_neg hquote, if_pos hmark]
        rw [hnowhere, nowhere_after] at h
        cases h
      · have hslash : c ≠ '\\' := fun hc => hmark (Or.inl hc)
        have houtside : Side.outside.next c = .outside := by
          rw [next, if_neg hquote, if_neg hmark]
        have hinside : Side.inside.next c = .inside := by
          rw [next, if_neg hquote, if_neg hslash]
        rw [houtside] at h
        rw [hinside]
        exact ih h

/-- Behind an exclamation mark a text that ends outside goes on within a string. -/
theorem Side.inside_of_mark {side : Side} {cs : List Char}
    (h : side.after ('!' :: cs) = .outside) : Side.inside.after cs = .outside := by
  cases side with
  | outside =>
    rw [after_cons] at h
    have hnowhere : Side.outside.next '!' = .nowhere := rfl
    rw [hnowhere, nowhere_after] at h
    cases h
  | inside => exact h
  | escaped => exact h
  | nowhere =>
    rw [nowhere_after] at h
    cases h

/-! ## 2. Texts of values -/

theorem outside_plain {cs : List Char} (h : ∀ c ∈ cs, c ≠ '"' ∧ c ≠ '\\' ∧ c ≠ '!') :
    Side.outside.after cs = .outside := by
  induction cs with
  | nil => rfl
  | cons c cs ih =>
    obtain ⟨⟨hquote, hslash, hmark⟩, hcs⟩ := List.forall_mem_cons.mp h
    have hstep : Side.outside.next c = .outside := by
      rw [Side.next, if_neg hquote, if_neg (not_or.mpr ⟨hslash, hmark⟩)]
    rw [Side.after_cons, hstep, ih hcs]

theorem inside_escapeChar (c : Char) : Side.inside.after (escapeChar c) = .inside := by
  rcases escapeChar_cases c with ⟨hc, hquote, hslash, -⟩ | ⟨d, hc, -, -⟩ | ⟨hlt, hc⟩ <;> rw [hc]
  · show (if c = '"' then Side.outside else if c = '\\' then .escaped else .inside) = .inside
    rw [if_neg hquote, if_neg hslash]
  · rfl
  · have hdigit : ∀ n < 16, Side.inside.next (hexDigit n) = .inside := by decide
    have hhigh := hdigit (c.toNat / 16) (by omega)
    have hlow := hdigit (c.toNat % 16) (by omega)
    show (Side.inside.next (hexDigit (c.toNat / 16))).next (hexDigit (c.toNat % 16)) = .inside
    rw [hhigh, hlow]

theorem outside_quote (s : String) : Side.outside.after (quote s).toList = .outside := by
  have hescaped : ∀ cs : List Char, Side.inside.after (cs.flatMap escapeChar) = .inside := by
    intro cs
    induction cs with
    | nil => rfl
    | cons c cs ih => rw [List.flatMap_cons, Side.after_append, inside_escapeChar, ih]
  rw [toList_quote, Side.after_cons]
  show Side.inside.after (s.toList.flatMap escapeChar ++ ['"']) = .outside
  rw [Side.after_append, hescaped]
  rfl

theorem plain_of_continuesNumeral {c : Char} (h : continuesNumeral c = true) :
    c ≠ '"' ∧ c ≠ '\\' ∧ c ≠ '!' := by
  refine ⟨?_, ?_, ?_⟩ <;> rintro rfl <;> exact absurd h (by decide)

end Json

namespace Value

open Json

mutual

/-- **The text of a value ends outside of strings.** -/
theorem outside_json (v : Value) : Side.outside.after v.json.toList = .outside := by
  cases v with
  | null =>
    rw [json]
    rfl
  | bool b =>
    cases b <;> rw [json] <;> rfl
  | number n =>
    rw [json, n.toList_text]
    exact outside_plain fun c hc =>
      plain_of_continuesNumeral (Numeral.continues_of_mem_written n.parts_plain hc)
  | string s =>
    rw [json]
    exact outside_quote s
  | array items =>
    rw [toList_json_array, Side.after_cons]
    show Side.outside.after ((jsonItems items).toList ++ [']']) = .outside
    rw [Side.after_append, outside_jsonItems items]
    rfl
  | object fields =>
    rw [toList_json_object, Side.after_cons]
    show Side.outside.after ((jsonFields fields).toList ++ ['\x7d']) = .outside
    rw [Side.after_append, outside_jsonFields fields]
    rfl

theorem outside_jsonItems (items : List Value) :
    Side.outside.after (jsonItems items).toList = .outside := by
  cases items with
  | nil =>
    rw [jsonItems]
    rfl
  | cons v items =>
    rw [toList_jsonItems_cons, Side.after_append, outside_json v, itemsTail]
    split_ifs
    · rfl
    · exact outside_jsonItems items

theorem outside_jsonFields (fields : List (String × Value)) :
    Side.outside.after (jsonFields fields).toList = .outside := by
  cases fields with
  | nil =>
    rw [jsonFields]
    rfl
  | cons f fields =>
    obtain ⟨name, v⟩ := f
    rw [toList_jsonFields_cons, Side.after_append, outside_quote, Side.after_cons]
    show Side.outside.after (v.json.toList ++ fieldsTail fields) = .outside
    rw [Side.after_append, outside_json v, fieldsTail]
    split_ifs
    · rfl
    · exact outside_jsonFields fields

end

/-- **What stands behind an exclamation mark in the text of a value is no text of a value.** -/
theorem json_ne_behind (v w : Value) (before : List Char) :
    v.json.toList ≠ before ++ '!' :: w.json.toList := by
  intro h
  have hv := outside_json v
  rw [h, Side.after_append] at hv
  exact Side.inside_after_ne _ (outside_json w) (Side.inside_of_mark hv)

end Value

end QueryAlgebra
