import QueryAlgebra.Json.Reader
import QueryAlgebra.Proofs.Double.Text
import QueryAlgebra.Value.Rules

/-!
# JSON text identifies the value

No text of a value begins another one, as long as what follows a number does not continue it. So
different values have different texts (`json_injective`), and objects with one fingerprint are
equal (`object_eq_of_fingerprint_eq`).

* `escapeChar_cases`: the three ways in which a character of a string is written.
* `Number.toList_text`: the text of a number is made of parts, as that of a double is, and the parts
  of an integer are not those of a double.
* `json_append_inj`: two texts of values, each with something after it, are equal only when the
  values are, and what comes after them.
-/

namespace QueryAlgebra

/-! ## 1. Strings -/

namespace Json

theorem hexValue_hexDigit {n : Nat} (h : n < 16) : hexValue (hexDigit n) = some n := by
  interval_cases n <;> decide

/-- **The ways in which a character is written:** as itself, with a short escape, or by its number. -/
theorem escapeChar_cases (c : Char) :
    (escapeChar c = [c] ∧ c ≠ '"' ∧ c ≠ '\\' ∧ ¬c.toNat < 32) ∨
    (∃ d, escapeChar c = ['\\', d] ∧ d ≠ 'u' ∧ shortEscape d = some c) ∨
    (c.toNat < 32 ∧ escapeChar c =
      ['\\', 'u', '0', '0', hexDigit (c.toNat / 16), hexDigit (c.toNat % 16)]) := by
  unfold escapeChar
  split_ifs with h1 h2 h3 h4 h5 h6 h7 h8
  · exact Or.inr (Or.inl ⟨'"', rfl, by decide, by rw [h1]; rfl⟩)
  · exact Or.inr (Or.inl ⟨'\\', rfl, by decide, by rw [h2]; rfl⟩)
  · exact Or.inr (Or.inl ⟨'n', rfl, by decide, by rw [h3]; rfl⟩)
  · exact Or.inr (Or.inl ⟨'r', rfl, by decide, by rw [h4]; rfl⟩)
  · exact Or.inr (Or.inl ⟨'t', rfl, by decide, by rw [h5]; rfl⟩)
  · exact Or.inr (Or.inl ⟨'b', rfl, by decide, by rw [h6]; rfl⟩)
  · exact Or.inr (Or.inl ⟨'f', rfl, by decide, by rw [h7]; rfl⟩)
  · exact Or.inr (Or.inr ⟨h8, rfl⟩)
  · exact Or.inl ⟨rfl, h1, h2, h8⟩

theorem escapeChar_append_inj {c d : Char} {xs ys : List Char}
    (h : escapeChar c ++ xs = escapeChar d ++ ys) : c = d ∧ xs = ys := by
  rcases escapeChar_cases c with ⟨hc, -, hcs, -⟩ | ⟨c', hc, hcu, hshort⟩ | ⟨hlt, hc⟩ <;>
    rcases escapeChar_cases d with ⟨hd, -, hds, -⟩ | ⟨d', hd, hdu, hshort'⟩ | ⟨hlt', hd⟩ <;>
    rw [hc, hd] at h <;>
    simp only [List.cons_append, List.nil_append, List.cons.injEq, true_and] at h
  · exact h
  · exact absurd h.1 hcs
  · exact absurd h.1 hcs
  · exact absurd h.1.symm hds
  · obtain ⟨rfl, hrest⟩ := h
    rw [hshort] at hshort'
    exact ⟨Option.some.inj hshort', hrest⟩
  · exact absurd h.1 hcu
  · exact absurd h.1.symm hds
  · exact absurd h.1.symm hdu
  · obtain ⟨hhigh, hlow, hrest⟩ := h
    have h1 := congrArg hexValue hhigh
    have h2 := congrArg hexValue hlow
    rw [hexValue_hexDigit (by omega), hexValue_hexDigit (by omega)] at h1 h2
    have hnat : c.toNat = d.toNat := by
      have := Option.some.inj h1
      have := Option.some.inj h2
      omega
    exact ⟨Char.toNat_inj.mp hnat, hrest⟩

theorem escapeChar_ne_quote (c : Char) (xs ys : List Char) : '"' :: xs ≠ escapeChar c ++ ys := by
  intro h
  rcases escapeChar_cases c with ⟨hc, hq, -, -⟩ | ⟨d, hc, -, -⟩ | ⟨-, hc⟩ <;> rw [hc] at h
  · exact hq (List.cons.inj h).1.symm
  · exact absurd (List.cons.inj h).1 (by decide)
  · exact absurd (List.cons.inj h).1 (by decide)

theorem escaped_append_inj {s t xs ys : List Char}
    (h : s.flatMap escapeChar ++ '"' :: xs = t.flatMap escapeChar ++ '"' :: ys) :
    s = t ∧ xs = ys := by
  induction s generalizing t with
  | nil =>
    cases t with
    | nil => exact ⟨rfl, by simpa using h⟩
    | cons d t =>
      rw [List.flatMap_cons, List.append_assoc] at h
      exact absurd h (escapeChar_ne_quote d _ _)
  | cons c s ih =>
    cases t with
    | nil =>
      rw [List.flatMap_cons, List.append_assoc] at h
      exact absurd h.symm (escapeChar_ne_quote c _ _)
    | cons d t =>
      rw [List.flatMap_cons, List.flatMap_cons, List.append_assoc, List.append_assoc] at h
      obtain ⟨rfl, hrest⟩ := escapeChar_append_inj h
      obtain ⟨rfl, rfl⟩ := ih hrest
      exact ⟨rfl, rfl⟩

theorem toList_quote (s : String) :
    (quote s).toList = '"' :: (s.toList.flatMap escapeChar ++ ['"']) := by
  simp [quote]

/-- A string between quotes shows where it ends. -/
theorem quote_append_inj {s t : String} {xs ys : List Char}
    (h : (quote s).toList ++ xs = (quote t).toList ++ ys) : s = t ∧ xs = ys := by
  rw [toList_quote, toList_quote] at h
  simp only [List.cons_append, List.append_assoc, List.nil_append, List.cons.injEq, true_and] at h
  obtain ⟨hlist, hrest⟩ := escaped_append_inj h
  exact ⟨String.toList_inj.mp hlist, hrest⟩

end Json

/-! ## 2. Numbers -/

theorem Numeral.continues_of_mem_written {n : Numeral} (h : n.Plain) {c : Char}
    (hc : c ∈ n.written) : Json.continuesNumeral c = true := by
  have hdigit : c.isDigit = true → Json.continuesNumeral c = true := fun hd => by
    simp [Json.continuesNumeral, hd]
  obtain ⟨sign, whole, fraction, exponent⟩ := n
  rw [written_eq, List.mem_append, List.mem_append] at hc
  rcases hc with hc | hc | hc
  · rcases h.sign with hs | hs <;> simp only at hs <;> subst hs
    · simp at hc
    · exact List.mem_singleton.mp hc ▸ by decide
  · exact hdigit (h.whole c hc)
  · simp only [tail, List.mem_append] at hc
    rcases hc with hc | hc
    · cases fraction with
      | none => simp at hc
      | some digits =>
        rcases List.mem_cons.mp hc with rfl | hc
        · decide
        · exact hdigit (h.fraction digits rfl c hc)
    · cases exponent with
      | none => simp at hc
      | some e =>
        obtain ⟨hmark, hdigits⟩ := h.exponent e.1 e.2 rfl
        simp only [List.cons_append, List.mem_cons, List.mem_append] at hc
        rcases hc with rfl | hc | hc
        · decide
        · rcases hmark with hm | hm <;> rw [hm] at hc <;> exact List.mem_singleton.mp hc ▸ by decide
        · exact hdigit (hdigits c hc)

/-- A numeral begins with a minus sign or a digit. -/
theorem Numeral.written_eq_cons {n : Numeral} (h : n.Plain) :
    ∃ c cs, n.written = c :: cs ∧ (c = '-' ∨ c.isDigit = true) := by
  rw [written_eq]
  rcases h.sign with hs | hs <;> rw [hs]
  · obtain ⟨c, cs, hw⟩ := List.exists_cons_of_ne_nil h.whole_ne_nil
    exact ⟨c, cs ++ n.tail, by rw [hw]; rfl, Or.inr (h.whole c (by rw [hw]; simp))⟩
  · exact ⟨'-', n.whole ++ n.tail, rfl, Or.inl rfl⟩

/-- The parts that the text of an integer is made of. -/
def Numeral.ofInt (i : Int) : Numeral :=
  ⟨if i < 0 then some '-' else none, Nat.toDigits 10 i.natAbs, none, none⟩

theorem Numeral.toList_toString (i : Int) : (toString i).toList = (ofInt i).written := by
  rcases lt_or_ge i 0 with hneg | hpos
  · obtain ⟨k, hk⟩ : ∃ k : Nat, i = Int.negSucc k := ⟨i.natAbs - 1, by omega⟩
    subst hk
    simp [ofInt, Numeral.written, hneg, toString, Int.repr]
  · obtain ⟨k, rfl⟩ := Int.eq_ofNat_of_zero_le hpos
    simp [ofInt, Numeral.written, toString, Int.repr]

theorem Numeral.plain_ofInt (i : Int) : (ofInt i).Plain := by
  refine ⟨?_, fun c hc => isDigit_of_mem_digits hc, Nat.toDigits_ne_nil, by simp [ofInt],
    by simp [ofInt]⟩
  simp only [ofInt]
  split
  · exact Or.inr rfl
  · exact Or.inl rfl

namespace Number

/-- The parts that the text of a number is made of. -/
def parts : Number → Numeral
  | .int i _ => ⟨if i < 0 then some '-' else none, Nat.toDigits 10 i.natAbs, none, none⟩
  | .double d => d.parts

theorem toList_text (n : Number) : n.text.toList = n.parts.written := by
  cases n with
  | int i h => exact Numeral.toList_toString i
  | double d => exact d.toList_text

theorem parts_plain (n : Number) : n.parts.Plain := by
  cases n with
  | int i h => exact Numeral.plain_ofInt i
  | double d => exact (Decimal.writes_parts _ _).plain

theorem isInteger_parts (n : Number) :
    n.parts.isInteger = match n with
      | .int _ _ => true
      | .double _ => false := by
  cases n with
  | int i h => rfl
  | double d => exact (Decimal.writes_parts _ _).not_isInteger

theorem parts_injective {a b : Number} (h : a.parts = b.parts) : a = b := by
  have hkind := congrArg Numeral.isInteger h
  rw [isInteger_parts, isInteger_parts] at hkind
  cases a with
  | int i hi =>
    cases b with
    | int j hj =>
      simp only [parts, Numeral.mk.injEq, and_true] at h
      obtain ⟨hsign, hdigits⟩ := h
      have habs : i.natAbs = j.natAbs := by
        rw [← digitsValue_toDigits i.natAbs, hdigits, digitsValue_toDigits]
      have hij : i = j := by
        split_ifs at hsign with h1 h2 h2 <;> omega
      subst hij
      rfl
    | double d => cases hkind
  | double d =>
    cases b with
    | int j hj => cases hkind
    | double e =>
      refine congrArg Number.double (Double.text_injective (String.toList_inj.mp ?_))
      rw [Double.toList_text, Double.toList_text]
      exact congrArg Numeral.written h

/-- **Different numbers have different texts.** -/
theorem text_injective {a b : Number} (h : a.text = b.text) : a = b := by
  have hscan := congrArg (fun s => Numeral.scan s.toList) h
  simp only [toList_text, Numeral.scan_written (parts_plain _), Option.some.injEq] at hscan
  exact parts_injective hscan

end Number

/-! ## 3. Values -/

/-- What follows a value does not continue a number. -/
def Stops (rest : List Char) : Prop := ∀ c, rest.head? = some c → Json.continuesNumeral c = false

theorem stops_cons {c : Char} (rest : List Char) (h : Json.continuesNumeral c = false) :
    Stops (c :: rest) := by
  intro d hd
  cases hd
  exact h

theorem Number.text_append_inj {a b : Number} {rest rest' : List Char} (hs : Stops rest)
    (hs' : Stops rest') (h : a.text.toList ++ rest = b.text.toList ++ rest') :
    a = b ∧ rest = rest' := by
  have htake : ∀ (n : Number) (more : List Char), Stops more →
      (n.text.toList ++ more).takeWhile Json.continuesNumeral = n.text.toList := by
    intro n more hmore
    rw [Number.toList_text, List.takeWhile_append_of_pos
      (fun c hc => Numeral.continues_of_mem_written n.parts_plain hc)]
    cases more with
    | nil => simp
    | cons c more => simp [hmore c rfl]
  have htext : a.text.toList = b.text.toList := by rw [← htake a rest hs, h, htake b rest' hs']
  refine ⟨Number.text_injective (String.toList_inj.mp htext), ?_⟩
  rw [htext] at h
  exact List.append_cancel_left h

namespace Value

/-- The characters that the text of a value may begin with. They tell the kind of the value. -/
def Begins : Value → Char → Prop
  | .null, c => c = 'n'
  | .bool true, c => c = 't'
  | .bool false, c => c = 'f'
  | .number _, c => c = '-' ∨ c.isDigit = true
  | .string _, c => c = '"'
  | .array _, c => c = '['
  | .object _, c => c = '\x7b'

theorem json_eq_cons (v : Value) : ∃ c cs, v.json.toList = c :: cs ∧ v.Begins c := by
  cases v with
  | null => exact ⟨'n', "ull".toList, by rw [json]; rfl, rfl⟩
  | bool b =>
    cases b
    · exact ⟨'f', "alse".toList, by rw [json]; rfl, rfl⟩
    · exact ⟨'t', "rue".toList, by rw [json]; rfl, rfl⟩
  | number n =>
    obtain ⟨c, cs, hw, hc⟩ := Numeral.written_eq_cons n.parts_plain
    exact ⟨c, cs, by rw [json, n.toList_text, hw], hc⟩
  | string s => exact ⟨'"', _, by rw [json, Json.toList_quote], rfl⟩
  | array items => exact ⟨'[', _, by rw [json]; simp; rfl, rfl⟩
  | object fields => exact ⟨'\x7b', _, by rw [json]; simp; rfl, rfl⟩

theorem begins_of_append_eq {v w : Value} {rest rest' : List Char}
    (h : v.json.toList ++ rest = w.json.toList ++ rest') : ∃ c, v.Begins c ∧ w.Begins c := by
  obtain ⟨c, cs, hv, hc⟩ := v.json_eq_cons
  obtain ⟨d, ds, hw, hd⟩ := w.json_eq_cons
  rw [hv, hw] at h
  exact ⟨c, hc, (List.cons.inj h).1 ▸ hd⟩

theorem Begins.ne_bracket {v : Value} {c : Char} (h : v.Begins c) : c ≠ ']' := by
  rintro rfl
  cases v with
  | bool b => cases b <;> cases h
  | number n =>
    rcases h with h | h
    · cases h
    · exact absurd h (by decide)
  | _ => cases h

/-- What stands after the first item of an array, up to the bracket that closes it. -/
def itemsTail (items : List Value) : List Char :=
  if items.isEmpty then [] else ',' :: (jsonItems items).toList

/-- What stands after the first field of an object, up to the brace that closes it. -/
def fieldsTail (fields : List (String × Value)) : List Char :=
  if fields.isEmpty then [] else ',' :: (jsonFields fields).toList

theorem toList_jsonItems_cons (v : Value) (items : List Value) :
    (jsonItems (v :: items)).toList = v.json.toList ++ itemsTail items := by
  cases items <;> simp [jsonItems, itemsTail]

theorem toList_jsonFields_cons (name : String) (v : Value) (fields : List (String × Value)) :
    (jsonFields ((name, v) :: fields)).toList
      = (Json.quote name).toList ++ ':' :: (v.json.toList ++ fieldsTail fields) := by
  obtain _ | ⟨⟨next, w⟩, fields⟩ := fields <;> simp [jsonFields, fieldsTail]

theorem toList_json_array (items : List Value) :
    (Value.array items).json.toList = '[' :: ((jsonItems items).toList ++ [']']) := by
  simp [json]

theorem toList_json_object (fields : List (String × Value)) :
    (Value.object fields).json.toList = '\x7b' :: ((jsonFields fields).toList ++ ['\x7d']) := by
  simp [json]

theorem stops_itemsTail (items : List Value) (rest : List Char) :
    Stops (itemsTail items ++ ']' :: rest) := by
  unfold itemsTail
  split <;> exact stops_cons _ (by decide)

theorem stops_fieldsTail (fields : List (String × Value)) (rest : List Char) :
    Stops (fieldsTail fields ++ '\x7d' :: rest) := by
  unfold fieldsTail
  split <;> exact stops_cons _ (by decide)

theorem Begins.typeName_eq {v w : Value} {c : Char} (hv : v.Begins c) (hw : w.Begins c) :
    v.typeName = w.typeName := by
  have hdigit : ∀ d : Char, d.isDigit = false → d ≠ '-' → ¬(d = '-' ∨ d.isDigit = true) := by
    rintro d hd hne (h | h)
    · exact hne h
    · rw [hd] at h
      cases h
  rcases v with _ | (_ | _) | n | s | xs | fs <;> rcases w with _ | (_ | _) | m | t | ys | gs <;>
    first
    | rfl
    | (cases hv; cases hw; done)
    | (cases hv; exact absurd hw (hdigit _ (by decide) (by decide)))
    | (cases hw; exact absurd hv (hdigit _ (by decide) (by decide)))

theorem bool_eq_of_begins {a b : Bool} {c : Char} (ha : (Value.bool a).Begins c)
    (hb : (Value.bool b).Begins c) : a = b := by
  cases a <;> cases b <;> first | rfl | (cases ha; cases hb)

mutual

/-- **No text of a value begins another one.** -/
theorem json_append_inj (v w : Value) {rest rest' : List Char} (hs : Stops rest)
    (hs' : Stops rest') (h : v.json.toList ++ rest = w.json.toList ++ rest') :
    v = w ∧ rest = rest' := by
  obtain ⟨c, hv, hw⟩ := begins_of_append_eq h
  have htype := hv.typeName_eq hw
  cases v with
  | null =>
    cases w with
    | null => exact ⟨rfl, List.append_cancel_left h⟩
    | _ => simp [typeName] at htype
  | bool b =>
    cases w with
    | bool b' =>
      obtain rfl := bool_eq_of_begins hv hw
      exact ⟨rfl, List.append_cancel_left h⟩
    | _ => simp [typeName] at htype
  | number n =>
    cases w with
    | number m =>
      rw [json, json] at h
      obtain ⟨rfl, hrest⟩ := Number.text_append_inj hs hs' h
      exact ⟨rfl, hrest⟩
    | _ => simp [typeName] at htype
  | string s =>
    cases w with
    | string t =>
      rw [json, json] at h
      obtain ⟨rfl, hrest⟩ := Json.quote_append_inj h
      exact ⟨rfl, hrest⟩
    | _ => simp [typeName] at htype
  | array xs =>
    cases w with
    | array ys =>
      rw [toList_json_array, toList_json_array] at h
      simp only [List.cons_append, List.append_assoc, List.nil_append, List.cons.injEq,
        true_and] at h
      obtain ⟨rfl, hrest⟩ := jsonItems_append_inj xs ys h
      exact ⟨rfl, hrest⟩
    | _ => simp [typeName] at htype
  | object fs =>
    cases w with
    | object gs =>
      rw [toList_json_object, toList_json_object] at h
      simp only [List.cons_append, List.append_assoc, List.nil_append, List.cons.injEq,
        true_and] at h
      obtain ⟨rfl, hrest⟩ := jsonFields_append_inj fs gs h
      exact ⟨rfl, hrest⟩
    | _ => simp [typeName] at htype

theorem jsonItems_append_inj (xs ys : List Value) {rest rest' : List Char}
    (h : (jsonItems xs).toList ++ ']' :: rest = (jsonItems ys).toList ++ ']' :: rest') :
    xs = ys ∧ rest = rest' := by
  have hempty : ∀ (v : Value) (vs : List Value) (more more' : List Char),
      ']' :: more ≠ (jsonItems (v :: vs)).toList ++ more' := by
    intro v vs more more' heq
    obtain ⟨c, cs, hc, hbegins⟩ := v.json_eq_cons
    rw [toList_jsonItems_cons, hc] at heq
    exact hbegins.ne_bracket (List.cons.inj heq).1.symm
  cases xs with
  | nil =>
    cases ys with
    | nil => exact ⟨rfl, by simpa [jsonItems] using h⟩
    | cons w ws => exact absurd (by simpa [jsonItems] using h) (hempty w ws rest _)
  | cons v vs =>
    cases ys with
    | nil => exact absurd (by simpa [jsonItems] using h.symm) (hempty v vs rest' _)
    | cons w ws =>
      rw [toList_jsonItems_cons, toList_jsonItems_cons, List.append_assoc, List.append_assoc] at h
      obtain ⟨rfl, htail⟩ := json_append_inj v w (stops_itemsTail vs rest)
        (stops_itemsTail ws rest') h
      cases vs with
      | nil =>
        cases ws with
        | nil => exact ⟨rfl, by simpa [itemsTail] using htail⟩
        | cons w' ws => simp [itemsTail] at htail
      | cons v' vs =>
        cases ws with
        | nil => simp [itemsTail] at htail
        | cons w' ws =>
          obtain ⟨hvs, hrest⟩ := jsonItems_append_inj (v' :: vs) (w' :: ws)
            (List.cons.inj htail).2
          exact ⟨by rw [hvs], hrest⟩

theorem jsonFields_append_inj (fs gs : List (String × Value)) {rest rest' : List Char}
    (h : (jsonFields fs).toList ++ '\x7d' :: rest = (jsonFields gs).toList ++ '\x7d' :: rest') :
    fs = gs ∧ rest = rest' := by
  have hempty : ∀ (f : String × Value) (fs : List (String × Value)) (more more' : List Char),
      '\x7d' :: more ≠ (jsonFields (f :: fs)).toList ++ more' := by
    intro f fs more more' heq
    rw [toList_jsonFields_cons f.1 f.2, Json.toList_quote] at heq
    exact absurd (List.cons.inj heq).1 (by decide)
  cases fs with
  | nil =>
    cases gs with
    | nil => exact ⟨rfl, by simpa [jsonFields] using h⟩
    | cons g gs => exact absurd (by simpa [jsonFields] using h) (hempty g gs rest _)
  | cons f fs =>
    cases gs with
    | nil => exact absurd (by simpa [jsonFields] using h.symm) (hempty f fs rest' _)
    | cons g gs =>
      obtain ⟨name, v⟩ := f
      obtain ⟨name', w⟩ := g
      rw [toList_jsonFields_cons, toList_jsonFields_cons, List.append_assoc, List.append_assoc] at h
      obtain ⟨rfl, hvalue⟩ := Json.quote_append_inj h
      simp only [List.cons_append, List.cons.injEq, true_and, List.append_assoc] at hvalue
      obtain ⟨rfl, htail⟩ := json_append_inj v w (stops_fieldsTail fs rest)
        (stops_fieldsTail gs rest') hvalue
      cases fs with
      | nil =>
        cases gs with
        | nil => exact ⟨rfl, by simpa [fieldsTail] using htail⟩
        | cons g gs => simp [fieldsTail] at htail
      | cons f fs =>
        cases gs with
        | nil => simp [fieldsTail] at htail
        | cons g gs =>
          obtain ⟨hfs, hrest⟩ := jsonFields_append_inj (f :: fs) (g :: gs) (List.cons.inj htail).2
          exact ⟨by rw [hfs], hrest⟩

end

/-- **Different values have different texts.** -/
theorem json_injective {v w : Value} (h : v.json = w.json) : v = w := by
  have hnil : Stops [] := fun c hc => by cases hc
  exact (json_append_inj v w hnil hnil (by rw [h])).1

/-- Objects with one fingerprint are equal. -/
theorem object_eq_of_fingerprint_eq {fs gs : Fields}
    (h : (Value.object fs).fingerprint = (Value.object gs).fingerprint) : fs = gs := by
  cases json_injective (v := .object fs) (w := .object gs) h
  rfl

end Value

end QueryAlgebra
