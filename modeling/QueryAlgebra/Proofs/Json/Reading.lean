import QueryAlgebra.Proofs.Double.Reading
import QueryAlgebra.Proofs.Value.Fingerprint

/-!
# Reading what was written

The text of an array or an object is read exactly when it nests no deeper than the reader allows
(`read_text`): every number reads, as an integer or as a double near the one that was written, and of a
repeated field name the first place and the last value count. A document with distinct field names
whose numbers read back as themselves is therefore read back as it is (`read_json`).

* `run_quote`, `run_number`: the characters of a string or a number become one token.
* `Value.depth`, `Value.reread`: how deeply a value nests, and what its text is read as.
* `completes`: the text of a value, where a value may stand, completes the value, or nests too deeply.
  This is an induction on the value, for every stack of open arrays and objects.
* `Value.Readable`: values that read back as themselves.
-/

namespace QueryAlgebra

/-! ## 1. Numbers -/

/-- The parts of a number are read as the number. -/
def Number.ReadsBack (n : Number) : Prop := Json.numberOf n.parts = some n

theorem Number.strict_parts (n : Number) : n.parts.strict = true := by
  cases n with
  | double d => exact (Decimal.writes_parts _ _).strict
  | int i h =>
    have hne := Nat.toDigits_ne_nil (b := 10) (n := i.natAbs)
    have hhead : (Nat.toDigits 10 i.natAbs).length = 1 ∨
        (Nat.toDigits 10 i.natAbs).head? ≠ some '0' := by
      rcases Nat.eq_zero_or_pos i.natAbs with h0 | hpos
      · rw [h0]
        exact Or.inl rfl
      · exact Or.inr (head_toDigits hpos)
    have hsign : (if i < 0 then some '-' else none) ≠ some '+' := by
      split <;> decide
    rcases hhead with hlen | hhead <;> simp_all [parts, Numeral.strict, Numeral.exponentComplete]

/-- **Every integer reads back.** -/
theorem Number.int_readsBack (i : Int) (h : -0x8000000000000000 ≤ i ∧ i < 0x10000000000000000) :
    (Number.int i h).ReadsBack := by
  have hnegative : (Number.int i h).parts.isNegative = decide (i < 0) := by
    simp only [parts, Numeral.isNegative]
    by_cases hi : i < 0 <;> simp [hi]
  have hvalue :
      (if decide (i < 0) = true then -((i.natAbs : Nat) : Int) else (i.natAbs : Nat)) = i := by
    simp only [decide_eq_true_eq]
    split <;> omega
  unfold ReadsBack Json.numberOf Json.integerOf
  rw [hnegative]
  simp only [parts, digitsValue_toDigits, hvalue]
  rw [if_pos, Number.ofInt?, dif_pos h]
  · rfl
  · simp [Numeral.isInteger]
    omega

/-- What the text of a number is read as. -/
def Number.reread (n : Number) : Number := (Json.numberOf n.parts).getD n

/-- **The text of every number is read.** -/
theorem Number.numberOf_parts (n : Number) : Json.numberOf n.parts = some n.reread := by
  have hread : (Json.numberOf n.parts).isSome = true := by
    cases n with
    | int i h =>
      rw [Number.int_readsBack i h]
      rfl
    | double d =>
      obtain ⟨e, he⟩ := Option.isSome_iff_exists.mp d.toDouble_parts
      unfold Json.numberOf
      rw [show (Number.double d).parts = d.parts from rfl, he]
      cases Json.integerOf d.parts <;> rfl
  obtain ⟨m, hm⟩ := Option.isSome_iff_exists.mp hread
  unfold reread
  rw [hm]
  rfl

theorem Number.ReadsBack.reread_eq {n : Number} (h : n.ReadsBack) : n.reread = n := by
  unfold Number.reread
  rw [show Json.numberOf n.parts = some n from h]
  rfl

namespace Json

theorem numeralToken_text (n : Number) :
    numeralToken n.text.toList.reverse = some (.scalar (.number n.reread)) := by
  unfold numeralToken
  rw [List.reverse_reverse, n.toList_text, Numeral.scan_written n.parts_plain]
  show (if n.parts.strict = true then _ else none) = _
  rw [if_pos n.strict_parts, n.numberOf_parts]
  rfl

/-! ## 2. Tokens -/

section Tokens

variable {limit : Nat} {b : Build}

/-- Reading character after character. -/
def Read.run (limit : Nat) (r : Read) (cs : List Char) : Option Read :=
  cs.foldlM (Read.step limit) r

theorem run_cons (r : Read) (c : Char) (cs : List Char) :
    r.run limit (c :: cs) = (r.step limit c).bind (fun r' => r'.run limit cs) := rfl

theorem run_append (r : Read) (xs ys : List Char) :
    r.run limit (xs ++ ys) = (r.run limit xs).bind (fun r' => r'.run limit ys) := by
  unfold Read.run
  rw [List.foldlM_append]
  rfl

theorem step_of_scan {scan next : Scan} {c : Char} (h : scan.step c = some (next, [])) :
    Read.step limit ⟨scan, b⟩ c = some ⟨next, b⟩ := by
  unfold Read.step
  simp only [h]
  rfl

/-- The character after a number or a word ends it, and is then read by itself. -/
theorem step_end {scan : Scan} {c : Char} {t : Token} (h : scan.step c = endToken (some t) c) :
    Read.step limit ⟨scan, b⟩ c
      = (b.step limit t).bind (fun b' => Read.step limit ⟨.ground, b'⟩ c) := by
  have hground : ∀ b', Read.step limit ⟨.ground, b'⟩ c
      = (scanGround c).bind (fun p => (p.2.foldlM (Build.step limit) b').bind
          (fun b'' => some ⟨p.1, b''⟩)) := fun b' => rfl
  have hleft : Read.step limit ⟨scan, b⟩ c
      = (scan.step c).bind (fun p => (p.2.foldlM (Build.step limit) b).bind
          (fun b'' => some ⟨p.1, b''⟩)) := rfl
  simp only [hleft, hground, h, endToken]
  cases scanGround c with
  | none => cases b.step limit t <;> rfl
  | some p =>
    show (List.foldlM (Build.step limit) b (t :: p.2)).bind _ = _
    rw [List.foldlM_cons]
    cases b.step limit t <;> rfl

theorem scanGround_numeral {c : Char} (h : c = '-' ∨ c.isDigit = true) :
    scanGround c = some (.numeral [c], []) := by
  rcases h with rfl | h
  · rfl
  · unfold scanGround
    split <;> first
      | (exact absurd h (by decide))
      | (rw [if_pos (Or.inr h)])

theorem run_continued {read cs : List Char} (h : ∀ c ∈ cs, continuesNumeral c = true) :
    Read.run limit ⟨.numeral read, b⟩ cs = some ⟨.numeral (cs.reverse ++ read), b⟩ := by
  induction cs generalizing read with
  | nil => rfl
  | cons c cs ih =>
    obtain ⟨hc, hcs⟩ := List.forall_mem_cons.mp h
    have hstep : (Scan.numeral read).step c = some (.numeral (c :: read), []) := by
      rw [Scan.step, if_pos hc]
    rw [run_cons, step_of_scan hstep, Option.bind_some, ih hcs, List.reverse_cons, List.append_assoc]
    rfl

/-- What ends a token is read by itself, after the token. -/
theorem run_end {scan : Scan} {c : Char} {t : Token} (h : scan.step c = endToken (some t) c)
    (cs : List Char) :
    Read.run limit ⟨scan, b⟩ (c :: cs)
      = (b.step limit t).bind (fun b' => Read.run limit ⟨.ground, b'⟩ (c :: cs)) := by
  rw [run_cons, step_end h]
  cases b.step limit t <;> rfl

/-- **The characters of a number become one token,** once one comes that does not continue it. -/
theorem run_number (n : Number) {c : Char} (hc : continuesNumeral c = false) (cs : List Char) :
    Read.run limit ⟨.ground, b⟩ (n.text.toList ++ c :: cs)
      = (b.step limit (.scalar (.number n.reread))).bind
          (fun b' => Read.run limit ⟨.ground, b'⟩ (c :: cs)) := by
  obtain ⟨d, ds, hw, hd⟩ := Numeral.written_eq_cons n.parts_plain
  have htext : n.text.toList = d :: ds := by rw [n.toList_text, hw]
  have hds : ∀ x ∈ ds, continuesNumeral x = true := fun x hx =>
    Numeral.continues_of_mem_written n.parts_plain (by rw [hw]; exact List.mem_cons_of_mem d hx)
  have hnumber : Read.run limit ⟨.ground, b⟩ n.text.toList
      = some ⟨.numeral n.text.toList.reverse, b⟩ := by
    have hstep : Scan.ground.step d = some (.numeral [d], []) := scanGround_numeral hd
    rw [htext, run_cons, step_of_scan hstep, Option.bind_some, run_continued hds,
      List.reverse_cons]
  have hend : (Scan.numeral n.text.toList.reverse).step c
      = endToken (some (.scalar (.number n.reread))) c := by
    rw [Scan.step, if_neg (by rw [hc]; exact Bool.false_ne_true), numeralToken_text]
  rw [run_append, hnumber, Option.bind_some, run_end hend]

theorem run_word {word : String} {v : Value} (hfirst : ∀ b' : Build,
      Read.run limit ⟨.ground, b'⟩ word.toList = some ⟨.word word.toList.reverse, b'⟩)
    (hword : wordToken word.toList.reverse = some (.scalar v)) {c : Char} (hc : c.isAlpha = false)
    (cs : List Char) :
    Read.run limit ⟨.ground, b⟩ (word.toList ++ c :: cs)
      = (b.step limit (.scalar v)).bind (fun b' => Read.run limit ⟨.ground, b'⟩ (c :: cs)) := by
  have hend : (Scan.word word.toList.reverse).step c = endToken (some (.scalar v)) c := by
    rw [Scan.step, if_neg (by rw [hc]; exact Bool.false_ne_true), hword]
  rw [run_append, hfirst, Option.bind_some, run_end hend]

theorem run_escapeChar (read : List Char) (c : Char) :
    Read.run limit ⟨.text read, b⟩ (escapeChar c) = some ⟨.text (c :: read), b⟩ := by
  have hslash : (Scan.text read).step '\\' = some (.escape read, []) := rfl
  rcases escapeChar_cases c with ⟨hc, hq, hs, hlt⟩ | ⟨d, hc, hu, hshort⟩ | ⟨hlt, hc⟩
  · have hstep : (Scan.text read).step c = some (.text (c :: read), []) := by
      rw [Scan.step, if_neg hq, if_neg hs, if_neg hlt]
    rw [hc, run_cons, step_of_scan hstep]
    rfl
  · have hstep : (Scan.escape read).step d = some (.text (c :: read), []) := by
      rw [Scan.step, if_neg hu, hshort]
      rfl
    rw [hc, run_cons, step_of_scan hslash, Option.bind_some, run_cons, step_of_scan hstep]
    rfl
  · have hhigh := hexValue_hexDigit (n := c.toNat / 16) (by omega)
    have hlow := hexValue_hexDigit (n := c.toNat % 16) (by omega)
    have hunit : unitRead read none c.toNat = some (.text (c :: read)) := by
      unfold unitRead
      simp only
      rw [if_neg (by omega), if_neg (by omega), Char.ofNat_toNat]
    have hu : (Scan.escape read).step 'u' = some (.unit read none 0 0, []) := rfl
    have hzero : (Scan.unit read none 0 0).step '0' = some (.unit read none 1 0, []) := rfl
    have hzero' : (Scan.unit read none 1 0).step '0' = some (.unit read none 2 0, []) := rfl
    have hthird : (Scan.unit read none 2 0).step (hexDigit (c.toNat / 16))
        = some (.unit read none 3 (c.toNat / 16), []) := by
      simp [Scan.step, hhigh]
    have hfourth : (Scan.unit read none 3 (c.toNat / 16)).step (hexDigit (c.toNat % 16))
        = some (.text (c :: read), []) := by
      simp [Scan.step, hlow, Nat.div_add_mod', hunit]
    rw [hc, run_cons, step_of_scan hslash, Option.bind_some, run_cons, step_of_scan hu,
      Option.bind_some, run_cons, step_of_scan hzero, Option.bind_some, run_cons,
      step_of_scan hzero', Option.bind_some, run_cons, step_of_scan hthird, Option.bind_some,
      run_cons, step_of_scan hfourth]
    rfl

theorem run_escaped (read cs : List Char) :
    Read.run limit ⟨.text read, b⟩ (cs.flatMap escapeChar) = some ⟨.text (cs.reverse ++ read), b⟩ := by
  induction cs generalizing read with
  | nil => rfl
  | cons c cs ih =>
    rw [List.flatMap_cons, run_append, run_escapeChar, Option.bind_some, ih, List.reverse_cons,
      List.append_assoc]
    rfl

/-- A character that is a token by itself. -/
theorem run_token {c : Char} {t : Token} (h : scanGround c = some (.ground, [t])) (cs : List Char) :
    Read.run limit ⟨.ground, b⟩ (c :: cs)
      = (b.step limit t).bind (fun b' => Read.run limit ⟨.ground, b'⟩ cs) := by
  have hstep : Read.step limit ⟨.ground, b⟩ c
      = (scanGround c).bind (fun p => (p.2.foldlM (Build.step limit) b).bind
          (fun b' => some ⟨p.1, b'⟩)) := rfl
  rw [run_cons, hstep, h, Option.bind_some, List.foldlM_cons]
  cases b.step limit t <;> rfl

/-- **The characters of a string between quotes become one token.** -/
theorem run_quote (s : String) (cs : List Char) :
    Read.run limit ⟨.ground, b⟩ ((quote s).toList ++ cs)
      = (b.step limit (.string s)).bind (fun b' => Read.run limit ⟨.ground, b'⟩ cs) := by
  have hopen : Scan.ground.step '"' = some (.text [], []) := rfl
  have hclose : ∀ read : List Char, Read.step limit ⟨.text read, b⟩ '"'
      = (b.step limit (.string (String.ofList read.reverse))).bind
          (fun b' => some ⟨.ground, b'⟩) := by
    intro read
    show ([Token.string (String.ofList read.reverse)].foldlM (Build.step limit) b).bind _ = _
    rw [List.foldlM_cons]
    cases b.step limit (.string (String.ofList read.reverse)) <;> rfl
  rw [toList_quote, List.cons_append, run_cons, step_of_scan hopen, Option.bind_some,
    List.append_assoc, run_append, run_escaped, Option.bind_some, List.cons_append, run_cons, hclose,
    List.append_nil, List.reverse_reverse, String.ofList_toList]
  cases b.step limit (.string s) <;> rfl

end Tokens

/-! ## 3. Values -/

end Json

namespace Value

mutual

/-- How deeply arrays and objects nest in a value. -/
def depth : Value → Nat
  | .null => 0
  | .bool _ => 0
  | .number _ => 0
  | .string _ => 0
  | .array items => depthItems items + 1
  | .object fields => depthFields fields + 1

/-- How deeply they nest in the items of an array. -/
def depthItems : List Value → Nat
  | [] => 0
  | v :: items => max v.depth (depthItems items)

/-- How deeply they nest in the fields of an object. -/
def depthFields : List (String × Value) → Nat
  | [] => 0
  | (_, v) :: fields => max v.depth (depthFields fields)

end

mutual

/-- What the text of a value is read as. -/
def reread : Value → Value
  | .null => .null
  | .bool b => .bool b
  | .number n => .number n.reread
  | .string s => .string s
  | .array items => .array (rereadItems items)
  | .object fields => .object (rereadFields [] fields)

/-- What the texts of the items of an array are read as. -/
def rereadItems : List Value → List Value
  | [] => []
  | v :: items => v.reread :: rereadItems items

/-- The fields of an object, after those read before. -/
def rereadFields (before : Fields) : List (String × Value) → Fields
  | [] => before
  | (name, v) :: fields => rereadFields (before.set name v.reread) fields

end

theorem depthItems_le_iff {items : List Value} {d : Nat} :
    depthItems items ≤ d ↔ ∀ v ∈ items, v.depth ≤ d := by
  induction items with
  | nil => simp [depthItems]
  | cons v items ih => simp [depthItems, ih]

theorem depthFields_le_iff {fields : Fields} {d : Nat} :
    depthFields fields ≤ d ↔ ∀ f ∈ fields, f.2.depth ≤ d := by
  induction fields with
  | nil => simp [depthFields]
  | cons f fields ih =>
    obtain ⟨name, v⟩ := f
    simp [depthFields, ih]

end Value

/-- An array or an object shows where it ends. -/
def Value.Closes : Value → Prop
  | .array _ | .object _ => True
  | _ => False

namespace Json

/-- What ends a number or a word stands next. -/
def Delimited (rest : List Char) : Prop :=
  ∃ c cs, rest = c :: cs ∧ continuesNumeral c = false ∧ c.isAlpha = false

/-- A value may stand next. -/
def Build.Awaits (b : Build) : Prop := b.expect = .value ∨ b.expect = .firstItem

/-- Where a value may stand, its text completes it, unless it nests too deeply there. -/
def Completes (limit : Nat) (v : Value) : Prop :=
  ∀ b : Build, b.Awaits → b.stack.length ≤ limit → ∀ rest, Delimited rest ∨ v.Closes →
    Read.run limit ⟨.ground, b⟩ (v.json.toList ++ rest)
      = if b.stack.length + v.depth ≤ limit then
          Read.run limit ⟨.ground, ⟨b.stack, .next v.reread⟩⟩ rest
        else none

section Values

variable {limit : Nat}

theorem delimited_itemsTail (items : List Value) (rest : List Char) :
    Delimited (Value.itemsTail items ++ ']' :: rest) := by
  unfold Value.itemsTail
  split
  · exact ⟨']', rest, rfl, by decide, by decide⟩
  · exact ⟨',', _, rfl, by decide, by decide⟩

theorem delimited_fieldsTail (fields : Fields) (rest : List Char) :
    Delimited (Value.fieldsTail fields ++ '\x7d' :: rest) := by
  unfold Value.fieldsTail
  split
  · exact ⟨'\x7d', rest, rfl, by decide, by decide⟩
  · exact ⟨',', _, rfl, by decide, by decide⟩

theorem step_awaits {b : Build} (hb : b.Awaits) {t : Token} (ht : t ≠ .closeArray) :
    b.step limit t = b.stepValue limit t := by
  obtain ⟨stack, expect⟩ := b
  rcases hb with hb | hb <;> simp only at hb <;> subst hb
  · rfl
  · cases t <;> first | rfl | exact absurd rfl ht

/-- Two conditions, one after the other, are the one that both hold. -/
theorem ite_ite_none {α : Type} {p q r : Prop} [Decidable p] [Decidable q] [Decidable r]
    (h : r ↔ p ∧ q) (x : Option α) :
    (if p then (if q then x else none) else none) = if r then x else none := by
  by_cases hp : p <;> by_cases hq : q <;> simp [hp, hq, h]

/-- The items of an array after the one just completed. -/
theorem run_items {items : List Value} (h : ∀ v ∈ items, Completes limit v) {stack : List Frame}
    (hstack : stack.length + 1 ≤ limit) (before : List Value) (v : Value) (rest : List Char) :
    Read.run limit ⟨.ground, ⟨.items before :: stack, .next v⟩⟩
        (Value.itemsTail items ++ ']' :: rest)
      = if stack.length + 1 + Value.depthItems items ≤ limit then
          Read.run limit
            ⟨.ground, ⟨stack, .next (.array (before.reverse ++ v :: Value.rereadItems items))⟩⟩ rest
        else none := by
  induction items generalizing before v with
  | nil =>
    show Read.run limit _ (']' :: rest) = _
    rw [run_token rfl, List.append_cons, Value.rereadItems, List.append_nil, ← List.reverse_cons,
      if_pos (by simpa [Value.depthItems] using hstack)]
    rfl
  | cons w items ih =>
    obtain ⟨hw, hitems⟩ := List.forall_mem_cons.mp h
    have htail : Value.itemsTail (w :: items) ++ ']' :: rest
        = ',' :: (w.json.toList ++ (Value.itemsTail items ++ ']' :: rest)) := by
      rw [Value.itemsTail, if_neg (by simp), Value.toList_jsonItems_cons]
      simp
    have hcomma : Build.step limit ⟨.items before :: stack, .next v⟩ .comma
        = some ⟨.items (v :: before) :: stack, .value⟩ := rfl
    have hfits : stack.length + 1 + Value.depthItems (w :: items) ≤ limit ↔
        stack.length + 1 + w.depth ≤ limit
          ∧ stack.length + 1 + Value.depthItems items ≤ limit := by
      rw [Value.depthItems]
      omega
    rw [htail, run_token rfl, hcomma, Option.bind_some,
      hw ⟨.items (v :: before) :: stack, .value⟩ (Or.inl rfl) hstack _
        (Or.inl (delimited_itemsTail items rest)), ih hitems]
    refine (ite_ite_none hfits _).trans ?_
    rw [Value.rereadItems, List.reverse_cons, List.append_assoc, List.singleton_append]

/-- The fields of an object after the one just completed. -/
theorem run_fields {fields : Fields} (h : ∀ f ∈ fields, Completes limit f.2)
    {stack : List Frame} (hstack : stack.length + 1 ≤ limit) (before : Fields) (name : String)
    (v : Value) (rest : List Char) :
    Read.run limit ⟨.ground, ⟨.fields before name :: stack, .next v⟩⟩
        (Value.fieldsTail fields ++ '\x7d' :: rest)
      = if stack.length + 1 + Value.depthFields fields ≤ limit then
          Read.run limit
            ⟨.ground, ⟨stack, .next (.object (Value.rereadFields (before.set name v) fields))⟩⟩ rest
        else none := by
  induction fields generalizing before name v with
  | nil =>
    show Read.run limit _ ('\x7d' :: rest) = _
    rw [run_token rfl, Value.rereadFields, if_pos (by simpa [Value.depthFields] using hstack)]
    rfl
  | cons f fields ih =>
    obtain ⟨next, w⟩ := f
    obtain ⟨hw, hfields⟩ := List.forall_mem_cons.mp h
    have htail : Value.fieldsTail ((next, w) :: fields) ++ '\x7d' :: rest
        = ',' :: ((quote next).toList
            ++ ':' :: (w.json.toList ++ (Value.fieldsTail fields ++ '\x7d' :: rest))) := by
      rw [Value.fieldsTail, if_neg (by simp), Value.toList_jsonFields_cons]
      simp
    have hcomma : Build.step limit ⟨.fields before name :: stack, .next v⟩ .comma
        = some ⟨stack, .name (before.set name v)⟩ := rfl
    have hname : Build.step limit ⟨stack, .name (before.set name v)⟩ (.string next)
        = some ⟨stack, .colon (before.set name v) next⟩ := rfl
    have hcolon : Build.step limit ⟨stack, .colon (before.set name v) next⟩ .colon
        = some ⟨.fields (before.set name v) next :: stack, .value⟩ := rfl
    have hfits : stack.length + 1 + Value.depthFields ((next, w) :: fields) ≤ limit ↔
        stack.length + 1 + w.depth ≤ limit
          ∧ stack.length + 1 + Value.depthFields fields ≤ limit := by
      rw [Value.depthFields]
      omega
    rw [htail, run_token rfl, hcomma, Option.bind_some, run_quote, hname, Option.bind_some,
      run_token rfl, hcolon, Option.bind_some,
      hw ⟨.fields (before.set name v) next :: stack, .value⟩ (Or.inl rfl) hstack _
        (Or.inl (delimited_fieldsTail fields rest)), ih hfields]
    exact ite_ite_none hfits _

/-- A value without items and fields completes wherever its text becomes one token. -/
theorem completes_token {v : Value} (hdepth : v.depth = 0) (hrun : ∀ b : Build, b.Awaits →
      ∀ rest, Delimited rest ∨ v.Closes → Read.run limit ⟨.ground, b⟩ (v.json.toList ++ rest)
        = Read.run limit ⟨.ground, ⟨b.stack, .next v.reread⟩⟩ rest) : Completes limit v := by
  intro b hb hstack rest hrest
  rw [hrun b hb rest hrest, hdepth, Nat.add_zero, if_pos hstack]

theorem completes_word {word : String} {v : Value} (hjson : v.json = word) (hdepth : v.depth = 0)
    (hclosed : ¬v.Closes) (hfirst : ∀ b : Build,
      Read.run limit ⟨.ground, b⟩ word.toList = some ⟨.word word.toList.reverse, b⟩)
    (hword : wordToken word.toList.reverse = some (.scalar v.reread)) : Completes limit v := by
  refine completes_token hdepth (fun b hb rest hrest => ?_)
  obtain ⟨c, cs, rfl, -, halpha⟩ := hrest.resolve_right hclosed
  rw [hjson, run_word hfirst hword halpha, step_awaits hb (by simp)]
  rfl

theorem completes_array {items : List Value} (h : ∀ v ∈ items, Completes limit v) :
    Completes limit (.array items) := by
  intro b hb hstack rest _
  have hstep : b.step limit .openArray
      = if b.stack.length < limit then some ⟨.items [] :: b.stack, .firstItem⟩ else none := by
    rw [step_awaits hb (by simp), Build.stepValue, Build.mayNest]
    simp only [decide_eq_true_eq]
  rw [Value.toList_json_array, List.cons_append, run_token rfl, hstep]
  by_cases hopen : b.stack.length < limit
  · rw [if_pos hopen, Option.bind_some]
    cases items with
    | nil =>
      rw [if_pos (by simpa [Value.depth, Value.depthItems] using hopen)]
      rfl
    | cons v items =>
      obtain ⟨hv, hitems⟩ := List.forall_mem_cons.mp h
      have hfits : b.stack.length + (Value.array (v :: items)).depth ≤ limit ↔
          b.stack.length + 1 + v.depth ≤ limit
            ∧ b.stack.length + 1 + Value.depthItems items ≤ limit := by
        rw [Value.depth, Value.depthItems]
        omega
      rw [Value.toList_jsonItems_cons, List.append_assoc, List.append_assoc, List.singleton_append,
        hv ⟨.items [] :: b.stack, .firstItem⟩ (Or.inr rfl) hopen _
          (Or.inl (delimited_itemsTail items rest))]
      show (if b.stack.length + 1 + v.depth ≤ limit then
        Read.run limit _ (Value.itemsTail items ++ ']' :: rest) else none) = _
      rw [run_items hitems hopen]
      exact ite_ite_none hfits _
  · have hdeep : ¬b.stack.length + (Value.array items).depth ≤ limit := by
      rw [Value.depth]
      omega
    rw [if_neg hopen, if_neg hdeep]
    rfl

theorem completes_object {fields : Fields} (h : ∀ f ∈ fields, Completes limit f.2) :
    Completes limit (.object fields) := by
  intro b hb hstack rest _
  have hstep : b.step limit .openObject
      = if b.stack.length < limit then some ⟨b.stack, .firstName⟩ else none := by
    rw [step_awaits hb (by simp), Build.stepValue, Build.mayNest]
    simp only [decide_eq_true_eq]
  rw [Value.toList_json_object, List.cons_append, run_token rfl, hstep]
  by_cases hopen : b.stack.length < limit
  · rw [if_pos hopen, Option.bind_some]
    cases fields with
    | nil =>
      rw [if_pos (by simpa [Value.depth, Value.depthFields] using hopen)]
      rfl
    | cons f fields =>
      obtain ⟨name, v⟩ := f
      have hv : Completes limit v := h (name, v) List.mem_cons_self
      have hfields := (List.forall_mem_cons.mp h).2
      have hname : Build.step limit ⟨b.stack, .firstName⟩ (.string name)
          = some ⟨b.stack, .colon [] name⟩ := rfl
      have hcolon : Build.step limit ⟨b.stack, .colon [] name⟩ .colon
          = some ⟨.fields [] name :: b.stack, .value⟩ := rfl
      have hfits : b.stack.length + (Value.object ((name, v) :: fields)).depth ≤ limit ↔
          b.stack.length + 1 + v.depth ≤ limit
            ∧ b.stack.length + 1 + Value.depthFields fields ≤ limit := by
        rw [Value.depth, Value.depthFields]
        omega
      rw [Value.toList_jsonFields_cons, List.append_assoc, List.append_assoc, run_quote, hname,
        Option.bind_some, List.cons_append, run_token rfl, hcolon, Option.bind_some,
        List.append_assoc, List.singleton_append,
        hv ⟨.fields [] name :: b.stack, .value⟩ (Or.inl rfl) hopen _
          (Or.inl (delimited_fieldsTail fields rest))]
      show (if b.stack.length + 1 + v.depth ≤ limit then
        Read.run limit _ (Value.fieldsTail fields ++ '\x7d' :: rest) else none) = _
      rw [run_fields hfields hopen]
      exact ite_ite_none hfits _
  · have hdeep : ¬b.stack.length + (Value.object fields).depth ≤ limit := by
      rw [Value.depth]
      omega
    rw [if_neg hopen, if_neg hdeep]
    rfl

mutual

/-- **Where a value may stand, its text completes it,** unless it nests too deeply there. -/
theorem completes : ∀ v : Value, Completes limit v
  | .null => completes_word (by rw [Value.json]) (by rw [Value.depth]) id (fun b => rfl) rfl
  | .bool true => completes_word (by rw [Value.json]) (by rw [Value.depth]) id (fun b => rfl) rfl
  | .bool false => completes_word (by rw [Value.json]) (by rw [Value.depth]) id (fun b => rfl) rfl
  | .number n => completes_token (by rw [Value.depth]) (fun b hb rest hrest => by
      obtain ⟨c, cs, rfl, hc, -⟩ := hrest.resolve_right id
      rw [Value.json, run_number n hc, step_awaits hb (by simp)]
      rfl)
  | .string s => completes_token (by rw [Value.depth]) (fun b hb rest hrest => by
      rw [Value.json, run_quote, step_awaits hb (by simp)]
      rfl)
  | .array items => completes_array (completes_items items)
  | .object fields => completes_object (completes_fields fields)

theorem completes_items : ∀ items : List Value, ∀ v ∈ items, Completes limit v
  | [] => fun _ hv => absurd hv List.not_mem_nil
  | w :: items => List.forall_mem_cons.mpr ⟨completes w, completes_items items⟩

theorem completes_fields : ∀ fields : List (String × Value), ∀ f ∈ fields, Completes limit f.2
  | [] => fun _ hf => absurd hf List.not_mem_nil
  | (_, w) :: fields => List.forall_mem_cons.mpr ⟨completes w, completes_fields fields⟩

end

end Values

/-- **The text of an array or an object is read exactly when it does not nest too deeply.** -/
theorem read_text {v : Value} (hv : v.Closes) :
    read v.json = if v.depth ≤ depthLimit then some v.reread else none := by
  have hcompletes : Completes depthLimit v := completes v
  have hrun := hcompletes .start (Or.inl rfl) (Nat.zero_le _) [] (Or.inr hv)
  rw [List.append_nil] at hrun
  unfold read readWithin
  show (Read.run depthLimit ⟨.ground, .start⟩ v.json.toList).bind _ = _
  rw [hrun]
  by_cases hdepth : v.depth ≤ depthLimit
  · rw [if_pos hdepth, if_pos (by simpa [Build.start] using hdepth)]
    rfl
  · rw [if_neg hdepth, if_neg (by simpa [Build.start] using hdepth)]
    rfl

end Json

/-! ## 4. Values that read back as themselves -/

/-- A value whose objects have distinct field names, whose numbers read back, and which nests no
deeper than so many levels. -/
inductive Value.Readable : Nat → Value → Prop
  | null (d : Nat) : Readable d .null
  | bool (d : Nat) (b : Bool) : Readable d (.bool b)
  | number (d : Nat) {n : Number} (h : n.ReadsBack) : Readable d (.number n)
  | string (d : Nat) (s : String) : Readable d (.string s)
  | array {d : Nat} {items : List Value} (h : ∀ v ∈ items, Readable d v) :
    Readable (d + 1) (.array items)
  | object {d : Nat} {fields : Fields} (hnames : (fields.map Prod.fst).Nodup)
    (h : ∀ f ∈ fields, Readable d f.2) : Readable (d + 1) (.object fields)

theorem Value.Readable.depth_le {d : Nat} {v : Value} (h : v.Readable d) : v.depth ≤ d := by
  induction h with
  | array _ ih =>
    rw [depth]
    exact Nat.succ_le_succ (depthItems_le_iff.mpr ih)
  | object _ _ ih =>
    rw [depth]
    exact Nat.succ_le_succ (depthFields_le_iff.mpr ih)
  | _ =>
    rw [depth]
    exact Nat.zero_le _

theorem Fields.set_of_not_mem {fields : Fields} {name : String} (v : Value)
    (h : name ∉ fields.map Prod.fst) : fields.set name v = fields ++ [(name, v)] := by
  induction fields with
  | nil => rfl
  | cons f fields ih =>
    obtain ⟨hne, hrest⟩ := not_or.mp (fun hm => h (List.mem_cons.mpr hm))
    unfold Fields.set
    rw [if_neg (fun heq => hne heq.symm), ih hrest]
    rfl

theorem Value.rereadItems_eq_self {items : List Value} (h : ∀ v ∈ items, v.reread = v) :
    rereadItems items = items := by
  induction items with
  | nil => rfl
  | cons v items ih =>
    obtain ⟨hv, hitems⟩ := List.forall_mem_cons.mp h
    rw [rereadItems, hv, ih hitems]

/-- Distinct fields whose values are read as themselves stand one after another. -/
theorem Value.rereadFields_eq_append (before : Fields) {fields : Fields}
    (h : ∀ f ∈ fields, f.2.reread = f.2) (hnames : ((before ++ fields).map Prod.fst).Nodup) :
    rereadFields before fields = before ++ fields := by
  induction fields generalizing before with
  | nil => rw [rereadFields, List.append_nil]
  | cons f fields ih =>
    obtain ⟨name, v⟩ := f
    obtain ⟨hv, hfields⟩ := List.forall_mem_cons.mp h
    have hset : before.set name v = before ++ [(name, v)] := by
      refine Fields.set_of_not_mem v (fun hm => ?_)
      rw [List.map_append] at hnames
      exact (List.nodup_append.mp hnames).2.2 _ hm _ List.mem_cons_self rfl
    rw [List.append_cons] at hnames ⊢
    rw [rereadFields, hv, hset]
    exact ih _ hfields hnames

theorem Value.Readable.reread_eq {d : Nat} {v : Value} (h : v.Readable d) : v.reread = v := by
  induction h with
  | number d h => rw [reread, h.reread_eq]
  | array _ ih => rw [reread, rereadItems_eq_self ih]
  | object hnames _ ih =>
    rw [reread, rereadFields_eq_append [] ih hnames]
    rfl
  | _ => rw [reread]

/-- **The text of a readable array or object reads as it.** -/
theorem Json.read_json {v : Value} (h : v.Readable depthLimit) (hv : v.Closes) :
    read v.json = some v := by
  rw [read_text hv, if_pos h.depth_le, h.reread_eq]

end QueryAlgebra
