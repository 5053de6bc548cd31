import QueryAlgebra.Proofs.Json.Text

/-!
# Where a text shows a field

A field is written as its name between quotes, a colon and its value, and a comma or a brace follows.
Those characters stand in the text of a value where an object has the field, at whatever depth. A quote
inside a name is written as a quote behind a backslash, so they also stand where an object has the value
under a name that ends in a quote and the name sought. Nowhere else (`shows_iff_mentions`), but for names
that begin with one of the characters that may follow a closing quote.

* `Somewhere`: a property of what is left of a text holds at a character of it. It is taken apart along
  the text (`somewhere_append`), so that the induction on the value meets one token at a time.
* `somewhere_quote`: a string between quotes shows a field only as the name of an entry.
* `Value.mentions`: an object at some depth has the value under such a name.
-/

namespace QueryAlgebra

namespace Json

/-! ## 1. Places in a text -/

/-- Whether a property of what is left of a text holds at one of its characters, with something behind
    the text. -/
def Somewhere (p : List Char → Prop) : List Char → List Char → Prop
  | [], _ => False
  | c :: cs, rest => p (c :: (cs ++ rest)) ∨ Somewhere p cs rest

section Places

variable {p : List Char → Prop}

theorem somewhere_append (xs ys rest : List Char) :
    Somewhere p (xs ++ ys) rest ↔ Somewhere p xs (ys ++ rest) ∨ Somewhere p ys rest := by
  induction xs with
  | nil => simp [Somewhere]
  | cons x xs ih => simp [Somewhere, ih, or_assoc]

theorem not_somewhere {cs rest : List Char} (h : ∀ c ∈ cs, ∀ left, ¬p (c :: left)) :
    ¬Somewhere p cs rest := by
  induction cs with
  | nil => exact id
  | cons c cs ih =>
    obtain ⟨hc, hcs⟩ := List.forall_mem_cons.mp h
    exact not_or.mpr ⟨hc _, ih hcs⟩

/-- A run of characters stands in a text where what is left begins with it. -/
theorem infix_iff_somewhere {run text : List Char} (hrun : run ≠ []) :
    run <:+: text ↔ Somewhere (run <+: ·) text [] := by
  induction text with
  | nil => simp [Somewhere, hrun]
  | cons c text ih => rw [List.infix_cons_iff, ih, Somewhere, List.append_nil]

theorem somewhere_or {q : List Char → Prop} (cs rest : List Char) :
    Somewhere (fun left => p left ∨ q left) cs rest ↔ Somewhere p cs rest ∨ Somewhere q cs rest := by
  induction cs with
  | nil => simp [Somewhere]
  | cons c cs ih => simp only [Somewhere, ih]; exact or_or_or_comm

end Places

/-! ## 2. Written fields -/

/-- A field as it is written, up to the character that follows it. -/
def fieldText (name : String) (v : Value) (stop : Char) : List Char :=
  (quote name).toList ++ ':' :: (v.json.toList ++ [stop])

/-- A text begins with a written field, and a comma or a brace follows. -/
def BeginsField (name : String) (v : Value) (text : List Char) : Prop :=
  fieldText name v ',' <+: text ∨ fieldText name v '\x7d' <+: text

/-- A text shows a written field, and a comma or a brace follows. -/
def Shows (name : String) (v : Value) (text : List Char) : Prop :=
  fieldText name v ',' <:+: text ∨ fieldText name v '\x7d' <:+: text

theorem fieldText_eq (name : String) (v : Value) (stop : Char) :
    fieldText name v stop
      = '"' :: (name.toList.flatMap escapeChar ++ '"' :: ':' :: (v.json.toList ++ [stop])) := by
  simp [fieldText, toList_quote]

theorem shows_iff_somewhere {name : String} {v : Value} {text : List Char} :
    Shows name v text ↔ Somewhere (BeginsField name v) text [] := by
  have hne : ∀ stop, fieldText name v stop ≠ [] := fun stop => by simp [fieldText_eq]
  unfold Shows BeginsField
  rw [somewhere_or, infix_iff_somewhere (hne ','), infix_iff_somewhere (hne '\x7d')]

/-- A name that does not begin with a character that may follow a closing quote. -/
def Ordinary (name : String) : Prop :=
  ∀ c, name.toList.head? = some c → c ≠ ':' ∧ c ≠ ',' ∧ c ≠ '\x7d' ∧ c ≠ ']'

/-- A name, or one that ends in a quote and that name. -/
def EndsAs (written name : String) : Prop :=
  written = name ∨ '"' :: name.toList <:+ written.toList

/-- What may follow a closing quote. -/
def Follows (rest : List Char) : Prop :=
  ∀ c, rest.head? = some c → c = ':' ∨ c = ',' ∨ c = '\x7d' ∨ c = ']'

section Quoted

variable {name : String} {v : Value} {rest : List Char}

theorem not_beginsField {c : Char} (hc : c ≠ '"') (left : List Char) : ¬BeginsField name v (c :: left) := by
  simp [BeginsField, fieldText_eq, Ne.symm hc]

theorem somewhere_cons {c : Char} (hc : c ≠ '"') (cs rest : List Char) :
    Somewhere (BeginsField name v) (c :: cs) rest ↔ Somewhere (BeginsField name v) cs rest :=
  or_iff_right (not_beginsField hc _)

/-- A text without a quote shows no field. -/
theorem not_somewhere_plain {cs : List Char} (h : '"' ∉ cs) :
    ¬Somewhere (BeginsField name v) cs rest :=
  not_somewhere fun _ hc => not_beginsField fun hquote => h (hquote ▸ hc)

theorem escaped_prefix_iff {s t xs ys : List Char} :
    s.flatMap escapeChar ++ '"' :: xs <+: t.flatMap escapeChar ++ '"' :: ys ↔ s = t ∧ xs <+: ys := by
  constructor
  · rintro ⟨more, h⟩
    rw [List.append_assoc, List.cons_append] at h
    obtain ⟨hst, hxs⟩ := escaped_append_inj h
    exact ⟨hst, more, hxs⟩
  · rintro ⟨rfl, hxs⟩
    exact (List.prefix_append_right_inj _).mpr (List.cons_prefix_cons.mpr ⟨rfl, hxs⟩)

/-- A colon and a value, with a comma or a brace behind it. -/
def BeginsValue (v : Value) (text : List Char) : Prop :=
  ':' :: (v.json.toList ++ [',']) <+: text ∨ ':' :: (v.json.toList ++ ['\x7d']) <+: text

/-- Behind an opening quote, or a quote inside a name, a field is written when what is left of the name
    is the name sought. -/
theorem beginsField_quote_iff {s : List Char} :
    BeginsField name v ('"' :: (s.flatMap escapeChar ++ '"' :: rest))
      ↔ s = name.toList ∧ BeginsValue v rest := by
  simp only [BeginsField, BeginsValue, fieldText_eq, List.cons_prefix_cons, true_and,
    escaped_prefix_iff, ← and_or_left, eq_comm (a := s)]

/-- Behind a closing quote no field with an ordinary name is written. -/
theorem not_beginsField_closing (hname : Ordinary name) (hrest : Follows rest) :
    ¬BeginsField name v ('"' :: rest) := by
  have hnever : ∀ xs, ¬name.toList.flatMap escapeChar ++ '"' :: xs <+: rest := by
    rintro xs ⟨more, rfl⟩
    unfold Ordinary at hname
    cases hchars : name.toList with
    | nil =>
      rw [hchars] at hrest
      exact absurd (hrest '"' rfl) (by decide)
    | cons c cs =>
      rw [hchars] at hrest hname
      obtain ⟨h1, h2, h3, h4⟩ := hname c rfl
      rw [List.flatMap_cons] at hrest
      rcases escapeChar_cases c with ⟨hc, -⟩ | ⟨d, hc, -⟩ | ⟨-, hc⟩ <;> rw [hc] at hrest
      · rcases hrest c rfl with h | h | h | h <;> contradiction
      · exact absurd (hrest '\\' rfl) (by decide)
      · exact absurd (hrest '\\' rfl) (by decide)
  simp only [BeginsField, fieldText_eq, List.cons_prefix_cons, true_and, not_or]
  exact ⟨hnever _, hnever _⟩

theorem quote_not_mem_escapeChar {c : Char} (hc : c ≠ '"') : '"' ∉ escapeChar c := by
  rcases escapeChar_cases c with ⟨he, -⟩ | ⟨d, he, -, hshort⟩ | ⟨hlt, he⟩ <;> rw [he]
  · simpa using hc.symm
  · have hd : d ≠ '"' := by
      rintro rfl
      exact hc (Option.some.inj hshort).symm
    simpa using hd.symm
  · have hdigit : ∀ n < 16, hexDigit n ≠ '"' := by decide
    have hhigh := hdigit (c.toNat / 16) (by omega)
    have hlow := hdigit (c.toNat % 16) (by omega)
    simp [hhigh.symm, hlow.symm]

/-- Within a string a field is written behind a quote of the string that only the name sought follows. -/
theorem somewhere_escaped (hname : Ordinary name) (hrest : Follows rest) (s : List Char) :
    Somewhere (BeginsField name v) (s.flatMap escapeChar ++ ['"']) rest
      ↔ '"' :: name.toList <:+ s ∧ BeginsValue v rest := by
  induction s with
  | nil => simp [Somewhere, not_beginsField_closing hname hrest]
  | cons c s ih =>
    rw [List.flatMap_cons, List.append_assoc, somewhere_append, ih, List.suffix_cons_iff, or_and_right]
    refine or_congr_left ?_
    by_cases hc : c = '"'
    · -- a quote is written behind a backslash
      have hslash : ¬BeginsField name v ('\\' :: '"' :: (s.flatMap escapeChar ++ '"' :: rest)) :=
        not_beginsField (by decide) _
      have hquote : escapeChar '"' = ['\\', '"'] := rfl
      simp [hc, hquote, Somewhere, hslash, beginsField_quote_iff, eq_comm (a := s)]
    · have hplain : ¬Somewhere (BeginsField name v) (escapeChar c)
          (s.flatMap escapeChar ++ '"' :: rest) :=
        not_somewhere_plain (quote_not_mem_escapeChar hc)
      simp [hplain, Ne.symm hc]

/-- **A string between quotes shows a field only as its name,** or as the end of its name behind a
    quote; a colon and the value follow. -/
theorem somewhere_quote (hname : Ordinary name) (hrest : Follows rest) (s : String) :
    Somewhere (BeginsField name v) (quote s).toList rest ↔ EndsAs s name ∧ BeginsValue v rest := by
  rw [toList_quote, Somewhere, List.append_assoc, List.singleton_append, beginsField_quote_iff,
    somewhere_escaped hname hrest, ← or_and_right, String.toList_inj]
  rfl

end Quoted

end Json

/-! ## 3. Values -/

namespace Value

open Json

mutual

/-- Whether an object in a value, the value itself included, has another value under a name, or under a
    name that ends in a quote and that name. -/
def mentions (name : String) (v : Value) : Value → Prop
  | .array items => mentionsItems name v items
  | .object fields => mentionsFields name v fields
  | _ => False

/-- The same for the items of an array. -/
def mentionsItems (name : String) (v : Value) : List Value → Prop
  | [] => False
  | w :: rest => mentions name v w ∨ mentionsItems name v rest

/-- The same for the fields of an object. -/
def mentionsFields (name : String) (v : Value) : List (String × Value) → Prop
  | [] => False
  | (written, w) :: rest =>
    (EndsAs written name ∧ v = w) ∨ mentions name v w ∨ mentionsFields name v rest

end

variable {name : String} {v : Value}

theorem mentionsFields_iff {fields : List (String × Value)} :
    mentionsFields name v fields
      ↔ ∃ f ∈ fields, (EndsAs f.1 name ∧ v = f.2) ∨ mentions name v f.2 := by
  induction fields with
  | nil => simp [mentionsFields]
  | cons f fields ih => simp [mentionsFields, ih, or_assoc]

/-- A value that is neither an array nor an object. -/
def IsScalar : Value → Prop
  | .array _ | .object _ => False
  | _ => True

theorem IsScalar.not_mentions {w : Value} (h : w.IsScalar) : ¬mentions name v w := by
  cases w <;> first | exact id | exact absurd h id

/-- What follows a value inside of an object or an array: a comma or the mark that closes it. -/
theorem beginsValue_iff {w : Value} {c : Char} {rest : List Char} (hc : c = ',' ∨ c = '\x7d') :
    BeginsValue v (':' :: (w.json.toList ++ c :: rest)) ↔ v = w := by
  have hstops : ∀ d, d = ',' ∨ d = '\x7d' → ∀ more, Stops (d :: more) := by
    rintro d (rfl | rfl) more <;> exact stops_cons _ (by decide)
  have hbegins : ∀ d, d = ',' ∨ d = '\x7d' →
      (':' :: (v.json.toList ++ [d]) <+: ':' :: (w.json.toList ++ c :: rest) ↔ v = w ∧ d = c) := by
    intro d hd
    rw [List.cons_prefix_cons, and_iff_right rfl]
    constructor
    · rintro ⟨more, h⟩
      rw [List.append_assoc, List.singleton_append] at h
      obtain ⟨hvw, hrest⟩ := json_append_inj v w (hstops d hd more) (hstops c hc rest) h
      exact ⟨hvw, (List.cons.inj hrest).1⟩
    · rintro ⟨rfl, rfl⟩
      exact (List.prefix_append_right_inj _).mpr (List.cons_prefix_cons.mpr ⟨rfl, List.nil_prefix⟩)
  rw [BeginsValue, hbegins _ (Or.inl rfl), hbegins _ (Or.inr rfl), ← and_or_left, and_iff_left_iff_imp]
  exact fun _ => hc.imp Eq.symm Eq.symm

/-- What may follow a value: nothing, a comma, or a mark that closes. -/
def Behind (rest : List Char) : Prop :=
  ∀ c, rest.head? = some c → c = ',' ∨ c = '\x7d' ∨ c = ']'

theorem behind_cons {c : Char} (hc : c = ',' ∨ c = '\x7d' ∨ c = ']') (rest : List Char) :
    Behind (c :: rest) := by
  rintro d ⟨⟩
  exact hc

theorem Behind.follows {rest : List Char} (h : Behind rest) : Follows rest :=
  fun c hc => Or.inr (h c hc)

theorem Behind.not_beginsValue {rest : List Char} (h : Behind rest) : ¬BeginsValue v rest := by
  have hnever : ∀ more, ¬(':' :: more <+: rest) := by
    rintro more ⟨left, rfl⟩
    exact absurd (h ':' rfl) (by decide)
  exact not_or.mpr ⟨hnever _, hnever _⟩

theorem behind_itemsTail (items : List Value) (rest : List Char) :
    Behind (itemsTail items ++ ']' :: rest) := by
  unfold itemsTail
  split <;> exact behind_cons (by decide) _

theorem fieldsTail_eq_cons (fields : List (String × Value)) (rest : List Char) :
    ∃ c more, fieldsTail fields ++ '\x7d' :: rest = c :: more ∧ (c = ',' ∨ c = '\x7d') := by
  unfold fieldsTail
  split
  · exact ⟨'\x7d', rest, rfl, Or.inr rfl⟩
  · exact ⟨',', _, rfl, Or.inl rfl⟩

theorem somewhere_itemsTail (items : List Value) (rest : List Char) :
    Somewhere (BeginsField name v) (itemsTail items) rest
      ↔ Somewhere (BeginsField name v) (jsonItems items).toList rest := by
  cases items with
  | nil => simp [itemsTail, jsonItems]
  | cons w items => exact somewhere_cons (by decide) _ _

theorem somewhere_fieldsTail (fields : List (String × Value)) (rest : List Char) :
    Somewhere (BeginsField name v) (fieldsTail fields) rest
      ↔ Somewhere (BeginsField name v) (jsonFields fields).toList rest := by
  cases fields with
  | nil => simp [fieldsTail, jsonFields]
  | cons f fields => exact somewhere_cons (by decide) _ _

mutual

/-- **Within the text of a value a field is written where the value mentions it.** -/
theorem somewhere_json (hname : Ordinary name) (w : Value) {rest : List Char} (hrest : Behind rest) :
    Somewhere (BeginsField name v) w.json.toList rest ↔ mentions name v w := by
  cases w with
  | null => exact iff_of_false (not_somewhere_plain (by rw [json]; decide)) id
  | bool b => exact iff_of_false (not_somewhere_plain (by cases b <;> rw [json] <;> decide)) id
  | number n =>
    refine iff_of_false (not_somewhere_plain fun hquote => ?_) id
    rw [json, n.toList_text] at hquote
    exact absurd (Numeral.continues_of_mem_written n.parts_plain hquote) (by decide)
  | string s =>
    refine iff_of_false (fun hsome => ?_) id
    rw [json, somewhere_quote hname hrest.follows] at hsome
    exact hrest.not_beginsValue hsome.2
  | array items =>
    rw [toList_json_array, somewhere_cons (by decide), somewhere_append,
      or_iff_left (not_somewhere_plain (by decide))]
    exact somewhere_jsonItems hname items
  | object fields =>
    rw [toList_json_object, somewhere_cons (by decide), somewhere_append,
      or_iff_left (not_somewhere_plain (by decide))]
    exact somewhere_jsonFields hname fields

theorem somewhere_jsonItems (hname : Ordinary name) (items : List Value) {rest : List Char} :
    Somewhere (BeginsField name v) (jsonItems items).toList (']' :: rest)
      ↔ mentionsItems name v items := by
  cases items with
  | nil => exact iff_of_false (not_somewhere_plain (by rw [jsonItems]; decide)) id
  | cons w items =>
    rw [toList_jsonItems_cons, somewhere_append, somewhere_itemsTail,
      somewhere_json hname w (behind_itemsTail items rest), somewhere_jsonItems hname items]
    rfl

theorem somewhere_jsonFields (hname : Ordinary name) (fields : List (String × Value))
    {rest : List Char} :
    Somewhere (BeginsField name v) (jsonFields fields).toList ('\x7d' :: rest)
      ↔ mentionsFields name v fields := by
  cases fields with
  | nil => exact iff_of_false (not_somewhere_plain (by rw [jsonFields]; decide)) id
  | cons f fields =>
    obtain ⟨written, w⟩ := f
    obtain ⟨c, more, htail, hc⟩ := fieldsTail_eq_cons fields rest
    have hbehind : Behind (c :: more) := behind_cons (hc.imp_right Or.inl) more
    have hcolon : Follows (':' :: (w.json.toList ++ c :: more)) := fun d hd => by
      cases hd
      exact Or.inl rfl
    rw [toList_jsonFields_cons, somewhere_append, List.cons_append, List.append_assoc, htail,
      somewhere_quote hname hcolon, beginsValue_iff hc, somewhere_cons (by decide), somewhere_append,
      htail, somewhere_json hname w hbehind, somewhere_fieldsTail, somewhere_jsonFields hname fields]
    rfl

end

/-- **The text of an object shows a field where the object mentions it.** -/
theorem shows_iff_mentions (hname : Ordinary name) (fields : List (String × Value)) :
    Shows name v (Value.object fields).json.toList ↔ mentionsFields name v fields := by
  rw [shows_iff_somewhere, somewhere_json hname (.object fields) (fun c hc => by cases hc)]
  rfl

end Value

end QueryAlgebra
