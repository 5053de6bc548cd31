import QueryAlgebra.Proofs.Json.Text
import QueryAlgebra.Proofs.Outcome
import QueryAlgebra.Proofs.Sql.Tokens
import QueryAlgebra.Sql.Filter
import QueryAlgebra.Sql.Statement

/-!
# Compiled conditions are self-contained

A condition is put into a statement without parentheses around it, and may hold any names and values
that a filter was given. Its text is nevertheless read as one piece: no quoted token is left open, no
parenthesis is left open or closed too often, no comment begins and no statement ends, and what it
joins by `AND` or `OR` stands between parentheses.

* `Spans`: a text that leads from one depth of parentheses to another; `SelfContained` ones lead from
  zero to zero.
* `Spans.between`, `Spans.after`, `Spans.before`: texts joined by fixed pieces.
* `Expression.selfContained`, `Formula.selfContained`: by induction on what is written.
* `Condition.selfContained`: so is every condition, and with it what any predicate compiles to
  (`compiled_selfContained`).
-/

namespace QueryAlgebra

namespace Sql

/-! ## 1. Texts between two depths -/

/-- A text that ends outside of quotes, with tokens that lead from a depth of parentheses to
    another. -/
def Spans (d : Dialect) (i j : Nat) (text : String) : Prop :=
  ∃ ts, lex d text = some ts ∧ Inert i j ts

/-- **A text that stays one piece wherever it is put**: the scan ends outside of quotes, parentheses
    are balanced, no statement ends, no comment begins, and conditions are joined only within
    parentheses. -/
def SelfContained (d : Dialect) (text : String) : Prop := Spans d 0 0 text

variable {d : Dialect} {i j k l : Nat} {a b g : String}

instance (d : Dialect) (i j : Nat) (text : String) : Decidable (Spans d i j text) :=
  match h : lex d text with
  | some ts => decidable_of_iff (Inert i j ts)
      ⟨fun hts => ⟨ts, h, hts⟩, fun ⟨us, hus, hinert⟩ => by cases h.symm.trans hus; exact hinert⟩
  | none => isFalse fun ⟨ts, hts, _⟩ => by cases h.symm.trans hts

instance (d : Dialect) (text : String) : Decidable (SelfContained d text) :=
  inferInstanceAs (Decidable (Spans d 0 0 text))

/-- What holds in every dialect is decided one by one. -/
instance {p : Dialect → Prop} [DecidablePred p] : Decidable (∀ d, p d) :=
  decidable_of_iff (p .sqlite ∧ p .postgres)
    ⟨fun h d => by cases d <;> simp [h], fun h => ⟨h .sqlite, h .postgres⟩⟩

namespace Spans

theorem append (ha : Spans d i j a) (hb : Spans d j k b) (h : Ends a ∨ Begins b) :
    Spans d i k (a ++ b) := by
  obtain ⟨ts, hts, hinertA⟩ := ha
  obtain ⟨us, hus, hinertB⟩ := hb
  obtain ⟨hlex, hmeet⟩ := lex_append hts hus h
  exact ⟨ts ++ us, hlex, hinertA.append hinertB hmeet⟩

/-- A text after a fixed piece. What the piece does is found by scanning it. -/
theorem after (hb : Spans d j k b) (hg : (∀ d, Spans d i j g) ∧ Ends g := by decide) :
    Spans d i k (g ++ b) :=
  (hg.1 d).append hb (Or.inl hg.2)

/-- A text before a fixed piece. -/
theorem before (ha : Spans d i j a) (hg : (∀ d, Spans d j k g) ∧ Begins g := by decide) :
    Spans d i k (a ++ g) :=
  ha.append (hg.1 d) (Or.inr hg.2)

/-- Two texts around a fixed piece. -/
theorem between (ha : Spans d i j a) (hb : Spans d k l b)
    (hg : (∀ d, Spans d j k g) ∧ Begins g ∧ Ends g := by decide) : Spans d i l (a ++ g ++ b) :=
  (ha.before ⟨hg.1, hg.2.1⟩).append hb (Or.inl (hg.2.2.append a))

end Spans

namespace SelfContained

/-- A self-contained text stays so within parentheses. -/
theorem lift (h : SelfContained d a) (k : Nat) : Spans d k k a := by
  obtain ⟨ts, hts, hinert⟩ := h
  exact ⟨ts, hts, hinert.lift k⟩

theorem empty : SelfContained d "" := ⟨[], by cases d <;> rfl, by decide⟩

/-- A quoted token is self-contained. -/
theorem of_quoted (h : lex d a = some [.quoted]) : SelfContained d a := ⟨_, h, by decide⟩

/-- Self-contained texts joined by a fixed piece. -/
theorem joined {separator : String} {texts : List String}
    (h : ∀ text ∈ texts, SelfContained d text)
    (hg : (∀ d, Spans d k k separator) ∧ Begins separator ∧ Ends separator := by decide) :
    Spans d k k (Text.joined separator texts) := by
  induction texts with
  | nil => exact empty.lift k
  | cons text rest ih =>
    have htext := (h text List.mem_cons_self).lift k
    have hrest := ih fun t ht => h t (List.mem_cons_of_mem _ ht)
    cases rest with
    | nil => simpa [Text.joined] using htext
    | cons next rest =>
      rw [Text.joined, String.intercalate_cons_cons]
      exact htext.between hrest hg

end SelfContained

/-! ## 2. Names and values -/

theorem ident_selfContained (d : Dialect) (name : String) : SelfContained d (d.ident name) :=
  .of_quoted (lex_ident name)

theorem text_selfContained (d : Dialect) (text : String) : SelfContained d (d.text text) :=
  .of_quoted (lex_text text)

end Sql

namespace Numeral

variable {n : Numeral}

/-- No two minus signs meet where there is none before a text in which none meet. -/
theorem minus_apart_append {a b : List Char} (ha : ∀ c ∈ a, c ≠ '-')
    (hb : b.IsChain (fun x y => ¬(x = '-' ∧ y = '-'))) :
    (a ++ b).IsChain (fun x y => ¬(x = '-' ∧ y = '-')) := by
  induction a with
  | nil => exact hb
  | cons c a ih =>
    have hc := ha c List.mem_cons_self
    exact List.isChain_cons.mpr ⟨fun _ _ hminus => hc hminus.1,
      ih fun x hx => ha x (List.mem_cons_of_mem _ hx)⟩

theorem ne_minus_of_isDigit {digits : List Char} (h : ∀ c ∈ digits, c.isDigit = true) :
    ∀ c ∈ digits, c ≠ '-' := fun c hc hminus => absurd (hminus ▸ h c hc) (by decide)

/-- No two minus signs meet after one sign and digits. -/
theorem minus_apart_signed {c : Char} {digits rest : List Char}
    (h : ∀ x ∈ digits, x.isDigit = true) (hne : digits ≠ [] ∨ rest = [])
    (hrest : rest.IsChain (fun x y => ¬(x = '-' ∧ y = '-'))) :
    (c :: (digits ++ rest)).IsChain (fun x y => ¬(x = '-' ∧ y = '-')) := by
  refine List.isChain_cons.mpr ⟨fun x hx hminus => ?_,
    minus_apart_append (ne_minus_of_isDigit h) hrest⟩
  cases digits with
  | nil =>
    rcases hne with hne | rfl
    · exact hne rfl
    · simp at hx
  | cons y digits =>
    obtain rfl : y = x := by simpa using hx
    exact ne_minus_of_isDigit h y List.mem_cons_self hminus.2

theorem minus_apart_tail (h : n.Plain) : n.tail.IsChain (fun x y => ¬(x = '-' ∧ y = '-')) := by
  unfold tail
  refine minus_apart_append ?_ ?_
  · cases hfraction : n.fraction with
    | none => simp
    | some digits =>
      rintro c (- | ⟨-, hc⟩)
      · decide
      · exact ne_minus_of_isDigit (h.fraction digits hfraction) c hc
  · cases hexp : n.exponent with
    | none => exact List.isChain_nil
    | some e =>
      obtain ⟨hsign, hdigits⟩ := h.exponent e.1 e.2 hexp
      have hsigned : (e.1.toList ++ e.2).IsChain (fun x y => ¬(x = '-' ∧ y = '-')) := by
        have hsigned (c : Char) := minus_apart_signed (c := c) hdigits (Or.inr rfl) List.isChain_nil
        rcases hsign with hs | hs <;> rw [hs] <;> simpa using hsigned _
      exact minus_apart_append (a := ['e']) (by simp) hsigned

theorem minus_apart_written (h : n.Plain) :
    n.written.IsChain (fun x y => ¬(x = '-' ∧ y = '-')) := by
  rw [written_eq]
  rcases h.sign with hs | hs
  · rw [hs, Option.toList_none, List.nil_append]
    exact minus_apart_append (ne_minus_of_isDigit h.whole) (minus_apart_tail h)
  · rw [hs, Option.toList_some, List.singleton_append]
    exact minus_apart_signed h.whole (Or.inl h.whole_ne_nil) (minus_apart_tail h)

end Numeral

namespace Sql

variable {d : Dialect} {i j k l : Nat} {a b g : String}

/-- Text made of the parts of a numeral is self-contained. -/
theorem selfContained_of_written {text : String} {n : Numeral} (h : n.Plain)
    (htext : text.toList = n.written) : SelfContained d text := by
  refine lex_numeral (fun c hc => ?_) (htext ▸ n.minus_apart_written h)
  rw [htext] at hc
  exact Numeral.continues_of_mem_written h hc

theorem number_selfContained (n : Number) : SelfContained d n.text :=
  selfContained_of_written n.parts_plain n.toList_text

theorem int_selfContained (i : Int) : SelfContained d (toString i) :=
  selfContained_of_written (Numeral.plain_ofInt i) (Numeral.toList_toString i)

theorem literal_selfContained (v : Value) : SelfContained d (d.literal v) := by
  cases v with
  | null => cases d <;> decide
  | bool b => cases d <;> cases b <;> decide
  | number n => exact number_selfContained n
  | string s => exact text_selfContained d s
  | array items => exact text_selfContained d _
  | object fields => exact text_selfContained d _

theorem comparable_selfContained (v : Value) : SelfContained d (d.comparable v) := by
  unfold Dialect.comparable
  split
  · exact text_selfContained _ _
  · exact text_selfContained _ _
  · exact literal_selfContained v

/-! ## 3. Expressions and formulas -/

theorem textView_selfContained (h : SelfContained d a) : SelfContained d (d.textView a) := by
  cases d with
  | sqlite => exact h
  | postgres => exact (h.lift 1).after.before

theorem numericView_selfContained (h : SelfContained d a) : SelfContained d (d.numericView a) := by
  cases d with
  | sqlite => exact h
  | postgres =>
    have hview := textView_selfContained h
    have hpattern := text_selfContained .postgres Dialect.numericPattern
    exact ((hview.after.between hpattern).between (hview.lift 1)).before

theorem likeText_selfContained {verb : String} (h : SelfContained d a) (pattern : String)
    (hverb : ∀ d, SelfContained d verb := by decide) :
    SelfContained d (d.likeText a verb pattern) := by
  have hclause : Spans d 0 0 d.likeEscapeClause ∧ Begins d.likeEscapeClause := by
    cases d <;> decide
  have htest := (Spans.between (g := " ") h (hverb d)).between (g := " ")
    (text_selfContained d pattern)
  exact htest.append hclause.1 (Or.inr hclause.2)

/-- Where a part of a text begins is written without an effect on what stands around it. -/
theorem position_selfContained {text : String} (h : SelfContained d text) (start : Position) :
    SelfContained d (match start with
      | .fromStart n => toString n
      | .fromEnd n => "length(" ++ text ++ ") - " ++ toString n) := by
  cases start with
  | fromStart n => exact int_selfContained n
  | fromEnd n => exact ((h.lift 1).after).between (int_selfContained n)

mutual

/-- **An expression is self-contained**, whatever names and values are in it. -/
theorem Expression.selfContained (d : Dialect) : ∀ e : Expression, SelfContained d (e.render d)
  | .column name => ident_selfContained d name
  | .null => by rw [Expression.render]; cases d <;> decide
  | .literal v => literal_selfContained v
  | .comparable v => comparable_selfContained v
  | .numericView e => numericView_selfContained (e.selfContained d)
  | .textView e => textView_selfContained (e.selfContained d)
  | .length e => ((e.selfContained d).lift 1).after.before
  | .substr e start length => by
    have htext := e.selfContained d
    have hstart := (position_selfContained htext start).lift 1
    have hopening : Spans d 0 1 ("substr(" ++ e.render d ++ ", " ++ _) :=
      (htext.lift 1).after.between hstart
    cases length with
    | none =>
      simp only [Expression.render, String.append_empty]
      exact hopening.before
    | some n =>
      have hlength : Spans d 1 1 (", " ++ toString n) := ((int_selfContained n).lift 1).after
      have hcomma : Begins (", " ++ toString n) := Begins.append (by decide) _
      exact (hopening.append hlength (Or.inr hcomma)).before
  | .arith op left right => by
    have hleft := (left.selfContained d).lift 1
    have hright := (right.selfContained d).lift 1
    have hopening : Spans d 0 1 ("(" ++ left.render d) := hleft.after
    have h : SelfContained d (_ ++ (" " ++ arithSign op ++ " ") ++ _ ++ ")") :=
      (hopening.between hright (by cases op <;> decide)).before
    simpa only [Expression.render, String.append_assoc] using h
  | .truth f => ((f.selfContained d).lift 1).after.before

/-- **A formula is self-contained**, whatever names and values are in it. -/
theorem Formula.selfContained (d : Dialect) : ∀ f : Formula, SelfContained d (f.render d)
  | .eq left right => (left.selfContained d).between (right.selfContained d)
  | .ordered relation left right => by
    have h : SelfContained d (_ ++ (" " ++ relationSign relation ++ " ") ++ _) :=
      (left.selfContained d).between (right.selfContained d) (by cases relation <;> decide)
    simpa only [Formula.render, String.append_assoc] using h
  | .isNull e => (e.selfContained d).before
  | .isNotNull e => (e.selfContained d).before
  | .differs left right =>
    have hleft := (left.selfContained d).lift 1
    have hright := (right.selfContained d).lift 1
    ((hleft.after.between hright).between hleft).before
  | .differsBoth left right =>
    have hleft := (left.selfContained d).lift
    have hright := (right.selfContained d).lift
    (((hleft 1).after.between (hright 1)).between (hleft 2)).between (hright 2) |>.before
  | .like e pattern => likeText_selfContained (e.selfContained d) pattern
  | .notLike e pattern => likeText_selfContained (e.selfContained d) pattern
  | .not f => ((f.selfContained d).lift 1).after.before
  | .all fs =>
    have hparts : Spans d 1 1 _ := SelfContained.joined (selfContained_formulas d fs)
    hparts.after.before
  | .any fs =>
    have hparts : Spans d 1 1 _ := SelfContained.joined (selfContained_formulas d fs)
    hparts.after.before

theorem selfContained_formulas (d : Dialect) :
    ∀ fs : List Formula, ∀ text ∈ renderFormulas d fs, SelfContained d text
  | [], _, h => by simp [renderFormulas] at h
  | f :: fs, text, h => by
    rcases List.mem_cons.mp h with rfl | h
    · exact f.selfContained d
    · exact selfContained_formulas d fs text h

end

/-! ## 4. Conditions -/

/-- The text of a condition, none when it needs no row. -/
def Condition.text? (d : Dialect) : Condition → Option String
  | .formula f => some (f.render d)
  | .const _ => none

/-- **Every condition is self-contained,** whatever it was compiled from. -/
theorem Condition.selfContained (d : Dialect) {condition : Condition} {text : String}
    (htext : condition.text? d = some text) : SelfContained d text := by
  cases condition with
  | const b => cases htext
  | formula f =>
    cases htext
    exact f.selfContained d

/-- Texts that begin with a separator, one after another. -/
theorem Spans.join (ha : Spans d i k a) {texts : List String}
    (h : ∀ text ∈ texts, Spans d k k text ∧ Begins text) : Spans d i k (a ++ String.join texts) := by
  induction texts generalizing a with
  | nil => simpa using ha
  | cons text rest ih =>
    obtain ⟨htext, hbegins⟩ := h text List.mem_cons_self
    have hrest := ih (ha.append htext (Or.inr hbegins)) fun t ht => h t (List.mem_cons_of_mem _ ht)
    simpa [String.append_assoc] using hrest

/-- **A test of a statement is self-contained**, so that what a filter puts into a `WHERE` clause
    neither ends a test around it nor joins another one. -/
theorem RowTest.selfContained (d : Dialect) (test : RowTest) (h : ∀ text, test ≠ .given text) :
    SelfContained d (test.render d) := by
  cases test with
  | equals column v => exact (ident_selfContained d column).between (comparable_selfContained v)
  | isIn column values =>
    have hvalues : Spans d 1 1 (Text.joined ", " (values.map d.comparable)) :=
      SelfContained.joined fun text htext => by
        obtain ⟨v, -, rfl⟩ := List.mem_map.mp htext
        exact comparable_selfContained v
    have hcolumn : SelfContained d (d.ident column) := ident_selfContained d column
    exact (Spans.between (k := 1) hcolumn hvalues).before
  | passes table primaryKey first others =>
    have hident (name : String) : Spans d 1 1 (d.ident name) := (ident_selfContained d name).lift 1
    have hkey : Spans d 0 0 (d.ident primaryKey) := ident_selfContained d primaryKey
    have hfirst : Spans d 0 1 (d.ident primaryKey ++ " IN (SELECT " ++ d.ident primaryKey
        ++ " FROM " ++ d.ident table ++ " WHERE " ++ first.render d) :=
      ((hkey.between (hident primaryKey)).between (hident table)).between
        ((first.selfContained d).lift 1)
    refine (hfirst.join fun text htext => ?_).before
    obtain ⟨f, -, rfl⟩ := List.mem_map.mp htext
    have hopening : Spans d 1 2 (" AND (" ++ f.render d) := ((f.selfContained d).lift 2).after
    exact ⟨hopening.before, ((by decide : Begins " AND (").append _).append _⟩
  | given text => exact absurd rfl (h text)

/-- **The condition of a predicate is self-contained.** In both dialects, for every predicate, with
    operands that may read and change the state they run on, and in every state: the text that the
    predicate compiles to ends outside of quotes, its parentheses are balanced and never close below
    zero, and outside of quotes it has no semicolon, no comment, and no `AND` or `OR` outside of
    parentheses. -/
theorem compiled_selfContained {σ : Type} (d : Dialect) (scope : Scope)
    (predicate : Predicate (Stateful σ)) (s : σ) {condition : Condition} {s' : σ}
    (_hon : (compilePredicate scope predicate).on s = (.ok condition, s')) {text : String}
    (htext : condition.text? d = some text) : SelfContained d text :=
  condition.selfContained d htext

/-- A filter whose column and value try to end their quotes and the statement. -/
def intruder {M : Type → Type} : Predicate M :=
  .test (.node (.parameter 0)
    [.select (.literal (.string "a\" = 1; --")), .eq [.literal (.string "\\' OR '1' = '1'; --")]])

/-- What tries to end quotes and statement stays between the quotes. -/
theorem intruder_selfContained :
    ∃ condition text,
      Stateful.on (compilePredicate [] intruder) () = (.ok condition, ()) ∧
      condition.text? .postgres = some text ∧ SelfContained .postgres text :=
  ⟨_, _, rfl, rfl, compiled_selfContained .postgres [] intruder () rfl rfl⟩

end Sql

end QueryAlgebra
