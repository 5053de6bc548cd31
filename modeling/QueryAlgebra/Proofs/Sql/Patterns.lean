import QueryAlgebra.Proofs.Sql.Filter
import QueryAlgebra.Proofs.Sql.Literals

/-!
# What a pattern matches

In a pattern a percent sign stands for any run of characters, an underscore for any one character, and
a character behind the escape character for itself. Pattern and escape character reach the database as
literals, so that a text has passed two layers of escaping when it is compared: the one of patterns,
and the quotes of the dialect. Reading undoes both (`readLike_likeText`).

* `fits_run`, `fits_chars`: what a wildcard and a run of plain characters leave to the rest of a pattern.
* `pieces_likeEscape`: an escaped text stands for its own characters, whatever they are.
* `likes_within`: between two wildcards it finds the texts that contain it.
* `affix_tests_exact`: the tests of how a text begins and ends say of every text what the evaluator says.
* `Engine.Likes`: a database that tests patterns in the way of a dialect.
-/

namespace QueryAlgebra

namespace Sql

/-! ## 1. Patterns -/

/-- A part of a pattern. -/
inductive Piece where
  /-- A character that stands for itself. -/
  | char (c : Char)
  /-- Any one character. -/
  | one
  /-- Any run of characters. -/
  | run
deriving DecidableEq, Repr

/-- The part that a character is which no escape character precedes. -/
def Piece.ofChar (c : Char) : Piece :=
  if c = '%' then .run else if c = '_' then .one else .char c

/-- The parts of a pattern. None where it ends in an escape character. -/
def pieces (escape : Char) : List Char → Option (List Piece)
  | [] => some []
  | [c] => if c = escape then none else some [.ofChar c]
  | c :: c' :: rest =>
    if c = escape then (pieces escape rest).map (.char c' :: ·)
    else (pieces escape (c' :: rest)).map (.ofChar c :: ·)

/-- Whether a text is made of parts. A run is tried at every length. -/
def fits : List Piece → List Char → Bool
  | [], text => text.isEmpty
  | .char c :: rest, text =>
    match text with
    | [] => false
    | x :: text => x == c && fits rest text
  | .one :: rest, text =>
    match text with
    | [] => false
    | _ :: text => fits rest text
  | .run :: rest, text => text.tails.any (fits rest)

/-- Whether a text matches a pattern. Upper and lower case are different characters. -/
def likes (escape : Char) (pattern text : List Char) : Bool :=
  match pieces escape pattern with
  | some parts => fits parts text
  | none => false

theorem pieces_cons {escape c : Char} (hc : c ≠ escape) (rest : List Char) :
    pieces escape (c :: rest) = (pieces escape rest).map (.ofChar c :: ·) := by
  cases rest with
  | nil => simp [pieces, hc]
  | cons c' rest => simp [pieces, hc]

theorem fits_run {rest : List Piece} {text : List Char} :
    fits (.run :: rest) text = true ↔ ∃ passed left, text = passed ++ left ∧ fits rest left = true := by
  rw [fits, List.any_eq_true]
  constructor
  · rintro ⟨left, hleft, hfits⟩
    obtain ⟨passed, happend⟩ := (List.mem_tails left text).mp hleft
    exact ⟨passed, left, happend.symm, hfits⟩
  · rintro ⟨passed, left, rfl, hfits⟩
    exact ⟨left, (List.mem_tails left _).mpr (List.suffix_append passed left), hfits⟩

theorem fits_chars {rest : List Piece} {cs text : List Char} :
    fits (cs.map .char ++ rest) text = true ↔ ∃ left, text = cs ++ left ∧ fits rest left = true := by
  induction cs generalizing text with
  | nil => simp
  | cons c cs ih =>
    cases text with
    | nil => simp [fits]
    | cons x text => simp [fits, ih, and_assoc]

/-- The last run of a pattern takes all that is left. -/
theorem fits_last_run (text : List Char) : fits [.run] text = true :=
  fits_run.mpr ⟨text, [], (List.append_nil text).symm, rfl⟩

/-- **An escaped text stands for its own characters.** -/
theorem pieces_likeEscape (s : String) (rest : List Char) :
    pieces likeEscapeChar ((likeEscape s).toList ++ rest)
      = (pieces likeEscapeChar rest).map (s.toList.map .char ++ ·) := by
  rw [likeEscape, String.toList_ofList]
  induction s.toList with
  | nil => simp
  | cons c text ih =>
    rw [List.flatMap_cons, List.append_assoc]
    by_cases hspecial : isLikeSpecial c = true
    · rw [if_pos hspecial, List.cons_append, List.singleton_append, pieces, if_pos rfl, ih,
        Option.map_map]
      rfl
    · obtain ⟨⟨hrun, hone⟩, hescape⟩ : (c ≠ '%' ∧ c ≠ '_') ∧ c ≠ likeEscapeChar := by
        simpa [isLikeSpecial] using hspecial
      have hchar : Piece.ofChar c = .char c := by rw [Piece.ofChar, if_neg hrun, if_neg hone]
      rw [if_neg hspecial, List.singleton_append, pieces_cons hescape, ih, hchar, Option.map_map]
      rfl

/-- **A pattern between two runs is matched by the texts that contain its text.** -/
theorem likes_within (s text : String) :
    likes likeEscapeChar ("%" ++ likeEscape s ++ "%").toList text.toList = true
      ↔ s.toList <:+: text.toList := by
  have hpieces : pieces likeEscapeChar ("%" ++ likeEscape s ++ "%").toList
      = some (.run :: (s.toList.map .char ++ [.run])) := by
    rw [String.toList_append, String.toList_append, List.append_assoc]
    show pieces likeEscapeChar ('%' :: ((likeEscape s).toList ++ ['%'])) = _
    rw [pieces_cons (by decide), pieces_likeEscape]
    rfl
  rw [likes, hpieces]
  simp only [fits_run, fits_chars, fits_last_run, and_true]
  constructor
  · rintro ⟨passed, _, htext, left, rfl⟩
    exact ⟨passed, left, by rw [htext, List.append_assoc]⟩
  · rintro ⟨passed, left, h⟩
    exact ⟨passed, s.toList ++ left, by rw [← h, List.append_assoc], left, rfl⟩

theorem likeEscape_append (s t : String) : likeEscape (s ++ t) = likeEscape s ++ likeEscape t := by
  rw [likeEscape, likeEscape, likeEscape, String.toList_append, List.flatMap_append,
    String.ofList_append]

/-! ## 2. Tests of patterns -/

/-- The pattern and the escape character of a pattern test, from the text behind what is tested. -/
def readLike (d : Dialect) (text : List Char) : Option (List Char × Char) := do
  let behindVerb ← text.dropPrefix? " LIKE ".toList
  let (.text pattern, behindPattern) ← readLexeme d behindVerb | none
  let behindWord ← behindPattern.dropPrefix? " ESCAPE ".toList
  let (.text escape, []) ← readLexeme d behindWord | none
  let [c] := escape.toList | none
  some (pattern.toList, c)

/-- **A test carries its pattern and the escape character** through the quotes of the dialect. -/
theorem readLike_likeText (d : Dialect) (pattern : String) :
    readLike d (d.likeText "" "LIKE" pattern).toList = some (pattern.toList, likeEscapeChar) := by
  have hescape : readLexeme d (d.text (String.ofList [likeEscapeChar])).toList
      = some (.text (String.ofList [likeEscapeChar]), []) := by
    have hread := readLexeme_text (d := d) separated_nil (String.ofList [likeEscapeChar])
    rwa [List.append_nil] at hread
  have hseparated : Separated d.likeEscapeClause.toList := fun c hc =>
    Or.inl (by simpa [Dialect.likeEscapeClause] using hc.symm)
  have hpattern := readLexeme_text (d := d) hseparated pattern
  have htext : (d.likeText "" "LIKE" pattern).toList
      = " LIKE ".toList ++ ((d.text pattern).toList ++ d.likeEscapeClause.toList) := by
    simp [Dialect.likeText]
  have hclause : d.likeEscapeClause.toList
      = " ESCAPE ".toList ++ (d.text (String.ofList [likeEscapeChar])).toList := by
    simp [Dialect.likeEscapeClause]
  rw [htext, readLike, List.dropPrefix?_append_of_beq _ (by decide)]
  simp only [Option.bind_eq_bind, Option.bind_some, hpattern]
  rw [hclause, List.dropPrefix?_append_of_beq _ (by decide)]
  simp only [Option.bind_some, hescape]
  rfl

/-! ## 3. How a text begins and ends -/

/-- An end of a text. -/
inductive Affix where
  /-- The first characters. -/
  | start
  /-- The last characters. -/
  | ending

namespace Affix

/-- Whether characters stand at that end of a text. -/
def Of : Affix → List Char → List Char → Prop
  | .start, cs, text => cs <+: text
  | .ending, cs, text => cs <:+ text

instance (a : Affix) (cs text : List Char) : Decidable (a.Of cs text) :=
  match a with
  | .start => inferInstanceAs (Decidable (cs <+: text))
  | .ending => inferInstanceAs (Decidable (cs <:+ text))

/-- The pattern of the texts that have a text at that end. -/
def pattern : Affix → String → String
  | .start, s => likeEscape s ++ "%"
  | .ending, s => "%" ++ likeEscape s

/-- The test of an end, as an operation. -/
def entry {M : Type → Type} : Affix → Operand M → Entry M
  | .start, op => .startsWith op
  | .ending, op => .endsWith op

/-- The test of an end of a column. -/
def test {M : Type → Type} (a : Affix) (column text : String) : Predicate M :=
  .test (.node (.parameter 0)
    [.select (.literal (.string column)), a.entry (.literal (.string text))])

/-- **A pattern of an end is matched by the texts that have it.** -/
theorem likes_pattern (a : Affix) (s text : String) :
    likes likeEscapeChar (a.pattern s).toList text.toList = true ↔ a.Of s.toList text.toList := by
  cases a with
  | start =>
    have hpieces : pieces likeEscapeChar (pattern .start s).toList
        = some (s.toList.map .char ++ [.run]) := by
      rw [pattern, String.toList_append]
      exact pieces_likeEscape s ['%']
    rw [likes, hpieces]
    simp only [fits_chars, fits_last_run, and_true]
    exact ⟨fun ⟨left, h⟩ => ⟨left, h.symm⟩, fun ⟨left, h⟩ => ⟨left, h.symm⟩⟩
  | ending =>
    have hpieces : pieces likeEscapeChar (pattern .ending s).toList
        = some (.run :: s.toList.map .char) := by
      have hescaped := pieces_likeEscape s []
      rw [List.append_nil] at hescaped
      rw [pattern, String.toList_append]
      show pieces likeEscapeChar ('%' :: (likeEscape s).toList) = _
      rw [pieces_cons (by decide), hescaped]
      simp [pieces, Piece.ofChar]
    have hchars : ∀ left : List Char, fits (s.toList.map .char) left = true ↔ left = s.toList := by
      intro left
      have happend : fits (s.toList.map .char ++ []) left = true
          ↔ ∃ more, left = s.toList ++ more ∧ fits [] more = true := fits_chars
      simpa [fits] using happend
    rw [likes, hpieces]
    simp only [fits_run, hchars]
    exact ⟨fun ⟨passed, left, h, hleft⟩ => ⟨passed, by rw [h, hleft]⟩,
      fun ⟨passed, h⟩ => ⟨passed, s.toList, h.symm, rfl⟩⟩

variable {scope : Scope}

theorem compile_test (a : Affix) (column s : String) :
    compilePredicate (M := Except Error) scope (a.test column s)
      = .ok (.formula (.like (.textView (.column column)) (a.pattern s))) := by
  cases a <;>
    simp [test, entry, pattern, compilePredicate, Predicate.operand, compileCondition, Source.isRow,
      compileQueue, compileEntry, plainValue, isRowOperand, Operand.resolve, fieldNameOf,
      Compiled.selectField, Compiled.takeColumn, Compiled.emit, Compiled.toCondition, Compiled.flush,
      startsWithTest, endsWithTest, Value.toText]

theorem holds_test (a : Affix) {column text : String} {row : Fields}
    (h : columnOf row column = .string text) (s : String) :
    Predicate.holds (M := Except Error) scope (.object row) (a.test column s)
      = .ok (decide (a.Of s.toList text.toList)) := by
  have hselect : (Value.object row).select (.string column) = .ok (.string text) := by
    rw [← h]
    rfl
  cases a with
  | start =>
    have hbegins : s.toList.isPrefixOf text.toList = decide (start.Of s.toList text.toList) := by
      rw [Bool.eq_iff_iff, List.isPrefixOf_iff_prefix, decide_eq_true_iff, Of]
    simp [test, entry, Predicate.holds, Operand.resolve, Source.seed, evaluate, Entry.apply,
      hselect, Value.beginsWith, Value.toText, Value.truthy, hbegins]
  | ending =>
    have hsuffix : s.toList.isSuffixOf text.toList = decide (ending.Of s.toList text.toList) := by
      rw [Bool.eq_iff_iff, List.isSuffixOf_iff_suffix, decide_eq_true_iff, Of]
    simp [test, entry, Predicate.holds, Operand.resolve, Source.seed, evaluate, Entry.apply,
      hselect, Value.finishesWith, Value.toText, Value.truthy, hsuffix]

end Affix

/-- **The tests of how a text begins and ends are exact.** What stands behind the column is read, in
    the quotes of the dialect, as a pattern and an escape character, and a text matches that pattern
    exactly when it begins, or ends, with the text asked for; that is also the evaluator's answer. -/
theorem affix_tests_exact (d : Dialect) (scope : Scope) (a : Affix) (column s : String)
    {text : String} {row : Fields} (h : columnOf row column = .string text) :
    ∃ formula test pattern escape,
      compilePredicate (M := Except Error) scope (a.test column s) = .ok (.formula formula) ∧
      formula.render d = d.textView (d.ident column) ++ test ∧
      readLike d test.toList = some (pattern, escape) ∧
      (likes escape pattern text.toList = true ↔ a.Of s.toList text.toList) ∧
      Predicate.holds (M := Except Error) scope (.object row) (a.test column s)
        = .ok (decide (a.Of s.toList text.toList)) := by
  refine ⟨_, d.likeText "" "LIKE" (a.pattern s), _, _, a.compile_test column s, ?_,
    readLike_likeText d (a.pattern s), a.likes_pattern s text, a.holds_test h s⟩
  simp [Formula.render, Expression.render, Dialect.likeText, String.append_assoc]

/-- A text of all characters that one of the layers escapes. -/
def wildStart : String := "50%_\\'"

/-- A text that begins with it is let through. -/
theorem wildStart_found :
    columnOf [("s", .string (wildStart ++ "off"))] "s" = .string (wildStart ++ "off") ∧
    ∃ formula test pattern escape,
      compilePredicate (M := Except Error) [] (Affix.start.test "s" wildStart) = .ok (.formula formula) ∧
      formula.render .postgres = "CAST(\"s\" AS TEXT)" ++ test ∧
      readLike .postgres test.toList = some (pattern, escape) ∧
      likes escape pattern (wildStart ++ "off").toList = true ∧
      Predicate.holds (M := Except Error) [] (.object [("s", .string (wildStart ++ "off"))])
        (Affix.start.test "s" wildStart) = .ok true := by
  have hrow : columnOf [("s", .string (wildStart ++ "off"))] "s" = .string (wildStart ++ "off") := rfl
  obtain ⟨formula, test, pattern, escape, hcompile, hrender, hread, hlikes, hholds⟩ :=
    affix_tests_exact .postgres [] .start "s" wildStart hrow
  have hbegins : Affix.start.Of wildStart.toList (wildStart ++ "off").toList := by decide +kernel
  rw [decide_eq_true hbegins] at hholds
  have hview : Dialect.postgres.textView (Dialect.postgres.ident "s") = "CAST(\"s\" AS TEXT)" := rfl
  exact ⟨hrow, formula, test, pattern, escape, hcompile, hview ▸ hrender, hread, hlikes.mpr hbegins,
    hholds⟩

/-! ## 4. Databases that test patterns -/

/-- Whether a text matches a pattern in a dialect: the test is written, its literals are read, and the
    text is matched. -/
def Dialect.matchesLike (d : Dialect) (pattern text : String) : Bool :=
  match readLike d (d.likeText "" "LIKE" pattern).toList with
  | some (pattern, escape) => likes escape pattern text.toList
  | none => false

theorem Dialect.matchesLike_eq (d : Dialect) (pattern text : String) :
    d.matchesLike pattern text = likes likeEscapeChar pattern.toList text.toList := by
  rw [Dialect.matchesLike, readLike_likeText]

/-- A database that tests texts for patterns as the dialect writes them. -/
structure Engine.Likes (d : Dialect) (e : Engine) : Prop where
  like_string : ∀ text pattern, e.like (.string text) pattern = d.matchesLike pattern text

end Sql

end QueryAlgebra
