import QueryAlgebra.Proofs.Sql.Filter

/-!
# Parts of texts

A part of a text is asked for with a position counted from zero, or from the end when negative, and cut to
the text where it leaves it. In SQL positions are counted from one. Postgres takes those before the text
for empty, so that they use up some of the length; SQLite counts a negative one from the end. A
position before the text is therefore read otherwise than it is meant.

* `window`: the characters from a place on, where places before the text are empty.
* `Dialect.substring`: what `substr` gives in a dialect.
* `Dialect.Keeps`: a start is not before the text, or that has no effect (`Kept`).
* `substr_agrees`: where a start is kept the database gives what the evaluator gives; of a text without
  repeated characters it gives something else everywhere else (`start_before_text`).
-/

namespace QueryAlgebra

namespace Sql

/-! ## 1. Windows on texts -/

section Window

variable {α : Type}

/-- The items from a place on, at most so many of them. Places before the first item are empty. -/
def window (items : List α) (first : Int) (count : Option Int) : List α :=
  match count with
  | none => items.drop first.toNat
  | some n => (items.drop first.toNat).take (n + min first 0).toNat

variable {items : List α} {first : Int} {count : Option Int}

/-- All places behind the last item are alike. -/
theorem window_min (h : 0 ≤ first) :
    window items (min first items.length) count = window items first count := by
  have hdrop : items.drop (min first items.length).toNat = items.drop first.toNat := by
    rcases Int.le_total first items.length with hle | hle
    · rw [Int.min_eq_left hle]
    · rw [Int.min_eq_right hle, List.drop_of_length_le (by omega), List.drop_of_length_le (by omega)]
  cases count with
  | none => exact hdrop
  | some n =>
    have hempty : min (min first items.length) 0 = min first 0 := by omega
    rw [window, window, hdrop, hempty]

theorem window_of_nonpos (h : first ≤ 0) (n : Int) :
    window items first (some n) = items.take (n + first).toNat := by
  rw [window, Int.toNat_of_nonpos h, List.drop_zero, Int.min_eq_left h]

theorem window_none_of_nonpos (h : first ≤ 0) : window items first none = items := by
  rw [window, Int.toNat_of_nonpos h, List.drop_zero]

/-- A window begins with the item at its place. -/
theorem head?_window (h : 0 ≤ first) (hcount : ∀ n, count = some n → 0 < n) :
    (window items first count).head? = items[first.toNat]? := by
  cases count with
  | none => rw [window, List.head?_drop]
  | some n =>
    have hpos := hcount n rfl
    have hne : (n + min first 0).toNat ≠ 0 := by omega
    rw [window, List.head?_take, if_neg hne, List.head?_drop]

/-- A negative number of items is none. -/
theorem window_map_max : window items first (count.map (max · 0)) = window items first count := by
  cases count with
  | none => rfl
  | some n =>
    have hcount : (max n 0 + min first 0).toNat = (n + min first 0).toNat := by omega
    rw [Option.map_some, window, window, hcount]

/-- A window that is the same at the first item: there is no item, or nothing is asked for, or it begins
    before the first item and reaches to the end all the same. -/
def Kept (length : Nat) (first : Int) (count : Option Int) : Prop :=
  length = 0 ∨ (∃ n ≤ 0, count = some n) ∨
    (first ≤ 0 ∧ ∀ n, count = some n → first = 0 ∨ length ≤ n + first)

theorem window_of_kept (h : Kept items.length first count) :
    window items first count = window items 0 count := by
  rcases h with hnil | ⟨n, hn, rfl⟩ | ⟨hfirst, hreach⟩
  · rw [List.length_eq_zero_iff.mp hnil]
    cases count <;> simp [window]
  · have hbefore : (n + min first 0).toNat = 0 := by omega
    have hzero : (n + min 0 0).toNat = 0 := by omega
    rw [window, window, hbefore, hzero, List.take_zero, List.take_zero]
  · cases count with
    | none => rw [window_none_of_nonpos hfirst, window_none_of_nonpos (Int.le_refl 0)]
    | some n =>
      rw [window_of_nonpos hfirst, window_of_nonpos (Int.le_refl 0)]
      rcases hreach n rfl with rfl | hall
      · rfl
      · rw [List.take_of_length_le (by omega), List.take_of_length_le (by omega)]

/-- Among items without repetition no other window is. -/
theorem kept_of_window (hitems : items.Nodup)
    (h : window items first count = window items 0 count) : Kept items.length first count := by
  by_contra hkept
  obtain ⟨hnil, hcount, hreach⟩ : items.length ≠ 0 ∧ ¬(∃ n ≤ 0, count = some n) ∧
      ¬(first ≤ 0 ∧ ∀ n, count = some n → first = 0 ∨ items.length ≤ n + first) := by
    simpa only [Kept, not_or] using hkept
  have hpos : ∀ n, count = some n → 0 < n := by
    intro n hn
    by_contra hle
    exact hcount ⟨n, by omega, hn⟩
  by_cases hbehind : 0 < first
  · -- the two begin with different items
    have hhead := congrArg List.head? h
    rw [head?_window (Int.le_of_lt hbehind) hpos, head?_window (Int.le_refl 0) hpos] at hhead
    have hplace := (List.getElem?_inj (by omega) hitems).mp hhead.symm
    omega
  · -- they have different lengths
    have hbefore : first ≤ 0 := by omega
    refine hreach ⟨hbefore, ?_⟩
    rintro n rfl
    have hlength := congrArg List.length h
    rw [window_of_nonpos hbefore, window_of_nonpos (Int.le_refl 0), List.length_take,
      List.length_take] at hlength
    have hn := hpos n rfl
    omega

end Window

/-! ## 2. Parts of texts in a dialect -/

/-- The number that a position is, in a text of so many characters. -/
def Position.on (length : Nat) : Position → Int
  | .fromStart n => n
  | .fromEnd n => length - n

/-- The place, counted from zero, of a position counted from one. In SQLite a negative position counts
    from the end. -/
def Dialect.place (d : Dialect) (length : Nat) (position : Int) : Int :=
  match d with
  | .sqlite => if position < 0 then length + position else position - 1
  | .postgres => position - 1

/-- What `substr` gives. -/
def Dialect.substring (d : Dialect) (text : String) (start : Position) (count : Option Int) : String :=
  String.ofList
    (window text.toList (d.place text.length (start.on text.length)) count)

/-- A database that takes parts of texts in the way of a dialect. -/
structure Engine.Substrings (d : Dialect) (e : Engine) : Prop where
  substr_string : ∀ text start count,
    e.substr (.string text) start count = .string (d.substring text start count)

/-! ## 3. The evaluator -/

/-- The place that a start is, in a text of so many characters. -/
def startPlace (length : Nat) (start : Int) : Int :=
  if start < 0 then max (length + start) 0 else min start length

theorem startPlace_bounds (length : Nat) (start : Int) :
    0 ≤ startPlace length start ∧ startPlace length start ≤ length := by
  unfold startPlace
  split <;> omega

/-- The evaluator takes a window too. -/
theorem substring_eq (s : String) (start : Int) (count : Option Int) :
    Value.substring s start count
      = String.ofList (window s.toList (startPlace s.length start) count) := by
  obtain ⟨hnonneg, hle⟩ := startPlace_bounds s.length start
  have hlength : s.toList.length = s.length := String.length_toList
  cases count with
  | none =>
    have hdrop : (s.toList.drop (startPlace s.length start).toNat).length
        ≤ (s.length - startPlace s.length start).toNat := by
      rw [List.length_drop]
      omega
    rw [window, ← List.take_of_length_le hdrop, ← hlength]
    rfl
  | some n =>
    have htake : (s.toList.drop (startPlace s.length start).toNat).take
          (min (startPlace s.length start + max n 0) s.length - startPlace s.length start).toNat
        = (s.toList.drop (startPlace s.length start).toNat).take
          (n + min (startPlace s.length start) 0).toNat := by
      rw [List.take_eq_take_iff, List.length_drop]
      omega
    rw [window, ← htake, ← hlength]
    rfl

/-- A part of a column, as an operand. -/
def substrOperand {M : Type → Type} (column : String) (start : Number) (count : Option Number) :
    Operand M :=
  .node (.parameter 0) [.select (.literal (.string column)),
    .substr (.literal (.number start)) (count.map (fun n => .literal (.number n)))]

/-- The integer that a number is read as. -/
def asPosition (n : Number) : Int := n.toDouble.truncate

section Operand

variable {scope : Scope} {column : String} {start : Number} {count : Option Number}

theorem resolve_substrOperand {row : Fields} {text : String} (h : columnOf row column = .string text) :
    (substrOperand column start count).resolve (M := Except Error) (.value (.object row) :: scope)
      = .ok (.string (Value.substring text (asPosition start) (count.map asPosition))) := by
  have hselect : (Value.object row).select (.string column) = .ok (.string text) := by
    rw [← h]
    rfl
  cases count <;>
    simp [substrOperand, Operand.resolve, Source.seed, evaluate, Entry.apply, hselect, asPosition,
      Value.asInteger, Value.asDouble, Value.toText]

theorem compileTerm_substrOperand :
    compileTerm (M := Except Error) (.row :: scope) (substrOperand column start count)
      = .ok (.expression (substrOf (.column column) (asPosition start) (count.map asPosition)) false) := by
  cases count <;>
    simp [substrOperand, compileTerm, Source.isRow, compileQueue, compileEntry, plainValue, isRowOperand,
      Operand.resolve, fieldNameOf, Compiled.selectField, Compiled.takeColumn, Compiled.toTerm, asPosition,
      Value.asInteger, Value.asDouble]

end Operand

/-! ## 4. Agreement -/

/-- The position that a start is compiled to. -/
def compiledStart (start : Int) : Position :=
  if 0 ≤ start then .fromStart (min (start + 1) 0x7FFFFFFFFFFFFFFF) else .fromEnd (-(start + 1))

/-- Whether a start means in a dialect what it means to the evaluator, in a text of so many characters: it
    is not before the text, or that has no effect. -/
def Dialect.Keeps (d : Dialect) (length : Nat) (start : Int) (count : Option Int) : Prop :=
  -length ≤ start ∨ Kept length (d.place length (length + start + 1)) count

/-- In Postgres every start is kept as long as no length is given. -/
theorem keeps_postgres (length : Nat) (start : Int) : Dialect.postgres.Keeps length start none := by
  by_cases h : -(length : Int) ≤ start
  · exact Or.inl h
  · refine Or.inr (Or.inr (Or.inr ⟨?_, fun n hn => by cases hn⟩))
    simp only [Dialect.place]
    omega

variable {d : Dialect}

section Agreement

variable {α : Type} {items : List α} {start : Int} {count : Option Int}

/-- A start in the text, or behind it, is one place for both. -/
theorem window_inside (hlength : items.length < 0x7FFFFFFFFFFFFFFF) (h : -items.length ≤ start) :
    window items (d.place items.length ((compiledStart start).on items.length)) count
      = window items (startPlace items.length start) count := by
  by_cases hstart : 0 ≤ start
  · have hplace : d.place items.length ((compiledStart start).on items.length)
        = min (start + 1) 0x7FFFFFFFFFFFFFFF - 1 := by
      rw [compiledStart, if_pos hstart, Position.on]
      cases d <;> simp only [Dialect.place]
      omega
    have hmin : startPlace items.length start
        = min (min (start + 1) 0x7FFFFFFFFFFFFFFF - 1) items.length := by
      rw [startPlace, if_neg (by omega)]
      omega
    rw [hplace, hmin, window_min (by omega)]
  · have hplace : d.place items.length ((compiledStart start).on items.length)
        = startPlace items.length start := by
      rw [compiledStart, if_neg hstart, Position.on, startPlace, if_pos (by omega)]
      cases d <;> simp only [Dialect.place] <;> omega
    rw [hplace]

/-- A start before the text is the first place for the evaluator, and is compiled to a position that is
    not positive. -/
theorem places_before (h : start < -items.length) :
    startPlace items.length start = 0 ∧
      (compiledStart start).on items.length = items.length + start + 1 := by
  constructor
  · rw [startPlace, if_pos (by omega)]
    omega
  · rw [compiledStart, if_neg (by omega), Position.on]
    omega

theorem window_of_keeps (hlength : items.length < 0x7FFFFFFFFFFFFFFF)
    (h : d.Keeps items.length start count) :
    window items (d.place items.length ((compiledStart start).on items.length)) count
      = window items (startPlace items.length start) count := by
  by_cases hinside : -items.length ≤ start
  · exact window_inside hlength hinside
  · have hbefore : start < -items.length := by omega
    obtain ⟨hstart, hposition⟩ := places_before hbefore
    rw [hstart, hposition]
    exact window_of_kept (h.resolve_left hinside)

theorem keeps_of_window (hitems : items.Nodup)
    (h : window items (d.place items.length ((compiledStart start).on items.length)) count
      = window items (startPlace items.length start) count) :
    d.Keeps items.length start count := by
  by_cases hinside : -items.length ≤ start
  · exact Or.inl hinside
  · have hbefore : start < -items.length := by omega
    obtain ⟨hstart, hposition⟩ := places_before hbefore
    rw [hstart, hposition] at h
    exact Or.inr (kept_of_window hitems h)

end Agreement

/-- The compiled part of a column, on a database. -/
theorem value_substrOf {e : Engine} (hstandard : e.Standard) (hsubstrings : e.Substrings d)
    {column text : String} {row : Fields} (hrow : columnOf row column = .string text) (start : Int)
    (count : Option Int) :
    (substrOf (.column column) start count).value e row
      = .string (String.ofList
          (window text.toList (d.place text.length ((compiledStart start).on text.length)) count)) := by
  simp only [substrOf, Expression.value, hrow, hstandard.text_string, hsubstrings.substr_string,
    Dialect.substring, compiledStart, window_map_max]

/-- **A part of a column agrees with the evaluator where its start is kept.** For every text, every start
    and every length, in both dialects. Of a text without repeated characters the database gives another
    part everywhere else. -/
theorem substr_agrees {e : Engine} (hstandard : e.Standard) (hsubstrings : e.Substrings d) (scope : Scope)
    (column : String) (start : Number) (count : Option Number) {text : String} {row : Fields}
    (hrow : columnOf row column = .string text) (hlength : text.length < 0x7FFFFFFFFFFFFFFF) :
    ∃ expression given evaluated,
      compileTerm (M := Except Error) (.row :: scope) (substrOperand column start count)
        = .ok (.expression expression false) ∧
      expression.value e row = .string given ∧
      (substrOperand column start count).resolve (M := Except Error) (.value (.object row) :: scope)
        = .ok (.string evaluated) ∧
      (d.Keeps text.length (asPosition start) (count.map asPosition) → given = evaluated) ∧
      (text.toList.Nodup → given = evaluated →
        d.Keeps text.length (asPosition start) (count.map asPosition)) := by
  refine ⟨_, _, _, compileTerm_substrOperand, value_substrOf hstandard hsubstrings hrow _ _,
    resolve_substrOperand hrow, ?_, ?_⟩
  · intro hkeeps
    rw [substring_eq]
    simp only [← String.length_toList] at hkeeps hlength ⊢
    rw [window_of_keeps hlength hkeeps]
  · intro hitems hsame
    rw [substring_eq, String.ofList_inj] at hsame
    simp only [← String.length_toList] at hsame ⊢
    exact keeps_of_window hitems hsame

/-- A database that takes parts of texts in the way of a dialect, and else does what the evaluator does. -/
def substringEngine (d : Dialect) : Engine :=
  { plainEngine with
    substr := fun v start count => match v with
      | .string text => .string (d.substring text start count)
      | _ => .null }

theorem substringEngine_standard (d : Dialect) : (substringEngine d).Standard :=
  { plainEngine_standard with }

theorem substringEngine_substrings (d : Dialect) : (substringEngine d).Substrings d :=
  ⟨fun _ _ _ => rfl⟩

/-- The third last character. -/
def threeBack : Number := .int (-3) (by decide)

/-- The fifth last character. -/
def fiveBack : Number := .int (-5) (by decide)

/-- Two characters from the third last on. -/
theorem middle_of_abcd :
    (substringEngine .sqlite).Standard ∧ (substringEngine .sqlite).Substrings .sqlite ∧
    columnOf [("s", .string "abcd")] "s" = .string "abcd" ∧ "abcd".length < 0x7FFFFFFFFFFFFFFF ∧
    Dialect.sqlite.Keeps "abcd".length (asPosition threeBack) (some (asPosition (.ofCount 2))) ∧
    ∃ expression,
      compileTerm (M := Except Error) [.row] (substrOperand "s" threeBack (some (.ofCount 2)))
        = .ok (.expression expression false) ∧
      expression.value (substringEngine .sqlite) [("s", .string "abcd")] = .string "bc" ∧
      (substrOperand "s" threeBack (some (.ofCount 2))).resolve (M := Except Error)
        [.value (.object [("s", .string "abcd")])] = .ok (.string "bc") := by
  have hstandard := substringEngine_standard .sqlite
  have hsubstrings := substringEngine_substrings .sqlite
  have hrow : columnOf [("s", .string "abcd")] "s" = .string "abcd" := rfl
  have hlength : "abcd".length < 0x7FFFFFFFFFFFFFFF := by decide +kernel
  have hstart : -("abcd".length : Int) ≤ asPosition threeBack := by decide +kernel
  have hpart : Value.substring "abcd" (asPosition threeBack) (some (asPosition (.ofCount 2))) = "bc" := by
    decide +kernel
  obtain ⟨expression, given, evaluated, hcompile, hgiven, hevaluated, hagree, -⟩ :=
    substr_agrees hstandard hsubstrings [] "s" threeBack (some (.ofCount 2)) hrow hlength
  obtain rfl := hagree (Or.inl hstart)
  have hsame := hevaluated.symm.trans (resolve_substrOperand hrow)
  obtain rfl : given = "bc" := (Value.string.inj (Except.ok.inj hsame)).trans hpart
  exact ⟨hstandard, hsubstrings, hrow, hlength, Or.inl hstart, expression, hcompile, hgiven, hevaluated⟩

/-- **A start before the text is read from the end:** what `abc` has from the fifth last character on is
    all of it, and SQLite gives the last character. -/
theorem start_before_text :
    ∃ expression,
      compileTerm (M := Except Error) [.row] (substrOperand "s" fiveBack none)
        = .ok (.expression expression false) ∧
      expression.value (substringEngine .sqlite) [("s", .string "abc")] = .string "c" ∧
      (substrOperand "s" fiveBack none).resolve (M := Except Error)
        [.value (.object [("s", .string "abc")])] = .ok (.string "abc") := by
  have hrow : columnOf [("s", .string "abc")] "s" = .string "abc" := rfl
  have hgiven : String.ofList (window "abc".toList (Dialect.sqlite.place "abc".length
      ((compiledStart (asPosition fiveBack)).on "abc".length)) none) = "c" := by decide +kernel
  have hevaluated : Value.substring "abc" (asPosition fiveBack) none = "abc" := by decide +kernel
  refine ⟨_, compileTerm_substrOperand, ?_, ?_⟩
  · rw [value_substrOf (substringEngine_standard .sqlite) (substringEngine_substrings .sqlite) hrow]
    exact congrArg Value.string hgiven
  · rw [resolve_substrOperand hrow]
    exact congrArg (fun part => Except.ok (Value.string part)) hevaluated

end Sql

end QueryAlgebra
