import QueryAlgebra.Proofs.Json.Occurrences
import QueryAlgebra.Proofs.Sql.Patterns
import QueryAlgebra.Proofs.Value.Documents
import QueryAlgebra.Proofs.Value.Fingerprint

/-!
# Tests of a field inside a column

A column holds an object as its JSON text, and a field of the object is tested by looking for the
written field in that text. The evaluator reads the field from the object. What it answers and what the
condition says are compared here for every object, and for a column that is null.

* `FieldTest.truth_text`: on a text the condition says whether the field is shown there, whatever
  characters the field and the value are made of.
* `FieldTest.truth_null`: on a null it is unknown, for both tests.
* `fieldTest_agrees_iff`: condition and evaluator agree where what the column holds tells what the object
  has (`FieldTest.Faithful`), and nowhere else. A null that differs from a value is lost
  (`null_differs_lost`).
* `FieldTest.faithful_of_flat`: the text of a flat object tells it, but for a field that is absent and
  compared with null, and a number that is written in another form.
* `FieldTest.shown_of_inner`: a field of an object further inside is shown as well.
-/

namespace QueryAlgebra

namespace Sql

/-! ## 1. Objects in columns -/

/-- What a column holds for an object, or for none. -/
def storedObject : Option Fields → Value
  | none => .null
  | some fields => .string (Value.object fields).json

/-- The object as the evaluator has it. -/
def readObject : Option Fields → Value
  | none => .null
  | some fields => .object fields

/-- A test of a field of the object in a column. -/
structure FieldTest where
  /-- The name of the column. -/
  column : String
  /-- The name of the field. -/
  field : String
  /-- Whether the field shall differ from the value. -/
  negated : Bool
  /-- The value. -/
  value : Value

namespace FieldTest

/-- The test as an operation. -/
def entry {M : Type → Type} (t : FieldTest) : Entry M :=
  if t.negated then .ne [.literal t.value] else .eq [.literal t.value]

/-- The test as a queue on the row. -/
def predicate {M : Type → Type} (t : FieldTest) : Predicate M :=
  .test (.node (.parameter 0)
    [.select (.literal (.string t.column)), .select (.literal (.string t.field)), t.entry])

/-- Whether the object has the value in the field; an absent field is null. -/
def has (t : FieldTest) (cell : Option Fields) : Bool :=
  ((readObject cell).field t.field).looseEq t.value

/-- Whether the text of an object shows the field with the value. -/
def ShownIn (t : FieldTest) (fields : Fields) : Prop :=
  Json.Shows t.field t.value (Value.object fields).json.toList

/-- Whether what the column holds tells what the object has. -/
def Faithful (t : FieldTest) : Option Fields → Prop
  | none => t.value.isNull = t.negated
  | some fields => t.ShownIn fields ↔ t.has (some fields) = true

/-! ## 2. The evaluator -/

variable (t : FieldTest) {cell : Option Fields} {row : Fields} {scope : Scope}

theorem holds_eq (h : columnOf row t.column = readObject cell) :
    Predicate.holds (M := Except Error) scope (.object row) t.predicate
      = .ok (t.has cell != t.negated) := by
  have hcolumn : (Value.object row).select (.string t.column) = .ok (readObject cell) := by
    rw [← h]
    rfl
  have hfield : (readObject cell).select (.string t.field) = .ok ((readObject cell).field t.field) := by
    cases cell <;> rfl
  obtain ⟨column, field, _ | _, value⟩ := t <;>
    simp [predicate, entry, has, Predicate.holds, Operand.resolve, Source.seed, evaluate, Entry.apply,
      resolveAll, hcolumn, hfield, Value.truthy]

theorem has_none : t.has none = t.value.isNull := by
  cases hvalue : t.value <;> simp [has, readObject, Value.field, hvalue, Value.looseEq, Value.isNull]

/-! ## 3. The condition -/

/-- The condition of the test. -/
def condition : Condition :=
  .any [subFieldTest (.textView (.column t.column)) t.field t.negated t.value]

theorem compile_eq :
    compilePredicate (M := Except Error) scope t.predicate = .ok t.condition := by
  obtain ⟨column, field, _ | _, value⟩ := t <;>
    simp [predicate, entry, condition, compilePredicate, Predicate.operand, compileCondition,
      Source.isRow, compileQueue, compileEntry, compileSubFieldTests, plainValue, plainValues, isRowOperand,
      Operand.resolve, fieldNameOf, Compiled.selectField, Compiled.takeColumn, Compiled.emit,
      Compiled.toCondition, Compiled.flush]

variable {d : Dialect} {e : Engine}

/-- The pattern of the written field with the mark that follows. -/
def needle (stop : String) : String :=
  "%" ++ likeEscape ((Value.string t.field).json ++ ":" ++ t.value.json) ++ stop ++ "%"

theorem like_needle (hlikes : e.Likes d) (stop : String) (c : Char) (hstop : stop.toList = [c])
    (hplain : likeEscape stop = stop) (text : String) :
    e.like (.string text) (t.needle stop) = true
      ↔ Json.fieldText t.field t.value c <:+: text.toList := by
  have hfield : ((Value.string t.field).json ++ ":" ++ t.value.json ++ stop).toList
      = Json.fieldText t.field t.value c := by
    simp [Json.fieldText, Value.json, hstop]
  have hneedle : t.needle stop
      = "%" ++ likeEscape ((Value.string t.field).json ++ ":" ++ t.value.json ++ stop) ++ "%" := by
    rw [needle, likeEscape_append _ stop, hplain]
    simp only [String.append_assoc]
  rw [hlikes.like_string, Dialect.matchesLike_eq, hneedle, likes_within, hfield]

/-- Whether the column matches the pattern. -/
def shownAs (e : Engine) (row : Fields) (stop : String) : Truth :=
  unlessNull (fun v _ => e.like v (t.needle stop)) (e.text (columnOf row t.column))
    (.string (t.needle stop))

/-- The condition asks for one of the two patterns, or for none. -/
theorem truth_condition :
    t.condition.truth e row
      = if t.negated then
          Truth.all [Truth.not (t.shownAs e row ","), Truth.not (t.shownAs e row "\x7d")]
        else Truth.any [t.shownAs e row ",", t.shownAs e row "\x7d"] := by
  rw [condition, Condition.truth_any, List.map_singleton, Truth.any_singleton, subFieldTest]
  split
  · rw [Condition.truth_all]
    rfl
  · rw [Condition.truth_any]
    rfl

/-- **On a text the condition says whether the field is shown there.** -/
theorem truth_text (hstandard : e.Standard) (hlikes : e.Likes d) {text : String}
    (h : columnOf row t.column = .string text) :
    t.condition.truth e row = some true
      ↔ (Json.Shows t.field t.value text.toList ↔ t.negated = false) := by
  have hcomma := t.like_needle hlikes "," ',' rfl rfl text
  have hbrace := t.like_needle hlikes "\x7d" '\x7d' rfl rfl text
  have htext : e.text (columnOf row t.column) = .string text := by rw [h, hstandard.text_string]
  have hshown : ∀ stop, t.shownAs e row stop = some (e.like (.string text) (t.needle stop)) := by
    intro stop
    rw [shownAs, htext]
    rfl
  rw [t.truth_condition, hshown, hshown, Json.Shows, ← hcomma, ← hbrace]
  cases e.like (.string text) (t.needle ",") <;> cases e.like (.string text) (t.needle "\x7d") <;>
    cases t.negated <;> decide

/-- On a null the condition is unknown. -/
theorem truth_null (hstandard : e.Standard) (h : columnOf row t.column = .null) :
    t.condition.truth e row = none := by
  have hshown : ∀ stop, t.shownAs e row stop = none := by
    intro stop
    rw [shownAs, h, hstandard.text_null]
    rfl
  rw [t.truth_condition, hshown, hshown]
  cases t.negated <;> rfl

end FieldTest

/-! ## 4. Agreement -/

/-- **A test of a field agrees with the evaluator exactly where what the column holds tells what the
    object has.** For every object and every null, every name and every value, in both dialects. In the
    text of an object a field with an ordinary name is shown where the object, or one inside it, has the
    value under the name, or under a name that ends in a quote and the name. -/
theorem fieldTest_agrees_iff {d : Dialect} {e : Engine} (hstandard : e.Standard) (hlikes : e.Likes d)
    (scope : Scope) (t : FieldTest) (cell : Option Fields) {row stored : Fields}
    (hrow : columnOf row t.column = readObject cell)
    (hstored : columnOf stored t.column = storedObject cell) :
    ∃ condition answer,
      compilePredicate (M := Except Error) scope t.predicate = .ok condition ∧
      Predicate.holds (M := Except Error) scope (.object row) t.predicate = .ok answer ∧
      ((condition.truth e stored = some true ↔ answer = true) ↔ t.Faithful cell) ∧
      (Json.Ordinary t.field → ∀ fields, cell = some fields →
        (t.ShownIn fields ↔ Value.mentionsFields t.field t.value fields)) := by
  refine ⟨t.condition, _, t.compile_eq, t.holds_eq hrow, ?_, ?_⟩
  · cases cell with
    | none =>
      rw [t.truth_null hstandard hstored, t.has_none, FieldTest.Faithful]
      cases t.value.isNull <;> cases t.negated <;> decide
    | some fields =>
      rw [t.truth_text hstandard hlikes hstored, FieldTest.Faithful, FieldTest.ShownIn]
      cases t.has (some fields) <;> cases t.negated <;> simp
  · intro hname fields _
    exact Value.shows_iff_mentions hname fields

/-- A database that tests patterns as a dialect writes them, and else does what the evaluator does. -/
def patternEngine (d : Dialect) : Engine :=
  { plainEngine with
    like := fun v pattern => match v with
      | .string text => d.matchesLike pattern text
      | _ => false }

theorem patternEngine_standard (d : Dialect) : (patternEngine d).Standard :=
  { plainEngine_standard with }

theorem patternEngine_likes (d : Dialect) : (patternEngine d).Likes d := ⟨fun _ _ => rfl⟩

/-- The test `select("value").select("b").eq(1)`. -/
def isOne : FieldTest := ⟨"value", "b", false, .count 1⟩

/-- The object `{"b": 1, "c": 2}`. -/
def oneAndTwo : Fields := [("b", .count 1), ("c", .count 2)]

theorem isOne_finds :
    (patternEngine .sqlite).Standard ∧ (patternEngine .sqlite).Likes .sqlite ∧
    columnOf [("value", readObject (some oneAndTwo))] "value" = readObject (some oneAndTwo) ∧
    columnOf [("value", storedObject (some oneAndTwo))] "value" = storedObject (some oneAndTwo) ∧
    Json.Ordinary isOne.field ∧
    ∃ condition,
      compilePredicate (M := Except Error) [] isOne.predicate = .ok condition ∧
      condition.truth (patternEngine .sqlite) [("value", storedObject (some oneAndTwo))] = some true ∧
      Predicate.holds (M := Except Error) [] (.object [("value", readObject (some oneAndTwo))])
        isOne.predicate = .ok true := by
  have hstandard := patternEngine_standard .sqlite
  have hlikes := patternEngine_likes .sqlite
  have hrow : columnOf [("value", readObject (some oneAndTwo))] isOne.column
      = readObject (some oneAndTwo) := rfl
  have hstored : columnOf [("value", storedObject (some oneAndTwo))] isOne.column
      = storedObject (some oneAndTwo) := rfl
  have hname : Json.Ordinary isOne.field := by
    intro c hc
    obtain rfl : 'b' = c := Option.some.inj hc
    decide
  have hhas : isOne.has (some oneAndTwo) = true := by decide +kernel
  obtain ⟨condition, answer, hcompile, hholds, hiff, hmentions⟩ :=
    fieldTest_agrees_iff hstandard hlikes [] isOne (some oneAndTwo) hrow hstored
  have hshown : isOne.ShownIn oneAndTwo :=
    (hmentions hname oneAndTwo rfl).mpr (Or.inl ⟨Or.inl rfl, rfl⟩)
  have hanswer : answer = true := by
    rw [isOne.holds_eq hrow, hhas] at hholds
    exact (Except.ok.inj hholds).symm
  subst hanswer
  have htruth := hiff.mpr (iff_of_true hshown hhas)
  exact ⟨hstandard, hlikes, hrow, hstored, hname, condition, hcompile, htruth.mpr rfl, hholds⟩

/-- The test `select("value").select("b").ne(1)`. -/
def isNotOne : FieldTest := ⟨"value", "b", true, .count 1⟩

/-- **A null that differs from a value is lost:** the evaluator accepts the row, and the condition is
    unknown on it. -/
theorem null_differs_lost :
    columnOf [("value", readObject none)] "value" = readObject none ∧
    columnOf [("value", storedObject none)] "value" = storedObject none ∧
    ∃ condition,
      compilePredicate (M := Except Error) [] isNotOne.predicate = .ok condition ∧
      condition.truth (patternEngine .sqlite) [("value", storedObject none)] = none ∧
      Predicate.holds (M := Except Error) [] (.object [("value", readObject none)])
        isNotOne.predicate = .ok true := by
  have hrow : columnOf [("value", readObject none)] isNotOne.column = readObject none := rfl
  exact ⟨hrow, rfl, isNotOne.condition, isNotOne.compile_eq,
    isNotOne.truth_null (patternEngine_standard .sqlite) rfl, isNotOne.holds_eq hrow⟩

/-! ## 5. Objects -/

namespace FieldTest

variable (t : FieldTest) {fields : Fields}

/-- A field of an object further inside is shown as if the outer one had it. -/
theorem shown_of_inner (hname : Json.Ordinary t.field) {outer : String} {inner : Fields}
    (hinner : (outer, .object inner) ∈ fields) (hfield : (t.field, t.value) ∈ inner) :
    t.ShownIn fields := by
  rw [ShownIn, Value.shows_iff_mentions hname, Value.mentionsFields_iff]
  refine ⟨_, hinner, Or.inr ?_⟩
  exact Value.mentionsFields_iff.mpr ⟨_, hfield, Or.inl ⟨Or.inl rfl, rfl⟩⟩

/-- **A flat object is tested faithfully,** unless its field is absent and compared with null, or is
    loosely equal to the value without being it. -/
theorem faithful_of_flat (hname : Json.Ordinary t.field) (hnodup : (fields.map Prod.fst).Nodup)
    (hflat : ∀ f ∈ fields, f.2.IsScalar)
    (hends : ∀ f ∈ fields, Json.EndsAs f.1 t.field → f.1 = t.field)
    (habsent : fields.get? t.field = none → t.value.isNull = false)
    (hform : ∀ w, fields.get? t.field = some w → (w.looseEq t.value = true ↔ t.value = w)) :
    t.Faithful (some fields) := by
  have hshown : t.ShownIn fields ↔ fields.get? t.field = some t.value := by
    rw [ShownIn, Value.shows_iff_mentions hname, Value.mentionsFields_iff]
    constructor
    · rintro ⟨⟨written, w⟩, hmem, ⟨hwritten, rfl⟩ | hmentions⟩
      · obtain rfl := hends _ hmem hwritten
        exact Value.get?_of_mem_nodup hnodup hmem
      · exact absurd hmentions (hflat _ hmem).not_mentions
    · intro hget
      exact ⟨_, Fields.mem_of_get? hget, Or.inl ⟨Or.inl rfl, rfl⟩⟩
  rw [Faithful, hshown, has, readObject, Value.field]
  cases hget : fields.get? t.field with
  | none =>
    have hnull : Value.null.looseEq t.value = false := t.has_none.trans (habsent hget)
    simp [hnull]
  | some w => simp [hform w hget, eq_comm]

end FieldTest

end Sql

end QueryAlgebra
