import QueryAlgebra.Proofs.Json.Names
import QueryAlgebra.Proofs.Sql.DeletePaths
import QueryAlgebra.Proofs.Sql.Literals

/-!
# Rows as they are stored

A document is written as literals and read back by the declared types of its columns. What a column holds is
what the literal denotes; decoding it gives the field again. Two things a column for anything does not keep:
it reads a text that is JSON as the value that the text spells, and SQLite, which has no truth values, holds
numbers for them (`Dialect.asDecoded`).

* `Dialect.Stores`: what a column may hold for a value, by its literal in the dialect.
* `decode_stored`: the step; decoding a column gives the field.
* `decodeFields_of_columns`, `decoded_stored_row`: the run; decoding a row gives the document, whatever the order
  of the columns.
* `asDecoded_eq_self`: a document without such texts and truth values is given back itself.
-/

namespace QueryAlgebra

/-- Whether a value is one of the declared type. Null is of every type; arrays and objects nest no deeper
    than is read, and the numbers inside them read back. -/
def FieldType.Fits : FieldType → Value → Prop
  | _, .null => True
  | .string, .string _ => True
  | .number, .number _ => True
  | .bool, .bool _ => True
  | .object, .object fields => (Value.object fields).Readable Json.depthLimit
  | .any, .array items => (Value.array items).Readable Json.depthLimit
  | .any, .object fields => (Value.object fields).Readable Json.depthLimit
  | .any, _ => True
  | _, _ => False

/-- Whether all fields of a document are declared and of their type, and no name is repeated. -/
structure Schema.Fits (schema : Schema) (doc : Fields) : Prop where
  nodup : (doc.map Prod.fst).Nodup
  fits : ∀ f ∈ doc, ∃ field, schema.field? f.1 = some field ∧ field.type.Fits f.2

theorem Number.isZero_congr {m n : Number} (h : m.same n = true) : m.isZero = n.isZero := by
  have hvalue : m.toDouble.toInt = n.toDouble.toInt := Double.same_iff.mp h
  rw [Bool.eq_iff_iff, isZero, isZero, Double.isZero_iff, Double.isZero_iff, hvalue]

namespace Sql

/-! ## 1. What a column holds -/

/-- Whether a column may hold this for a token. A number may be held in another form of the same value, as
    a column of doubles does. -/
def Lexeme.Denotes : Lexeme → Value → Prop
  | .text s, stored => stored = .string s
  | .number digits, stored => ∃ m n : Number, m.text = digits ∧ n.same m = true ∧ stored = .number n
  | .word letters, stored =>
    (letters = "NULL" ∧ stored = .null) ∨ (letters = "TRUE" ∧ stored = .bool true) ∨
      (letters = "FALSE" ∧ stored = .bool false)
  | _, _ => False

/-- Whether a column may hold this for a value: its literal is read, and denotes it. -/
def Dialect.Stores (d : Dialect) (v stored : Value) : Prop :=
  ∃ lexeme, readLexeme d (d.literal v).toList = some (lexeme, []) ∧ lexeme.Denotes stored

section Columns

variable {d : Dialect} {v stored : Value}

theorem stores_iff : d.Stores v stored ↔ (d.denoted v).Denotes stored := by
  have hread : readLexeme d (d.literal v).toList = some (d.denoted v, []) := by
    have hliteral := readLexeme_literal (d := d) separated_nil v
    rwa [List.append_nil] at hliteral
  simp [Dialect.Stores, hread]

theorem denotes_number {n : Number} :
    (Lexeme.number n.text).Denotes stored ↔ ∃ m : Number, m.same n = true ∧ stored = .number m := by
  constructor
  · rintro ⟨m', m, htext, hsame, rfl⟩
    exact ⟨m, Number.text_injective htext ▸ hsame, rfl⟩
  · rintro ⟨m, hsame, rfl⟩
    exact ⟨n, m, rfl, hsame, rfl⟩

theorem denotes_null : (Lexeme.word "NULL").Denotes stored ↔ stored = .null := by
  simp [Lexeme.Denotes]

/-- A number is held for a truth value in SQLite, the truth value in Postgres. -/
theorem stores_bool {b : Bool} :
    d.Stores (.bool b) stored ↔
      match d with
      | .sqlite => ∃ m : Number, m.same (.ofCount (if b then 1 else 0)) = true ∧ stored = .number m
      | .postgres => stored = .bool b := by
  rw [stores_iff]
  cases d with
  | sqlite =>
    have hdenoted : Dialect.sqlite.denoted (.bool b)
        = .number (Number.ofCount (if b then 1 else 0)).text := by
      cases b <;> rfl
    rw [hdenoted]
    exact denotes_number
  | postgres => cases b <;> simp [Dialect.denoted, Lexeme.Denotes]

end Columns

/-! ## 2. Decoding a column -/

/-- What a field of a declared type is decoded as. In a column for anything a text that is JSON is what it
    spells, and SQLite has numbers for truth values. -/
def Dialect.asDecoded (d : Dialect) : FieldType → Value → Value
  | .any, .string s => (Json.read s).getD (.string s)
  | .any, .bool b =>
    match d with
    | .sqlite => .count (if b then 1 else 0)
    | .postgres => .bool b
  | _, v => v

section Decoding

variable {d : Dialect} {type : FieldType} {v stored : Value}

/-- A truth value is read back from itself, and from a number. -/
theorem decode_stored_bool {b : Bool} (hfits : type.Fits (.bool b)) (hstores : d.Stores (.bool b) stored) :
    ∃ w, SchemaField.decode type stored = .ok w ∧ w.looseEq (d.asDecoded type (.bool b)) = true := by
  rw [stores_bool] at hstores
  cases d with
  | sqlite =>
    obtain ⟨m, hsame, rfl⟩ := hstores
    cases type with
    | bool =>
      have hzero : m.isZero = !b := by
        rw [Number.isZero_congr hsame]
        cases b <;> decide +kernel
      exact ⟨.bool b, by simp [SchemaField.decode, Value.isNull, Value.truthy, hzero],
        by simp [Dialect.asDecoded, Value.looseEq]⟩
    | any => exact ⟨.number m, rfl, by simpa [Dialect.asDecoded, Value.count, Value.looseEq] using hsame⟩
    | _ => exact absurd hfits id
  | postgres =>
    obtain rfl : stored = .bool b := hstores
    refine ⟨.bool b, ?_, ?_⟩ <;> cases type <;>
      first
      | rfl
      | exact absurd hfits id
      | simp [Dialect.asDecoded, Value.looseEq]

/-- A text is read back from itself; in a column for anything, as JSON where it is that. -/
theorem decode_stored_string {s : String} (hfits : type.Fits (.string s)) :
    ∃ w, SchemaField.decode type (.string s) = .ok w ∧
      w.looseEq (d.asDecoded type (.string s)) = true := by
  cases type with
  | string => exact ⟨.string s, rfl, by simp [Dialect.asDecoded, Value.looseEq]⟩
  | any =>
    refine ⟨(Json.read s).getD (.string s), rfl, Value.looseEq_self _ ?_⟩
    cases hread : Json.read s with
    | none => simp [Value.Proper]
    | some v => exact Json.proper_of_read hread
  | _ => exact absurd hfits id

/-- An array or an object is read back from its text. -/
theorem decode_stored_json (hv : v.Closes) (hreadable : v.Readable Json.depthLimit)
    (htype : type = .object ∨ type = .any) : SchemaField.decode type (.string v.json) = .ok v := by
  have hread := Json.read_json hreadable hv
  rcases htype with rfl | rfl <;> simp [SchemaField.decode, Value.isNull, hread]

/-- **Decoding what a column holds gives the field.** -/
theorem decode_stored (hfits : type.Fits v) (hstores : d.Stores v stored) :
    ∃ w, SchemaField.decode type stored = .ok w ∧ w.looseEq (d.asDecoded type v) = true := by
  cases v with
  | null =>
    obtain rfl := denotes_null.mp (stores_iff.mp hstores)
    refine ⟨.null, rfl, ?_⟩
    cases type <;> rfl
  | bool b => exact decode_stored_bool hfits hstores
  | number n =>
    obtain ⟨m, hsame, rfl⟩ := denotes_number.mp (stores_iff.mp hstores)
    refine ⟨.number m, ?_, ?_⟩ <;> cases type <;>
      first
      | rfl
      | exact absurd hfits id
      | simpa [Dialect.asDecoded, Value.looseEq] using hsame
  | string s =>
    obtain rfl : stored = .string s := stores_iff.mp hstores
    exact decode_stored_string hfits
  | array items =>
    obtain rfl : stored = .string (Value.array items).json := stores_iff.mp hstores
    cases type with
    | any =>
      have hreadable : (Value.array items).Readable Json.depthLimit := hfits
      exact ⟨_, decode_stored_json trivial hreadable (Or.inr rfl), Value.looseEq_self _ hreadable.proper⟩
    | _ => exact absurd hfits id
  | object fields =>
    obtain rfl : stored = .string (Value.object fields).json := stores_iff.mp hstores
    have hjson : type = .object ∨ type = .any := by
      cases type <;> first | exact absurd hfits id | decide
    have hreadable : (Value.object fields).Readable Json.depthLimit := by
      rcases hjson with rfl | rfl <;> exact hfits
    refine ⟨_, decode_stored_json trivial hreadable hjson, ?_⟩
    rcases hjson with rfl | rfl <;> exact Value.looseEq_self _ hreadable.proper

end Decoding

/-! ## 3. Decoding a row -/

/-- Whether a row holds a document: it has the columns of the fields, in any order, and each holds the
    field. -/
structure Dialect.StoresRow (d : Dialect) (doc row : Fields) : Prop where
  names : (row.map Prod.fst).Perm (doc.map Prod.fst)
  stores : ∀ column ∈ row, ∃ v, (column.1, v) ∈ doc ∧ d.Stores v column.2

/-- A document with its fields as they are decoded. -/
def Dialect.documentAsDecoded (d : Dialect) (schema : Schema) (doc : Fields) : Fields :=
  doc.map fun f => (f.1, match schema.field? f.1 with
    | some field => d.asDecoded field.type f.2
    | none => f.2)

/-- Whether a column of a declared type gives a value back itself: a column for anything does not give back a
    text that is JSON, and in SQLite no truth value. -/
def Dialect.GivesBack (d : Dialect) : FieldType → Value → Prop
  | .any, .string s => Json.read s = none
  | .any, .bool _ => d = .postgres
  | _, _ => True

section Rows

variable {d : Dialect} {schema : Schema} {doc row : Fields}

theorem asDecoded_eq_self {type : FieldType} {v : Value} (h : d.GivesBack type v) :
    d.asDecoded type v = v := by
  cases type <;> cases v <;>
    first
    | rfl
    | (obtain rfl : d = .postgres := h; rfl)
    | (have hread : Json.read _ = none := h; simp [Dialect.asDecoded, hread])

theorem documentAsDecoded_eq_self
    (h : ∀ f ∈ doc, ∀ field, schema.field? f.1 = some field → d.GivesBack field.type f.2) :
    d.documentAsDecoded schema doc = doc := by
  refine (List.map_congr_left fun f hf => ?_).trans (List.map_id doc)
  cases hfield : schema.field? f.1 with
  | none => rfl
  | some field => simp [asDecoded_eq_self (h f hf field hfield)]

theorem names_documentAsDecoded :
    (d.documentAsDecoded schema doc).map Prod.fst = doc.map Prod.fst := by
  simp [Dialect.documentAsDecoded]

/-- A row is decoded where each of its columns is. -/
theorem decodeFields_of_columns {P : String → Value → Prop}
    (h : ∀ column ∈ row, ∃ w, decodeColumn schema column.1 column.2 = .ok w ∧ P column.1 w) :
    ∃ decoded, schema.decodeFields row = .ok decoded ∧
      decoded.map Prod.fst = row.map Prod.fst ∧ ∀ f ∈ decoded, P f.1 f.2 := by
  induction row with
  | nil => exact ⟨[], rfl, rfl, fun f hf => absurd hf List.not_mem_nil⟩
  | cons column row ih =>
    obtain ⟨⟨w, hw, hP⟩, hrest⟩ := List.forall_mem_cons.mp h
    obtain ⟨decoded, hdecoded, hnames, hall⟩ := ih hrest
    refine ⟨(column.1, w) :: decoded, ?_, by simp [hnames], List.forall_mem_cons.mpr ⟨hP, hall⟩⟩
    rw [decodeFields_cons, hw, hdecoded]
    rfl

/-- Objects of one size are loosely equal when the fields of the one are found in the other. -/
theorem looseEq_object {fs gs : Fields} (hlength : fs.length = gs.length)
    (h : ∀ f ∈ fs, ∃ w, gs.get? f.1 = some w ∧ f.2.looseEq w = true) :
    (Value.object fs).looseEq (.object gs) = true := by
  rw [Value.looseEq, Bool.and_eq_true, beq_iff_eq]
  refine ⟨hlength, ?_⟩
  clear hlength
  induction fs with
  | nil => rw [Value.looseEqFields]
  | cons f fs ih =>
    obtain ⟨⟨w, hget, hequal⟩, hrest⟩ := List.forall_mem_cons.mp h
    simp [Value.looseEqFields, hget, hequal, ih hrest]

/-- **Decoding a stored row gives the document,** its fields as they are decoded; and the document itself
    where every column gives back its field. In both dialects, for every schema and every document
    that fits it. -/
theorem decoded_stored_row (hfits : schema.Fits doc) (hrow : d.StoresRow doc row) :
    ∃ decoded, schema.decodeRow row = .ok decoded ∧
      decoded.looseEq (.object (d.documentAsDecoded schema doc)) = true ∧
      ((∀ f ∈ doc, ∀ field, schema.field? f.1 = some field → d.GivesBack field.type f.2) →
        decoded.looseEq (.object doc) = true) := by
  have hcolumns : ∀ column ∈ row, ∃ w, decodeColumn schema column.1 column.2 = .ok w ∧
      ∃ v, (d.documentAsDecoded schema doc).get? column.1 = some v ∧ w.looseEq v = true := by
    intro column hcolumn
    obtain ⟨v, hv, hstores⟩ := hrow.stores column hcolumn
    obtain ⟨field, hfield, hfit⟩ := hfits.fits _ hv
    obtain ⟨w, hw, hequal⟩ := decode_stored hfit hstores
    refine ⟨w, by rw [decodeColumn, hfield]; exact hw, _, ?_, hequal⟩
    refine Value.get?_of_mem_nodup (by rw [names_documentAsDecoded]; exact hfits.nodup) ?_
    exact List.mem_map.mpr ⟨_, hv, by simp [hfield]⟩
  obtain ⟨decoded, hdecoded, hnames, hall⟩ := decodeFields_of_columns (P := fun name w =>
    ∃ v, (d.documentAsDecoded schema doc).get? name = some v ∧ w.looseEq v = true) hcolumns
  have hlength : decoded.length = (d.documentAsDecoded schema doc).length := by
    have hrowLength := congrArg List.length hnames
    have hdocLength := hrow.names.length_eq
    simp only [List.length_map] at hrowLength hdocLength
    rw [Dialect.documentAsDecoded, List.length_map, hrowLength, hdocLength]
  have hequal := looseEq_object hlength hall
  refine ⟨.object decoded, by rw [Schema.decodeRow, hdecoded]; rfl, hequal, fun hgives => ?_⟩
  rwa [documentAsDecoded_eq_self hgives] at hequal

end Rows

/-- The columns of a table of fruits. -/
def fruitColumns : Schema := [⟨"id", .string, true⟩, ⟨"ripe", .bool, false⟩, ⟨"tags", .any, false⟩]

/-- A fruit. -/
def fig : Fields := [("id", .string "fig"), ("tags", .array [.string "dry"]), ("ripe", .bool true)]

/-- The fruit as SQLite holds it. -/
def storedFig : Fields :=
  [("id", .string "fig"), ("ripe", .count 1), ("tags", .string (Value.array [.string "dry"]).json)]

theorem storedFig_decoded :
    fruitColumns.Fits fig ∧ Dialect.sqlite.StoresRow fig storedFig ∧
    (∀ f ∈ fig, ∀ field, fruitColumns.field? f.1 = some field →
      Dialect.sqlite.GivesBack field.type f.2) ∧
    ∃ decoded, fruitColumns.decodeRow storedFig = .ok decoded ∧ decoded.looseEq (.object fig) = true := by
  have htags : (Value.array [.string "dry"]).Readable Json.depthLimit :=
    .array fun v hv => List.mem_singleton.mp hv ▸ .string _ "dry"
  have hfits : fruitColumns.Fits fig := by
    refine ⟨by decide, ?_⟩
    simp only [fig, List.forall_mem_cons]
    exact ⟨⟨_, rfl, trivial⟩, ⟨_, rfl, htags⟩, ⟨_, rfl, trivial⟩, fun f hf => absurd hf List.not_mem_nil⟩
  have hrow : Dialect.sqlite.StoresRow fig storedFig := by
    refine ⟨by decide, ?_⟩
    have hripe : Dialect.sqlite.Stores (.bool true) (.count 1) :=
      stores_bool.mpr ⟨_, by decide +kernel, rfl⟩
    simp only [storedFig, List.forall_mem_cons]
    exact ⟨⟨.string "fig", by simp [fig], stores_iff.mpr rfl⟩, ⟨.bool true, by simp [fig], hripe⟩,
      ⟨.array [.string "dry"], by simp [fig], stores_iff.mpr rfl⟩,
      fun f hf => absurd hf List.not_mem_nil⟩
  have hgives : ∀ f ∈ fig, ∀ field, fruitColumns.field? f.1 = some field →
      Dialect.sqlite.GivesBack field.type f.2 := by
    simp only [fig, List.forall_mem_cons]
    refine ⟨?_, ?_, ?_, fun f hf => absurd hf List.not_mem_nil⟩ <;> rintro field ⟨⟩ <;> trivial
  obtain ⟨decoded, hdecoded, -, hequal⟩ := decoded_stored_row hfits hrow
  exact ⟨hfits, hrow, hgives, decoded, hdecoded, hequal hgives⟩

/-- The column of a table that holds anything. -/
def anyColumn : Schema := [⟨"v", .any, false⟩]

/-- **A text that is JSON is not given back:** the text `5` is decoded as the number. -/
theorem five_not_given_back :
    anyColumn.Fits [("v", .string "5")] ∧
    Dialect.sqlite.StoresRow [("v", .string "5")] [("v", .string "5")] ∧
    ∃ decoded, anyColumn.decodeRow [("v", .string "5")] = .ok decoded ∧
      decoded.looseEq (.object [("v", .string "5")]) = false := by
  have hread : Json.read "5" = some (.count 5) := rfl
  refine ⟨⟨by decide, ?_⟩, ⟨by decide, ?_⟩, .object [("v", .count 5)], ?_, rfl⟩
  · rintro f hf
    obtain rfl := List.mem_singleton.mp hf
    exact ⟨_, rfl, trivial⟩
  · rintro column hcolumn
    obtain rfl := List.mem_singleton.mp hcolumn
    exact ⟨.string "5", by simp, stores_iff.mpr rfl⟩
  · simp [Schema.decodeRow, Schema.decodeFields, Schema.field?, anyColumn, SchemaField.decode,
      Value.isNull, hread]

end Sql

end QueryAlgebra
