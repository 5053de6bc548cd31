import QueryAlgebra.Proofs.Sql.Literals
import QueryAlgebra.Proofs.Value.Documents
import QueryAlgebra.Proofs.Value.Fingerprint

/-!
# Replacements overwrite the whole row

SQLite replaces a row by deleting it before the new one is inserted. Postgres keeps the row and sets its
columns: those that are given to the values of the row that could not be inserted, and those of the
schema that are not given to null. Here what an insert does on a row that exists is read from its text,
the way a server does: the text is cut into decoded tokens, and the settings are what stands between
commas. The two forms leave the same row.

* `Lexes`: the decoded tokens of a text.
* `Dialect.ReadsInsert`: an insert, and what it does on a row that exists.
* `Overwrites`: all columns but the key are set, each of them once.
* `replaceText_overwrites`: both forms of a replacement.
-/

namespace QueryAlgebra

namespace Sql

/-! ## 1. Decoded texts -/

/-- **The decoded tokens of a text,** without the blanks between them. -/
inductive Lexes (d : Dialect) : List Char → List Lexeme → Prop
  | nil : Lexes d [] []
  | blank {text : List Char} {ts : List Lexeme} (h : Lexes d text ts) : Lexes d (' ' :: text) ts
  | cons {text rest : List Char} {t : Lexeme} {ts : List Lexeme}
      (hread : readLexeme d text = some (t, rest)) (ht : t ≠ .mark ' ') (h : Lexes d rest ts) :
      Lexes d text (t :: ts)

theorem readLexeme_mark {d : Dialect} {c : Char} (hc : c ∈ [' ', ',', '=', '.']) (text : List Char) :
    readLexeme d (c :: text) = some (.mark c, text) := by
  simp only [List.mem_cons, List.not_mem_nil, or_false] at hc
  rcases hc with rfl | rfl | rfl | rfl <;> cases d <;> rfl

/-- A text has one reading. -/
theorem Lexes.unique {d : Dialect} {text : List Char} {ts us : List Lexeme} (h : Lexes d text ts)
    (h' : Lexes d text us) : ts = us := by
  induction h generalizing us with
  | nil =>
    cases h' with
    | nil => rfl
    | cons hread _ _ => cases hread
  | @blank text ts _ ih =>
    cases h' with
    | blank h' => exact ih h'
    | cons hread ht _ =>
      rw [readLexeme_mark (by decide)] at hread
      cases hread
      exact absurd rfl ht
  | cons hread ht _ ih =>
    cases h' with
    | nil => cases hread
    | blank _ =>
      rw [readLexeme_mark (by decide)] at hread
      cases hread
      exact absurd rfl ht
    | cons hread' _ h' =>
      obtain ⟨rfl, rfl⟩ := Prod.mk.inj (Option.some.inj (hread.symm.trans hread'))
      rw [ih h']

/-! ## 2. What an insert does on a row that exists -/

/-- What a column is set to. -/
inductive NewValue where
  /-- The value of a column of the row that could not be inserted. -/
  | excluded (column : String)
  /-- Null. -/
  | null
deriving DecidableEq, Repr

/-- The value that a column is set to. -/
def NewValue.value (inserted : Fields) : NewValue → Value
  | .excluded column => (inserted.get? column).getD .null
  | .null => .null

/-- What an insert does on a row that exists. -/
inductive OnExisting where
  /-- The row is deleted before the new one is inserted. -/
  | delete
  /-- The row is left as it is. -/
  | nothing
  /-- Columns of the row are set. -/
  | set (settings : List (String × NewValue))
deriving DecidableEq, Repr

/-- A column that is set, from the tokens between two commas. -/
def readSetting : List Lexeme → Option (String × NewValue)
  | [.ident c, .mark '=', .word "excluded", .mark '.', .ident c'] => some (c, .excluded c')
  | [.ident c, .mark '=', .word "NULL"] => some (c, .null)
  | _ => none

/-- What stands behind the column of a conflict. -/
def readAction : List Lexeme → Option OnExisting
  | [.word "DO", .word "NOTHING"] => some .nothing
  | .word "DO" :: .word "UPDATE" :: .word "SET" :: ts =>
    ((ts.splitOn (.mark ',')).mapM readSetting).map .set
  | _ => none

/-- **An insert, and what it does on a row that exists,** from its text. -/
inductive Dialect.ReadsInsert (d : Dialect) (table primaryKey : String)
    (columns values : List String) : String → OnExisting → Prop
  | orReplace : ReadsInsert d table primaryKey columns values
      (d.insertText "INSERT OR REPLACE" table columns values) .delete
  | onConflict {text : String} {ts : List Lexeme} {action : OnExisting} (h : Lexes d text.toList ts)
      (haction : readAction ts = some action) : ReadsInsert d table primaryKey columns values
      (d.insertText "INSERT" table columns values ++ " ON CONFLICT (" ++ d.ident primaryKey ++ ") "
        ++ text) action

namespace OnExisting

/-- The columns that are set. -/
def settings : OnExisting → List (String × NewValue)
  | .set settings => settings
  | .delete | .nothing => []

/-- **The row that is left** in place of one that exists. A row that is inserted anew has null in the
    columns that are not given. -/
def leaves (inserted existing : Fields) : OnExisting → Fields
  | .delete => existing.map fun f => (f.1, (inserted.get? f.1).getD .null)
  | .nothing => existing
  | .set settings =>
    existing.map fun f => (f.1, ((settings.lookup f.1).map (NewValue.value inserted)).getD f.2)

end OnExisting

/-- A text is the text of one insert: it says one thing about a row that exists. -/
theorem Dialect.ReadsInsert.unique {d : Dialect} {table primaryKey text : String}
    {columns values : List String} {action action' : OnExisting}
    (h : d.ReadsInsert table primaryKey columns values text action)
    (h' : d.ReadsInsert table primaryKey columns values text action') : action = action' := by
  -- The verbs differ in their eighth character.
  have hverbs (rest : String) : d.insertText "INSERT OR REPLACE" table columns values
      ≠ d.insertText "INSERT" table columns values ++ " ON CONFLICT (" ++ d.ident primaryKey ++ ") "
        ++ rest := fun heq => by
    have hchar := congrArg (fun s : String => s.toList[7]?) heq
    simp [Dialect.insertText] at hchar
  generalize htext : text = text' at h'
  cases h with
  | orReplace =>
    cases h' with
    | orReplace => rfl
    | onConflict _ _ => exact absurd htext (hverbs _)
  | onConflict hlex haction =>
    cases h' with
    | orReplace => exact absurd htext.symm (hverbs _)
    | onConflict hlex' haction' =>
      obtain rfl := String.append_right_inj _ |>.mp htext
      obtain rfl := hlex.unique hlex'
      exact Option.some.inj (haction.symm.trans haction')

/-! ## 3. The text of a replacement -/

section Texts

variable {d : Dialect} {rest : List Char} {ts : List Lexeme}

/-- The tokens of a column that is set. -/
def Dialect.Assigned.lexemes : Dialect.Assigned → List Lexeme
  | .excluded c => [.ident c, .mark '=', .word "excluded", .mark '.', .ident c]
  | .reset c => [.ident c, .mark '=', .word "NULL"]

/-- What a column is set to. -/
def Dialect.Assigned.newValue : Dialect.Assigned → String × NewValue
  | .excluded c => (c, .excluded c)
  | .reset c => (c, .null)

theorem Lexes.ident (name : String) (hrest : Separated rest) (h : Lexes d rest ts) :
    Lexes d ((d.ident name).toList ++ rest) (.ident name :: ts) :=
  .cons (readLexeme_ident hrest name) (fun heq => by cases heq) h

/-- A column that is set, in front of a text. -/
theorem Lexes.assignment (assigned : Dialect.Assigned) (hrest : Separated rest) (h : Lexes d rest ts) :
    Lexes d ((d.assignment assigned).toList ++ rest) (assigned.lexemes ++ ts) := by
  have hequals {text : List Char} {us : List Lexeme} (hus : Lexes d text us) :
      Lexes d (" = ".toList ++ text) (.mark '=' :: us) :=
    .blank (.cons (readLexeme_mark (by decide) _) (by decide) (.blank hus))
  have hblank (text : List Char) : Separated (' ' :: text) := fun c hc =>
    .inl (Option.some.inj hc).symm
  cases assigned with
  | excluded c =>
    have hdot : Lexes d ('.' :: ((d.ident c).toList ++ rest)) (.mark '.' :: .ident c :: ts) :=
      .cons (readLexeme_mark (by decide) _) (by decide) (.ident c hrest h)
    have hword : Lexes d ("excluded".toList ++ '.' :: ((d.ident c).toList ++ rest))
        (.word "excluded" :: .mark '.' :: .ident c :: ts) :=
      .cons (by cases d <;> rfl) (by decide) hdot
    have htext : (d.assignment (.excluded c)).toList ++ rest = (d.ident c).toList
        ++ (" = ".toList ++ ("excluded".toList ++ '.' :: ((d.ident c).toList ++ rest))) := by
      simp [Dialect.assignment]
    rw [htext]
    exact .ident c (hblank _) (hequals hword)
  | reset c =>
    have hword : Lexes d ("NULL".toList ++ rest) (.word "NULL" :: ts) :=
      .cons (readLexeme_word hrest ['U', 'L', 'L'] (by decide) rfl) (by decide) h
    have htext : (d.assignment (.reset c)).toList ++ rest
        = (d.ident c).toList ++ (" = ".toList ++ ("NULL".toList ++ rest)) := by
      simp [Dialect.assignment]
    rw [htext]
    exact .ident c (hblank _) (hequals hword)

/-- Columns that are set, between commas. -/
theorem Lexes.assignments (sets : List Dialect.Assigned) :
    Lexes d (Text.joined ", " (sets.map d.assignment)).toList
      ([Lexeme.mark ','].intercalate (sets.map Dialect.Assigned.lexemes)) := by
  have hlast (assigned : Dialect.Assigned) :
      Lexes d (d.assignment assigned).toList assigned.lexemes := by
    simpa using Lexes.assignment assigned separated_nil .nil
  induction sets with
  | nil => exact .nil
  | cons first others ih =>
    cases others with
    | nil => simpa [Text.joined] using hlast first
    | cons next others =>
      have hcomma : Separated (',' :: ' ' ::
          (Text.joined ", " ((next :: others).map d.assignment)).toList) := fun c hc =>
        .inr (.inl (Option.some.inj hc).symm)
      have hrest : Lexes d (',' :: ' ' :: (Text.joined ", " ((next :: others).map d.assignment)).toList)
          (.mark ',' :: [Lexeme.mark ','].intercalate ((next :: others).map Dialect.Assigned.lexemes)) :=
        .cons (readLexeme_mark (by decide) _) (by decide) (.blank ih)
      have hall := Lexes.assignment first hcomma hrest
      simpa [Text.joined, String.intercalate_cons_cons, List.intercalate_cons_cons] using hall

theorem readSetting_lexemes (assigned : Dialect.Assigned) :
    readSetting assigned.lexemes = some assigned.newValue := by
  cases assigned <;> rfl

/-- Columns that are set are read back: no comma stands inside of one. -/
theorem readSettings_lexemes {sets : List Dialect.Assigned} (h : sets ≠ []) :
    (([Lexeme.mark ','].intercalate (sets.map Dialect.Assigned.lexemes)).splitOn (.mark ',')).mapM
      readSetting = some (sets.map Dialect.Assigned.newValue) := by
  have hcommas : ∀ l ∈ sets.map Dialect.Assigned.lexemes, Lexeme.mark ',' ∉ l :=
    List.forall_mem_map.mpr fun assigned _ => by
      cases assigned <;> simp [Dialect.Assigned.lexemes]
  rw [List.splitOn_intercalate _ hcommas (by simpa using h), List.mapM_map]
  clear h hcommas
  induction sets with
  | nil => rfl
  | cons first others ih => simp [List.mapM_cons, readSetting_lexemes, ih]

/-- What an insert that sets columns does on a row that exists. -/
def OnExisting.ofSets (sets : List Dialect.Assigned) : OnExisting :=
  if sets.isEmpty then .nothing else .set (sets.map Dialect.Assigned.newValue)

/-- **An insert that sets columns of a row that exists is read so.** -/
theorem readsInsert_upsertText (table primaryKey : String) (columns values : List String)
    (sets : List Dialect.Assigned) :
    d.ReadsInsert table primaryKey columns values
      (d.upsertText table primaryKey columns values sets) (.ofSets sets) := by
  have hword (word : String) {text : List Char} {us : List Lexeme} (hread : readLexeme d (word.toList
      ++ ' ' :: text) = some (.word word, ' ' :: text)) (hus : Lexes d text us) :
      Lexes d (word.toList ++ ' ' :: text) (.word word :: us) :=
    .cons hread (fun heq => by cases heq) (.blank hus)
  rw [Dialect.upsertText]
  by_cases hsets : sets.isEmpty
  · rw [if_pos hsets, OnExisting.ofSets, if_pos hsets]
    have hread : readLexeme d "NOTHING".toList = some (.word "NOTHING", []) := by cases d <;> rfl
    have hnothing : Lexes d "NOTHING".toList [.word "NOTHING"] := .cons hread (by decide) .nil
    exact .onConflict (hword "DO" (by cases d <;> rfl) hnothing) rfl
  · rw [if_neg hsets, OnExisting.ofSets, if_neg hsets]
    have hset := hword "SET" (by cases d <;> rfl) (Lexes.assignments (d := d) sets)
    have hupdate := hword "UPDATE" (by cases d <;> rfl) hset
    have hdo := hword "DO" (by cases d <;> rfl) hupdate
    have haction : readAction (.word "DO" :: .word "UPDATE" :: .word "SET"
        :: [Lexeme.mark ','].intercalate (sets.map Dialect.Assigned.lexemes))
          = some (.set (sets.map Dialect.Assigned.newValue)) := by
      rw [readAction, readSettings_lexemes (by simpa using hsets)]
      rfl
    exact .onConflict (by simpa using hdo) haction

end Texts

/-! ## 4. The row that is left -/

/-- **What is done on a row that exists overwrites the whole row.** -/
structure Overwrites (primaryKey : String) (columns schemaColumns : List String)
    (action : OnExisting) : Prop where
  /-- No column is set twice. -/
  once : (action.settings.map Prod.fst).Nodup
  /-- All columns but the key are set: those given to the value that is given, the others to null. -/
  assigns (column : String) (source : NewValue) : (column, source) ∈ action.settings ↔
    column ≠ primaryKey ∧ (column ∈ columns ∧ source = .excluded column ∨
      (column ∉ columns ∧ column ∈ schemaColumns) ∧ source = .null)
  /-- The row is left as it is when there is nothing to set. -/
  nothing : action = .nothing ↔ ∀ column ∈ columns ++ schemaColumns, column = primaryKey
  /-- A row with these columns, of the key that is inserted, becomes what it is when it is deleted and
      inserted anew. -/
  leaves (inserted existing : Fields) (hinserted : inserted.map Prod.fst = columns)
    (hnames : (existing.map Prod.fst).Nodup)
    (hcolumns : ∀ column ∈ existing.map Prod.fst, column ∈ columns ++ schemaColumns)
    (hkey : existing.get? primaryKey = inserted.get? primaryKey) :
    action.leaves inserted existing = OnExisting.delete.leaves inserted existing

section Assigned

variable {primaryKey : String} {columns schemaColumns : List String}

theorem settings_ofSets (sets : List Dialect.Assigned) :
    (OnExisting.ofSets sets).settings = sets.map Dialect.Assigned.newValue := by
  cases sets <;> rfl

theorem ofSets_eq_nothing_iff {sets : List Dialect.Assigned} :
    OnExisting.ofSets sets = .nothing ↔ sets = [] := by
  cases sets <;> simp [OnExisting.ofSets]

/-- A row is left by what is set on it. -/
theorem leaves_ofSets (sets : List Dialect.Assigned) (inserted existing : Fields) :
    (OnExisting.ofSets sets).leaves inserted existing = existing.map fun f =>
      (f.1, (((sets.map Dialect.Assigned.newValue).lookup f.1).map (NewValue.value inserted)).getD f.2) := by
  cases sets with
  | nil => simp [OnExisting.ofSets, OnExisting.leaves]
  | cons first others => rfl

/-- The columns that a replacement sets on a row that exists. -/
theorem map_newValue_assigned :
    ((Dialect.assigned primaryKey columns schemaColumns).map Dialect.Assigned.newValue).map Prod.fst
      = columns.filter (· ≠ primaryKey)
        ++ schemaColumns.filter (fun c => c ≠ primaryKey ∧ c ∉ columns) := by
  simp [Dialect.assigned, Dialect.Assigned.newValue, Function.comp_def]

theorem mem_newValue_assigned {column : String} {source : NewValue} :
    (column, source) ∈ (Dialect.assigned primaryKey columns schemaColumns).map Dialect.Assigned.newValue ↔
      column ≠ primaryKey ∧ (column ∈ columns ∧ source = .excluded column ∨
        (column ∉ columns ∧ column ∈ schemaColumns) ∧ source = .null) := by
  simp only [Dialect.assigned, List.map_append, List.map_map, List.mem_append, List.mem_map,
    List.mem_filter, Function.comp_apply, Dialect.Assigned.newValue, decide_eq_true_eq, Prod.mk.injEq]
  constructor
  · rintro (⟨c, ⟨hc, hne⟩, rfl, rfl⟩ | ⟨c, ⟨hc, hne, hnot⟩, rfl, rfl⟩)
    · exact ⟨hne, .inl ⟨hc, rfl⟩⟩
    · exact ⟨hne, .inr ⟨⟨hnot, hc⟩, rfl⟩⟩
  · rintro ⟨hne, ⟨hc, rfl⟩ | ⟨⟨hnot, hc⟩, rfl⟩⟩
    · exact .inl ⟨column, ⟨hc, hne⟩, rfl, rfl⟩
    · exact .inr ⟨column, ⟨hc, hne, hnot⟩, rfl, rfl⟩

theorem nodup_assigned (hcolumns : columns.Nodup) (hschema : schemaColumns.Nodup) :
    (((Dialect.assigned primaryKey columns schemaColumns).map Dialect.Assigned.newValue).map
      Prod.fst).Nodup := by
  rw [map_newValue_assigned]
  refine List.Nodup.append (hcolumns.filter _) (hschema.filter _) fun c hc hc' => ?_
  exact (of_decide_eq_true (List.mem_filter.mp hc').2).2 (List.mem_filter.mp hc).1

/-- The key is not set. -/
theorem lookup_assigned_key :
    ((Dialect.assigned primaryKey columns schemaColumns).map Dialect.Assigned.newValue).lookup primaryKey
      = none := by
  refine List.lookup_eq_none_iff.mpr fun f hf => ?_
  have hne := (mem_newValue_assigned.mp hf).1
  simpa using hne.symm

/-- Any other column is set to the value of the row that is inserted, null if it has none. -/
theorem lookup_assigned {column : String} (hne : column ≠ primaryKey)
    (hmem : column ∈ columns ++ schemaColumns) {inserted : Fields}
    (hinserted : inserted.map Prod.fst = columns) :
    (((Dialect.assigned primaryKey columns schemaColumns).map Dialect.Assigned.newValue).lookup
      column).map (NewValue.value inserted) = some ((inserted.get? column).getD .null) := by
  cases hlookup : ((Dialect.assigned primaryKey columns schemaColumns).map
      Dialect.Assigned.newValue).lookup column with
  | none =>
    have hnone := List.lookup_eq_none_iff.mp hlookup
    have hunset (source : NewValue) :
        (column, source) ∉ (Dialect.assigned primaryKey columns schemaColumns).map
          Dialect.Assigned.newValue := fun hset => by simpa using hnone _ hset
    simp only [mem_newValue_assigned] at hunset
    by_cases hgiven : column ∈ columns
    · exact absurd ⟨hne, .inl ⟨hgiven, rfl⟩⟩ (hunset (.excluded column))
    · have hdeclared := (List.mem_append.mp hmem).resolve_left hgiven
      exact absurd ⟨hne, .inr ⟨⟨hgiven, hdeclared⟩, rfl⟩⟩ (hunset .null)
  | some source =>
    obtain ⟨before, after, hsplit, -⟩ := List.lookup_eq_some_iff.mp hlookup
    have hset := hsplit ▸ List.mem_append_right before (List.mem_cons_self (l := after))
    rcases (mem_newValue_assigned.mp hset).2 with ⟨-, rfl⟩ | ⟨⟨hnot, -⟩, rfl⟩
    · rfl
    · rw [Fields.get?_eq_none_of_not_mem (hinserted ▸ hnot)]
      rfl

/-- **What a replacement sets on a row that exists overwrites the row.** -/
theorem overwrites_assigned (hcolumns : columns.Nodup) (hschema : schemaColumns.Nodup) :
    Overwrites primaryKey columns schemaColumns
      (.ofSets (Dialect.assigned primaryKey columns schemaColumns)) where
  once := by
    rw [settings_ofSets]
    exact nodup_assigned hcolumns hschema
  assigns column source := by
    rw [settings_ofSets]
    exact mem_newValue_assigned
  nothing := by
    rw [ofSets_eq_nothing_iff, Dialect.assigned, List.append_eq_nil_iff, List.map_eq_nil_iff,
      List.map_eq_nil_iff, List.filter_eq_nil_iff, List.filter_eq_nil_iff, List.forall_mem_append]
    simp only [decide_eq_true_eq, not_not, not_and_or]
    refine and_congr_right fun hgiven => forall₂_congr fun c _ => ?_
    exact ⟨fun h => h.elim id (hgiven c), .inl⟩
  leaves inserted existing hinserted hnames hall hkey := by
    rw [leaves_ofSets, OnExisting.leaves]
    refine List.map_congr_left fun f hf => ?_
    by_cases hne : f.1 = primaryKey
    · have hget := Value.get?_of_mem_nodup hnames hf
      rw [hne] at hget ⊢
      rw [lookup_assigned_key, ← hkey, hget]
      rfl
    · rw [lookup_assigned hne (hall f.1 (List.mem_map_of_mem hf)) hinserted]
      rfl

/-- **Both forms of a replacement overwrite the whole row.** SQLite deletes a row that exists; Postgres
    sets its columns, so that the same row is left. -/
theorem replaceText_overwrites (table primaryKey : String) {columns schemaColumns : List String}
    (values : List String) (hcolumns : columns.Nodup) (hschema : schemaColumns.Nodup) :
    Dialect.ReadsInsert .sqlite table primaryKey columns values
        (Dialect.sqlite.replaceText table primaryKey columns values schemaColumns) .delete ∧
      ∃ action, Dialect.ReadsInsert .postgres table primaryKey columns values
          (Dialect.postgres.replaceText table primaryKey columns values schemaColumns) action ∧
        Overwrites primaryKey columns schemaColumns action :=
  ⟨.orReplace, _, readsInsert_upsertText .., overwrites_assigned hcolumns hschema⟩

/-- A column that is not given is set to null, and so is one whose name looks like the end of a
    statement. -/
theorem replaceText_resets :
    Dialect.postgres.replaceText "t" "key" ["key", "a"] ["'k'", "5"] ["a", "key", "b\" = 1; --"]
        = "INSERT INTO \"t\" (\"key\", \"a\") VALUES ('k', 5) ON CONFLICT (\"key\") "
          ++ "DO UPDATE SET \"a\" = excluded.\"a\", \"b\"\" = 1; --\" = NULL" ∧
      ∃ action, Dialect.ReadsInsert .postgres "t" "key" ["key", "a"] ["'k'", "5"]
          (Dialect.postgres.replaceText "t" "key" ["key", "a"] ["'k'", "5"]
            ["a", "key", "b\" = 1; --"]) action ∧
        Overwrites "key" ["key", "a"] ["a", "key", "b\" = 1; --"] action :=
  ⟨by decide +kernel, (replaceText_overwrites "t" "key" ["'k'", "5"] (by decide) (by decide)).2⟩

end Assigned

end Sql

end QueryAlgebra
