import QueryAlgebra.Proofs.Sql.Containment

/-!
# Lists in statements

What a query selects, the columns and the values of an insert, and what an update sets are lists that
are joined from names and values of the caller. Here they are read back from the text, the way a server
does: the text is cut into tokens, blanks are dropped, and a list is what stands between two keywords
or parentheses, cut at its commas. A list is filled when no item of it is missing; a list that is empty
reads as one missing item.

* `WellListed`: the lists of a statement, by its tokens, are filled.
* `ListOf`: the tokens of a list of some length, whatever names and values are in it.
* `lexemes_joined`: items joined by commas are a list of as many items.
* `wellListed_iff`: a statement is written with filled lists exactly when it has a column.
-/

namespace QueryAlgebra

namespace Sql

/-! ## 1. Reading lists -/

/-- The token of a keyword. -/
def keyword (name : String) : Token := .word name.toList

/-- The tokens of a text without blanks, none when it ends between quotes. -/
def lexemes (d : Dialect) (text : String) : Option (List Token) :=
  (lex d text).map (fun ts => ts.filter (· ≠ .mark ' '))

/-- What stands before a token. -/
def upTo (t : Token) (ts : List Token) : List Token := ts.takeWhile (· ≠ t)

/-- What stands behind a token. -/
def past (t : Token) (ts : List Token) : List Token := (ts.dropWhile (· ≠ t)).tail

/-- The items of a list. -/
def items (ts : List Token) : List (List Token) := ts.splitOn (.mark ',')

/-- A list in which no item is missing, and not empty. -/
def Filled (ts : List Token) : Prop := [] ∉ items ts

instance (ts : List Token) : Decidable (Filled ts) := inferInstanceAs (Decidable (_ ∉ _))

/-- Tokens without the keyword that drops repeated rows. -/
def skipDistinct (ts : List Token) : List Token :=
  if ts.head? = some (keyword "DISTINCT") then ts.tail else ts

/-- What a query selects. -/
def selectList (ts : List Token) : List Token :=
  upTo (keyword "FROM") (skipDistinct (past (keyword "SELECT") ts))

/-- What stands between the first parentheses: the columns of an insert. -/
def columnList (ts : List Token) : List Token := upTo (.mark ')') (past (.mark '(') ts)

/-- What stands between the next parentheses: the values of an insert. -/
def valueList (ts : List Token) : List Token := columnList (past (.mark ')') ts)

/-- What is set. -/
def settingList (ts : List Token) : List Token := upTo (keyword "WHERE") (past (keyword "SET") ts)

/-- **The lists of a statement are filled,** by its tokens: what a query selects; the columns of an
    insert, with as many values, and what it sets on a row that exists, if anything; what an update
    sets. -/
structure WellListed (ts : List Token) : Prop where
  select : ts.head? = some (keyword "SELECT") → Filled (selectList ts)
  insert : ts.head? = some (keyword "INSERT") →
    Filled (columnList ts) ∧ (items (columnList ts)).length = (items (valueList ts)).length ∧
      Filled (valueList ts) ∧ (keyword "SET" ∈ ts → Filled (settingList ts))
  update : ts.head? = some (keyword "UPDATE") → Filled (settingList ts)

/-- **A text that is read to its end, with filled lists.** -/
def TextWellListed (d : Dialect) (text : String) : Prop :=
  ∃ ts, lexemes d text = some ts ∧ WellListed ts

/-! ## 2. Tokens of texts -/

section Lexemes

variable {d : Dialect} {a b : String} {ts us : List Token}

theorem lexemes_of_quoted (h : lex d a = some [.quoted]) : lexemes d a = some [.quoted] := by
  rw [lexemes, h]
  rfl

theorem lexemes_ident (name : String) : lexemes d (d.ident name) = some [.quoted] :=
  lexemes_of_quoted (lex_ident name)

theorem lexemes_append (ha : lexemes d a = some ts) (hb : lexemes d b = some us)
    (h : Ends a ∨ Begins b) : lexemes d (a ++ b) = some (ts ++ us) := by
  obtain ⟨ts', hts, rfl⟩ := Option.map_eq_some_iff.mp ha
  obtain ⟨us', hus, rfl⟩ := Option.map_eq_some_iff.mp hb
  rw [lexemes, (lex_append hts hus h).1, Option.map_some, List.filter_append]

/-- A text after a fixed piece. -/
theorem lexemes_after (g : String) (gs : List Token) (hb : lexemes d b = some us)
    (hg : (∀ d, lexemes d g = some gs) ∧ Ends g) :
    lexemes d (g ++ b) = some (gs ++ us) :=
  lexemes_append (hg.1 d) hb (Or.inl hg.2)

/-- A text before a fixed piece. -/
theorem lexemes_before (g : String) (gs : List Token) (ha : lexemes d a = some ts)
    (hg : (∀ d, lexemes d g = some gs) ∧ Begins g) :
    lexemes d (a ++ g) = some (ts ++ gs) :=
  lexemes_append ha (hg.1 d) (Or.inr hg.2)

/-- Two texts around a fixed piece. -/
theorem lexemes_between (g : String) (gs : List Token) (ha : lexemes d a = some ts)
    (hb : lexemes d b = some us)
    (hg : (∀ d, lexemes d g = some gs) ∧ Begins g ∧ Ends g) :
    lexemes d (a ++ g ++ b) = some (ts ++ gs ++ us) :=
  lexemes_append (lexemes_before g gs ha ⟨hg.1, hg.2.1⟩) hb (Or.inl (hg.2.2.append a))

theorem SelfContained.lexemes (h : SelfContained d a) : ∃ ts, lexemes d a = some ts := by
  obtain ⟨ts, hts, -⟩ := h
  exact ⟨_, congrArg (Option.map _) hts⟩

end Lexemes

/-- Where a scan stands after a text, and the tokens that are finished there. -/
def Scan.after (d : Dialect) : Scan → List Char → Scan × List Token
  | s, [] => (s, [])
  | s, c :: text =>
    ((Scan.after d (s.next d c).1 text).1, (s.next d c).2 ++ (Scan.after d (s.next d c).1 text).2)

theorem scan_append {d : Dialect} (s : Scan) (text rest : List Char) :
    scan d s (text ++ rest)
      = (scan d (s.after d text).1 rest).map ((s.after d text).2 ++ ·) := by
  induction text generalizing s with
  | nil => simp [Scan.after]
  | cons c text ih =>
    rw [List.cons_append, scan, ih, Option.map_map, Scan.after]
    simp [Function.comp_def]

/-- A character outside of quotes is a token, or it begins one. -/
theorem scan_ne_nil {d : Dialect} (s : Scan) {text : List Char} (h : s ≠ .outside [] ∨ text ≠ []) :
    scan d s text ≠ some [] := by
  -- What has been begun is a token at the end.
  have hread (word : List Char) (c : Char) :
      (Scan.read d word c).2 ≠ [] ∨ (Scan.read d word c).1 ≠ .outside [] := by
    unfold Scan.read
    split
    · exact .inr (by simp)
    · exact .inr (by simp)
    · split_ifs
      · exact .inr (by simp)
      · exact .inl (by simp)
  induction text generalizing s with
  | nil =>
    have hs : s ≠ .outside [] := h.resolve_right fun hne => hne rfl
    cases s <;> simp_all [scan, Scan.finish, Scan.wordTokens]
  | cons c text ih =>
    have hnext : (s.next d c).2 ≠ [] ∨ (s.next d c).1 ≠ .outside [] := by
      cases s with
      | outside word => exact hread word c
      | inside q =>
        simp only [Scan.next]
        split_ifs <;> exact .inr (by simp)
      | escaped q => exact .inr (by simp [Scan.next])
      | closing q =>
        simp only [Scan.next]
        split_ifs
        · exact .inr (by simp)
        · exact .inl (by simp)
    intro hnil
    rw [scan, Option.map_eq_some_iff] at hnil
    obtain ⟨us, hus, happ⟩ := hnil
    obtain ⟨hout, rfl⟩ := List.append_eq_nil_iff.mp happ
    exact ih _ (.inl (hnext.resolve_left fun hne => hne hout)) hus

/-! ## 3. Items and lists -/

/-- What ends a list, or stands before it. -/
def closers : List Token :=
  [.mark '(', .mark ')', keyword "SET", keyword "WHERE", keyword "FROM", keyword "DISTINCT"]

/-- The tokens of an item: it has some, and none of them ends the item or the list. -/
def IsItem (ts : List Token) : Prop := ts ≠ [] ∧ ∀ t ∈ ts, t ∉ Token.mark ',' :: closers

instance (ts : List Token) : Decidable (IsItem ts) := inferInstanceAs (Decidable (_ ∧ _))

/-- **The tokens of a list of some length.** None of them ends it, and it is filled unless it is
    empty. -/
structure ListOf (n : Nat) (ts : List Token) : Prop where
  unended : ∀ t ∈ ts, t ∉ closers
  filled : Filled ts ↔ n ≠ 0
  length : n ≠ 0 → (items ts).length = n

theorem IsItem.append {ts us : List Token} (h : ∀ t ∈ ts, t ∉ Token.mark ',' :: closers)
    (hus : IsItem us) : IsItem (ts ++ us) :=
  ⟨List.append_ne_nil_of_right_ne_nil _ hus.1, List.forall_mem_append.mpr ⟨h, hus.2⟩⟩

theorem forall_mem_intercalate {α : Type} {p : α → Prop} {separator : List α}
    {lists : List (List α)} (hseparator : ∀ a ∈ separator, p a) (h : ∀ l ∈ lists, ∀ a ∈ l, p a) :
    ∀ a ∈ separator.intercalate lists, p a := by
  induction lists with
  | nil => simp
  | cons l rest ih =>
    obtain ⟨hl, hrest⟩ := List.forall_mem_cons.mp h
    cases rest with
    | nil => simpa using hl
    | cons next rest =>
      rw [List.intercalate_cons_cons]
      exact List.forall_mem_append.mpr
        ⟨List.forall_mem_append.mpr ⟨hl, hseparator⟩, ih hrest⟩

/-- Items between commas are a list. -/
theorem listOf_intercalate {lists : List (List Token)} (h : ∀ ts ∈ lists, IsItem ts) :
    ListOf lists.length ([Token.mark ','].intercalate lists) := by
  have hunended : ∀ t ∈ [Token.mark ','].intercalate lists, t ∉ closers :=
    forall_mem_intercalate (by decide) fun ts hts t ht hmem =>
      (h ts hts).2 t ht (List.mem_cons_of_mem _ hmem)
  by_cases hnil : lists = []
  · subst hnil
    exact ⟨hunended, by decide, fun hne => absurd rfl hne⟩
  · have hitems : items ([Token.mark ','].intercalate lists) = lists :=
      List.splitOn_intercalate _ (fun ts hts hmem => (h ts hts).2 _ hmem List.mem_cons_self) hnil
    refine ⟨hunended, ?_, fun _ => congrArg List.length hitems⟩
    rw [Filled, hitems]
    exact ⟨fun _ => by simpa using hnil, fun _ hmem => (h [] hmem).1 rfl⟩

/-- **Items joined by commas are a list of as many items.** -/
theorem lexemes_joined {d : Dialect} {texts : List String}
    (h : ∀ text ∈ texts, ∃ ts, lexemes d text = some ts ∧ IsItem ts) :
    ∃ ts, lexemes d (Text.joined ", " texts) = some ts ∧ ListOf texts.length ts := by
  suffices hlists : ∃ lists, lexemes d (Text.joined ", " texts)
        = some ([Token.mark ','].intercalate lists) ∧
      lists.length = texts.length ∧ ∀ ts ∈ lists, IsItem ts by
    obtain ⟨lists, hlex, hlength, hitems⟩ := hlists
    exact ⟨_, hlex, hlength ▸ listOf_intercalate hitems⟩
  induction texts with
  | nil => exact ⟨[], by cases d <;> rfl, rfl, List.forall_mem_nil _⟩
  | cons text rest ih =>
    obtain ⟨⟨ts, hts, hitem⟩, hrest⟩ := List.forall_mem_cons.mp h
    obtain ⟨lists, hlex, hlength, hitems⟩ := ih hrest
    refine ⟨ts :: lists, ?_, congrArg (· + 1) hlength, List.forall_mem_cons.mpr ⟨hitem, hitems⟩⟩
    cases rest with
    | nil =>
      obtain rfl := List.eq_nil_of_length_eq_zero hlength
      simpa [Text.joined] using hts
    | cons next rest =>
      obtain ⟨second, more, rfl⟩ := List.exists_cons_of_length_eq_add_one hlength
      rw [Text.joined, String.intercalate_cons_cons, List.intercalate_cons_cons]
      exact lexemes_between ", " [.mark ','] hts hlex (by decide)

/-! ## 4. Names and values -/

section Values

variable {d : Dialect}

theorem ident_isItem (name : String) :
    ∃ ts, lexemes d (d.ident name) = some ts ∧ IsItem ts :=
  ⟨_, lexemes_ident name, by decide⟩

theorem Token.Numeral.notMem {t : Token} (h : t.Numeral) :
    t ∉ Token.mark ' ' :: Token.mark ',' :: closers := by
  intro hmem
  simp only [closers, List.mem_cons, List.not_mem_nil, or_false] at hmem
  rcases hmem with rfl | rfl | rfl | rfl | rfl | rfl | rfl | rfl
  all_goals revert h; simp [Token.Numeral, keyword, Json.continuesNumeral]

/-- A number is an item: it has a token, and its tokens are made of its letters. -/
theorem number_isItem (n : Number) : ∃ ts, lexemes d n.text = some ts ∧ IsItem ts := by
  have hplain := n.parts_plain
  obtain ⟨c, cs, hwritten, -⟩ := Numeral.written_eq_cons hplain
  have htext : n.text.toList = c :: cs := n.toList_text.trans hwritten
  have hletters : ∀ x ∈ c :: cs, Json.continuesNumeral x = true :=
    hwritten ▸ fun x => Numeral.continues_of_mem_written hplain
  have hminus := hwritten ▸ Numeral.minus_apart_written hplain
  obtain ⟨ts, hts, htokens⟩ := scan_numeral (d := d) (List.forall_mem_nil _) hletters hminus
  have hne : ts ≠ [] := fun hnil =>
    scan_ne_nil (.outside []) (.inr (List.cons_ne_nil c cs)) (hnil ▸ hts)
  have hnone (t : Token) (ht : t ∈ ts) := (htokens.numeral t ht).notMem
  have hblank : ts.filter (· ≠ .mark ' ') = ts := List.filter_eq_self.mpr fun t ht => by
    simpa using fun heq : t = .mark ' ' => hnone t ht (heq ▸ List.mem_cons_self)
  refine ⟨ts, ?_, hne, fun t ht hmem => hnone t ht (List.mem_cons_of_mem _ hmem)⟩
  rw [lexemes, lex, htext, hts, Option.map_some, hblank]

/-- **A literal is an item, whatever the value.** -/
theorem literal_isItem (v : Value) : ∃ ts, lexemes d (d.literal v) = some ts ∧ IsItem ts := by
  have htext (text : String) : ∃ ts, lexemes d (d.text text) = some ts ∧ IsItem ts :=
    ⟨_, lexemes_of_quoted (lex_text text), by decide⟩
  cases v with
  | null => exact ⟨[keyword "NULL"], by cases d <;> rfl, by decide⟩
  | bool b =>
    cases d <;> cases b
    · exact ⟨[keyword "0"], rfl, by decide⟩
    · exact ⟨[keyword "1"], rfl, by decide⟩
    · exact ⟨[keyword "FALSE"], rfl, by decide⟩
    · exact ⟨[keyword "TRUE"], rfl, by decide⟩
  | number n => exact number_isItem n
  | string s => exact htext s
  | array items => exact htext _
  | object fields => exact htext _

/-- A column that an update sets. -/
theorem setting_isItem (name : String) (v : Value) :
    ∃ ts, lexemes d (d.ident name ++ " = " ++ d.literal v) = some ts ∧ IsItem ts := by
  obtain ⟨ts, hts, hitem⟩ := literal_isItem (d := d) v
  exact ⟨_, lexemes_between " = " [.mark '='] (lexemes_ident name) hts (by decide),
    IsItem.append (by decide) hitem⟩

/-- A column of the row that could not be inserted. -/
theorem lexemes_excluded (name : String) :
    lexemes d ("excluded." ++ d.ident name) = some [keyword "excluded", .mark '.', .quoted] := by
  -- No separator stands before the identifier: the scan goes on from the dot.
  have hdot : Scan.after d (.outside []) "excluded.".toList
      = (.outside [], [keyword "excluded", .mark '.']) := by cases d <;> rfl
  have hident := lex_ident (d := d) name
  rw [lex] at hident
  rw [lexemes, lex, String.toList_append, scan_append, hdot, hident]
  rfl

/-- A column that an insert sets on a row that exists. -/
theorem assignment_isItem (assigned : Dialect.Assigned) :
    ∃ ts, lexemes d (d.assignment assigned) = some ts ∧ IsItem ts := by
  cases assigned with
  | excluded name =>
    have hsplit : " = excluded." = " = " ++ "excluded." := by decide
    refine ⟨[.quoted] ++ [.mark '='] ++ [keyword "excluded", .mark '.', .quoted], ?_, by decide⟩
    rw [Dialect.assignment, hsplit, String.append_assoc, String.append_assoc, ← String.append_assoc]
    exact lexemes_between " = " [.mark '='] (lexemes_ident name) (lexemes_excluded name) (by decide)
  | reset name =>
    exact ⟨[.quoted] ++ [.mark '=', keyword "NULL"],
      lexemes_before " = NULL" [.mark '=', keyword "NULL"] (lexemes_ident name) (by decide),
      by decide⟩

end Values

/-! ## 5. Statements by their tokens -/

section Tokens

variable {t : Token} {ts us rest columns values settings : List Token} {n : Nat}

theorem upTo_append (h : t ∉ ts) : upTo t (ts ++ t :: us) = ts := by
  have hts : ∀ x ∈ ts, decide (x ≠ t) = true := fun x hx => by
    simpa using fun heq : x = t => h (heq ▸ hx)
  rw [upTo, List.takeWhile_append_of_pos hts, List.takeWhile_cons_of_neg (by simp),
    List.append_nil]

theorem upTo_self (h : t ∉ ts) : upTo t ts = ts :=
  List.takeWhile_eq_self_iff.mpr fun x hx => by simpa using fun heq : x = t => h (heq ▸ hx)

theorem past_append (h : t ∉ ts) : past t (ts ++ us) = past t us := by
  have hts : ∀ x ∈ ts, decide (x ≠ t) = true := fun x hx => by
    simpa using fun heq : x = t => h (heq ▸ hx)
  rw [past, List.dropWhile_append_of_pos hts, past]

theorem past_cons : past t (t :: ts) = ts := by simp [past]

theorem ListOf.notMem (h : ListOf n ts) (ht : t ∈ closers) : t ∉ ts :=
  fun hmem => h.unended t hmem ht

/-- A statement begins with one keyword. -/
theorem not_head (hhead : ts.head? = some t) {u : Token} (hne : t ≠ u) :
    ts.head? ≠ some u :=
  fun hother => hne (Option.some.inj (hhead.symm.trans hother))

theorem wellListed_of_select (hhead : ts.head? = some (keyword "SELECT")) :
    WellListed ts ↔ Filled (selectList ts) := by
  refine ⟨fun h => h.select hhead, fun h => ⟨fun _ => h, ?_, ?_⟩⟩
  · exact fun hinsert => absurd hinsert (not_head hhead (by decide))
  · exact fun hupdate => absurd hupdate (not_head hhead (by decide))

theorem wellListed_of_insert (hhead : ts.head? = some (keyword "INSERT")) :
    WellListed ts ↔ Filled (columnList ts) ∧
      (items (columnList ts)).length = (items (valueList ts)).length ∧ Filled (valueList ts) ∧
        (keyword "SET" ∈ ts → Filled (settingList ts)) := by
  refine ⟨fun h => h.insert hhead, fun h => ⟨?_, fun _ => h, ?_⟩⟩
  · exact fun hselect => absurd hselect (not_head hhead (by decide))
  · exact fun hupdate => absurd hupdate (not_head hhead (by decide))

theorem wellListed_of_update (hhead : ts.head? = some (keyword "UPDATE")) :
    WellListed ts ↔ Filled (settingList ts) := by
  refine ⟨fun h => h.update hhead, fun h => ⟨?_, ?_, fun _ => h⟩⟩
  · exact fun hselect => absurd hselect (not_head hhead (by decide))
  · exact fun hinsert => absurd hinsert (not_head hhead (by decide))

/-- **A query has filled lists when it selects something.** -/
theorem wellListed_select (distinct : Bool) (h : ListOf n columns) (rest : List Token) :
    WellListed ([keyword "SELECT"] ++ (if distinct then [keyword "DISTINCT"] else [])
        ++ (columns ++ keyword "FROM" :: rest)) ↔ n ≠ 0 := by
  have hhead : (columns ++ keyword "FROM" :: rest).head? ≠ some (keyword "DISTINCT") := by
    cases columns with
    | nil => exact not_head rfl (by decide)
    | cons c columns =>
      exact fun hhead => h.unended c List.mem_cons_self
        (Option.some.inj hhead ▸ (by decide : keyword "DISTINCT" ∈ closers))
  have hselected : skipDistinct ((if distinct then [keyword "DISTINCT"] else [])
      ++ (columns ++ keyword "FROM" :: rest)) = columns ++ keyword "FROM" :: rest := by
    cases distinct with
    | true => rfl
    | false => exact if_neg hhead
  rw [wellListed_of_select rfl, selectList, List.append_assoc, List.singleton_append, past_cons,
    hselected, upTo_append (h.notMem (by decide)), h.filled]

/-- **An insert has filled lists when it has a column,** if what stands behind its values sets
    something or does not set. -/
theorem wellListed_insert (replacing : Bool) (hcolumns : ListOf n columns) (hvalues : ListOf n values)
    (hrest : n ≠ 0 → keyword "SET" ∈ rest → Filled (settingList rest)) :
    WellListed ([keyword "INSERT"] ++ (if replacing then [keyword "OR", keyword "REPLACE"] else [])
        ++ [keyword "INTO", .quoted, .mark '('] ++ (columns ++ .mark ')' ::
        ([keyword "VALUES", .mark '('] ++ (values ++ .mark ')' :: rest)))) ↔ n ≠ 0 := by
  generalize hverb : [keyword "INSERT"] ++ (if replacing then [keyword "OR", keyword "REPLACE"] else [])
    ++ [keyword "INTO", .quoted, .mark '('] = verb
  have hbefore : verb.head? = some (keyword "INSERT") ∧ .mark ')' ∉ verb ∧ keyword "SET" ∉ verb ∧
      ∀ us, past (.mark '(') (verb ++ us) = us := by
    subst hverb
    cases replacing <;> exact ⟨rfl, by decide, by decide, fun us => rfl⟩
  obtain ⟨hhead, hunclosed, hunset, hpast⟩ := hbefore
  have hcolumnList : columnList (verb ++ (columns ++ .mark ')' ::
      ([keyword "VALUES", .mark '('] ++ (values ++ .mark ')' :: rest)))) = columns := by
    rw [columnList, hpast, upTo_append (hcolumns.notMem (by decide))]
  have hvalueList : valueList (verb ++ (columns ++ .mark ')' ::
      ([keyword "VALUES", .mark '('] ++ (values ++ .mark ')' :: rest)))) = values := by
    rw [valueList, past_append hunclosed, past_append (hcolumns.notMem (by decide)), past_cons]
    exact upTo_append (hvalues.notMem (by decide))
  -- Nothing up to the end of the values is the keyword that begins a list of settings.
  have hunset : keyword "SET" ∉ verb ++ columns ++ [.mark ')', keyword "VALUES", .mark '('] ++ values
      ++ [.mark ')'] := by
    simp only [List.mem_append, not_or]
    exact ⟨⟨⟨⟨hunset, hcolumns.notMem (by decide)⟩, by decide⟩, hvalues.notMem (by decide)⟩,
      by decide⟩
  have hsplit : verb ++ (columns ++ .mark ')' ::
      ([keyword "VALUES", .mark '('] ++ (values ++ .mark ')' :: rest)))
      = verb ++ columns ++ [.mark ')', keyword "VALUES", .mark '('] ++ values ++ [.mark ')']
        ++ rest := by simp
  rw [wellListed_of_insert (by rw [List.head?_append, hhead]; rfl), hcolumnList, hvalueList,
    hcolumns.filled, hvalues.filled, hsplit, settingList, past_append hunset]
  refine ⟨fun h => h.1, fun hn => ⟨hn, ?_, hn, fun hset => hrest hn ?_⟩⟩
  · rw [hcolumns.length hn, hvalues.length hn]
  · exact (List.mem_append.mp hset).resolve_left hunset

/-- **An update has filled lists when it sets something.** -/
theorem wellListed_update (h : ListOf n settings) (rest : List Token) :
    WellListed ([keyword "UPDATE", .quoted, keyword "SET"] ++ (settings ++ keyword "WHERE" :: rest))
      ↔ n ≠ 0 := by
  have hpast : past (keyword "SET") ([keyword "UPDATE", .quoted, keyword "SET"]
      ++ (settings ++ keyword "WHERE" :: rest)) = settings ++ keyword "WHERE" :: rest := rfl
  rw [wellListed_of_update rfl, settingList, hpast, upTo_append (h.notMem (by decide)), h.filled]

end Tokens

/-! ## 6. Statements by their texts -/

/-- A test that is made of columns and values. -/
def RowTest.Made (test : RowTest) : Prop := ∀ text, test ≠ .given text

namespace Statement

/-- A statement on rows whose tests are made of columns and values. -/
def OnRows : Statement → Prop
  | .select _ _ _ tests _ => ∀ test ∈ tests, test.Made
  | .insert _ _ | .upsert _ _ _ | .replace _ _ _ _ => True
  | .update _ _ test | .delete _ test => test.Made
  | .createTable _ _ | .createIndex _ _ _ | .dropTable _ | .listTables => False

/-- **A statement that has a column** to select, to insert or to set, if it is about columns. -/
def Listed : Statement → Prop
  | .select _ columns _ _ _ => columns ≠ some []
  | .insert _ row | .upsert _ _ row | .replace _ _ row _ => row ≠ []
  | .update _ changes _ => changes ≠ []
  | _ => True

end Statement

/-- The columns of a query: those named, or all. -/
def columnsText (d : Dialect) : Option (List String) → String
  | some names => d.identList names
  | none => "*"

/-- The limit of a query, if it has one. -/
def limitText : Option Nat → String
  | some n => " LIMIT " ++ toString n
  | none => ""

theorem render_select (d : Dialect) (distinct : Bool) (columns : Option (List String))
    (table : String) (tests : List RowTest) (limit : Option Nat) :
    (Statement.select distinct columns table tests limit).render d
      = "SELECT " ++ (if distinct then "DISTINCT " else "") ++ columnsText d columns ++ " FROM "
        ++ d.ident table ++ whereText d tests ++ limitText limit := by
  cases columns <;> cases limit <;> rfl

section Texts

variable {d : Dialect} {text : String} {ts : List Token}

theorem textWellListed_iff (h : lexemes d text = some ts) :
    TextWellListed d text ↔ WellListed ts := by
  refine ⟨fun ⟨us, hus, hwell⟩ => ?_, fun hwell => ⟨ts, h, hwell⟩⟩
  cases h.symm.trans hus
  exact hwell

/-- A text with something after it that need not be there. -/
theorem lexemes_append_optional {a b : String} {us : List Token} (ha : lexemes d a = some ts)
    (hb : lexemes d b = some us) (h : b = "" ∨ Begins b) :
    lexemes d (a ++ b) = some (ts ++ us) := by
  rcases h with rfl | h
  · obtain rfl : [] = us := Option.some.inj (Eq.trans (by cases d <;> rfl) hb)
    simpa using ha
  · exact lexemes_append ha hb (Or.inr h)

theorem whereText_lexemes {tests : List RowTest} (h : ∀ test ∈ tests, test.Made) :
    (∃ us, lexemes d (whereText d tests) = some us) ∧
      (whereText d tests = "" ∨ Begins (whereText d tests)) := by
  unfold whereText
  split_ifs
  · exact ⟨⟨[], by cases d <;> rfl⟩, .inl rfl⟩
  · have htests : Spans d 1 1 (Text.joined " AND " (tests.map (RowTest.render d))) :=
      SelfContained.joined fun text htext => by
        obtain ⟨test, htest, rfl⟩ := List.mem_map.mp htext
        exact test.selfContained d (h test htest)
    obtain ⟨us, hus, -⟩ := htests
    have hafter := lexemes_after " WHERE " [keyword "WHERE"] (congrArg (Option.map _) hus) (by decide)
    refine ⟨⟨_, hafter⟩, .inr ?_⟩
    exact Begins.append (by decide) _

theorem limitText_lexemes (limit : Option Nat) :
    (∃ us, lexemes d (limitText limit) = some us) ∧
      (limitText limit = "" ∨ Begins (limitText limit)) := by
  cases limit with
  | none => exact ⟨⟨[], by cases d <;> rfl⟩, .inl rfl⟩
  | some n =>
    obtain ⟨us, hus⟩ := (int_selfContained (d := d) (n : Int)).lexemes
    exact ⟨⟨_, lexemes_after " LIMIT " [keyword "LIMIT"] hus (by decide)⟩,
      .inr (Begins.append (by decide) _)⟩

theorem identList_lexemes (names : List String) :
    ∃ ts, lexemes d (d.identList names) = some ts ∧ ListOf names.length ts := by
  have hnames : ∀ text ∈ names.map d.ident, ∃ ts, lexemes d text = some ts ∧ IsItem ts :=
    List.forall_mem_map.mpr fun name _ => ident_isItem name
  obtain ⟨ts, hts, hlist⟩ := lexemes_joined hnames
  exact ⟨ts, hts, by simpa using hlist⟩

theorem columnsText_lexemes (columns : Option (List String)) :
    ∃ ts n, lexemes d (columnsText d columns) = some ts ∧ ListOf n ts ∧
      (n ≠ 0 ↔ columns ≠ some []) := by
  cases columns with
  | none =>
    have hall : ∀ ts ∈ [[Token.mark '*']], IsItem ts := by decide
    exact ⟨[.mark '*'], 1, by cases d <;> rfl, listOf_intercalate hall, by simp⟩
  | some names =>
    obtain ⟨ts, hts, hlist⟩ := identList_lexemes (d := d) names
    exact ⟨ts, _, hts, hlist, by simp⟩

theorem select_wellListed {distinct : Bool} {columns : Option (List String)} {table : String}
    {tests : List RowTest} {limit : Option Nat} (h : ∀ test ∈ tests, test.Made) :
    TextWellListed d ((Statement.select distinct columns table tests limit).render d)
      ↔ columns ≠ some [] := by
  obtain ⟨ts, n, hts, hlist, hn⟩ := columnsText_lexemes (d := d) columns
  have hverb : (∀ d, lexemes d ("SELECT " ++ (if distinct then "DISTINCT " else ""))
      = some ([keyword "SELECT"] ++ (if distinct then [keyword "DISTINCT"] else []))) ∧
      Ends ("SELECT " ++ (if distinct then "DISTINCT " else "")) := by
    cases distinct <;> decide
  have hcolumns := lexemes_after _ _ hts hverb
  have htable := lexemes_between " FROM " [keyword "FROM"] hcolumns (lexemes_ident table) (by decide)
  obtain ⟨⟨us, hwhere⟩, hbegins⟩ := whereText_lexemes (d := d) h
  obtain ⟨⟨vs, hlimit⟩, hbegins'⟩ := limitText_lexemes (d := d) limit
  have hall := lexemes_append_optional (lexemes_append_optional htable hwhere hbegins) hlimit hbegins'
  have hwell := wellListed_select distinct hlist (.quoted :: (us ++ vs))
  rw [render_select, textWellListed_iff hall, ← hn, ← hwell]
  simp only [List.append_assoc, List.cons_append, List.nil_append]

/-- The tokens of an insert: its columns and values are lists of as many items. -/
theorem insertText_lexemes (replacing : Bool) (table : String) (row : Fields) :
    ∃ columns values, ListOf row.length columns ∧ ListOf row.length values ∧
      lexemes d (d.insertText (if replacing then "INSERT OR REPLACE" else "INSERT") table row.names
          (valueTexts d row))
        = some ([keyword "INSERT"] ++ (if replacing then [keyword "OR", keyword "REPLACE"] else [])
          ++ [keyword "INTO"] ++ [.quoted] ++ [.mark '('] ++ columns
          ++ [.mark ')', keyword "VALUES", .mark '('] ++ values ++ [.mark ')']) := by
  have hliterals : ∀ text ∈ valueTexts d row, ∃ ts, lexemes d text = some ts ∧ IsItem ts :=
    List.forall_mem_map.mpr fun f _ => literal_isItem f.2
  obtain ⟨columns, hcolumns, hlist⟩ := identList_lexemes (d := d) row.names
  obtain ⟨values, hvalues, hlist'⟩ := lexemes_joined hliterals
  have hverb : lexemes d (if replacing then "INSERT OR REPLACE" else "INSERT")
      = some ([keyword "INSERT"] ++ (if replacing then [keyword "OR", keyword "REPLACE"] else [])) := by
    cases d <;> cases replacing <;> rfl
  have htable := lexemes_between " INTO " [keyword "INTO"] hverb (lexemes_ident table) (by decide)
  have hopened := lexemes_between " (" [.mark '('] htable hcolumns (by decide)
  have hbody := lexemes_between ") VALUES (" [.mark ')', keyword "VALUES", .mark '('] hopened hvalues
    (by decide)
  refine ⟨columns, values, by simpa [Fields.names] using hlist, by simpa [valueTexts] using hlist', ?_⟩
  exact lexemes_before ")" [.mark ')'] hbody (by decide)

/-- An insert with something behind its values. -/
theorem insertText_wellListed (replacing : Bool) (table : String) (row : Fields) {after : String}
    (hafter : lexemes d after = some ts) (hbegins : after = "" ∨ Begins after)
    (hset : row ≠ [] → keyword "SET" ∈ ts → Filled (settingList ts)) :
    TextWellListed d (d.insertText (if replacing then "INSERT OR REPLACE" else "INSERT") table
        row.names (valueTexts d row) ++ after) ↔ row ≠ [] := by
  obtain ⟨columns, values, hcolumns, hvalues, hlex⟩ := insertText_lexemes (d := d) replacing table row
  have hset' : row.length ≠ 0 → keyword "SET" ∈ ts → Filled (settingList ts) := by simpa using hset
  have hwell := wellListed_insert replacing hcolumns hvalues hset'
  rw [textWellListed_iff (lexemes_append_optional hlex hafter hbegins)]
  simp only [List.append_assoc, List.cons_append, List.nil_append, ne_eq,
    List.length_eq_zero_iff] at hwell ⊢
  exact hwell

/-- What an insert does on a row that exists: nothing, or it sets something. -/
theorem conflictText_lexemes (primaryKey : String) (sets : List Dialect.Assigned) :
    ∃ ts, lexemes d (" ON CONFLICT (" ++ d.ident primaryKey ++ ") "
        ++ (if sets.isEmpty then "DO NOTHING"
          else "DO UPDATE SET " ++ Text.joined ", " (sets.map d.assignment))) = some ts ∧
      (keyword "SET" ∈ ts → Filled (settingList ts)) := by
  have hconflict : lexemes d (" ON CONFLICT (" ++ d.ident primaryKey)
      = some ([keyword "ON", keyword "CONFLICT", .mark '('] ++ [.quoted]) :=
    lexemes_after " ON CONFLICT (" _ (lexemes_ident primaryKey) (by decide)
  split_ifs with hnone
  · have hnothing : lexemes d "DO NOTHING" = some [keyword "DO", keyword "NOTHING"] := by
      cases d <;> rfl
    exact ⟨_, lexemes_between ") " [.mark ')'] hconflict hnothing (by decide),
      fun hset => absurd hset (by decide)⟩
  · have hassignments : ∀ text ∈ sets.map d.assignment,
        ∃ ts, lexemes d text = some ts ∧ IsItem ts :=
      List.forall_mem_map.mpr fun assigned _ => assignment_isItem assigned
    obtain ⟨settings, hsettings, hlist⟩ := lexemes_joined hassignments
    have hsets := lexemes_after "DO UPDATE SET " [keyword "DO", keyword "UPDATE", keyword "SET"]
      hsettings (by decide)
    refine ⟨_, lexemes_between ") " [.mark ')'] hconflict hsets (by decide), fun _ => ?_⟩
    have hpast : past (keyword "SET") ([keyword "ON", keyword "CONFLICT", .mark '('] ++ [.quoted]
        ++ [.mark ')'] ++ ([keyword "DO", keyword "UPDATE", keyword "SET"] ++ settings))
        = settings := rfl
    rw [settingList, hpast, upTo_self (hlist.notMem (by decide)), hlist.filled]
    simpa using hnone

theorem upsert_wellListed (table primaryKey : String) (row : Fields)
    (sets : List Dialect.Assigned) :
    TextWellListed d (d.upsertText table primaryKey row.names (valueTexts d row) sets)
      ↔ row ≠ [] := by
  obtain ⟨ts, hts, hset⟩ := conflictText_lexemes (d := d) primaryKey sets
  have hwell := insertText_wellListed false table row hts
    (.inr ((Begins.append (Begins.append (by decide) _) _).append _)) fun _ => hset
  rw [Dialect.upsertText]
  simpa only [String.append_assoc, Bool.false_eq_true, if_false] using hwell

/-- An insert with nothing behind its values. -/
theorem insert_wellListed (replacing : Bool) (table : String) (row : Fields) :
    TextWellListed d (d.insertText (if replacing then "INSERT OR REPLACE" else "INSERT") table
      row.names (valueTexts d row)) ↔ row ≠ [] := by
  have hempty : lexemes d "" = some [] := by cases d <;> rfl
  have hwell := insertText_wellListed replacing table row hempty (.inl rfl)
    fun _ hset => absurd hset List.not_mem_nil
  rwa [String.append_empty] at hwell

theorem update_wellListed {table : String} {changes : Fields} {test : RowTest} (h : test.Made) :
    TextWellListed d ((Statement.update table changes test).render d) ↔ changes ≠ [] := by
  have hchanges : ∀ text ∈ changes.map (fun f => d.ident f.1 ++ " = " ++ d.literal f.2),
      ∃ ts, lexemes d text = some ts ∧ IsItem ts :=
    List.forall_mem_map.mpr fun f _ => setting_isItem f.1 f.2
  obtain ⟨settings, hsettings, hlist⟩ := lexemes_joined hchanges
  obtain ⟨rest, hrest⟩ := (test.selfContained d h).lexemes
  have htable := lexemes_after "UPDATE " [keyword "UPDATE"] (lexemes_ident (d := d) table) (by decide)
  have hset := lexemes_between " SET " [keyword "SET"] htable hsettings (by decide)
  have hall := lexemes_between " WHERE " [keyword "WHERE"] hset hrest (by decide)
  have hwell := wellListed_update hlist rest
  have hrender : (Statement.update table changes test).render d = "UPDATE " ++ d.ident table
      ++ " SET " ++ Text.joined ", " (changes.map (fun f => d.ident f.1 ++ " = " ++ d.literal f.2))
      ++ " WHERE " ++ test.render d := rfl
  rw [hrender, textWellListed_iff hall]
  simp only [List.append_assoc, List.cons_append, List.nil_append, List.length_map, ne_eq,
    List.length_eq_zero_iff] at hwell ⊢
  exact hwell

theorem delete_wellListed {table : String} {test : RowTest} (h : test.Made) :
    TextWellListed d ((Statement.delete table test).render d) := by
  obtain ⟨rest, hrest⟩ := (test.selfContained d h).lexemes
  have htable := lexemes_after "DELETE FROM " [keyword "DELETE", keyword "FROM"]
    (lexemes_ident (d := d) table) (by decide)
  refine ⟨_, lexemes_between " WHERE " [keyword "WHERE"] htable hrest (by decide), ⟨?_, ?_, ?_⟩⟩
  · exact fun hselect => absurd hselect (not_head rfl (by decide))
  · exact fun hinsert => absurd hinsert (not_head rfl (by decide))
  · exact fun hupdate => absurd hupdate (not_head rfl (by decide))

/-- **A statement is written with filled lists exactly when it has a column.** -/
theorem wellListed_iff {statement : Statement} (h : statement.OnRows) :
    TextWellListed d (statement.render d) ↔ statement.Listed := by
  cases statement with
  | select distinct columns table tests limit => exact select_wellListed h
  | insert table row => exact insert_wellListed false table row
  | upsert table primaryKey row => exact upsert_wellListed table primaryKey row _
  | replace table primaryKey row schemaColumns =>
    cases d with
    | sqlite => exact insert_wellListed true table row
    | postgres => exact upsert_wellListed table primaryKey row _
  | update table changes test => exact update_wellListed h
  | delete table test => exact iff_of_true (delete_wellListed h) trivial
  | createTable | createIndex | dropTable | listTables => exact h.elim

end Texts

end Sql

end QueryAlgebra
