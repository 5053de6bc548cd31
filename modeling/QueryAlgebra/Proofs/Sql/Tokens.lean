import Mathlib.Data.List.Chain
import Mathlib.Tactic.Common
import QueryAlgebra.Json.Reader
import QueryAlgebra.Sql.Dialect

/-!
# Scanning statements

A server cuts the text of a statement into quoted tokens, words, and single characters. A text begins
at a quote and ends at the next one that is not doubled; so does an identifier. After the word `E`,
Postgres reads a text in which a backslash takes the meaning from the character after it. What stands
between quotes is data; only what stands outside can change what the rest of a statement means.

* `lex`: the tokens of a text, none when it ends between quotes.
* `Inert`: tokens that can be put into a statement without an effect on what stands around them.
* `Inert.append`, `Inert.lift`: such tokens one after another, and inside of parentheses.
* `scan_append`: two texts that meet at a separator are cut one by one.
-/

namespace QueryAlgebra

namespace Sql

/-! ## 1. Tokens -/

/-- A token of a statement. -/
inductive Token where
  /-- A text or an identifier between quotes. -/
  | quoted
  /-- A keyword, a number, or the name of a function. -/
  | word (letters : List Char)
  /-- Any other character outside of quotes. -/
  | mark (c : Char)
deriving DecidableEq, Repr

/-- The kinds of quotes. -/
inductive Quotes where
  /-- Around a text. -/
  | text
  /-- Around a text in which a backslash takes the meaning from the next character. -/
  | escapes
  /-- Around an identifier. -/
  | ident
deriving DecidableEq, Repr

/-- The character that begins and ends a quoted token. -/
def Quotes.char (d : Dialect) : Quotes → Char
  | .text | .escapes => '\''
  | .ident => d.identQuote

/-- The quotes that a character opens, by the word right before it. -/
def Dialect.opened (d : Dialect) (word : List Char) (c : Char) : Option Quotes :=
  if c = '\'' then
    some (if d = .postgres ∧ (word = ['E'] ∨ word = ['e']) then .escapes else .text)
  else if c = d.identQuote then some .ident
  else none

/-- A character of a word. -/
def isWordChar (c : Char) : Bool := c.isAlphanum || c == '_' || 0x80 ≤ c.toNat

/-- Where a scan of a text stands. -/
inductive Scan where
  /-- Outside of quotes, after the letters of an unfinished word. -/
  | outside (word : List Char)
  /-- Between quotes. -/
  | inside (quotes : Quotes)
  /-- Between quotes, after a backslash that has a meaning. -/
  | escaped (quotes : Quotes)
  /-- After a quote that ends the token unless it is doubled. -/
  | closing (quotes : Quotes)
deriving DecidableEq, Repr

namespace Scan

/-- The token of a finished word. -/
def wordTokens (word : List Char) : List Token := if word = [] then [] else [.word word]

/-- Reads a character outside of quotes. -/
def read (d : Dialect) (word : List Char) (c : Char) : Scan × List Token :=
  match d.opened word c with
  | some .escapes => (.inside .escapes, [])
  | some q => (.inside q, wordTokens word)
  | none =>
    if isWordChar c then (.outside (word ++ [c]), []) else (.outside [], wordTokens word ++ [.mark c])

/-- Reads a character; answers the tokens that it finishes. -/
def next (d : Dialect) : Scan → Char → Scan × List Token
  | .outside word, c => read d word c
  | .inside q, c =>
    if q = .escapes ∧ c = '\\' then (.escaped q, [])
    else if c = q.char d then (.closing q, [])
    else (.inside q, [])
  | .escaped q, _ => (.inside q, [])
  | .closing q, c =>
    if c = q.char d then (.inside q, []) else ((read d [] c).1, .quoted :: (read d [] c).2)

/-- The tokens that the end of the text finishes, none between quotes. -/
def finish : Scan → Option (List Token)
  | .outside word => some (wordTokens word)
  | .closing _ => some [.quoted]
  | .inside _ | .escaped _ => none

end Scan

/-- The tokens of what is left of a text. -/
def scan (d : Dialect) : Scan → List Char → Option (List Token)
  | s, [] => s.finish
  | s, c :: text => (scan d (s.next d c).1 text).map ((s.next d c).2 ++ ·)

/-- **The tokens of a text**, none when it ends between quotes. -/
def lex (d : Dialect) (text : String) : Option (List Token) := scan d (.outside []) text.toList

/-! ## 2. Tokens without an effect on what stands around them -/

/-- The depth of parentheses after a token. -/
def Token.depth (t : Token) (depth : Nat) : Nat :=
  if t = .mark '(' then depth + 1 else if t = .mark ')' then depth - 1 else depth

/-- The depth of parentheses after tokens, none when one is closed that has not been opened. -/
def nesting : Nat → List Token → Option Nat
  | depth, [] => some depth
  | depth, t :: ts => if t = .mark ')' ∧ depth = 0 then none else nesting (t.depth depth) ts

/-- The word that a token is, if it is one. -/
def Token.words : Token → List (List Char)
  | .word w => [w]
  | .quoted | .mark _ => []

/-- The words outside of all parentheses. -/
def topWords : Nat → List Token → List (List Char)
  | _, [] => []
  | depth, t :: ts => (if depth = 0 then t.words else []) ++ topWords (t.depth depth) ts

/-- Whether a word is the keyword `AND` or `OR`, in letters of any case. -/
def isJoin (word : List Char) : Bool :=
  word.map Char.toUpper == ['A', 'N', 'D'] || word.map Char.toUpper == ['O', 'R']

/-- Whether two neighbours begin a comment. -/
def opensComment (a b : Token) : Bool :=
  (a == .mark '-' && b == .mark '-') || (a == .mark '/' && b == .mark '*')

/-- **Tokens that lead from a depth of parentheses to another** without a parenthesis closed that has
    not been opened, and without a semicolon, a comment, or a keyword outside of all parentheses
    that joins conditions. -/
structure Inert (i j : Nat) (ts : List Token) : Prop where
  /-- Every parenthesis that is closed has been opened. -/
  nesting : nesting i ts = some j
  /-- Outside of all parentheses no conditions are joined. -/
  joinFree : ∀ w ∈ topWords i ts, isJoin w = false
  /-- No statement ends. -/
  unended : .mark ';' ∉ ts
  /-- No comment begins. -/
  commentFree : ts.IsChain (fun a b => opensComment a b = false)

instance (i j : Nat) (ts : List Token) : Decidable (Inert i j ts) :=
  decidable_of_iff
    (Sql.nesting i ts = some j ∧ (∀ w ∈ topWords i ts, isJoin w = false) ∧ .mark ';' ∉ ts ∧
      ts.IsChain (fun a b => opensComment a b = false))
    ⟨fun ⟨h₁, h₂, h₃, h₄⟩ => ⟨h₁, h₂, h₃, h₄⟩, fun ⟨h₁, h₂, h₃, h₄⟩ => ⟨h₁, h₂, h₃, h₄⟩⟩

theorem nesting_append {i j : Nat} {a : List Token} (h : nesting i a = some j) (b : List Token) :
    nesting i (a ++ b) = nesting j b := by
  induction a generalizing i with
  | nil => cases h; rfl
  | cons t ts ih =>
    simp only [List.cons_append, nesting] at h ⊢
    split_ifs at h ⊢ with hclosed
    exact ih h

theorem topWords_append {i j : Nat} {a : List Token} (h : nesting i a = some j) (b : List Token) :
    topWords i (a ++ b) = topWords i a ++ topWords j b := by
  induction a generalizing i with
  | nil => cases h; rfl
  | cons t ts ih =>
    simp only [nesting] at h
    split_ifs at h
    rw [List.cons_append, topWords, ih h, topWords, List.append_assoc]

theorem Token.depth_add {t : Token} {i : Nat} (h : ¬(t = .mark ')' ∧ i = 0)) (k : Nat) :
    t.depth (i + k) = t.depth i + k := by
  unfold depth
  split_ifs with hopen hclose
  · omega
  · have : i ≠ 0 := fun hi => h ⟨hclose, hi⟩
    omega
  · rfl

/-- Inside of more parentheses tokens lead as many levels deeper. -/
theorem nesting_add {i j : Nat} {ts : List Token} (h : nesting i ts = some j) (k : Nat) :
    nesting (i + k) ts = some (j + k) := by
  induction ts generalizing i with
  | nil => cases h; rfl
  | cons t ts ih =>
    simp only [nesting] at h ⊢
    split_ifs at h with hclosed
    rw [if_neg (fun hk => hclosed ⟨hk.1, by omega⟩), t.depth_add hclosed]
    exact ih h

theorem topWords_succ {i j : Nat} {ts : List Token} (h : nesting i ts = some j) :
    topWords (i + 1) ts = [] := by
  induction ts generalizing i with
  | nil => rfl
  | cons t ts ih =>
    simp only [nesting] at h
    split_ifs at h with hclosed
    rw [topWords, t.depth_add hclosed, ih h, if_neg (Nat.succ_ne_zero i), List.append_nil]

/-- Tokens that do not begin or end a comment with their neighbours. -/
def meets (a b : List Token) : Prop :=
  ∀ x ∈ a.getLast?, ∀ y ∈ b.head?, opensComment x y = false

namespace Inert

variable {i j k : Nat} {a b : List Token}

/-- Inert tokens one after another. -/
theorem append (ha : Inert i j a) (hb : Inert j k b) (hmeet : meets a b) : Inert i k (a ++ b) where
  nesting := by rw [nesting_append ha.nesting, hb.nesting]
  joinFree w hw := by
    rw [topWords_append ha.nesting, List.mem_append] at hw
    exact hw.elim (ha.joinFree w) (hb.joinFree w)
  unended hmem := (List.mem_append.mp hmem).elim ha.unended hb.unended
  commentFree := List.isChain_append.mpr ⟨ha.commentFree, hb.commentFree, hmeet⟩

/-- Inside of parentheses, keywords have no effect outside. -/
theorem lift (ha : Inert 0 0 a) (k : Nat) : Inert k k a where
  nesting := by simpa using nesting_add ha.nesting k
  joinFree := by
    cases k with
    | zero => exact ha.joinFree
    | succ k =>
      have hnest : Sql.nesting k a = some k := by simpa using nesting_add ha.nesting k
      simp [topWords_succ hnest]
  unended := ha.unended
  commentFree := ha.commentFree

end Inert

/-- A token that is no parenthesis, no end of a statement and no keyword that joins conditions. -/
structure Token.Flat (t : Token) : Prop where
  /-- It opens no parenthesis. -/
  unopened : t ≠ .mark '('
  /-- It closes no parenthesis. -/
  unclosed : t ≠ .mark ')'
  /-- It ends no statement. -/
  unended : t ≠ .mark ';'
  /-- It joins no conditions. -/
  joinFree : ∀ w ∈ t.words, isJoin w = false

theorem nesting_flat {ts : List Token} (h : ∀ t ∈ ts, t.Flat) (i : Nat) : nesting i ts = some i := by
  induction ts with
  | nil => rfl
  | cons t ts ih =>
    have ht := h t List.mem_cons_self
    rw [nesting, if_neg (fun hclosed => ht.unclosed hclosed.1), Token.depth, if_neg ht.unopened,
      if_neg ht.unclosed]
    exact ih fun t hmem => h t (List.mem_cons_of_mem _ hmem)

theorem mem_topWords {i : Nat} {ts : List Token} {w : List Char} (h : w ∈ topWords i ts) :
    ∃ t ∈ ts, w ∈ t.words := by
  induction ts generalizing i with
  | nil => simp [topWords] at h
  | cons t ts ih =>
    rw [topWords, List.mem_append] at h
    rcases h with h | h
    · split_ifs at h
      · exact ⟨t, List.mem_cons_self, h⟩
      · simp at h
    · obtain ⟨t, hmem, hw⟩ := ih h
      exact ⟨t, List.mem_cons_of_mem _ hmem, hw⟩

theorem Inert.of_flat {ts : List Token} (h : ∀ t ∈ ts, t.Flat)
    (hchain : ts.IsChain (fun a b => opensComment a b = false)) : Inert 0 0 ts where
  nesting := nesting_flat h 0
  joinFree w hw := by
    obtain ⟨t, hmem, hword⟩ := mem_topWords hw
    exact (h t hmem).joinFree w hword
  unended hmem := (h _ hmem).unended rfl
  commentFree := hchain

/-! ## 3. Scanning piece by piece -/

/-- A character that separates tokens and is no part of a comment. -/
def isSeparator (c : Char) : Bool := c == ' ' || c == '(' || c == ')' || c == ','

variable {d : Dialect}

/-- Where a text begins, nothing is finished. -/
theorem finish_start : (Scan.outside []).finish = some [] := rfl

section Separators

variable {c : Char} (hc : isSeparator c = true)

include hc

theorem separator_cases : c = ' ' ∨ c = '(' ∨ c = ')' ∨ c = ',' := by
  simpa [isSeparator, or_assoc] using hc

theorem separator_ne_char (q : Quotes) : c ≠ q.char d := by
  rcases separator_cases hc with rfl | rfl | rfl | rfl <;> cases q <;> cases d <;> decide

theorem read_separator (word : List Char) :
    Scan.read d word c = (.outside [], Scan.wordTokens word ++ [.mark c]) := by
  have hopened : d.opened word c = none := by
    rcases separator_cases hc with rfl | rfl | rfl | rfl <;> cases d <;> rfl
  have hword : isWordChar c = false := by
    rcases separator_cases hc with rfl | rfl | rfl | rfl <;> rfl
  simp [Scan.read, hopened, hword]

/-- A separator is read the same wherever a text may end. -/
theorem next_separator {s : Scan} {last : List Token} (hs : s.finish = some last) :
    s.next d c = (.outside [], last ++ [.mark c]) := by
  cases s with
  | outside word => cases hs; exact read_separator hc word
  | closing q =>
    cases hs
    simp only [Scan.next, if_neg (separator_ne_char hc q), read_separator hc]
    rfl
  | inside q => cases hs
  | escaped q => cases hs

/-- A text that a separator ends does not end between quotes before it. -/
theorem finish_of_separator {s : Scan} (h : ∃ ts, scan d s [c] = some ts) :
    ∃ last, s.finish = some last := by
  obtain ⟨ts, h⟩ := h
  have hslash : c ≠ '\\' := by
    rcases separator_cases hc with rfl | rfl | rfl | rfl <;> decide
  cases s with
  | outside word => exact ⟨_, rfl⟩
  | closing q => exact ⟨_, rfl⟩
  | inside q => simp [scan, Scan.next, separator_ne_char hc q, hslash, Scan.finish] at h
  | escaped q => simp [scan, Scan.next, Scan.finish] at h

/-- A text that ends in a separator is cut on its own. -/
theorem scan_after_separator {s : Scan} {text : List Char} {ts : List Token}
    (h : scan d s (text ++ [c]) = some ts) (rest : List Char) :
    scan d s (text ++ c :: rest) = (scan d (.outside []) rest).map (ts ++ ·) ∧
      ts.getLast? = some (.mark c) := by
  induction text generalizing s ts with
  | nil =>
    obtain ⟨last, hlast⟩ := finish_of_separator hc ⟨ts, h⟩
    simp only [List.nil_append, scan, next_separator hc hlast] at h ⊢
    simp only [Scan.finish, Scan.wordTokens, if_true, Option.map_some, List.append_nil,
      Option.some.injEq] at h
    subst h
    exact ⟨rfl, by simp⟩
  | cons x text ih =>
    simp only [List.cons_append, scan, Option.map_eq_some_iff] at h ⊢
    obtain ⟨us, hus, rfl⟩ := h
    obtain ⟨happ, hlast⟩ := ih hus
    refine ⟨?_, by rw [List.getLast?_append, hlast]; rfl⟩
    rw [happ, Option.map_map]
    simp [Function.comp_def]

/-- A text before a separator is cut on its own. -/
theorem scan_before_separator {s : Scan} {text : List Char} {ts : List Token}
    (h : scan d s text = some ts) (rest : List Char) :
    scan d s (text ++ c :: rest) = (scan d (.outside []) (c :: rest)).map (ts ++ ·) := by
  induction text generalizing s ts with
  | nil =>
    simp only [List.nil_append, scan] at h ⊢
    rw [next_separator hc h, next_separator hc finish_start, Option.map_map]
    simp [Function.comp_def]
  | cons x text ih =>
    simp only [List.cons_append, scan, Option.map_eq_some_iff] at h ⊢
    obtain ⟨us, hus, rfl⟩ := h
    rw [ih hus, Option.map_map]
    simp [scan, Function.comp_def]

/-- A separator at the beginning of a text is its first token. -/
theorem head?_scan_separator {text : List Char} {ts : List Token}
    (h : scan d (.outside []) (c :: text) = some ts) : ts.head? = some (.mark c) := by
  rw [scan, next_separator hc finish_start, Option.map_eq_some_iff] at h
  obtain ⟨us, -, rfl⟩ := h
  rfl

theorem opensComment_separator (t : Token) :
    opensComment (.mark c) t = false ∧ opensComment t (.mark c) = false := by
  rcases separator_cases hc with rfl | rfl | rfl | rfl <;> cases t <;> simp [opensComment]

end Separators

/-- A text that begins with a separator. -/
def Begins (text : String) : Prop := text.toList.head?.any isSeparator = true

/-- A text that ends in a separator. -/
def Ends (text : String) : Prop := text.toList.getLast?.any isSeparator = true

instance (text : String) : Decidable (Begins text) := inferInstanceAs (Decidable (_ = true))

instance (text : String) : Decidable (Ends text) := inferInstanceAs (Decidable (_ = true))

theorem Begins.eq_cons {text : String} (h : Begins text) :
    ∃ c cs, text.toList = c :: cs ∧ isSeparator c = true := by
  unfold Begins at h
  cases htext : text.toList with
  | nil => simp [htext] at h
  | cons c cs => exact ⟨c, cs, rfl, by simpa [htext] using h⟩

theorem Ends.eq_concat {text : String} (h : Ends text) :
    ∃ c cs, text.toList = cs ++ [c] ∧ isSeparator c = true := by
  unfold Ends at h
  rcases List.eq_nil_or_concat text.toList with htext | ⟨cs, c, htext⟩
  · simp [htext] at h
  · rw [List.concat_eq_append] at htext
    exact ⟨c, cs, htext, by simpa [htext] using h⟩

theorem Begins.append {a : String} (h : Begins a) (b : String) : Begins (a ++ b) := by
  obtain ⟨c, cs, htext, hc⟩ := h.eq_cons
  simp [Begins, String.toList_append, htext, hc]

theorem Ends.append {b : String} (h : Ends b) (a : String) : Ends (a ++ b) := by
  obtain ⟨c, cs, htext, hc⟩ := h.eq_concat
  simp [Ends, String.toList_append, htext, ← List.append_assoc, hc]

/-- **Texts that meet at a separator are cut one by one**, and no comment begins where they meet. -/
theorem lex_append {a b : String} {ts us : List Token} (ha : lex d a = some ts)
    (hb : lex d b = some us) (h : Ends a ∨ Begins b) :
    lex d (a ++ b) = some (ts ++ us) ∧ meets ts us := by
  unfold lex at ha hb ⊢
  rw [String.toList_append]
  rcases h with h | h
  · obtain ⟨c, cs, htext, hc⟩ := h.eq_concat
    rw [htext] at ha ⊢
    obtain ⟨happ, hlast⟩ := scan_after_separator hc ha b.toList
    refine ⟨by simp [happ, hb], fun x hx y _ => ?_⟩
    rw [hlast, Option.mem_some_iff] at hx
    exact hx ▸ (opensComment_separator hc y).1
  · obtain ⟨c, cs, htext, hc⟩ := h.eq_cons
    rw [htext] at hb ⊢
    have happ := scan_before_separator hc ha cs
    refine ⟨by rw [happ, hb]; rfl, fun x _ y hy => ?_⟩
    rw [head?_scan_separator hc hb, Option.mem_some_iff] at hy
    exact hy ▸ (opensComment_separator hc x).2

/-! ## 4. Quoted tokens -/

/-- Doubled quotes do not end a quoted token. -/
theorem scan_doubled {q : Quotes} (hq : q ≠ .escapes) (text rest : List Char) :
    scan d (.inside q) (doubleChars (q.char d) text ++ rest) = scan d (.inside q) rest := by
  induction text with
  | nil => rfl
  | cons c text ih =>
    rw [doubleChars, List.flatMap_cons, List.append_assoc, ← doubleChars]
    split_ifs with hc
    · simp [scan, Scan.next, hq, ih]
    · simp [scan, Scan.next, hq, hc, ih]

/-- Among doubled backslashes a backslash takes the meaning from another one, never from a quote. -/
theorem scan_doubled_escapes (text rest : List Char) :
    scan d (.inside .escapes) (doubleChars '\'' (doubleChars '\\' text) ++ rest) =
      scan d (.inside .escapes) rest := by
  have hchar (c : Char) (rest : List Char) :
      scan d (.inside .escapes) (doubleChars '\'' (doubleChars '\\' [c]) ++ rest) =
        scan d (.inside .escapes) rest := by
    by_cases hslash : c = '\\'
    · simp [hslash, doubleChars, scan, Scan.next]
    · by_cases hquote : c = '\''
      · simp [hquote, doubleChars, scan, Scan.next, Quotes.char]
      · simp [hslash, hquote, doubleChars, scan, Scan.next, Quotes.char]
  induction text with
  | nil => rfl
  | cons c text ih =>
    have hcons : doubleChars '\'' (doubleChars '\\' (c :: text)) =
        doubleChars '\'' (doubleChars '\\' [c]) ++ doubleChars '\'' (doubleChars '\\' text) := by
      simp [doubleChars]
    rw [hcons, List.append_assoc, hchar, ih]

theorem toList_enclosed (quote : Char) (text : String) :
    (enclosed quote text).toList = quote :: (doubleChars quote text.toList ++ [quote]) := by
  simp [enclosed]

/-- What stands between quotes is one token, whatever it is. -/
theorem lex_enclosed {q : Quotes} (hq : q ≠ .escapes) (text : String) :
    lex d (enclosed (q.char d) text) = some [.quoted] := by
  have hopen : Scan.next d (.outside []) (q.char d) = (.inside q, []) := by
    cases q with
    | escapes => exact absurd rfl hq
    | text | ident => cases d <;> rfl
  rw [lex, toList_enclosed, scan, hopen]
  dsimp only
  rw [scan_doubled hq]
  cases q with
  | escapes => exact absurd rfl hq
  | text | ident => cases d <;> rfl

/-- An identifier is one token, whatever its name. -/
theorem lex_ident (name : String) : lex d (d.ident name) = some [.quoted] :=
  lex_enclosed (q := .ident) (by decide) name

/-- **A text literal is one token, whatever the text**, quotes and backslashes included. -/
theorem lex_text (text : String) : lex d (d.text text) = some [.quoted] := by
  cases d with
  | sqlite => exact lex_enclosed (q := .text) (by decide) text
  | postgres =>
    unfold Dialect.text
    split_ifs with hslash
    · have hbody := scan_doubled_escapes (d := .postgres) text.toList ['\'']
      rw [lex, String.toList_append, toList_enclosed, String.toList_ofList]
      have hopen (rest : List Char) : scan .postgres (.outside []) (['E'] ++ '\'' :: rest) =
          scan .postgres (.inside .escapes) rest := by
        simp [scan, Scan.next, Scan.read, Dialect.opened, isWordChar, Dialect.identQuote]
      rw [String.toList_ofList, hopen, hbody]
      rfl
    · exact lex_enclosed (q := .text) (by decide) text

/-! ## 5. Numbers -/

open Json (continuesNumeral)

/-- The first letters of the keywords that join conditions occur in no number. -/
theorem toUpper_of_continuesNumeral {c : Char} (h : continuesNumeral c = true) :
    c.toUpper ≠ 'A' ∧ c.toUpper ≠ 'O' := by
  simp only [continuesNumeral, Bool.or_eq_true, beq_iff_eq] at h
  rcases h with ((((h | rfl) | rfl) | rfl) | rfl) | rfl
  · have hsame : c.toUpper = c := by
      simp only [Char.isDigit, Bool.and_eq_true, decide_eq_true_eq] at h
      refine dif_neg fun hlower => ?_
      have hdigit := h.2
      have hletter := hlower.1
      simp only [UInt32.le_iff_toNat_le] at hdigit hletter
      simp at hdigit hletter
      omega
    rw [hsame]
    constructor <;> rintro rfl <;> exact absurd h (by decide)
  all_goals decide

/-- A token of a number. -/
def Token.Numeral : Token → Prop
  | .quoted => False
  | .word w => ∀ c ∈ w, continuesNumeral c = true
  | .mark c => continuesNumeral c = true

theorem Token.Numeral.flat {t : Token} (h : t.Numeral) : t.Flat where
  unopened ht := by subst ht; cases h
  unclosed ht := by subst ht; cases h
  unended ht := by subst ht; cases h
  joinFree w hw := by
    cases t with
    | quoted => exact h.elim
    | mark c => simp [Token.words] at hw
    | word letters =>
      obtain rfl := List.mem_singleton.mp hw
      cases w with
      | nil => rfl
      | cons c w =>
        obtain ⟨hA, hO⟩ := toUpper_of_continuesNumeral (h c List.mem_cons_self)
        simp [isJoin, hA, hO]

theorem Dialect.opened_of_continuesNumeral {word : List Char} {c : Char}
    (h : continuesNumeral c = true) : d.opened word c = none := by
  have hquote : c ≠ '\'' := by rintro rfl; revert h; decide
  have hident : c ≠ d.identQuote := by rintro rfl; revert h; cases d <;> decide
  simp [Dialect.opened, hquote, hident]

/-- The tokens of a number of which a word has been read. They begin with a minus sign only where
the text does. -/
structure NumeralTokens (word text : List Char) (ts : List Token) : Prop where
  numeral : ∀ t ∈ ts, t.Numeral
  apart : ts.IsChain (fun a b => opensComment a b = false)
  minus : ts.head? = some (.mark '-') → word = [] ∧ text.head? = some '-'

namespace NumeralTokens

variable {word text : List Char} {c : Char} {ts : List Token}

/-- The word that has been read stands before what follows it. -/
theorem afterWord (hword : ∀ c ∈ word, continuesNumeral c = true) (h : NumeralTokens [] text ts) :
    NumeralTokens word text (Scan.wordTokens word ++ ts) := by
  unfold Scan.wordTokens
  split_ifs with hnil
  · exact { h with minus := fun hhead => ⟨hnil, (h.minus hhead).2⟩ }
  · refine ⟨fun t ht => ?_, List.isChain_cons.mpr ⟨fun t ht => ?_, h.apart⟩, by simp⟩
    · rcases List.mem_cons.mp ht with rfl | ht
      · exact hword
      · exact h.numeral t ht
    · simp [opensComment]

/-- A mark opens no comment with the mark after it, as no two minus signs meet. -/
theorem mark (hc : continuesNumeral c = true)
    (hminus : ∀ b ∈ text.head?, ¬(c = '-' ∧ b = '-')) (h : NumeralTokens [] text ts) :
    NumeralTokens [] (c :: text) (.mark c :: ts) where
  numeral t ht := by
    rcases List.mem_cons.mp ht with rfl | ht
    · exact hc
    · exact h.numeral t ht
  apart := by
    refine List.isChain_cons.mpr ⟨fun t ht => ?_, h.apart⟩
    by_contra hopens
    simp only [opensComment, Bool.not_eq_false, Bool.or_eq_true, Bool.and_eq_true,
      beq_iff_eq, Token.mark.injEq] at hopens
    rcases hopens with ⟨rfl, rfl⟩ | ⟨rfl, -⟩
    · exact hminus '-' (h.minus ht).2 ⟨rfl, rfl⟩
    · exact absurd hc (by decide)
  minus hhead := ⟨rfl, by simpa using hhead⟩

end NumeralTokens

/-- A number is cut into its words and marks. A comment begins only where two minus signs meet. -/
theorem scan_numeral {word text : List Char} (hword : ∀ c ∈ word, continuesNumeral c = true)
    (htext : ∀ c ∈ text, continuesNumeral c = true)
    (hminus : text.IsChain (fun a b => ¬(a = '-' ∧ b = '-'))) :
    ∃ ts, scan d (.outside word) text = some ts ∧ NumeralTokens word text ts := by
  induction text generalizing word with
  | nil =>
    have hend : NumeralTokens [] [] [] := ⟨by simp, .nil, by simp⟩
    refine ⟨Scan.wordTokens word, rfl, ?_⟩
    simpa using hend.afterWord hword
  | cons c text ih =>
    have hc := htext c List.mem_cons_self
    have htext' := fun x hx => htext x (List.mem_cons_of_mem _ hx)
    have hopened : d.opened word c = none := Dialect.opened_of_continuesNumeral hc
    by_cases hchar : isWordChar c = true
    · have hword' : ∀ x ∈ word ++ [c], continuesNumeral x = true := fun x hx => by
        rcases List.mem_append.mp hx with hx | hx
        · exact hword x hx
        · exact List.mem_singleton.mp hx ▸ hc
      obtain ⟨ts, hts, htokens⟩ := ih hword' htext' hminus.of_cons
      refine ⟨ts, ?_, { htokens with minus := fun h => absurd (htokens.minus h).1 (by simp) }⟩
      simp [scan, Scan.next, Scan.read, hopened, hchar, hts]
    · obtain ⟨ts, hts, htokens⟩ := ih (List.forall_mem_nil _) htext' hminus.of_cons
      have hmark := htokens.mark hc (List.isChain_cons.mp hminus).1
      refine ⟨Scan.wordTokens word ++ .mark c :: ts, ?_, hmark.afterWord hword⟩
      simp [scan, Scan.next, Scan.read, hopened, hchar, hts]

/-- **A number has no effect on what stands around it.** -/
theorem lex_numeral {text : String} (htext : ∀ c ∈ text.toList, continuesNumeral c = true)
    (hminus : text.toList.IsChain (fun a b => ¬(a = '-' ∧ b = '-'))) :
    ∃ ts, lex d text = some ts ∧ Inert 0 0 ts := by
  obtain ⟨ts, hts, htokens⟩ := scan_numeral (d := d) (List.forall_mem_nil _) htext hminus
  exact ⟨ts, hts, Inert.of_flat (fun t ht => (htokens.numeral t ht).flat) htokens.apart⟩

end Sql

end QueryAlgebra
