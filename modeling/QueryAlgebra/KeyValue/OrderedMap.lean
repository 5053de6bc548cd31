/-!
# Ordered maps

Entries sorted by key, each key once; keys are words over an alphabet, in lexicographic order. What
stands under a word's extensions is one stretch of the entries, so it is read by skipping what comes
before the word and stopping at the first entry that does not extend it.
-/

namespace QueryAlgebra

/-- Entries in ascending order of their keys. -/
abbrev OrderedMap (κ : Type) (ν : Type) := List (List κ × ν)

namespace OrderedMap

variable {κ ν : Type} [DecidableEq κ] [LT κ] [DecidableLT κ]

/-- The value under a key. -/
def get? : OrderedMap κ ν → List κ → Option ν
  | [], _ => none
  | (k, v) :: rest, key => if k = key then some v else get? rest key

/-- Writes a value under a key. -/
def put : OrderedMap κ ν → List κ → ν → OrderedMap κ ν
  | [], key, v => [(key, v)]
  | (k, w) :: rest, key, v =>
    if k = key then (key, v) :: rest
    else if key < k then (key, v) :: (k, w) :: rest
    else (k, w) :: put rest key v

/-- Removes the value under a key. -/
def del : OrderedMap κ ν → List κ → OrderedMap κ ν
  | [], _ => []
  | (k, w) :: rest, key => if k = key then rest else (k, w) :: del rest key

/-- The entries whose keys extend a word, in ascending order. -/
def under (m : OrderedMap κ ν) (word : List κ) : OrderedMap κ ν :=
  (m.dropWhile (fun e => decide (e.1 < word))).takeWhile (fun e => word.isPrefixOf e.1)

end OrderedMap

end QueryAlgebra
