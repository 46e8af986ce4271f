/-! Blank characters, and the words and lines of a text. Blanks are the characters with the
Unicode property `White_Space`. -/

set_option autoImplicit false

namespace Cycle6502.Text

def blankRanges : List (Nat × Nat) :=
  [(0x09, 0x0D), (0x20, 0x20), (0x85, 0x85), (0xA0, 0xA0), (0x1680, 0x1680), (0x2000, 0x200A),
   (0x2028, 0x2029), (0x202F, 0x202F), (0x205F, 0x205F), (0x3000, 0x3000)]

def isBlank (c : Char) : Bool :=
  blankRanges.any fun (first, last) => first ≤ c.toNat && c.toNat ≤ last

def pushWord (word : List Char) (words : List (List Char)) : List (List Char) :=
  if word.isEmpty then words else word :: words

/-- The word that a text opens with and the words behind it, with `c` in front of the text. -/
def wordStep (separates : Char → Bool) (c : Char) (found : List Char × List (List Char)) :
    List Char × List (List Char) :=
  if separates c then ([], pushWord found.1 found.2) else (c :: found.1, found.2)

/-- The maximal runs of characters that are not separators. -/
def wordsBy (separates : Char → Bool) (text : List Char) : List (List Char) :=
  let found := text.foldr (wordStep separates) ([], [])
  pushWord found.1 found.2

def words (text : String) : List String :=
  (wordsBy isBlank text.toList).map String.ofList

def trim (text : List Char) : List Char :=
  ((text.dropWhile isBlank).reverse.dropWhile isBlank).reverse

def lineStep {α : Type} [DecidableEq α] (separator c : α) : List (List α) → List (List α)
  | [] => if c = separator then [[]] else [[c]]
  | line :: rest => if c = separator then [] :: line :: rest else (c :: line) :: rest

/-- The lines of a text, each ended by `separator`; the last may lack its end. -/
def lines {α : Type} [DecidableEq α] (separator : α) (text : List α) : List (List α) :=
  text.foldr (lineStep separator) []

end Cycle6502.Text
