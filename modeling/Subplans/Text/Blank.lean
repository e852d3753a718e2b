/-!
White space as Unicode defines it, and the trimming of texts.

`isBlank` holds the characters with the property White_Space. `trim` takes them off both ends of a
text and nothing else.
-/

namespace Subplans.Text

def isBlank (c : Char) : Bool :=
  let n := c.toNat
  (0x09 ≤ n && n ≤ 0x0D) || n == 0x20 || n == 0x85 || n == 0xA0 || n == 0x1680 ||
    (0x2000 ≤ n && n ≤ 0x200A) || n == 0x2028 || n == 0x2029 || n == 0x202F || n == 0x205F ||
    n == 0x3000

-- The white space that separates the tokens of a condition: unlike `isBlank` it holds neither the vertical tab nor
-- anything beyond ASCII.
def isSeparator (c : Char) : Bool :=
  let n := c.toNat
  n == 0x20 || n == 0x09 || n == 0x0A || n == 0x0C || n == 0x0D

def trimStart (s : List Char) : List Char :=
  s.dropWhile isBlank

def trimEnd (s : List Char) : List Char :=
  (s.reverse.dropWhile isBlank).reverse

def trim (s : List Char) : List Char :=
  trimEnd (trimStart s)

def words (s : List Char) : List (List Char) :=
  let parts := s.foldr (fun c parts =>
    if isBlank c then [] :: parts
    else match parts with
      | part :: rest => (c :: part) :: rest
      | [] => [[c]]) [[]]
  parts.filter (!·.isEmpty)

def trimmed (s : String) : String :=
  String.ofList (trim s.toList)

end Subplans.Text
