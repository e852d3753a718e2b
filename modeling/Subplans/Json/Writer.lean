import Subplans.Json.Basic

/-!
Writing JSON text, on one line or with one field or item to a line.
-/

namespace Subplans.Json

-- The digit of a hexadecimal number below 16.
def hexDigit (n : Nat) : Char :=
  if n < 10 then Char.ofNat (0x30 + n) else Char.ofNat (0x61 + (n - 10))

-- How a character stands in a string: marks, reverse solidi and control characters are escaped.
def escape (c : Char) : List Char :=
  let n := c.toNat
  if n == 0x22 then ['\\', c]
  else if n == 0x5C then ['\\', c]
  else if n == 0x08 then ['\\', 'b']
  else if n == 0x0C then ['\\', 'f']
  else if n == 0x0A then ['\\', 'n']
  else if n == 0x0D then ['\\', 'r']
  else if n == 0x09 then ['\\', 't']
  else if n < 0x20 then ['\\', 'u', '0', '0', hexDigit (n / 16), hexDigit (n % 16)]
  else [c]

def quoted (s : String) : String :=
  String.ofList ('\x22' :: s.toList.flatMap escape ++ ['\x22'])

def scalar : Json → String
  | null => "null"
  | bool value => if value then "true" else "false"
  | number lexeme => lexeme
  | string text => quoted (text.getD "")
  | array _ | object _ => ""

mutual

def compact : Json → String
  | array items => "[" ++ ",".intercalate (compactItems items) ++ "]"
  | object fields => "\x7b" ++ ",".intercalate (compactFields fields) ++ "\x7d"
  | value => scalar value

def compactItems : List Json → List String
  | [] => []
  | item :: rest => compact item :: compactItems rest

def compactFields : List (Option String × Json) → List String
  | [] => []
  | (name, value) :: rest => (quoted (name.getD "") ++ ":" ++ compact value) :: compactFields rest

end

def newline (level : Nat) : String :=
  "\n" ++ String.ofList (List.replicate (2 * level) ' ')

def block (left right : String) (level : Nat) (lines : List String) : String :=
  if lines.isEmpty then left ++ right
  else left ++ newline (level + 1) ++ ("," ++ newline (level + 1)).intercalate lines ++ newline level
    ++ right

mutual

-- The value with each field and item on a line of its own, indented by two spaces a level.
def pretty (level : Nat) : Json → String
  | array items => block "[" "]" level (prettyItems (level + 1) items)
  | object fields => block "\x7b" "\x7d" level (prettyFields (level + 1) fields)
  | value => scalar value

def prettyItems (level : Nat) : List Json → List String
  | [] => []
  | item :: rest => pretty level item :: prettyItems level rest

def prettyFields (level : Nat) : List (Option String × Json) → List String
  | [] => []
  | (name, value) :: rest =>
    (quoted (name.getD "") ++ ": " ++ pretty level value) :: prettyFields level rest

end

end Subplans.Json
