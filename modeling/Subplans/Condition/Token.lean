import Subplans.Text.Scan

/-!
The tokens of condition text.

`tokens?` cuts a condition into parentheses, commas, words, literals, operators and casts. What stands
in parentheses after ANY or ALL is one token, whatever it holds. Names between double quotation marks are
words like others.
-/

namespace Subplans.Condition

open Subplans.Text

inductive Token
  | lparen
  | rparen
  | comma
  | word (text : String)
  | text (content : String)
  | number (digits : String)
  | operator (symbol : String)
  | cast (type : String)
  | raw (content : String)
deriving DecidableEq, Repr

namespace Token

def isKeyword (keyword : String) : Token → Bool
  | word w => equalsIgnoringCase w keyword
  | _ => false

def isQuantifier (t : Token) : Bool :=
  t.isKeyword "ANY" || t.isKeyword "ALL"

end Token

-- Words that may follow the first word in the name of a type.
def typeContinuations : List String :=
  ["varying", "precision", "without", "with", "time", "zone"]

-- The words after the first in the name of a type, each with the space before it, and the text after them.
def typeWords (text : List Char) : List Char × List Char :=
  match text with
  | ' ' :: rest =>
    let word := rest.takeWhile isNameChar
    if word.isEmpty || !typeContinuations.contains (String.ofList word) then ([], text)
    else
      let (more, after) := typeWords (rest.dropWhile isNameChar)
      (' ' :: word ++ more, after)
  | _ => ([], text)
termination_by text.length
decreasing_by
  have := (List.dropWhile_suffix (l := rest) isNameChar).length_le
  simp only [List.length_cons]
  omega

-- The name of a type at the start of a text, with brackets if it is that of an array, and the text after it.
def typeName (text : List Char) : List Char × List Char :=
  let word := text.takeWhile isNameChar
  let (more, after) := typeWords (text.dropWhile isNameChar)
  match after with
  | '[' :: ']' :: rest => (word ++ more ++ ['[', ']'], rest)
  | _ => (word ++ more, after)

def isOperatorChar (c : Char) : Bool :=
  c == '=' || c == '<' || c == '>' || c == '!' || c == '~' || c == '*'

def isSingleOperator (c : Char) : Bool :=
  c == '+' || c == '-' || c == '/' || c == '%' || c == '|' || c == '&' || c == '^' || c == '#' || c == '@'

-- Characters of words, with the points between the parts of a name and all that lies beyond ASCII.
def isWordChar (c : Char) : Bool :=
  isNameChar c || c == '.' || 0x80 ≤ c.toNat

def isWordStart (c : Char) : Bool :=
  isNameStart c || 0x80 ≤ c.toNat

def allowsSign : Option Token → Bool
  | none | some (.operator _) | some .lparen | some .comma => true
  | _ => false

-- The token a text starts with and the text after it, where `last` is the token before it.
def token? (last : Option Token) (text : List Char) : Option (Token × List Char) :=
  match text with
  | [] => none
  | c :: rest =>
    if c == '(' then
      if last.any Token.isQuantifier then
        (enclosed? text).map fun (inside, after) => (.raw (String.ofList (trim inside)), after)
      else some (.lparen, rest)
    else if c == ')' then some (.rparen, rest)
    else if c == ',' then some (.comma, rest)
    else if c == quoteMark || c == nameMark then
      let (run, after) := quotedRun c rest
      if run.getLast? == some c then
        let content := String.ofList (undouble c run.dropLast)
        some (if c == quoteMark then .text content else .word content, after)
      else none
    else if c == ':' && rest.head? == some ':' then
      let (type, after) := typeName (rest.drop 1)
      if type.isEmpty then none else some (.cast (String.ofList type), after)
    else if c.isDigit || (c == '-' && rest.head?.any Char.isDigit && allowsSign last) then
      let isNumberChar := fun (d : Char) => d.isDigit || d == '.'
      some (.number (String.ofList (c :: rest.takeWhile isNumberChar)), rest.dropWhile isNumberChar)
    else if isWordStart c then
      some (.word (String.ofList (text.takeWhile isWordChar)), text.dropWhile isWordChar)
    else if isOperatorChar c then
      some (.operator (String.ofList (text.takeWhile isOperatorChar)), text.dropWhile isOperatorChar)
    else if isSingleOperator c then some (.operator (String.singleton c), rest)
    else none

-- The tokens of a text, where `last` is the token before it. None if a token is malformed.
def tokensAfter? (last : Option Token) (text : List Char) : Option (List Token) :=
  match text with
  | [] => some []
  | c :: rest =>
    if isSeparator c then tokensAfter? last rest
    else match token? last text with
      | none => none
      | some (t, after) =>
        if _h : after.length < (c :: rest).length then (tokensAfter? (some t) after).map (t :: ·) else none
termination_by text.length
decreasing_by
  all_goals simp only [List.length_cons] at *
  all_goals omega

def tokens? (text : String) : Option (List Token) :=
  tokensAfter? none text.toList

end Subplans.Condition
