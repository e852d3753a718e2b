import Subplans.Sql.Literal
import Subplans.Text.Casing

/-!
The tokens of SQL text.

Blanks and comments part tokens and are no tokens themselves. A word keeps how it is written, and beside that
what keyword it is if it is one. `tokens?` fails only on a quoted text or a comment that is not closed.
-/

namespace Subplans.Sql

open Subplans.Text

structure Ident where
  name : String
  mark : Option Char := none
deriving DecidableEq, Repr

def Ident.text (i : Ident) : String :=
  match i.mark with
  | some mark => withMarks mark i.name
  | none => i.name

def Ident.bareText (i : Ident) : String :=
  match i.mark with
  | some mark => String.singleton mark ++ i.name ++ String.singleton mark
  | none => i.name

inductive Token
  -- A word, and the same in capital letters; between marks it is no keyword, so that these are left out.
  | word (ident : Ident) (capitals : String)
  -- A number, which may be marked as a long one.
  | number (digits : String) (long : Bool)
  | literal (l : Literal)
  | placeholder (text : String)
  | symbol (text : String)
deriving DecidableEq, Repr

namespace Token

def isKeyword (keyword : String) : Token → Bool
  | word _ capitals => capitals == keyword
  | _ => false

def isKeywordOf (keywords : List String) (t : Token) : Bool :=
  keywords.any t.isKeyword

def numberText (digits : String) (long : Bool) : String :=
  if long then digits ++ "L" else digits

def text : Token → String
  | word ident _ => ident.bareText
  | number digits long => numberText digits long
  | literal l => l.bareText
  | placeholder text | symbol text => text

end Token

def isWordStart (c : Char) : Bool :=
  isAlphabetic c || c == '_'

def isWordPart (c : Char) : Bool :=
  isAlphabetic c || c.isDigit || c == '$' || c == '_'

def isTagPart (c : Char) : Bool :=
  isAlphabetic c || isNumeric c || c == '_'

-- The text after a comment that may hold comments; `last` is the character before.
def blockComment? : (nested : Nat) → (last : Char) → List Char → Option (List Char)
  | _, _, [] => none
  | nested, last, c :: rest =>
    if last == '/' && c == '*' then blockComment? (nested + 1) c rest
    else if last == '*' && c == '/' then
      match nested with
      | 0 => some rest
      | nested + 1 => blockComment? nested c rest
    else blockComment? nested c rest

-- The word without marks that starts with `c`, and the text after it.
def wordAt (c : Char) (rest : List Char) : Token × List Char :=
  let name := c :: rest.takeWhile isWordPart
  (.word ⟨String.ofList name, none⟩ (String.ofList (name.flatMap asciiCapitals)), rest.dropWhile isWordPart)

-- Symbols of several characters; one that starts another comes after it.
def longSymbols : List String :=
  ["->>", "->", "||/", "|/", "||", "=>", "!=", "!!", "!~*", "!~", "<=>", "<=", "<>", "<<", "<@", ">=", ">>", "::",
    ":=", "~*", "#-", "#>>", "#>", "@>", "@?", "@@"]

-- The symbol that a text starts with. Inequality has two spellings, of which one is kept.
def symbolAt (c : Char) (rest : List Char) : Token × List Char :=
  match longSymbols.find? fun s => s.toList.isPrefixOf (c :: rest) with
  | some s => (.symbol (if s == "!=" then "<>" else s), (c :: rest).drop s.length)
  | none => (.symbol (String.singleton c), rest)

def exponentAt (text : List Char) : List Char × List Char :=
  match text with
  | e :: rest =>
    if e == 'e' || e == 'E' then
      let sign := rest.takeWhile fun c => c == '+' || c == '-'
      let digits := (rest.drop sign.length).takeWhile Char.isDigit
      if sign.length ≤ 1 && !digits.isEmpty then
        (e :: sign ++ digits, (rest.drop sign.length).dropWhile Char.isDigit)
      else ([], text)
    else ([], text)
  | [] => ([], [])

def isHexDigit (c : Char) : Bool :=
  c.isDigit || ('a' ≤ c && c ≤ 'f') || ('A' ≤ c && c ≤ 'F')

-- The number that a text starts with; a point alone is a symbol, and hexadecimal digits are bytes.
def numberAt (text : List Char) : Token × List Char :=
  let whole := text.takeWhile Char.isDigit
  let rest := text.dropWhile Char.isDigit
  if whole == ['0'] && rest.head? == some 'x' then
    let digits := (rest.drop 1).takeWhile isHexDigit
    (.literal (.hexadecimal (String.ofList digits)), rest.drop (1 + digits.length))
  else
    let point := rest.takeWhile (· == '.') |>.take 1
    let rest := rest.drop point.length
    let fraction := rest.takeWhile Char.isDigit
    let rest := rest.dropWhile Char.isDigit
    if whole.isEmpty && fraction.isEmpty then (.symbol ".", rest)
    else
      let (exponent, rest) := exponentAt rest
      let long := rest.head? == some 'L'
      (.number (String.ofList (whole ++ point ++ fraction ++ exponent)) long, if long then rest.drop 1 else rest)

def dollarAt? (rest : List Char) : Option (Token × List Char) :=
  let tag := rest.takeWhile isTagPart
  match rest.drop tag.length with
  | '$' :: body =>
    (dollarQuoted? tag body).map fun (content, after) =>
      (.literal (.dollar (String.ofList tag) (String.ofList content)), after)
  | after => some (.placeholder (String.ofList ('$' :: tag)), after)

-- The form of the literal text that a letter before its opening mark stands for, and how it is read.
def markedLiteral? (c : Char) : Option ((String → Literal) × (List Char → Option (List Char × List Char))) :=
  match c.toUpper with
  | 'N' => some (.national, quoted? quoteMark)
  | 'X' => some (.hexadecimal, quoted? quoteMark)
  | 'E' => some (.escaped, escaped? false)
  | _ => none

-- The word that starts with `c`, or the literal text if a quotation mark follows one of some letters.
def wordOrLiteral? (c : Char) (rest : List Char) : Option (Token × List Char) :=
  match rest, markedLiteral? c with
  | q :: body, some (form, read) =>
    if q == quoteMark then
      (read body).map fun (content, after) => (.literal (form (String.ofList content)), after)
    else some (wordAt c rest)
  | _, _ => some (wordAt c rest)

-- The token that a text starts with and the text after it; blanks and comments give none.
def token? (c : Char) (rest : List Char) : Option (Option Token × List Char) :=
  let found := fun (t : Token × List Char) => (some t.1, t.2)
  if isBlank c then some (none, rest)
  else if isWordStart c then (wordOrLiteral? c rest).map found
  else if c == quoteMark then
    (quoted? c rest).map fun (content, after) => found (.literal (.plain (String.ofList content)), after)
  else if c == nameMark then
    (quoted? c rest).map fun (content, after) => found (.word ⟨String.ofList content, some c⟩ "", after)
  else if c.isDigit || c == '.' then some (found (numberAt (c :: rest)))
  else if c == '-' && rest.head? == some '-' then some (none, (rest.dropWhile (· != '\n')).drop 1)
  else if c == '/' && rest.head? == some '*' then (blockComment? 0 ' ' (rest.drop 1)).map (none, ·)
  else if c == '?' then
    some (found (.placeholder (String.ofList (c :: rest.takeWhile isNumeric)), rest.dropWhile isNumeric))
  else if c == '$' then (dollarAt? rest).map found
  else some (found (symbolAt c rest))

-- The tokens of SQL text. None if a quoted text or a comment is not closed.
def tokens? (text : List Char) : Option (List Token) :=
  match text with
  | [] => some []
  | c :: rest =>
    match token? c rest with
    | none => none
    | some (t, after) =>
      if _h : after.length < (c :: rest).length then (tokens? after).map (t.toList ++ ·) else none
termination_by text.length
decreasing_by
  simp only [List.length_cons] at _h ⊢
  omega

end Subplans.Sql
