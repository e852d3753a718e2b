import Subplans.Number.Reader
import Subplans.Sql.Keyword
import Subplans.Sql.Token

/-!
Reading of token lists.

A reader takes what it wants from the front of a list of tokens, or fails. The combinators for lists and
chains go on only as long as tokens are taken, so they end whatever they are given.
-/

namespace Subplans.Sql

abbrev Reader := StateT (List Token) Option

namespace Reader

variable {α : Type}

def next : Reader Token := fun tokens =>
  match tokens with
  | t :: rest => some (t, rest)
  | [] => none

def next? : Reader (Option Token) := fun tokens =>
  some (tokens.head?, tokens.drop 1)

def peek : Reader (Option Token) := fun tokens =>
  some (tokens.head?, tokens)

def isAhead (wanted : List String) : Reader Bool := do
  pure ((← peek).any (Token.isKeywordOf wanted))

def isSymbolAhead (wanted : String) : Reader Bool := do
  pure ((← peek) == some (.symbol wanted))

def startsWith (wanted : List String) (tokens : List Token) : Bool :=
  wanted.length ≤ tokens.length && (wanted.zip tokens).all fun (k, t) => t.isKeyword k

def keywords (wanted : List String) : Reader Bool := fun tokens =>
  if startsWith wanted tokens then some (true, tokens.drop wanted.length) else some (false, tokens)

def keyword (wanted : String) : Reader Bool :=
  keywords [wanted]

def keywordOf (wanted : List String) : Reader (Option String) := fun tokens =>
  match tokens with
  | t :: rest =>
    match wanted.find? t.isKeyword with
    | some k => some (some k, rest)
    | none => some (none, tokens)
  | [] => some (none, [])

def symbol (wanted : String) : Reader Bool := fun tokens =>
  match tokens with
  | .symbol s :: rest => if s == wanted then some (true, rest) else some (false, tokens)
  | _ => some (false, tokens)

def require (condition : Bool) : Reader Unit :=
  if condition then pure () else failure

def expectKeywords (wanted : List String) : Reader Unit := do
  require (← keywords wanted)

def expectKeywordOf (wanted : List String) : Reader String := do
  match ← keywordOf wanted with
  | some k => pure k
  | none => failure

def expect (wanted : String) : Reader Unit := do
  require (← symbol wanted)

-- What a reader finds, or nothing and no token taken if it fails.
def attempt (reader : Reader α) : Reader (Option α) := fun tokens =>
  match reader tokens with
  | some (x, rest) => some (some x, rest)
  | none => some (none, tokens)

def announced (wanted : List String) (reader : Reader α) : Reader (Option α) := do
  if ← keywords wanted then some <$> reader else pure none

-- Goes from one value to the next as long as there is a step to take, which has to take a token.
def chain (step : α → Reader (Option α)) (start : α) : Reader α := fun tokens =>
  match step start tokens with
  | none => none
  | some (none, rest) => some (start, rest)
  | some (some x, rest) =>
    if _h : rest.length < tokens.length then chain step x rest else some (x, rest)
termination_by tokens => tokens.length

def many (item : Reader (Option α)) : Reader (List α) := do
  let items ← chain (fun found => do pure ((← item).map (· :: found))) []
  pure items.reverse

def separated (separator : String) (item : Reader α) : Reader (List α) := do
  let first ← item
  let rest ← many do
    if ← symbol separator then some <$> item else pure none
  pure (first :: rest)

def commaSeparated (item : Reader α) : Reader (List α) :=
  separated "," item

def parenthesized (inside : Reader α) : Reader α := do
  expect "("
  let x ← inside
  expect ")"
  pure x

def optionalParenthesized (inside : Reader α) : Reader (Option α) := do
  if ← isSymbolAhead "(" then some <$> parenthesized inside else pure none

-- Items in parentheses with commas between them, of which there may be none.
def parenthesizedItems (item : Reader α) : Reader (List α) :=
  parenthesized do
    if ← isSymbolAhead ")" then pure [] else commaSeparated item

-- Definitions in parentheses; a comma may stand after the last one. Without parentheses there are none.
def definitions (definition : Reader α) : Reader (List α) := do
  if !(← symbol "(") || (← symbol ")") then return []
  let first ← definition
  let rest ← many do
    let comma ← symbol ","
    if ← isSymbolAhead ")" then pure none
    else
      require comma
      some <$> definition
  expect ")"
  pure (first :: rest)

def ident : Reader Ident := do
  match ← next with
  | .word name _ => pure name
  | .literal (.plain content) => pure ⟨content, some Text.quoteMark⟩
  | _ => failure

def word : Reader Ident := do
  match ← next with
  | .word name _ => pure name
  | _ => failure

def qualifiedName : Reader (List Ident) :=
  separated "." ident

def columnNames : Reader (List Ident) :=
  parenthesized (commaSeparated ident)

def optionalColumnNames : Reader (List Ident) := do
  pure ((← optionalParenthesized (commaSeparated ident)).getD [])

def wholeNumber : Reader Nat := do
  match ← next with
  | .number digits _ =>
    match Number.readNat (Nat.pow 2 64) digits.toList with
    | .ok n => pure n
    | .error _ => failure
  | _ => failure

def plainText : Reader String := do
  match ← next with
  | .literal (.plain content) => pure content
  | _ => failure

-- A literal text; a word that is no keyword stands for one.
def literalText : Reader String := do
  match ← next with
  | .word name capitals =>
    require (!knownKeywords.contains capitals)
    pure name.name
  | .literal (.plain content) | .literal (.escaped content) => pure content
  | _ => failure

def literalCharacter : Reader String := do
  let text ← literalText
  require (text.utf8ByteSize == 1)
  pure text

def value : Reader String := do
  match ← next with
  | .word _ "TRUE" => pure "true"
  | .word _ "FALSE" => pure "false"
  | .word _ "NULL" => pure "NULL"
  | .word name _ =>
    require name.mark.isSome
    pure name.text
  | .number digits long => pure (Token.numberText digits long)
  | .literal l => pure l.text
  | .placeholder text => pure text
  | .symbol ":" => pure (":" ++ (← ident).name)
  | .symbol "@" => pure ("@" ++ (← ident).name)
  | _ => failure

def numberValue : Reader String := do
  match ← next with
  | .number digits long => pure (Token.numberText digits long)
  | .placeholder text => pure text
  | .symbol ":" => pure (":" ++ (← ident).name)
  | .symbol "@" => pure ("@" ++ (← ident).name)
  | _ => failure

end Reader

end Subplans.Sql
