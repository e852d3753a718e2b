import Subplans.Text.Scan

/-!
Literal texts of SQL.

A literal text stands between single quotation marks, with a letter before them that says how to read it, or
between two equal tags of dollar signs. The functions `quoted?`, `escaped?` and `dollarQuoted?` read what stands
after the opening mark; `Literal.text` writes a literal out.
-/

namespace Subplans.Sql

open Subplans.Text

inductive Literal
  | plain (content : String)
  | escaped (content : String)
  | national (content : String)
  | hexadecimal (content : String)
  -- A text between tags, in which nothing is escaped.
  | dollar (tag content : String)
deriving DecidableEq, Repr

-- A text between marks; those inside of it are doubled.
def withMarks (mark : Char) (content : String) : String :=
  String.ofList (mark :: double mark content.toList ++ [mark])

def quotedText (content : String) : String :=
  withMarks quoteMark content

def writeEscaped (c : Char) : List Char :=
  if c == quoteMark || c == '\\' then ['\\', c]
  else if c == '\n' then ['\\', 'n']
  else if c == '\t' then ['\\', 't']
  else if c == '\r' then ['\\', 'r']
  else [c]

-- The literal written out. Marks in national texts and between bytes are left single.
def Literal.text : Literal → String
  | plain content => quotedText content
  | escaped content => "E'" ++ String.ofList (content.toList.flatMap writeEscaped) ++ "'"
  | national content => "N'" ++ content ++ "'"
  | hexadecimal content => "X'" ++ content ++ "'"
  | dollar tag content => "$" ++ tag ++ "$" ++ content ++ "$" ++ tag ++ "$"

def Literal.bareText : Literal → String
  | plain content => "'" ++ content ++ "'"
  | escaped content => "E'" ++ content ++ "'"
  | l => l.text

def quoted? (mark : Char) : List Char → Option (List Char × List Char)
  | [] => none
  | [c] => if c == mark then some ([], []) else none
  | c :: d :: rest =>
    if c == mark then
      if d == mark then (quoted? mark rest).map fun (content, after) => (c :: content, after)
      else some ([], d :: rest)
    else (quoted? mark (d :: rest)).map fun (content, after) => (c :: content, after)

-- What the closing mark of an escaped text ends, with the escapes resolved, and the text after it. `afterSolidus` says
-- that a reverse solidus stands before.
def escaped? (afterSolidus : Bool) : List Char → Option (List Char × List Char)
  | [] => none
  | c :: rest =>
    let onward := fun d => (escaped? false rest).map fun (content, after) => (d :: content, after)
    if c == quoteMark then
      if afterSolidus then onward c
      else match rest with
        | d :: more =>
          if d == quoteMark then (escaped? false more).map fun (content, after) => (d :: content, after)
          else some ([], rest)
        | [] => some ([], [])
    else if c == '\\' then
      if afterSolidus then onward c else escaped? true rest
    else if afterSolidus then
      onward (if c == 'n' then '\n' else if c == 't' then '\t' else if c == 'r' then '\r' else c)
    else onward c

-- The content of a text between tags and the text after it, for what follows the first tag. Without a name in the tag
-- the text goes on to the next two dollar signs; with one it must not hold a dollar sign.
def dollarQuoted? (tag : List Char) (body : List Char) : Option (List Char × List Char) :=
  if tag.isEmpty then cut? ['$', '$'] body
  else
    let content := body.takeWhile (· != '$')
    let mark := '$' :: tag ++ ['$']
    let rest := body.drop content.length
    if mark.isPrefixOf rest then some (content, rest.drop mark.length) else none

end Subplans.Sql
