import Subplans.Condition.Token
import Subplans.Schema.Basic
import Subplans.Text.Alphabet

/-!
Conditions as text: conjuncts, and the names of columns in them.

A planner prints the condition of a scan with bare names of columns. `qualify` puts the alias of the
table before each of them and `requalify` exchanges one qualifier for another. Both leave quotations and
the types of casts alone.
-/

namespace Subplans.Condition

open Subplans.Text

def conjuncts (text : List Char) : List (List Char) :=
  if (trim text).isEmpty then []
  else
    let parts := (splitTopLevel " AND ".toList (stripParens text)).map trim
    (parts.filter (!·.isEmpty)).map fun part =>
      if isParenthesized part then part else '(' :: part ++ [')']

theorem typeWords_append (text : List Char) : (typeWords text).1 ++ (typeWords text).2 = text := by
  fun_induction typeWords text with
  | case1 => rfl
  | case2 rest word _ more after h ih =>
    rw [h] at ih
    simp [word, ih]
  | case3 => rfl

theorem typeName_append (text : List Char) : (typeName text).1 ++ (typeName text).2 = text := by
  have h := typeWords_append (text.dropWhile isNameChar)
  unfold typeName
  revert h
  generalize typeWords (text.dropWhile isNameChar) = p
  intro h
  simp only
  split
  · rename_i heq
    rw [heq] at h
    simp [h]
  · simp [h]

theorem length_typeName_le (text : List Char) : (typeName text).2.length ≤ text.length := by
  have := congrArg List.length (typeName_append text)
  simp at this
  omega

-- Writes the text anew with `rename` applied wherever a name starts outside of quotations and types of casts; `rename`
-- gives what to write instead and the text to go on with. `joined` says that what stands before the text is part of a
-- name or a point, so that no name starts at its front.
def replaceNames (rename : List Char → Option (List Char × List Char)) (joined : Bool)
    (text : List Char) : List Char :=
  match text with
  | [] => []
  | c :: rest =>
    if c == quoteMark || c == nameMark then
      c :: (quotedRun c rest).1 ++ replaceNames rename false (quotedRun c rest).2
    else if c == ':' && rest.head? == some ':' then
      let type := typeName (rest.drop 1)
      ':' :: ':' :: type.1 ++ replaceNames rename false type.2
    else if isNameStart c && !joined then
      match rename text with
      | some (replacement, after) =>
        if _h : after.length < (c :: rest).length then replacement ++ replaceNames rename true after
        else replacement
      | none =>
        c :: rest.takeWhile isNameChar ++ replaceNames rename true (rest.dropWhile isNameChar)
    else c :: replaceNames rename (isNameChar c || c == '.') rest
termination_by text.length
decreasing_by
  · have := length_quotedRun_le c rest
    simp only [List.length_cons]
    omega
  · have := length_typeName_le (rest.drop 1)
    simp only [List.length_drop, List.length_cons] at this ⊢
    omega
  · simp only [List.length_cons] at _h ⊢
    omega
  · have := (List.dropWhile_suffix (l := rest) isNameChar).length_le
    simp only [List.length_cons]
    omega
  · simp

def qualify (text : List Char) (aliasName : String) (table : Table) : List Char :=
  replaceNames (fun text =>
    let word := text.takeWhile isNameChar
    let after := text.dropWhile isNameChar
    if after.head? == some '.' || !table.hasColumn (String.ofList word) then none
    else some (aliasName.toList ++ '.' :: word, after)) false text

def requalify (text : List Char) (source target : String) : List Char :=
  replaceNames (fun text =>
    match source.toList.isPrefixOf text, text.drop source.length with
    | true, '.' :: after =>
      if after.head?.any isNameChar then some (target.toList ++ ['.'], after) else none
    | _, _ => none) false text

-- The conjuncts of the filter of a scan, with the alias before each bare name of a column.
def filterConjuncts (text : String) (aliasName : String) (table : Table) : List String :=
  (conjuncts text.toList).map fun part => String.ofList (qualify part aliasName table)

structure JoinColumn where
  aliasName : Option String
  column : String
deriving DecidableEq, Repr

def castName? (text : List Char) : Option (List Char) :=
  match enclosed? text with
  | some (name, ':' :: ':' :: type) =>
    let type := if type.getLast? == some ']' && type.dropLast.getLast? == some '[' then
      type.dropLast.dropLast else type
    if !name.isEmpty && name.all (fun c => isWordCharacter c || c == '.') && !type.isEmpty &&
      type.all (fun c => isWordCharacter c || c == ' ') then some name else none
  | _ => none

def joinColumn? (side : List Char) : Option JoinColumn :=
  let side := trim side
  let name := match castName? side with
    | some name => name
    | none => (splitOn "::".toList side).headD side
  if name.isEmpty || !name.all (fun c => isNameChar c || c == '.') || name.head?.any Char.isDigit then none
  else match cut? ['.'] name with
    | some (aliasName, column) => some ⟨some (String.ofList aliasName), String.ofList column⟩
    | none => some ⟨none, String.ofList name⟩

def joinColumns? (text : String) : Option (JoinColumn × JoinColumn) :=
  match splitOn " = ".toList (stripParens text.toList) with
  | [left, right] => do pure (← joinColumn? left, ← joinColumn? right)
  | _ => none

end Subplans.Condition
