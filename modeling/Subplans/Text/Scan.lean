import Subplans.Text.Blank

/-!
Scanning of condition text: names, quoted runs, parentheses, and splitting at separators.

Text between single quotation marks is opaque to `enclosed?` and `splitTopLevel`; a doubled mark
inside of it closes and reopens the quotation and so changes nothing. All functions work on lists of
characters and return what is left of the text, so that nothing is ever cut inside a character.
-/

namespace Subplans.Text

def quoteMark : Char := '\x27'

def nameMark : Char := '\x22'

def isNameChar (c : Char) : Bool :=
  c.isAlphanum || c == '_'

def isNameStart (c : Char) : Bool :=
  c.isAlpha || c == '_'

def equalsIgnoringCase (a b : String) : Bool :=
  a.toList.map Char.toLower == b.toList.map Char.toLower

-- The text around the first occurrence of `sep`.
def cut? (sep : List Char) : List Char → Option (List Char × List Char)
  | [] => if sep.isEmpty then some ([], []) else none
  | c :: rest =>
    if sep.isPrefixOf (c :: rest) then some ([], (c :: rest).drop sep.length)
    else (cut? sep rest).map fun (before, after) => (c :: before, after)

def cutLast? (sep : List Char) (text : List Char) : Option (List Char × List Char) :=
  (cut? sep.reverse text.reverse).map fun (after, before) => (before.reverse, after.reverse)

def cutAt? (c : Char) (text : String) : Option (String × String) :=
  (cut? [c] text.toList).map fun (before, after) => (String.ofList before, String.ofList after)

def contains (text part : String) : Bool :=
  (cut? part.toList text.toList).isSome

-- Cuts the text at each occurrence of `sep`, reading from the left; `skip` characters of a separator that was just
-- found are still to be passed over.
def splitOnFrom (sep : List Char) : (skip : Nat) → List Char → List (List Char)
  | _, [] => [[]]
  | skip + 1, _ :: rest => splitOnFrom sep skip rest
  | 0, c :: rest =>
    if !sep.isEmpty && sep.isPrefixOf (c :: rest) then [] :: splitOnFrom sep (sep.length - 1) rest
    else match splitOnFrom sep 0 rest with
      | part :: parts => (c :: part) :: parts
      | [] => [[c]]

def splitOn (sep : List Char) (text : List Char) : List (List Char) :=
  splitOnFrom sep 0 text

def undouble (mark : Char) : List Char → List Char
  | a :: b :: rest =>
    if a == mark && b == mark then mark :: undouble mark rest else a :: undouble mark (b :: rest)
  | text => text

def double (mark : Char) (text : List Char) : List Char :=
  text.flatMap fun c => if c == mark then [mark, mark] else [c]

theorem undouble_double (mark : Char) (text : List Char) :
    undouble mark (double mark text) = text := by
  induction text with
  | nil => rfl
  | cons c rest ih =>
    by_cases h : c = mark
    · subst h
      simpa [double, undouble] using ih
    · have hcons : double mark (c :: rest) = c :: double mark rest := by simp [double, h]
      rw [hcons]
      cases hd : double mark rest with
      | nil => rw [hd] at ih; simp [undouble] at ih ⊢; exact ih
      | cons d ds => simp [undouble, h, ← hd, ih]

-- The run that an opening quotation mark starts, without that mark, and the text after it. The run ends with the first
-- mark that is not doubled, or with the text.
def quotedRun (mark : Char) : List Char → List Char × List Char
  | [] => ([], [])
  | [c] => ([c], [])
  | c :: d :: rest =>
    if c == mark then
      if d == mark then
        let (run, after) := quotedRun mark rest
        (c :: d :: run, after)
      else ([c], d :: rest)
    else
      let (run, after) := quotedRun mark (d :: rest)
      (c :: run, after)

theorem quotedRun_append (mark : Char) (text : List Char) :
    (quotedRun mark text).1 ++ (quotedRun mark text).2 = text := by
  fun_induction quotedRun mark text <;> simp_all

theorem length_quotedRun_le (mark : Char) (text : List Char) :
    (quotedRun mark text).2.length ≤ text.length := by
  have := congrArg List.length (quotedRun_append mark text)
  simp at this
  omega

-- What stands before the closing parenthesis and what stands after it, in a text that starts inside of `depth + 1`
-- parentheses, or in a quotation inside of them.
def closing? : (depth : Nat) → (quoted : Bool) → List Char → Option (List Char × List Char)
  | _, _, [] => none
  | depth, quoted, c :: rest =>
    let onward := fun d q => (closing? d q rest).map fun (inside, after) => (c :: inside, after)
    if c == quoteMark then onward depth (!quoted)
    else if quoted then onward depth quoted
    else if c == '(' then onward (depth + 1) quoted
    else if c == ')' then
      match depth with
      | 0 => some ([], rest)
      | depth + 1 => onward depth quoted
    else onward depth quoted

-- For a text that starts with a parenthesis: what that parenthesis encloses and what follows.
def enclosed? : List Char → Option (List Char × List Char)
  | '(' :: rest => closing? 0 false rest
  | _ => none

theorem closing?_eq_some {depth : Nat} {quoted : Bool} {text inside after : List Char}
    (h : closing? depth quoted text = some (inside, after)) :
    text = inside ++ ')' :: after := by
  induction text generalizing depth quoted inside with
  | nil => simp [closing?] at h
  | cons c rest ih =>
    have onward : ∀ {d q}, ((closing? d q rest).map fun (i, a) => (c :: i, a)) =
        some (inside, after) → c :: rest = inside ++ ')' :: after := by
      intro d q h
      obtain ⟨⟨i, a⟩, hi, he⟩ := Option.map_eq_some_iff.1 h
      simp only [Prod.mk.injEq] at he
      obtain ⟨rfl, rfl⟩ := he
      simp [ih hi]
    simp only [closing?] at h
    split at h
    · exact onward h
    · split at h
      · exact onward h
      · split at h
        · exact onward h
        · split at h
          · rename_i hc
            split at h
            · simp only [Option.some.injEq, Prod.mk.injEq] at h
              obtain ⟨rfl, rfl⟩ := h
              simp [eq_of_beq hc]
            · exact onward h
          · exact onward h

-- The text inside of a pair of parentheses that encloses all of `text` but blanks.
def parenthesized? (text : List Char) : Option (List Char) :=
  match enclosed? (trim text) with
  | some (inside, []) => some inside
  | _ => none

def isParenthesized (text : List Char) : Bool :=
  (parenthesized? text).isSome

-- Removes one pair of parentheses if it encloses the whole text, and the blanks around.
def stripParens (text : List Char) : List Char :=
  match parenthesized? text with
  | some inside => trim inside
  | none => trim text

def byteSize : List Char → Nat
  | [] => 0
  | c :: rest => c.utf8Size + byteSize rest

def dropBytes? : (offset : Nat) → List Char → Option (List Char)
  | 0, text => some text
  | _ + 1, [] => none
  | offset + 1, c :: rest =>
    if c.utf8Size ≤ offset + 1 then dropBytes? (offset + 1 - c.utf8Size) rest else none

-- The byte offset of the parenthesis that closes the one at byte offset `start`.
def matchingParen? (text : List Char) (start : Nat) : Option Nat := do
  let (inside, _) ← enclosed? (← dropBytes? start text)
  pure (start + 1 + byteSize inside)

-- Where a scan stands: how many more parentheses were opened than closed, which unbalanced text can make negative, and
-- whether a quotation is open.
structure Nesting where
  level : Int
  quoted : Bool
deriving DecidableEq, Repr

namespace Nesting

def outer : Nesting := ⟨0, false⟩

def step (n : Nesting) (c : Char) : Nesting :=
  if c == quoteMark then { n with quoted := !n.quoted }
  else if n.quoted then n
  else if c == '(' then { n with level := n.level + 1 }
  else if c == ')' then { n with level := n.level - 1 }
  else n

-- A separator is only seen here, and only where no mark or parenthesis stands.
def allowsCut (n : Nesting) (c : Char) : Bool :=
  n == outer && c != quoteMark && c != '(' && c != ')'

end Nesting

-- Cuts at each occurrence of `sep` that lies outside of parentheses and quotations; `skip` characters of a separator
-- that was just found are still to be passed over.
def splitTopFrom (sep : List Char) : Nesting → (skip : Nat) → List Char → List (List Char)
  | _, _, [] => [[]]
  | n, skip + 1, _ :: rest => splitTopFrom sep n skip rest
  | n, 0, c :: rest =>
    if n.allowsCut c && !sep.isEmpty && sep.isPrefixOf (c :: rest) then
      [] :: splitTopFrom sep n (sep.length - 1) rest
    else match splitTopFrom sep (n.step c) 0 rest with
      | part :: parts => (c :: part) :: parts
      | [] => [[c]]

-- The parts of a text between the separators outside of parentheses and quotations.
def splitTopLevel (sep text : List Char) : List (List Char) :=
  splitTopFrom sep .outer 0 text

end Subplans.Text
