import Subplans.Json.Basic

/-!
Reading JSON text.

`Json.read?` accepts one value with white space around it and nothing else. A reader of a part of the
text returns what is left, which is always shorter; that is why reading ends.
-/

namespace Subplans.Json

abbrev Rest (text : List Char) := { rest : List Char // rest.length < text.length }

def isSpace (c : Char) : Bool :=
  c == ' ' || c == '\n' || c == '\t' || c == '\r'

def skip (text : List Char) : List Char :=
  text.dropWhile isSpace

theorem length_skip_le (text : List Char) : (skip text).length ≤ text.length :=
  (List.dropWhile_suffix _).length_le

def hexDigit? (c : Char) : Option Nat :=
  let n := c.toNat
  if 0x30 ≤ n && n ≤ 0x39 then some (n - 0x30)
  else if 0x41 ≤ n && n ≤ 0x46 then some (n - 0x41 + 10)
  else if 0x61 ≤ n && n ≤ 0x66 then some (n - 0x61 + 10)
  else none

def escape? : Char → Option Nat
  | '\x22' => some 0x22
  | '\\' => some 0x5C
  | '/' => some 0x2F
  | 'b' => some 0x08
  | 'f' => some 0x0C
  | 'n' => some 0x0A
  | 'r' => some 0x0D
  | 't' => some 0x09
  | _ => none

-- The code points and escaped UTF-16 units of a string after its opening mark, and the text after its closing mark.
-- Control characters have to be escaped.
def units? : List Char → Option (List Nat × List Char)
  | [] => none
  | '\\' :: 'u' :: a :: b :: c :: d :: rest => do
    let unit := (((← hexDigit? a) * 16 + (← hexDigit? b)) * 16 + (← hexDigit? c)) * 16 + (← hexDigit? d)
    let (units, after) ← units? rest
    pure (unit :: units, after)
  | '\\' :: c :: rest => do
    let unit ← escape? c
    let (units, after) ← units? rest
    pure (unit :: units, after)
  | c :: rest =>
    if c == '\x22' then some ([], rest)
    else if c.toNat < 0x20 || c == '\\' then none
    else do
      let (units, after) ← units? rest
      pure (c.toNat :: units, after)

-- The text that code points and UTF-16 units denote: two halves of a pair that follow each other are one character, and
-- none may stand alone.
def joinUnits? : List Nat → Option (List Char)
  | [] => some []
  | unit :: rest =>
    if 0xD800 ≤ unit && unit < 0xDC00 then
      match rest with
      | [] => none
      | low :: rest =>
        if 0xDC00 ≤ low && low < 0xE000 then
          (joinUnits? rest).map (Char.ofNat (0x10000 + (unit - 0xD800) * 0x400 + (low - 0xDC00)) :: ·)
        else none
    else if 0xDC00 ≤ unit && unit < 0xE000 then none
    else (joinUnits? rest).map (Char.ofNat unit :: ·)

theorem length_units_lt {text after : List Char} {units : List Nat}
    (h : units? text = some (units, after)) : after.length < text.length := by
  fun_induction units? text generalizing units after with
  | case1 => simp at h
  | case2 a b c d rest ih =>
    simp only [Option.bind_eq_bind, Option.bind_eq_some_iff, Option.pure_def, Option.some.injEq,
      Prod.mk.injEq] at h
    obtain ⟨_, _, _, _, _, _, _, _, ⟨u, r⟩, hr, _, rfl⟩ := h
    have := ih hr
    simp only [List.length_cons]
    omega
  | case3 c rest _ ih =>
    simp only [Option.bind_eq_bind, Option.bind_eq_some_iff, Option.pure_def, Option.some.injEq,
      Prod.mk.injEq] at h
    obtain ⟨_, _, ⟨u, r⟩, hr, _, rfl⟩ := h
    have := ih hr
    simp only [List.length_cons]
    omega
  | case4 c rest _ _ hc =>
    simp only [Option.some.injEq, Prod.mk.injEq] at h
    obtain ⟨_, rfl⟩ := h
    simp
  | case5 => simp at h
  | case6 c rest _ _ _ _ ih =>
    simp only [Option.bind_eq_bind, Option.bind_eq_some_iff, Option.pure_def, Option.some.injEq,
      Prod.mk.injEq] at h
    obtain ⟨⟨u, r⟩, hr, _, rfl⟩ := h
    have := ih hr
    simp only [List.length_cons]
    omega

def text? (text : List Char) : Option (Option String × Rest text) :=
  match h : units? text with
  | none => none
  | some (units, after) => some ((joinUnits? units).map String.ofList, ⟨after, length_units_lt h⟩)

-- The length of the number lexeme a text starts with: no zeros in front, digits on both sides of a point, digits in an
-- exponent.
def lexemeLength? (text : List Char) : Option Nat := do
  let digits := fun (t : List Char) => (t.takeWhile Char.isDigit).length
  let sign := match text with | '-' :: _ => 1 | _ => 0
  let text := text.drop sign
  let whole := digits text
  if whole == 0 || (text.head? == some '0' && 1 < whole) then failure
  let text := text.drop whole
  let fraction ← match text with
    | '.' :: rest => if digits rest == 0 then failure else pure (1 + digits rest)
    | _ => pure 0
  let text := text.drop fraction
  let exponent ← match text with
    | c :: rest =>
      if c == 'e' || c == 'E' then
        let mark := match rest with
          | '+' :: _ | '-' :: _ => 1
          | _ => 0
        let count := digits (rest.drop mark)
        if count == 0 then failure else pure (1 + mark + count)
      else pure 0
    | [] => pure 0
  pure (sign + whole + fraction + exponent)

mutual

def value? (text : List Char) : Option (Json × Rest text) :=
  match h : skip text with
  | [] => none
  | c :: rest =>
    have hrest : rest.length < text.length := by
      have := length_skip_le text
      rw [h] at this
      exact this
    if c == '{' then
      match skip rest with
      | '}' :: _ =>
        some (object [], ⟨(skip rest).drop 1, by
          have := length_skip_le rest
          simp only [List.length_drop]
          omega⟩)
      | _ => do
        let (fields, ⟨after, h'⟩) ← fields? rest
        pure (object fields, ⟨after, by omega⟩)
    else if c == '[' then
      match skip rest with
      | ']' :: _ =>
        some (array [], ⟨(skip rest).drop 1, by
          have := length_skip_le rest
          simp only [List.length_drop]
          omega⟩)
      | _ => do
        let (items, ⟨after, h'⟩) ← items? rest
        pure (array items, ⟨after, by omega⟩)
    else if c == '\x22' then do
      let (text, ⟨after, h'⟩) ← text? rest
      pure (string text, ⟨after, by omega⟩)
    else if c == 'n' then keyword text rest hrest "ull" null
    else if c == 't' then keyword text rest hrest "rue" (bool true)
    else if c == 'f' then keyword text rest hrest "alse" (bool false)
    else do
      let length ← lexemeLength? (c :: rest)
      pure (number (String.ofList ((c :: rest).take length)), ⟨rest.drop (length - 1), by
        simp only [List.length_drop]
        omega⟩)
termination_by 2 * text.length
where
  keyword (text rest : List Char) (h : rest.length < text.length) (word : String) (value : Json) :
      Option (Json × Rest text) :=
    if word.toList.isPrefixOf rest then
      some (value, ⟨rest.drop word.length, by
        simp only [List.length_drop]
        omega⟩)
    else none

def items? (text : List Char) : Option (List Json × Rest text) := do
  let (item, ⟨after, h⟩) ← value? text
  match h' : skip after with
  | ']' :: rest =>
    pure ([item], ⟨rest, by
      have := length_skip_le after
      rw [h', List.length_cons] at this
      omega⟩)
  | ',' :: rest =>
    have : rest.length < text.length := by
      have := length_skip_le after
      rw [h', List.length_cons] at this
      omega
    let (items, ⟨after, _⟩) ← items? rest
    pure (item :: items, ⟨after, by omega⟩)
  | _ => none
termination_by 2 * text.length + 1

def fields? (text : List Char) : Option (List (Option String × Json) × Rest text) :=
  match h : skip text with
  | [] => none
  | c :: rest => do
    have hrest : rest.length < text.length := by
      have := length_skip_le text
      rw [h] at this
      exact this
    if c != '\x22' then failure
    let (name, ⟨after, _⟩) ← text? rest
    match h₁ : skip after with
    | ':' :: after₁ =>
      have : after₁.length < after.length := by
        have := length_skip_le after
        rw [h₁] at this
        exact this
      let (value, ⟨after₂, _⟩) ← value? after₁
      match h₂ : skip after₂ with
      | '}' :: after₃ =>
        pure ([(name, value)], ⟨after₃, by
          have := length_skip_le after₂
          rw [h₂, List.length_cons] at this
          omega⟩)
      | ',' :: after₃ =>
        have : after₃.length < after₂.length := by
          have := length_skip_le after₂
          rw [h₂] at this
          exact this
        let (fields, ⟨after₄, _⟩) ← fields? after₃
        pure ((name, value) :: fields, ⟨after₄, by omega⟩)
      | _ => none
    | _ => none
termination_by 2 * text.length + 1

end

def read? (text : String) : Option Json := do
  let (value, ⟨rest, _⟩) ← value? text.toList
  if (skip rest).isEmpty then some value else none

end Subplans.Json
