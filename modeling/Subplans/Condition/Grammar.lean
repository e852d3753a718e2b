import Subplans.Condition.Token

/-!
The grammar of conditions.

NOT binds tighter than AND, AND tighter than OR. A comparison is a term followed by a test for NULL, a
list, or an operator with another term or a list. A parenthesis may open a term as well as a condition:
it opens a term if a whole comparison can be read that way.
-/

namespace Subplans

namespace Condition

inductive Operand
  | column (name : String)
  | literal (text : String)
  | null
deriving DecidableEq, Repr

-- An operand with the type it is cast to last.
structure Term where
  operand : Operand
  cast : Option String
deriving DecidableEq, Repr

end Condition

inductive Condition
  | and (parts : List Condition)
  | or (parts : List Condition)
  | not (part : Condition)
  | compare (left : Condition.Term) (operator : String) (right : Condition.Term)
  | nullTest (term : Condition.Term) (negated : Bool)
  -- An operator with ANY or, if `all`, with ALL and the text of a list.
  | quantified (left : Condition.Term) (operator : String) (all : Bool) (list : String)
  | inList (term : Condition.Term) (list : List Condition.Term) (negated : Bool)
deriving Repr

namespace Condition

def reserved : List String :=
  ["AND", "OR", "NOT", "IS", "LIKE", "ILIKE", "IN", "ANY", "ALL", "NULL"]

def keyword? (keyword : String) : List Token → Option (List Token)
  | t :: rest => if t.isKeyword keyword then some rest else none
  | [] => none

-- A term with the casts that follow it, of which the last counts.
def casts (term : Term) : List Token → Term × List Token
  | .cast type :: rest => casts { term with cast := some type } rest
  | rest => (term, rest)

def term? : List Token → Option (Term × List Token)
  | .lparen :: rest =>
    match term? rest with
    | some (inner, .rparen :: rest) => some (casts inner rest)
    | _ => none
  | .word name :: rest =>
    if Text.equalsIgnoringCase name "NULL" then some (casts ⟨.null, none⟩ rest)
    else if reserved.any (Text.equalsIgnoringCase name) then none
    else some (casts ⟨.column name, none⟩ rest)
  | .text content :: rest => some (casts ⟨.literal content, none⟩ rest)
  | .number digits :: rest => some (casts ⟨.literal digits, none⟩ rest)
  | _ => none

theorem length_casts_le (term : Term) (tokens : List Token) :
    (casts term tokens).2.length ≤ tokens.length := by
  fun_induction casts term tokens with
  | case1 term type rest ih => simp only [List.length_cons]; omega
  | case2 => simp

theorem length_term_lt {tokens after : List Token} {term : Term}
    (h : term? tokens = some (term, after)) : after.length < tokens.length := by
  have step : ∀ {t : Term} {rest : List Token}, some (casts t rest) = some (term, after) →
      after.length ≤ rest.length := by
    intro t rest h
    have hc := length_casts_le t rest
    rw [Option.some.inj h] at hc
    exact hc
  fun_induction term? tokens generalizing term after with
  | case1 rest inner after' hi ih =>
    have hr := ih hi fun h => by
      have hc := length_casts_le ‹Term› ‹List Token›
      rw [Option.some.inj h] at hc
      exact hc
    have := step h
    simp only [List.length_cons] at hr ⊢
    omega
  | case2 | case4 | case8 => simp at h
  | case3 | case5 | case6 | case7 =>
    have := step h
    simp only [List.length_cons]
    omega

def terms? (tokens : List Token) : Option (List Term × List Token) :=
  match _h : term? tokens with
  | some (term, .rparen :: rest) => some ([term], rest)
  | some (term, .comma :: rest) => (terms? rest).map fun (terms, after) => (term :: terms, after)
  | _ => none
termination_by tokens.length
decreasing_by
  have := length_term_lt _h
  simp only [List.length_cons] at this
  omega

-- The operator of a comparison whose left side was read: a pattern match, negated or not, or an operator.
def operator? (tokens : List Token) : Option (String × List Token) :=
  let (negated, tokens) := match keyword? "NOT" tokens with
    | some rest => (true, rest)
    | none => (false, tokens)
  match keyword? "LIKE" tokens, keyword? "ILIKE" tokens, tokens with
  | some rest, _, _ => some (if negated then "!~~" else "~~", rest)
  | _, some rest, _ => some (if negated then "!~~*" else "~~*", rest)
  | _, _, .operator symbol :: rest => if negated then none else some (symbol, rest)
  | _, _, _ => none

def rightSide? (left : Term) (operator : String) (tokens : List Token) :
    Option (Condition × List Token) :=
  match tokens with
  | t :: .raw list :: rest =>
    if t.isQuantifier then some (quantified left operator (t.isKeyword "ALL") list, rest)
    else (term? tokens).map fun (right, after) => (compare left operator right, after)
  | _ => (term? tokens).map fun (right, after) => (compare left operator right, after)

def comparison? (tokens : List Token) : Option (Condition × List Token) := do
  let (left, tokens) ← term? tokens
  match keyword? "IS" tokens with
  | some rest =>
    match keyword? "NOT" rest with
    | some rest => (keyword? "NULL" rest).map (nullTest left true, ·)
    | none => (keyword? "NULL" rest).map (nullTest left false, ·)
  | none =>
    let (negated, rest) := match keyword? "NOT" tokens with
      | some rest => (true, rest)
      | none => (false, tokens)
    match keyword? "IN" rest with
    | some (.lparen :: rest) => (terms? rest).map fun (list, after) => (inList left list negated, after)
    | some _ => none
    | none =>
      let (operator, tokens) ← operator? tokens
      rightSide? left operator tokens

def collapse (combine : List Condition → Condition) : List Condition → Condition
  | [c] => c
  | cs => combine cs

theorem length_keyword_lt {keyword : String} {tokens rest : List Token}
    (h : keyword? keyword tokens = some rest) : rest.length < tokens.length := by
  cases tokens with
  | nil => simp [keyword?] at h
  | cons t ts =>
    simp only [keyword?] at h
    split at h <;> simp_all

abbrev Shorter (tokens : List Token) := { rest : List Token // rest.length < tokens.length }

def leaf? (tokens : List Token) : Option (Condition × Shorter tokens) :=
  match comparison? tokens with
  | some (c, rest) => if h : rest.length < tokens.length then some (c, ⟨rest, h⟩) else none
  | none => none

mutual

def disjunction? (tokens : List Token) : Option (Condition × Shorter tokens) := do
  let (first, ⟨rest, h⟩) ← conjunction? tokens
  let (more, ⟨rest, h'⟩) ← alternatives? rest
  pure (collapse or (first :: more), ⟨rest, by omega⟩)
termination_by (tokens.length, 4)

def alternatives? (tokens : List Token) :
    Option (List Condition × { rest : List Token // rest.length ≤ tokens.length }) :=
  match hk : keyword? "OR" tokens with
  | none => some ([], ⟨tokens, Nat.le_refl _⟩)
  | some rest => do
    have := length_keyword_lt hk
    let (next, ⟨rest, h⟩) ← conjunction? rest
    let (more, ⟨rest, h'⟩) ← alternatives? rest
    pure (next :: more, ⟨rest, by omega⟩)
termination_by (tokens.length, 4)

def conjunction? (tokens : List Token) : Option (Condition × Shorter tokens) := do
  let (first, ⟨rest, h⟩) ← negation? tokens
  let (more, ⟨rest, h'⟩) ← conjuncts? rest
  pure (collapse and (first :: more), ⟨rest, by omega⟩)
termination_by (tokens.length, 3)

def conjuncts? (tokens : List Token) :
    Option (List Condition × { rest : List Token // rest.length ≤ tokens.length }) :=
  match hk : keyword? "AND" tokens with
  | none => some ([], ⟨tokens, Nat.le_refl _⟩)
  | some rest => do
    have := length_keyword_lt hk
    let (next, ⟨rest, h⟩) ← negation? rest
    let (more, ⟨rest, h'⟩) ← conjuncts? rest
    pure (next :: more, ⟨rest, by omega⟩)
termination_by (tokens.length, 3)

def negation? (tokens : List Token) : Option (Condition × Shorter tokens) :=
  match hk : keyword? "NOT" tokens with
  | some rest => do
    have := length_keyword_lt hk
    let (part, ⟨rest, h⟩) ← negation? rest
    pure (not part, ⟨rest, by omega⟩)
  | none => primary? tokens
termination_by (tokens.length, 2)

def primary? (tokens : List Token) : Option (Condition × Shorter tokens) :=
  -- A comparison comes first, since its left side may start with a parenthesis, too.
  match leaf? tokens with
  | some result => some result
  | none =>
    match tokens with
    | .lparen :: inner =>
      match disjunction? inner with
      | some (part, ⟨.rparen :: rest, h⟩) =>
        some (part, ⟨rest, by simp only [List.length_cons] at h ⊢; omega⟩)
      | _ => none
    | _ => none
termination_by (tokens.length, 1)

end

def ofText? (text : String) : Option Condition := do
  match ← disjunction? (← tokens? text) with
  | (c, ⟨[], _⟩) => some c
  | _ => none

end Condition

end Subplans
