import Subplans.Condition.Grammar

/-!
What the parts of the grammar read.

The functions of the grammar also tell that the tokens they leave are fewer than those they got. `erase` forgets
this, and each of them then is what the grammar says, from `erase_primary_of_comparison` up to
`erase_disjunction`.
-/

namespace Subplans.Condition

variable {α β : Type} {P Q : List Token → Prop} {c : Condition} {tokens rest : List Token}

-- What was read and what is left.
def erase (result : Option (α × { rest : List Token // P rest })) : Option (α × List Token) :=
  result.map fun r => (r.1, r.2.val)

theorem erase_bind {x : Option (α × { rest : List Token // P rest })}
    {f : α × { rest : List Token // P rest } → Option (β × { rest : List Token // Q rest })}
    {g : α × List Token → Option (β × List Token)} (h : ∀ a rest hr, erase (f (a, ⟨rest, hr⟩)) = g (a, rest)) :
    erase (x >>= f) = (erase x).bind g := by
  cases x
  case none => rfl
  case some r => exact h r.1 r.2.val r.2.property

theorem erase_property {a : α} {result : Option (α × { rest : List Token // P rest })}
    (h : erase result = some (a, rest)) : P rest := by
  obtain ⟨r, -, heq⟩ := Option.map_eq_some_iff.mp h
  cases heq
  exact r.2.property

theorem erase_disjunction : erase (disjunction? tokens) = (erase (conjunction? tokens)).bind fun first =>
    (erase (alternatives? first.2)).bind fun more => some (collapse or (first.1 :: more.1), more.2) := by
  rw [disjunction?]
  exact erase_bind fun _ _ _ => erase_bind fun _ _ _ => rfl

theorem erase_conjunction : erase (conjunction? tokens) = (erase (negation? tokens)).bind fun first =>
    (erase (conjuncts? first.2)).bind fun more => some (collapse and (first.1 :: more.1), more.2) := by
  rw [conjunction?]
  exact erase_bind fun _ _ _ => erase_bind fun _ _ _ => rfl

theorem erase_alternatives_none (h : keyword? "OR" tokens = none) :
    erase (alternatives? tokens) = some ([], tokens) := by
  rw [alternatives?]
  split
  case h_1 => rfl
  case h_2 h' => rw [h] at h'; cases h'

theorem erase_alternatives_some (h : keyword? "OR" tokens = some rest) :
    erase (alternatives? tokens) = (erase (conjunction? rest)).bind fun next =>
      (erase (alternatives? next.2)).bind fun more => some (next.1 :: more.1, more.2) := by
  rw [alternatives?]
  split
  case h_1 h' => rw [h] at h'; cases h'
  case h_2 h' =>
    rw [h] at h'
    cases h'
    exact erase_bind fun _ _ _ => erase_bind fun _ _ _ => rfl

theorem erase_conjuncts_none (h : keyword? "AND" tokens = none) :
    erase (conjuncts? tokens) = some ([], tokens) := by
  rw [conjuncts?]
  split
  case h_1 => rfl
  case h_2 h' => rw [h] at h'; cases h'

theorem erase_conjuncts_some (h : keyword? "AND" tokens = some rest) :
    erase (conjuncts? tokens) = (erase (negation? rest)).bind fun next =>
      (erase (conjuncts? next.2)).bind fun more => some (next.1 :: more.1, more.2) := by
  rw [conjuncts?]
  split
  case h_1 h' => rw [h] at h'; cases h'
  case h_2 h' =>
    rw [h] at h'
    cases h'
    exact erase_bind fun _ _ _ => erase_bind fun _ _ _ => rfl

theorem erase_negation_some (h : keyword? "NOT" tokens = some rest) :
    erase (negation? tokens) = (erase (negation? rest)).bind fun part => some (not part.1, part.2) := by
  rw [negation?]
  split
  case h_1 h' =>
    rw [h] at h'
    cases h'
    exact erase_bind fun _ _ _ => rfl
  case h_2 h' => rw [h] at h'; cases h'

theorem erase_negation_none (h : keyword? "NOT" tokens = none) :
    erase (negation? tokens) = erase (primary? tokens) := by
  rw [negation?]
  split
  case h_1 h' => rw [h] at h'; cases h'
  case h_2 => rfl

theorem erase_primary_of_comparison (h : comparison? tokens = some (c, rest)) (hlt : rest.length < tokens.length) :
    erase (primary? tokens) = some (c, rest) := by
  have hleaf : leaf? tokens = some (c, ⟨rest, hlt⟩) := by simp [leaf?, h, hlt]
  rw [primary?.eq_def, hleaf]
  rfl

-- Only what is no comparison is read as a condition in parentheses.
theorem erase_primary_parenthesis (h : comparison? (.lparen :: tokens) = none)
    (hinner : erase (disjunction? tokens) = some (c, .rparen :: rest)) :
    erase (primary? (.lparen :: tokens)) = some (c, rest) := by
  have hleaf : leaf? (.lparen :: tokens) = none := by simp [leaf?, h]
  rw [erase, Option.map_eq_some_iff] at hinner
  obtain ⟨⟨part, left, hlt⟩, hd, heq⟩ := hinner
  cases heq
  rw [primary?, hleaf]
  simp [hd, erase]

theorem cases_primary (h : erase (primary? tokens) = some (c, rest)) :
    comparison? tokens = some (c, rest) ∨
      ∃ inner, tokens = .lparen :: inner ∧ erase (disjunction? inner) = some (c, .rparen :: rest) := by
  rw [primary?.eq_def] at h
  split at h
  case h_1 result hleaf =>
    cases h
    unfold leaf? at hleaf
    split at hleaf
    case h_1 hc =>
      split at hleaf
      case isTrue => cases hleaf; exact .inl hc
      case isFalse => cases hleaf
    case h_2 => cases hleaf
  case h_2 =>
    split at h
    case h_1 =>
      split at h
      case h_1 hd => cases h; exact .inr ⟨_, rfl, by rw [hd]; rfl⟩
      case h_2 => cases h
    case h_2 => cases h

mutual

-- Every conjunction and disjunction in the condition has parts.
def filled : Condition → Bool
  | and parts => !parts.isEmpty && filledAll parts
  | or parts => !parts.isEmpty && filledAll parts
  | not part => part.filled
  | _ => true

def filledAll : List Condition → Bool
  | [] => true
  | c :: cs => c.filled && filledAll cs

end

theorem filledAll_iff {cs : List Condition} : filledAll cs = true ↔ ∀ c ∈ cs, c.filled = true := by
  induction cs
  case nil => simp [filledAll]
  case cons ih => simp [filledAll, ih]

end Subplans.Condition
