import Subplans.Proofs.Condition.Derivation

/-!
The conditions of the grammar, and their text with parentheses throughout.

A condition derives from some tokens if and only if it is `proper`, and then from those that `parenthesized` prints
(`parenthesized_derives`). Together with what is read of tokens, the grammar is exactly what its functions read, and it
is unambiguous (`whole?_exact`).
-/

namespace Subplans.Condition

open Subplans.Text

-- The name of a column is no reserved word.
def Term.proper (t : Term) : Bool :=
  match t.operand with
  | .column name => !reserved.any (equalsIgnoringCase name)
  | _ => true

mutual

-- Conjunctions and disjunctions have two parts or more, lists at least one, and all columns have names.
def proper : Condition → Bool
  | and parts => decide (2 ≤ parts.length) && properAll parts
  | or parts => decide (2 ≤ parts.length) && properAll parts
  | not part => part.proper
  | compare left _ right => left.proper && right.proper
  | nullTest t _ => t.proper
  | quantified left _ _ _ => left.proper
  | inList t list _ => t.proper && !list.isEmpty && list.all Term.proper

def properAll : List Condition → Bool
  | [] => true
  | c :: cs => c.proper && properAll cs

end

variable {ts us : List Token} {t : Term} {c : Condition} {cs : List Condition} {list : List Term}

theorem TermOf.proper (h : TermOf ts t) : t.proper = true := by
  induction h
  case column name hname => exact congrArg Bool.not hname
  case parenthesis ih => exact ih
  case cast ih => exact ih
  all_goals rfl

theorem TermsOf.proper (h : TermsOf ts list) : (!list.isEmpty && list.all Term.proper) = true := by
  induction h
  case single h => simp [h.proper]
  case cons h _ ih =>
    rw [Bool.and_eq_true] at ih
    simp [h.proper, ih.2]

theorem ComparisonOf.proper (h : ComparisonOf ts c) : c.proper = true := by
  cases h
  case isNull h _ _ => exact h.proper
  case isNotNull h _ _ _ => exact h.proper
  case isIn h _ hlist => rw [Condition.proper, Bool.and_assoc, h.proper, hlist.proper]; rfl
  case isNotIn h _ _ hlist => rw [Condition.proper, Bool.and_assoc, h.proper, hlist.proper]; rfl
  case compare h _ hu => rw [Condition.proper, h.proper, hu.proper]; rfl
  case quantified h _ _ => exact h.proper

theorem proper_collapse {combine : List Condition → Condition} {first : Condition} {more : List Condition}
    (hcombine : ∀ cs, (combine cs).proper = (decide (2 ≤ cs.length) && properAll cs)) (hfirst : first.proper = true)
    (hmore : properAll more = true) : (collapse combine (first :: more)).proper = true := by
  cases more
  case nil => exact hfirst
  case cons second more =>
    rw [collapse, hcombine, properAll, hfirst, hmore]
    · simp
    · simp

mutual

theorem DisjunctionOf.proper : ∀ {ts : List Token} {c : Condition}, DisjunctionOf ts c → c.proper = true
  | _, _, .mk hfirst hmore => proper_collapse (fun _ => rfl) hfirst.proper hmore.proper

theorem AlternativesOf.proper : ∀ {ts : List Token} {cs : List Condition}, AlternativesOf ts cs →
    properAll cs = true
  | _, _, .nil => rfl
  | _, _, .cons _ hnext hmore => by rw [properAll, hnext.proper, hmore.proper]; rfl

theorem ConjunctionOf.proper : ∀ {ts : List Token} {c : Condition}, ConjunctionOf ts c → c.proper = true
  | _, _, .mk hfirst hmore => proper_collapse (fun _ => rfl) hfirst.proper hmore.proper

theorem ConjunctsOf.proper : ∀ {ts : List Token} {cs : List Condition}, ConjunctsOf ts cs → properAll cs = true
  | _, _, .nil => rfl
  | _, _, .cons _ hnext hmore => by rw [properAll, hnext.proper, hmore.proper]; rfl

theorem NegationOf.proper : ∀ {ts : List Token} {c : Condition}, NegationOf ts c → c.proper = true
  | _, _, .not _ hpart => hpart.proper
  | _, _, .primary h => h.proper

theorem PrimaryOf.proper : ∀ {ts : List Token} {c : Condition}, PrimaryOf ts c → c.proper = true
  | _, _, .comparison h => h.proper
  | _, _, .parenthesis h => h.proper

end

mutual

theorem filled_of_proper : ∀ c : Condition, c.proper = true → c.filled = true
  | and [], h => by cases h
  | and (first :: more), h => filledAll_of_properAll (first :: more) (Bool.and_eq_true_iff.mp h).2
  | or [], h => by cases h
  | or (first :: more), h => filledAll_of_properAll (first :: more) (Bool.and_eq_true_iff.mp h).2
  | not part, h => filled_of_proper part h
  | compare .., _ => rfl
  | nullTest .., _ => rfl
  | quantified .., _ => rfl
  | inList .., _ => rfl

theorem filledAll_of_properAll : ∀ cs : List Condition, properAll cs = true → filledAll cs = true
  | [], _ => rfl
  | c :: cs, h => by
    rw [properAll, Bool.and_eq_true] at h
    rw [filledAll, filled_of_proper c h.1, filledAll_of_properAll cs h.2]
    rfl

end

-- The conditions of texts have parts throughout.
theorem filled_ofText {text : String} (h : ofText? text = some c) : c.filled = true := by
  rw [ofText?_eq] at h
  have ⟨tokens, _, hread⟩ := Option.bind_eq_some_iff.mp h
  exact filled_of_proper c (whole?_iff.mp hread).proper

def Operand.token : Operand → Token
  | .column name => .word name
  | .literal content => .text content
  | .null => .word "NULL"

def Term.tokens (t : Term) : List Token :=
  match t.cast with
  | none => [t.operand.token]
  | some type => [t.operand.token] ++ [.cast type]

-- Terms with commas between them.
def listTokens : List Term → List Token
  | [] => []
  | [t] => t.tokens
  | t :: more => t.tokens ++ .comma :: listTokens more

def negation (negated : Bool) : List Token :=
  if negated then [.word "NOT"] else []

mutual

-- The condition with one pair of parentheses around each operator.
def parenthesized : Condition → List Token
  | and parts => .lparen :: partsTokens "AND" parts ++ [.rparen]
  | or parts => .lparen :: partsTokens "OR" parts ++ [.rparen]
  | not part => .lparen :: .word "NOT" :: part.parenthesized ++ [.rparen]
  | compare left operator right => .lparen :: (left.tokens ++ [.operator operator] ++ right.tokens) ++ [.rparen]
  | nullTest t negated => .lparen :: (t.tokens ++ .word "IS" :: (negation negated ++ [.word "NULL"])) ++ [.rparen]
  | quantified left operator all list =>
    .lparen :: (left.tokens ++ [.operator operator] ++ [.word (if all then "ALL" else "ANY"), .raw list]) ++ [.rparen]
  | inList t list negated =>
    .lparen :: (t.tokens ++ (negation negated ++ .word "IN" :: .lparen :: listTokens list) ++ [.rparen]) ++ [.rparen]

-- Conditions with a word between them.
def partsTokens (word : String) : List Condition → List Token
  | [] => []
  | c :: cs => c.parenthesized ++ moreTokens word cs

-- Conditions with a word before each.
def moreTokens (word : String) : List Condition → List Token
  | [] => []
  | c :: cs => .word word :: c.parenthesized ++ moreTokens word cs

end

theorem isKeyword_self (a : String) : (Token.word a).isKeyword a = true :=
  beq_self_eq_true _

theorem Term.tokens_derives (h : t.proper = true) : TermOf t.tokens t := by
  have hoperand : TermOf [t.operand.token] ⟨t.operand, none⟩ := by
    have ⟨operand, cast⟩ := t
    cases operand
    case column name => exact .column (by simpa [Term.proper] using h)
    case literal => exact .text
    case null => exact .null (by decide)
  have ⟨operand, cast⟩ := t
  cases cast
  case none => exact hoperand
  case some => exact hoperand.cast

theorem listTokens_derives (hne : list ≠ []) (h : ∀ t ∈ list, t.proper = true) :
    TermsOf (listTokens list) list := by
  fun_induction listTokens list
  case case1 => contradiction
  case case2 t => exact .single (Term.tokens_derives (h t List.mem_cons_self))
  case case3 t more hmore ih =>
    rw [List.forall_mem_cons] at h
    exact .cons (Term.tokens_derives h.1) (ih hmore h.2)

theorem NegationOf.conjunction (h : NegationOf ts c) : ConjunctionOf ts c := by
  have hc := ConjunctionOf.mk h .nil
  rwa [List.append_nil] at hc

theorem ConjunctionOf.disjunction (h : ConjunctionOf ts c) : DisjunctionOf ts c := by
  have hc := DisjunctionOf.mk h .nil
  rwa [List.append_nil] at hc

theorem ConjunctionOf.parenthesized (h : ConjunctionOf ts c) : PrimaryOf (.lparen :: ts ++ [.rparen]) c :=
  .parenthesis h.disjunction

theorem PrimaryOf.conjunction (h : PrimaryOf ts c) : ConjunctionOf ts c :=
  (NegationOf.primary h).conjunction

theorem PrimaryOf.disjunction (h : PrimaryOf ts c) : DisjunctionOf ts c :=
  h.conjunction.disjunction

theorem ComparisonOf.disjunction (h : ComparisonOf ts c) : DisjunctionOf ts c :=
  (PrimaryOf.comparison h).disjunction

theorem ComparisonOf.parenthesized (h : ComparisonOf ts c) : PrimaryOf (.lparen :: ts ++ [.rparen]) c :=
  .parenthesis h.disjunction

mutual

theorem parenthesized_derives : ∀ c : Condition, c.proper = true → PrimaryOf c.parenthesized c
  | and [], h => by cases h
  | and [_], h => by cases h
  | and (first :: second :: more), h => by
    rw [proper, properAll, Bool.and_eq_true, Bool.and_eq_true] at h
    have hfirst := NegationOf.primary (parenthesized_derives first h.2.1)
    have hmore := conjuncts_derive (second :: more) h.2.2
    exact (ConjunctionOf.mk hfirst hmore).parenthesized
  | or [], h => by cases h
  | or [_], h => by cases h
  | or (first :: second :: more), h => by
    rw [proper, properAll, Bool.and_eq_true, Bool.and_eq_true] at h
    have hfirst := (parenthesized_derives first h.2.1).conjunction
    have hmore := alternatives_derive (second :: more) h.2.2
    exact .parenthesis (.mk hfirst hmore)
  | not part, h => by
    have hpart := NegationOf.primary (parenthesized_derives part h)
    have hnot := ConjunctionOf.mk (.not (isKeyword_self "NOT") hpart) .nil
    rw [List.append_nil] at hnot
    exact hnot.parenthesized
  | compare left operator right, h => by
    rw [proper, Bool.and_eq_true] at h
    exact (ComparisonOf.compare (Term.tokens_derives h.1) .symbol (Term.tokens_derives h.2)).parenthesized
  | nullTest t negated, h => by
    have ht := Term.tokens_derives h
    cases negated
    case false => exact (ComparisonOf.isNull ht (isKeyword_self "IS") (isKeyword_self "NULL")).parenthesized
    case true =>
      have hnull := isKeyword_self "NULL"
      exact (ComparisonOf.isNotNull ht (isKeyword_self "IS") (isKeyword_self "NOT") hnull).parenthesized
  | quantified left operator all list, h => by
    have hleft := Term.tokens_derives h
    cases all
    case false => exact (ComparisonOf.quantified (k := .word "ANY") hleft .symbol (by decide)).parenthesized
    case true => exact (ComparisonOf.quantified (k := .word "ALL") hleft .symbol (by decide)).parenthesized
  | inList t list negated, h => by
    rw [proper, Bool.and_eq_true, Bool.and_eq_true] at h
    have ht := Term.tokens_derives h.1.1
    have hlist := listTokens_derives (by simpa using h.1.2) (by simpa using h.2)
    cases negated
    case false => exact (ComparisonOf.isIn ht (isKeyword_self "IN") hlist).parenthesized
    case true => exact (ComparisonOf.isNotIn ht (isKeyword_self "NOT") (isKeyword_self "IN") hlist).parenthesized

theorem conjuncts_derive : ∀ cs : List Condition, properAll cs = true → ConjunctsOf (moreTokens "AND" cs) cs
  | [], _ => .nil
  | c :: cs, h => by
    rw [properAll, Bool.and_eq_true] at h
    exact .cons (isKeyword_self "AND") (.primary (parenthesized_derives c h.1)) (conjuncts_derive cs h.2)

theorem alternatives_derive : ∀ cs : List Condition, properAll cs = true → AlternativesOf (moreTokens "OR" cs) cs
  | [], _ => .nil
  | c :: cs, h => by
    rw [properAll, Bool.and_eq_true] at h
    exact .cons (isKeyword_self "OR") (parenthesized_derives c h.1).conjunction (alternatives_derive cs h.2)

end

theorem DisjunctionOf.unique {d : Condition} (hc : DisjunctionOf ts c) (hd : DisjunctionOf ts d) : c = d :=
  Option.some.inj ((whole?_iff.mpr hc).symm.trans (whole?_iff.mpr hd))

theorem parenthesized_derives_iff : DisjunctionOf c.parenthesized c ↔ c.proper = true := by
  constructor
  case mp => exact fun h => h.proper
  case mpr => exact fun h => (parenthesized_derives c h).disjunction

-- What all the tokens of a text are read as is the one condition that derives from them, if one does. The conditions
-- that derive from any tokens are the proper ones, and these are read back from what is printed of them.
theorem whole?_exact (text : String) (tokens : List Token) (c d : Condition) :
    ofText? text = (tokens? text).bind whole? ∧
    (whole? tokens = some c ↔ DisjunctionOf tokens c) ∧
    (DisjunctionOf tokens c → DisjunctionOf tokens d → c = d) ∧
    ((∃ printed, DisjunctionOf printed c) ↔ c.proper = true) ∧
    (whole? c.parenthesized = some c ↔ c.proper = true) := by
  refine ⟨ofText?_eq text, whole?_iff, DisjunctionOf.unique, ⟨?_, ?_⟩, ?_⟩
  · exact fun ⟨_, h⟩ => h.proper
  · exact fun h => ⟨_, parenthesized_derives_iff.mpr h⟩
  · rw [whole?_iff, parenthesized_derives_iff]

-- `(a::text = 'x' AND NOT b IS NULL) OR c = ANY ('{1,2}'::integer[])`
def mixed : Condition :=
  .or [
    .and [.compare ⟨.column "a", some "text"⟩ "=" ⟨.literal "x", none⟩, .not (.nullTest ⟨.column "b", none⟩ false)],
    .quantified ⟨.column "c", none⟩ "=" false "'\x7b1,2\x7d'::integer[]"]

theorem whole?_exact_mixed : DisjunctionOf mixed.parenthesized mixed ∧ whole? mixed.parenthesized = some mixed ∧
    ∀ d, DisjunctionOf mixed.parenthesized d → mixed = d := by
  have hproper : mixed.proper = true := by decide
  have ⟨_, hread, _, _, hprinted⟩ := whole?_exact "" mixed.parenthesized mixed mixed
  have hderives := hread.mp (hprinted.mpr hproper)
  exact ⟨hderives, hprinted.mpr hproper, fun d hd =>
    (whole?_exact "" mixed.parenthesized mixed d).2.2.1 hderives hd⟩

end Subplans.Condition
