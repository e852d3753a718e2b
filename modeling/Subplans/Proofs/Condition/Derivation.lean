import Subplans.Proofs.Condition.Grammar

/-!
What conditions derive from.

`DisjunctionOf tokens c` says that the tokens as a whole are a condition, and which one, without saying how to find out.
A term takes what its casts take (`TermOf.reads`), and each part of the grammar is read where it is followed by what can
follow it (`DisjunctionOf.reads`).
-/

namespace Subplans.Condition

open Subplans.Text

-- A name, a literal or NULL, or a term in parentheses, with any number of casts, of which the last counts.
inductive TermOf : List Token → Term → Prop
  | column {name : String} : reserved.any (equalsIgnoringCase name) = false → TermOf [.word name] ⟨.column name, none⟩
  | null {name : String} : equalsIgnoringCase name "NULL" = true → TermOf [.word name] ⟨.null, none⟩
  | text {content : String} : TermOf [.text content] ⟨.literal content, none⟩
  | number {digits : String} : TermOf [.number digits] ⟨.literal digits, none⟩
  | parenthesis {ts : List Token} {t : Term} : TermOf ts t → TermOf (.lparen :: ts ++ [.rparen]) t
  | cast {ts : List Token} {t : Term} {type : String} :
    TermOf ts t → TermOf (ts ++ [.cast type]) { t with cast := some type }

-- Terms with commas between them.
inductive TermsOf : List Token → List Term → Prop
  | single {ts : List Token} {t : Term} : TermOf ts t → TermsOf ts [t]
  | cons {ts us : List Token} {t : Term} {more : List Term} :
    TermOf ts t → TermsOf us more → TermsOf (ts ++ .comma :: us) (t :: more)

-- An operator, or a match with a pattern.
inductive OperatorOf : List Token → String → Prop
  | symbol {symbol : String} : OperatorOf [.operator symbol] symbol
  | like {k : Token} : k.isKeyword "LIKE" = true → OperatorOf [k] "~~"
  | ilike {k : Token} : k.isKeyword "ILIKE" = true → OperatorOf [k] "~~*"
  | notLike {n k : Token} : n.isKeyword "NOT" = true → k.isKeyword "LIKE" = true → OperatorOf [n, k] "!~~"
  | notIlike {n k : Token} : n.isKeyword "NOT" = true → k.isKeyword "ILIKE" = true → OperatorOf [n, k] "!~~*"

inductive ComparisonOf : List Token → Condition → Prop
  | isNull {ts : List Token} {t : Term} {is null : Token} :
    TermOf ts t → is.isKeyword "IS" = true → null.isKeyword "NULL" = true →
    ComparisonOf (ts ++ [is, null]) (.nullTest t false)
  | isNotNull {ts : List Token} {t : Term} {is n null : Token} :
    TermOf ts t → is.isKeyword "IS" = true → n.isKeyword "NOT" = true → null.isKeyword "NULL" = true →
    ComparisonOf (ts ++ [is, n, null]) (.nullTest t true)
  | isIn {ts us : List Token} {t : Term} {list : List Term} {k : Token} :
    TermOf ts t → k.isKeyword "IN" = true → TermsOf us list →
    ComparisonOf (ts ++ k :: .lparen :: us ++ [.rparen]) (.inList t list false)
  | isNotIn {ts us : List Token} {t : Term} {list : List Term} {n k : Token} :
    TermOf ts t → n.isKeyword "NOT" = true → k.isKeyword "IN" = true → TermsOf us list →
    ComparisonOf (ts ++ n :: k :: .lparen :: us ++ [.rparen]) (.inList t list true)
  | compare {ts os us : List Token} {t u : Term} {symbol : String} :
    TermOf ts t → OperatorOf os symbol → TermOf us u → ComparisonOf (ts ++ os ++ us) (.compare t symbol u)
  | quantified {ts os : List Token} {t : Term} {symbol list : String} {k : Token} :
    TermOf ts t → OperatorOf os symbol → k.isQuantifier = true →
    ComparisonOf (ts ++ os ++ [k, .raw list]) (.quantified t symbol (k.isKeyword "ALL") list)

mutual

-- Conjunctions with OR between them.
inductive DisjunctionOf : List Token → Condition → Prop
  | mk {ts us : List Token} {first : Condition} {more : List Condition} :
    ConjunctionOf ts first → AlternativesOf us more → DisjunctionOf (ts ++ us) (collapse .or (first :: more))

-- Any number of conjunctions with OR before each.
inductive AlternativesOf : List Token → List Condition → Prop
  | nil : AlternativesOf [] []
  | cons {k : Token} {ts us : List Token} {c : Condition} {cs : List Condition} :
    k.isKeyword "OR" = true → ConjunctionOf ts c → AlternativesOf us cs → AlternativesOf (k :: ts ++ us) (c :: cs)

-- Negations with AND between them.
inductive ConjunctionOf : List Token → Condition → Prop
  | mk {ts us : List Token} {first : Condition} {more : List Condition} :
    NegationOf ts first → ConjunctsOf us more → ConjunctionOf (ts ++ us) (collapse .and (first :: more))

-- Any number of negations with AND before each.
inductive ConjunctsOf : List Token → List Condition → Prop
  | nil : ConjunctsOf [] []
  | cons {k : Token} {ts us : List Token} {c : Condition} {cs : List Condition} :
    k.isKeyword "AND" = true → NegationOf ts c → ConjunctsOf us cs → ConjunctsOf (k :: ts ++ us) (c :: cs)

-- A comparison or a condition in parentheses, with any number of NOT before it.
inductive NegationOf : List Token → Condition → Prop
  | not {k : Token} {ts : List Token} {c : Condition} :
    k.isKeyword "NOT" = true → NegationOf ts c → NegationOf (k :: ts) (.not c)
  | primary {ts : List Token} {c : Condition} : PrimaryOf ts c → NegationOf ts c

-- A comparison or a condition in parentheses.
inductive PrimaryOf : List Token → Condition → Prop
  | comparison {ts : List Token} {c : Condition} : ComparisonOf ts c → PrimaryOf ts c
  | parenthesis {ts : List Token} {c : Condition} : DisjunctionOf ts c → PrimaryOf (.lparen :: ts ++ [.rparen]) c

end

variable {ts us os rest tokens : List Token} {t u term : Term} {k : Token} {a b symbol : String} {c : Condition}
  {cs : List Condition} {words : List String} {list : List Term}

-- A token is one keyword at most.
theorem isKeyword_of_isKeyword (h : k.isKeyword a = true) : k.isKeyword b = equalsIgnoringCase a b := by
  cases k
  case word w =>
    have heq : w.toList.map Char.toLower = a.toList.map Char.toLower := by
      simpa [Token.isKeyword, equalsIgnoringCase] using h
    rw [Token.isKeyword, equalsIgnoringCase, equalsIgnoringCase, heq]
  all_goals cases h

theorem keyword?_cons (h : k.isKeyword a = true) : keyword? a (k :: rest) = some rest := by
  rw [keyword?, if_pos h]

theorem keyword?_other (h : k.isKeyword a = true) (hne : equalsIgnoringCase a b = false) :
    keyword? b (k :: rest) = none := by
  rw [keyword?, isKeyword_of_isKeyword h, hne]
  rfl

theorem exists_of_keyword? (h : keyword? a tokens = some rest) : ∃ k, k.isKeyword a = true ∧ tokens = k :: rest := by
  cases tokens
  case nil => cases h
  case cons k ts =>
    rw [keyword?] at h
    split at h
    case isTrue hk => cases h; exact ⟨k, hk, rfl⟩
    case isFalse => cases h

-- No term starts with a keyword but NULL.
theorem term?_keyword (h : k.isKeyword a = true) (hreserved : a ∈ reserved)
    (hnull : equalsIgnoringCase a "NULL" = false) : term? (k :: rest) = none := by
  cases k
  case word w =>
    have hw : ∀ b, equalsIgnoringCase w b = equalsIgnoringCase a b := fun b =>
      isKeyword_of_isKeyword (k := .word w) (b := b) h
    have hany : reserved.any (equalsIgnoringCase w) = true := by
      rw [List.any_eq_true]
      exact ⟨a, hreserved, h⟩
    simp [term?, hw, hnull, hany]
  all_goals cases h

-- No casts follow.
def NoCast (tokens : List Token) : Prop :=
  ∀ k ∈ tokens.head?, ∀ type, k ≠ .cast type

theorem noCast_rparen (rest : List Token) : NoCast (.rparen :: rest) := by simp [NoCast]

theorem noCast_comma (rest : List Token) : NoCast (.comma :: rest) := by simp [NoCast]

theorem casts_of_noCast (h : NoCast tokens) : casts term tokens = (term, tokens) := by
  cases tokens
  case nil => rfl
  case cons k ts =>
    cases k
    case cast type => exact absurd rfl (h _ rfl type)
    all_goals rfl

theorem TermOf.reads (h : TermOf ts t) (rest : List Token) : term? (ts ++ rest) = some (casts t rest) := by
  induction h generalizing rest
  case column name hname =>
    have hnull : equalsIgnoringCase name "NULL" = false := by
      rw [List.any_eq_false] at hname
      simpa using hname "NULL" (by decide)
    simp [term?, hnull, hname]
  case null name hname => simp [term?, hname]
  case text => rfl
  case number => rfl
  case parenthesis ts t _ ih => simp [term?, ih, casts]
  case cast ts t type _ ih => simp [ih, casts]

-- A term takes the casts after it.
theorem TermOf.reads_noCast (h : TermOf ts t) (hrest : NoCast rest) : term? (ts ++ rest) = some (t, rest) := by
  rw [h.reads, casts_of_noCast hrest]

theorem casts_derives (tokens : List Token) (h : TermOf ts t) :
    ∃ us, tokens = us ++ (casts t tokens).2 ∧ TermOf (ts ++ us) (casts t tokens).1 := by
  fun_induction casts t tokens generalizing ts
  case case1 t type rest ih =>
    obtain ⟨us, heq, hus⟩ := ih h.cast
    exact ⟨.cast type :: us, by rw [List.cons_append, ← heq], by simpa using hus⟩
  case case2 => exact ⟨[], rfl, by simpa using h⟩

theorem TermOf.derives (h : TermOf ts t) (hcasts : some (casts t tokens) = some (u, rest)) :
    ∃ us, ts ++ tokens = us ++ rest ∧ TermOf us u := by
  have ⟨us, htokens, hus⟩ := casts_derives tokens h
  rw [Option.some.inj hcasts] at htokens hus
  exact ⟨ts ++ us, by rw [List.append_assoc, ← htokens], hus⟩

theorem term?_derives (h : term? tokens = some (t, rest)) : ∃ ts, tokens = ts ++ rest ∧ TermOf ts t := by
  fun_induction term? tokens generalizing t rest
  case case1 inner after hinner ih =>
    obtain ⟨ts, hts, hterm⟩ := ih hinner
    obtain ⟨us, hus, hu⟩ := hterm.parenthesis.derives h
    exact ⟨us, by rw [hts, ← hus]; simp, hu⟩
  case case3 hnull => exact (TermOf.null hnull).derives h
  case case5 hname => exact (TermOf.column (Bool.eq_false_iff.mpr hname)).derives h
  case case6 => exact TermOf.text.derives h
  case case7 => exact TermOf.number.derives h
  all_goals cases h

-- No keyword but NULL stands first in a term.
theorem TermOf.keyword? (h : TermOf ts t) (hreserved : a ∈ reserved) (hnull : equalsIgnoringCase a "NULL" = false) :
    keyword? a (ts ++ rest) = none := by
  cases hk : Condition.keyword? a (ts ++ rest)
  case none => rfl
  case some =>
    have ⟨k, hk, htokens⟩ := exists_of_keyword? hk
    have hread := h.reads rest
    rw [htokens, term?_keyword hk hreserved hnull] at hread
    cases hread

theorem TermsOf.reads (h : TermsOf ts list) (rest : List Token) :
    terms? (ts ++ .rparen :: rest) = some (list, rest) := by
  induction h
  case single ts t h =>
    have hterm := h.reads_noCast (noCast_rparen rest)
    unfold terms?
    split
    case h_1 heq => rw [hterm] at heq; cases heq; rfl
    case h_2 heq => rw [hterm] at heq; cases heq
    case h_3 hne _ => exact absurd hterm (hne _ _)
  case cons ts us t more h _ ih =>
    have hterm := h.reads_noCast (noCast_comma (us ++ .rparen :: rest))
    rw [List.append_assoc, List.cons_append]
    unfold terms?
    split
    case h_1 heq => rw [hterm] at heq; cases heq
    case h_2 heq => rw [hterm] at heq; cases heq; rw [ih]; rfl
    case h_3 hne => exact absurd hterm (hne _ _)

theorem terms?_derives (h : terms? tokens = some (list, rest)) :
    ∃ ts, tokens = ts ++ .rparen :: rest ∧ TermsOf ts list := by
  fun_induction terms? tokens generalizing list rest
  case case1 term after hterm =>
    cases h
    have ⟨ts, hts, ht⟩ := term?_derives hterm
    exact ⟨ts, hts, .single ht⟩
  case case2 term after hterm ih =>
    have ⟨⟨more, left⟩, hmore, heq⟩ := Option.map_eq_some_iff.mp h
    cases heq
    have ⟨ts, hts, ht⟩ := term?_derives hterm
    have ⟨us, hus, hu⟩ := ih hmore
    exact ⟨ts ++ .comma :: us, by rw [hts, hus]; simp, .cons ht hu⟩
  case case3 => cases h

-- What follows a part of a condition: nothing, a closing parenthesis, or one of these words.
def EndsAt (words : List String) (rest : List Token) : Prop :=
  ∀ k ∈ rest.head?, k = .rparen ∨ ∃ w ∈ words, k.isKeyword w = true

theorem EndsAt.keyword? (h : EndsAt words rest) (hne : ∀ w ∈ words, equalsIgnoringCase w a = false) :
    keyword? a rest = none := by
  cases rest
  case nil => rfl
  case cons k rest =>
    rcases h k rfl with rfl | ⟨w, hw, hk⟩
    case inl => rfl
    case inr => exact keyword?_other hk (hne w hw)

theorem EndsAt.noCast (h : EndsAt words rest) : NoCast rest := by
  cases rest
  case nil => nofun
  case cons k rest =>
    rcases h k rfl with rfl | ⟨w, _, hk⟩
    case inl => simp [NoCast]
    case inr =>
      intro k' hk' type heq
      cases hk'
      rw [heq] at hk
      cases hk

-- What follows the first term of a comparison.
def Continues (tokens : List Token) : Prop :=
  NoCast tokens ∧ ∃ k more, tokens = k :: more ∧ k ≠ .rparen

theorem Continues.keyword (rest : List Token) (h : k.isKeyword a = true) : Continues (k :: rest) := by
  refine ⟨?_, k, rest, rfl, ?_⟩
  · intro k' hk' type heq
    cases hk'
    rw [heq] at h
    cases h
  · rintro rfl
    cases h

theorem Continues.append (h : Continues tokens) (rest : List Token) : Continues (tokens ++ rest) := by
  obtain ⟨hcast, k, more, rfl, hk⟩ := h
  exact ⟨hcast, k, more ++ rest, rfl, hk⟩

theorem OperatorOf.continues (h : OperatorOf os symbol) (rest : List Token) : Continues (os ++ rest) := by
  cases h
  case symbol => exact ⟨by simp [NoCast], _, _, rfl, nofun⟩
  case like hk | ilike hk => exact .keyword _ hk
  case notLike hn _ | notIlike hn _ => exact .keyword _ hn

-- After an operator comes the right side of a comparison.
theorem OperatorOf.comparison? (h : OperatorOf os symbol) (hterm : term? tokens = some (t, os ++ rest)) :
    comparison? tokens = rightSide? t symbol rest := by
  rw [Condition.comparison?, hterm]
  cases h
  case symbol => rfl
  case like k hk =>
    simp [keyword?_cons hk, keyword?_other (b := "IS") hk (by decide), keyword?_other (b := "NOT") hk (by decide),
      keyword?_other (b := "IN") hk (by decide), operator?]
  case ilike k hk =>
    simp [keyword?_cons hk, keyword?_other (b := "IS") hk (by decide), keyword?_other (b := "NOT") hk (by decide),
      keyword?_other (b := "IN") hk (by decide), keyword?_other (b := "LIKE") hk (by decide), operator?]
  case notLike n k hn hk =>
    simp [keyword?_cons hn, keyword?_cons hk, keyword?_other (b := "IS") hn (by decide),
      keyword?_other (b := "IN") hk (by decide), operator?]
  case notIlike n k hn hk =>
    simp [keyword?_cons hn, keyword?_cons hk, keyword?_other (b := "IS") hn (by decide),
      keyword?_other (b := "IN") hk (by decide), keyword?_other (b := "LIKE") hk (by decide), operator?]

theorem operator?_derives (h : operator? tokens = some (symbol, rest)) :
    ∃ os, tokens = os ++ rest ∧ OperatorOf os symbol := by
  cases hn : keyword? "NOT" tokens
  case none =>
    simp only [operator?, hn] at h
    split at h
    case h_1 hk =>
      cases h
      have ⟨k, hk, htokens⟩ := exists_of_keyword? hk
      exact ⟨[k], htokens, .like hk⟩
    case h_2 hk _ =>
      cases h
      have ⟨k, hk, htokens⟩ := exists_of_keyword? hk
      exact ⟨[k], htokens, .ilike hk⟩
    case h_3 => cases h; exact ⟨[_], rfl, .symbol⟩
    case h_4 => cases h
  case some after =>
    obtain ⟨n, hnot, rfl⟩ := exists_of_keyword? hn
    simp only [operator?, hn] at h
    split at h
    case h_1 hk =>
      cases h
      have ⟨k, hk, hafter⟩ := exists_of_keyword? hk
      exact ⟨[n, k], by rw [hafter]; rfl, .notLike hnot hk⟩
    case h_2 hk _ =>
      cases h
      have ⟨k, hk, hafter⟩ := exists_of_keyword? hk
      exact ⟨[n, k], by rw [hafter]; rfl, .notIlike hnot hk⟩
    case h_3 => cases h
    case h_4 => cases h

theorem TermOf.rightSide? (h : TermOf us u) (hrest : NoCast rest) :
    rightSide? t symbol (us ++ rest) = some (.compare t symbol u, rest) := by
  unfold Condition.rightSide?
  split
  case h_1 k _ _ heq =>
    have hquantifier : k.isQuantifier = false := by
      have hkeyword : ∀ {a}, a ∈ reserved → equalsIgnoringCase a "NULL" = false → k.isKeyword a = false := by
        intro a hreserved hnull
        have hnone : Condition.keyword? a (us ++ rest) = none := h.keyword? hreserved hnull
        rw [heq, Condition.keyword?] at hnone
        simpa using hnone
      rw [Token.isQuantifier, hkeyword (a := "ANY") (by decide) (by decide),
        hkeyword (a := "ALL") (by decide) (by decide)]
      rfl
    rw [hquantifier, h.reads_noCast hrest]
    rfl
  case h_2 =>
    rw [h.reads_noCast hrest]
    rfl

theorem ComparisonOf.reads (h : ComparisonOf ts c) (hrest : NoCast rest) :
    comparison? (ts ++ rest) = some (c, rest) := by
  cases h
  case isNull ts t is null h his hnull =>
    have hterm := h.reads_noCast (Continues.keyword (null :: rest) his).1
    rw [List.append_assoc, List.cons_append, List.singleton_append, comparison?, hterm]
    simp [keyword?_cons his, keyword?_other (b := "NOT") hnull (by decide), keyword?_cons hnull]
  case isNotNull ts t is n null h his hn hnull =>
    have hterm := h.reads_noCast (Continues.keyword (n :: null :: rest) his).1
    rw [List.append_assoc, List.cons_append, List.cons_append, List.singleton_append, comparison?, hterm]
    simp [keyword?_cons his, keyword?_cons hn, keyword?_cons hnull]
  case isIn ts us t list k h hk hlist =>
    have hterm := h.reads_noCast (Continues.keyword (.lparen :: (us ++ .rparen :: rest)) hk).1
    have htokens : ts ++ k :: .lparen :: us ++ [.rparen] ++ rest = ts ++ k :: .lparen :: (us ++ .rparen :: rest) := by
      simp
    rw [htokens, comparison?, hterm]
    simp [keyword?_cons hk, keyword?_other (b := "IS") hk (by decide), keyword?_other (b := "NOT") hk (by decide),
      hlist.reads]
  case isNotIn ts us t list n k h hn hk hlist =>
    have hterm := h.reads_noCast (Continues.keyword (k :: .lparen :: (us ++ .rparen :: rest)) hn).1
    have htokens : ts ++ n :: k :: .lparen :: us ++ [.rparen] ++ rest =
        ts ++ n :: k :: .lparen :: (us ++ .rparen :: rest) := by
      simp
    rw [htokens, comparison?, hterm]
    simp [keyword?_cons hn, keyword?_cons hk, keyword?_other (b := "IS") hn (by decide), hlist.reads]
  case compare ts os us t u symbol h ho hu =>
    have hterm := h.reads_noCast (ho.continues (us ++ rest)).1
    rw [List.append_assoc, List.append_assoc, ho.comparison? hterm, hu.rightSide? hrest]
  case quantified ts os t symbol list k h ho hk =>
    have hterm := h.reads_noCast (ho.continues (k :: .raw list :: rest)).1
    rw [List.append_assoc, List.append_assoc, List.cons_append, List.singleton_append, ho.comparison? hterm,
      rightSide?, if_pos hk]

theorem rightSide?_derives (hos : OperatorOf os symbol) (hts : TermOf ts t)
    (h : rightSide? t symbol tokens = some (c, rest)) :
    ∃ us, tokens = us ++ rest ∧ ComparisonOf (ts ++ os ++ us) c := by
  have hcompare : (term? tokens).map (fun right => (Condition.compare t symbol right.1, right.2)) = some (c, rest) →
      ∃ us, tokens = us ++ rest ∧ ComparisonOf (ts ++ os ++ us) c := by
    intro h
    have ⟨⟨u, left⟩, hright, heq⟩ := Option.map_eq_some_iff.mp h
    cases heq
    have ⟨us, hus, hu⟩ := term?_derives hright
    exact ⟨us, hus, .compare hts hos hu⟩
  unfold rightSide? at h
  split at h
  case h_1 =>
    split at h
    case isTrue hk => cases h; exact ⟨[_, _], rfl, .quantified hts hos hk⟩
    case isFalse => exact hcompare h
  case h_2 => exact hcompare h

theorem comparison?_derives (h : comparison? tokens = some (c, rest)) :
    ∃ ts, tokens = ts ++ rest ∧ ComparisonOf ts c := by
  obtain ⟨⟨t, after⟩, hterm, h⟩ := Option.bind_eq_some_iff.mp h
  have ⟨ts, hts, ht⟩ := term?_derives hterm
  dsimp only at h
  split at h
  case h_1 his =>
    have ⟨is, his, hafter⟩ := exists_of_keyword? his
    split at h
    case h_1 hn =>
      have ⟨n, hn, hmore⟩ := exists_of_keyword? hn
      have ⟨_, hnull, heq⟩ := Option.map_eq_some_iff.mp h
      cases heq
      have ⟨null, hnull, hleft⟩ := exists_of_keyword? hnull
      exact ⟨ts ++ [is, n, null], by rw [hts, hafter, hmore, hleft]; simp, .isNotNull ht his hn hnull⟩
    case h_2 =>
      have ⟨_, hnull, heq⟩ := Option.map_eq_some_iff.mp h
      cases heq
      have ⟨null, hnull, hleft⟩ := exists_of_keyword? hnull
      exact ⟨ts ++ [is, null], by rw [hts, hafter, hleft]; simp, .isNull ht his hnull⟩
  case h_2 =>
    split at h
    case h_1 hin =>
      have ⟨⟨list, _⟩, hlist, heq⟩ := Option.map_eq_some_iff.mp h
      cases heq
      have ⟨us, hus, hu⟩ := terms?_derives hlist
      have ⟨k, hk, hmore⟩ := exists_of_keyword? hin
      cases hn : keyword? "NOT" after
      case none =>
        simp only [hn] at hmore ⊢
        exact ⟨ts ++ k :: .lparen :: us ++ [.rparen], by rw [hts, hmore, hus]; simp, .isIn ht hk hu⟩
      case some =>
        simp only [hn] at hmore ⊢
        have ⟨n, hn, hafter⟩ := exists_of_keyword? hn
        exact ⟨ts ++ n :: k :: .lparen :: us ++ [.rparen], by rw [hts, hafter, hmore, hus]; simp,
          .isNotIn ht hn hk hu⟩
    case h_2 => cases h
    case h_3 =>
      have ⟨⟨symbol, right⟩, hoperator, h⟩ := Option.bind_eq_some_iff.mp h
      have ⟨os, hos, ho⟩ := operator?_derives hoperator
      have ⟨us, hus, hcomparison⟩ := rightSide?_derives ho ht h
      exact ⟨ts ++ os ++ us, by rw [hts, hos, List.append_assoc, List.append_assoc, ← hus], hcomparison⟩

theorem ComparisonOf.split (h : ComparisonOf ts c) :
    ∃ us t more, ts = us ++ more ∧ TermOf us t ∧ Continues more := by
  cases h
  case isNull ht his _ => exact ⟨_, _, _, rfl, ht, .keyword _ his⟩
  case isNotNull ht his _ _ => exact ⟨_, _, _, rfl, ht, .keyword _ his⟩
  case isIn ht hk _ => exact ⟨_, _, _, List.append_assoc .., ht, .keyword _ hk⟩
  case isNotIn ht hn _ _ => exact ⟨_, _, _, List.append_assoc .., ht, .keyword _ hn⟩
  case compare ht ho _ => exact ⟨_, _, _, List.append_assoc .., ht, ho.continues _⟩
  case quantified ht ho _ => exact ⟨_, _, _, List.append_assoc .., ht, ho.continues _⟩

theorem PrimaryOf.not_keyword (h : PrimaryOf ts c) : keyword? "NOT" (ts ++ rest) = none := by
  cases h
  case comparison h =>
    have ⟨us, t, more, hts, ht, _⟩ := h.split
    rw [hts, List.append_assoc]
    exact ht.keyword? (by decide) (by decide)
  case parenthesis => rfl

mutual

-- Parentheses around a condition are none around a term.
theorem DisjunctionOf.no_term : ∀ {ts : List Token} {c : Condition}, DisjunctionOf ts c →
    ∀ rest, term? (.lparen :: (ts ++ rest)) = none
  | _, _, .mk hfirst _, rest => by
    rw [List.append_assoc]
    exact hfirst.no_term _

theorem ConjunctionOf.no_term : ∀ {ts : List Token} {c : Condition}, ConjunctionOf ts c →
    ∀ rest, term? (.lparen :: (ts ++ rest)) = none
  | _, _, .mk hfirst _, rest => by
    rw [List.append_assoc]
    exact hfirst.no_term _

theorem NegationOf.no_term : ∀ {ts : List Token} {c : Condition}, NegationOf ts c →
    ∀ rest, term? (.lparen :: (ts ++ rest)) = none
  | _, _, .not hk _, rest => by
    rw [List.cons_append, term?, term?_keyword hk (by decide) (by decide)]
  | _, _, .primary h, rest => h.no_term rest

theorem PrimaryOf.no_term : ∀ {ts : List Token} {c : Condition}, PrimaryOf ts c →
    ∀ rest, term? (.lparen :: (ts ++ rest)) = none
  | _, _, .comparison h, rest => by
    have ⟨us, t, more, hts, ht, hmore⟩ := h.split
    have ⟨hcast, k, after, htokens, hk⟩ := hmore.append rest
    rw [hts, List.append_assoc, term?, ht.reads_noCast hcast, htokens]
    split
    case h_1 heq => cases heq; exact absurd rfl hk
    case h_2 => rfl
  | _, _, .parenthesis h, rest => by
    have hinner := h.no_term (.rparen :: rest)
    rw [List.cons_append, List.cons_append, List.append_assoc, List.singleton_append, term?, hinner]

end

theorem AlternativesOf.endsAt (h : AlternativesOf us cs) (hrest : EndsAt [] rest) : EndsAt ["OR"] (us ++ rest) := by
  cases h
  case nil => exact fun k hk => (hrest k hk).imp_right (by simp)
  case cons k _ _ _ _ hk _ _ =>
    intro k' hk'
    cases hk'
    exact .inr ⟨"OR", by decide, hk⟩

theorem ConjunctsOf.endsAt (h : ConjunctsOf us cs) (hrest : EndsAt ["OR"] rest) :
    EndsAt ["AND", "OR"] (us ++ rest) := by
  cases h
  case nil =>
    exact fun k hk => (hrest k hk).imp_right fun ⟨w, hw, hword⟩ => ⟨w, List.mem_cons_of_mem _ hw, hword⟩
  case cons k _ _ _ _ hk _ _ =>
    intro k' hk'
    cases hk'
    exact .inr ⟨"AND", by decide, hk⟩

theorem endsAt_rparen : EndsAt words (.rparen :: rest) := by
  intro k hk
  cases hk
  exact .inl rfl

mutual

theorem DisjunctionOf.reads : ∀ {ts : List Token} {c : Condition}, DisjunctionOf ts c →
    ∀ rest, EndsAt [] rest → erase (disjunction? (ts ++ rest)) = some (c, rest)
  | _, _, .mk hfirst hmore, rest, hrest => by
    rw [List.append_assoc, erase_disjunction, hfirst.reads _ (hmore.endsAt hrest)]
    simp [hmore.reads rest hrest]

theorem AlternativesOf.reads : ∀ {ts : List Token} {cs : List Condition}, AlternativesOf ts cs →
    ∀ rest, EndsAt [] rest → erase (alternatives? (ts ++ rest)) = some (cs, rest)
  | _, _, .nil, rest, hrest => erase_alternatives_none (hrest.keyword? (by simp))
  | _, _, .cons hk hnext hmore, rest, hrest => by
    have hread := hnext.reads _ (hmore.endsAt hrest)
    rw [List.append_assoc, List.cons_append, erase_alternatives_some (keyword?_cons hk), hread]
    simp [hmore.reads rest hrest]

theorem ConjunctionOf.reads : ∀ {ts : List Token} {c : Condition}, ConjunctionOf ts c →
    ∀ rest, EndsAt ["OR"] rest → erase (conjunction? (ts ++ rest)) = some (c, rest)
  | _, _, .mk hfirst hmore, rest, hrest => by
    rw [List.append_assoc, erase_conjunction, hfirst.reads _ (hmore.endsAt hrest)]
    simp [hmore.reads rest hrest]

theorem ConjunctsOf.reads : ∀ {ts : List Token} {cs : List Condition}, ConjunctsOf ts cs →
    ∀ rest, EndsAt ["OR"] rest → erase (conjuncts? (ts ++ rest)) = some (cs, rest)
  | _, _, .nil, rest, hrest => erase_conjuncts_none (hrest.keyword? (by decide))
  | _, _, .cons hk hnext hmore, rest, hrest => by
    have hread := hnext.reads _ (hmore.endsAt hrest)
    rw [List.append_assoc, List.cons_append, erase_conjuncts_some (keyword?_cons hk), hread]
    simp [hmore.reads rest hrest]

theorem NegationOf.reads : ∀ {ts : List Token} {c : Condition}, NegationOf ts c →
    ∀ rest, EndsAt ["AND", "OR"] rest → erase (negation? (ts ++ rest)) = some (c, rest)
  | _, _, .not hk hpart, rest, hrest => by
    rw [List.cons_append, erase_negation_some (keyword?_cons hk), hpart.reads rest hrest]
    rfl
  | _, _, .primary h, rest, hrest => by
    rw [erase_negation_none h.not_keyword, h.reads rest hrest]

theorem PrimaryOf.reads : ∀ {ts : List Token} {c : Condition}, PrimaryOf ts c →
    ∀ rest, EndsAt ["AND", "OR"] rest → erase (primary? (ts ++ rest)) = some (c, rest)
  | _, _, .comparison h, rest, hrest => erase_primary_of_comparison (h.reads hrest.noCast) (by
    have ⟨us, t, more, hts, ht, _, k, after, hmore, _⟩ := h.split
    rw [hts, hmore]
    simp
    omega)
  | _, _, .parenthesis h, rest, hrest => by
    have hinner := h.reads (.rparen :: rest) endsAt_rparen
    have hnone := h.no_term (.rparen :: rest)
    rw [List.cons_append, List.cons_append, List.append_assoc, List.singleton_append]
    exact erase_primary_parenthesis (by rw [comparison?, hnone]; rfl) hinner

end

section Levels

-- Whatever is read of fewer than `n` tokens derives from those that were taken.
variable {n : Nat} (hless : ∀ tokens c rest, tokens.length < n → erase (disjunction? tokens) = some (c, rest) →
  ∃ ts, tokens = ts ++ rest ∧ DisjunctionOf ts c)

include hless

theorem primary?_derives (hn : tokens.length ≤ n) (h : erase (primary? tokens) = some (c, rest)) :
    ∃ ts, tokens = ts ++ rest ∧ PrimaryOf ts c := by
  rcases cases_primary h with hc | ⟨inner, rfl, hd⟩
  case inl =>
    have ⟨ts, hts, ht⟩ := comparison?_derives hc
    exact ⟨ts, hts, .comparison ht⟩
  case inr =>
    have ⟨ts, hts, ht⟩ := hless inner c _ (Nat.lt_of_succ_le hn) hd
    exact ⟨.lparen :: ts ++ [.rparen], by rw [hts]; simp, .parenthesis ht⟩

theorem negation?_derives (hn : tokens.length ≤ n) (h : erase (negation? tokens) = some (c, rest)) :
    ∃ ts, tokens = ts ++ rest ∧ NegationOf ts c := by
  induction hlen : tokens.length using Nat.strongRecOn generalizing tokens c rest
  case ind ih =>
    cases hk : keyword? "NOT" tokens
    case none =>
      have ⟨ts, hts, ht⟩ := primary?_derives hless hn (erase_negation_none hk ▸ h)
      exact ⟨ts, hts, .primary ht⟩
    case some inner =>
      rw [erase_negation_some hk] at h
      obtain ⟨part, hpart, heq⟩ := Option.bind_eq_some_iff.mp h
      cases heq
      have hlt := length_keyword_lt hk
      have ⟨k, hnot, htokens⟩ := exists_of_keyword? hk
      have ⟨ts, hts, ht⟩ := ih _ (hlen ▸ hlt) (by omega) hpart rfl
      exact ⟨k :: ts, by rw [htokens, hts]; rfl, .not hnot ht⟩

theorem conjuncts?_derives (hn : tokens.length ≤ n) (h : erase (conjuncts? tokens) = some (cs, rest)) :
    ∃ ts, tokens = ts ++ rest ∧ ConjunctsOf ts cs := by
  induction hlen : tokens.length using Nat.strongRecOn generalizing tokens cs rest
  case ind ih =>
    cases hk : keyword? "AND" tokens
    case none =>
      rw [erase_conjuncts_none hk] at h
      cases h
      exact ⟨[], rfl, .nil⟩
    case some after =>
      rw [erase_conjuncts_some hk] at h
      obtain ⟨next, hnext, h⟩ := Option.bind_eq_some_iff.mp h
      obtain ⟨more, hmore, heq⟩ := Option.bind_eq_some_iff.mp h
      cases heq
      have hlt := length_keyword_lt hk
      have hlt' : next.2.length < after.length := erase_property hnext
      have ⟨k, hand, htokens⟩ := exists_of_keyword? hk
      have ⟨ts, hts, ht⟩ := negation?_derives hless (by omega) hnext
      have ⟨us, hus, hu⟩ := ih _ (by omega) (by omega) hmore rfl
      exact ⟨k :: ts ++ us, by rw [htokens, hts, hus]; simp, .cons hand ht hu⟩

theorem conjunction?_derives (hn : tokens.length ≤ n) (h : erase (conjunction? tokens) = some (c, rest)) :
    ∃ ts, tokens = ts ++ rest ∧ ConjunctionOf ts c := by
  rw [erase_conjunction] at h
  obtain ⟨first, hfirst, h⟩ := Option.bind_eq_some_iff.mp h
  obtain ⟨more, hmore, heq⟩ := Option.bind_eq_some_iff.mp h
  cases heq
  have hlt : first.2.length < tokens.length := erase_property hfirst
  have ⟨ts, hts, ht⟩ := negation?_derives hless hn hfirst
  have ⟨us, hus, hu⟩ := conjuncts?_derives hless (by omega) hmore
  exact ⟨ts ++ us, by rw [hts, hus, List.append_assoc], .mk ht hu⟩

theorem alternatives?_derives (hn : tokens.length ≤ n) (h : erase (alternatives? tokens) = some (cs, rest)) :
    ∃ ts, tokens = ts ++ rest ∧ AlternativesOf ts cs := by
  induction hlen : tokens.length using Nat.strongRecOn generalizing tokens cs rest
  case ind ih =>
    cases hk : keyword? "OR" tokens
    case none =>
      rw [erase_alternatives_none hk] at h
      cases h
      exact ⟨[], rfl, .nil⟩
    case some after =>
      rw [erase_alternatives_some hk] at h
      obtain ⟨next, hnext, h⟩ := Option.bind_eq_some_iff.mp h
      obtain ⟨more, hmore, heq⟩ := Option.bind_eq_some_iff.mp h
      cases heq
      have hlt := length_keyword_lt hk
      have hlt' : next.2.length < after.length := erase_property hnext
      have ⟨k, hor, htokens⟩ := exists_of_keyword? hk
      have ⟨ts, hts, ht⟩ := conjunction?_derives hless (by omega) hnext
      have ⟨us, hus, hu⟩ := ih _ (by omega) (by omega) hmore rfl
      exact ⟨k :: ts ++ us, by rw [htokens, hts, hus]; simp, .cons hor ht hu⟩

end Levels

theorem disjunction?_derives (h : erase (disjunction? tokens) = some (c, rest)) :
    ∃ ts, tokens = ts ++ rest ∧ DisjunctionOf ts c := by
  induction hlen : tokens.length using Nat.strongRecOn generalizing tokens c rest
  case ind n ih =>
    have hless : ∀ tokens c rest, tokens.length < n → erase (disjunction? tokens) = some (c, rest) →
        ∃ ts, tokens = ts ++ rest ∧ DisjunctionOf ts c := fun tokens c rest hlt h => ih _ hlt h rfl
    rw [erase_disjunction] at h
    obtain ⟨first, hfirst, h⟩ := Option.bind_eq_some_iff.mp h
    obtain ⟨more, hmore, heq⟩ := Option.bind_eq_some_iff.mp h
    cases heq
    have hlt : first.2.length < tokens.length := erase_property hfirst
    have ⟨ts, hts, ht⟩ := conjunction?_derives hless (by omega) hfirst
    have ⟨us, hus, hu⟩ := alternatives?_derives hless (by omega) hmore
    exact ⟨ts ++ us, by rw [hts, hus, List.append_assoc], .mk ht hu⟩

-- The condition that all the tokens are.
def whole? (tokens : List Token) : Option Condition :=
  match disjunction? tokens with
  | some (c, ⟨[], _⟩) => some c
  | _ => none

theorem ofText?_eq (text : String) : ofText? text = (tokens? text).bind whole? := by
  unfold ofText?
  refine bind_congr fun tokens => ?_
  rw [whole?]
  cases disjunction? tokens
  case none => rfl
  case some read =>
    have ⟨c, left, h⟩ := read
    cases left <;> rfl

theorem whole?_eq_some : whole? tokens = some c ↔ erase (disjunction? tokens) = some (c, []) := by
  unfold whole? erase
  split
  case h_1 heq => simp [heq]
  case h_2 hne =>
    constructor
    case mp => nofun
    case mpr =>
      intro h
      obtain ⟨⟨d, left, hlt⟩, hread, heq⟩ := Option.map_eq_some_iff.mp h
      cases heq
      exact absurd hread (hne _ _)

theorem whole?_iff : whole? ts = some c ↔ DisjunctionOf ts c := by
  rw [whole?_eq_some]
  constructor
  case mp =>
    intro h
    have ⟨us, hus, hu⟩ := disjunction?_derives h
    rwa [hus, List.append_nil]
  case mpr =>
    intro h
    have hread := h.reads [] nofun
    rwa [List.append_nil] at hread

theorem ofText?_of_derives {text : String} (htokens : tokens? text = some ts) (h : DisjunctionOf ts c) :
    ofText? text = some c := by
  rw [ofText?_eq, htokens, Option.bind_some, whole?_iff.mpr h]

end Subplans.Condition
