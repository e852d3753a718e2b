import Mathlib.Data.List.TakeWhile
import Subplans.Condition.Token
import Subplans.Proofs.Predicate.Literals

/-!
Texts and the tokens they are cut into.

`Spells text tokens` says that the text stands for these tokens wherever it occurs, as long as no list is awaited
before it and a token can end after it. Words, operators and quotations spell one token each, and texts with separators
between them spell the tokens of both (`Spells.append`).
-/

namespace Subplans.Condition

open Subplans.Text

variable {last : Option Token} {t : Token} {tokens ts us : List Token} {c : Char} {p : Char → Bool}
  {text rest a b : List Char}

-- With the text, a separator or a closing parenthesis.
def Ends (rest : List Char) : Prop :=
  ∀ c ∈ rest.head?, (isSeparator c || c == ')') = true

theorem ends_nil : Ends [] := nofun

theorem ends_cons (h : (isSeparator c || c == ')') = true) : Ends (c :: rest) := by
  intro d hd
  cases hd
  exact h

theorem eq_of_isSeparator (h : isSeparator c = true) : c = ' ' ∨ c = '\t' ∨ c = '\n' ∨ c = '\x0c' ∨ c = '\r' := by
  simp only [isSeparator, Bool.or_eq_true, beq_iff_eq] at h
  simp only [← Char.toNat_inj]
  rcases h with (((h | h) | h) | h) | h
  all_goals simp [h]

-- The characters at which every token ends are in no word, number or operator and are no marks.
theorem of_ends (h : (isSeparator c || c == ')') = true) :
    isWordChar c = false ∧ (c.isDigit || c == '.') = false ∧ isOperatorChar c = false ∧ (c == quoteMark) = false := by
  rw [Bool.or_eq_true, beq_iff_eq] at h
  rcases h with h | rfl
  case inl => rcases eq_of_isSeparator h with rfl | rfl | rfl | rfl | rfl <;> decide
  case inr => decide

theorem takeWhile_of_ends (h : ∀ c ∈ text, p c = true) (hrest : ∀ c ∈ rest.head?, p c = false) :
    (text ++ rest).takeWhile p = text ∧ (text ++ rest).dropWhile p = rest := by
  rw [List.takeWhile_append_of_pos h, List.dropWhile_append_of_pos h]
  cases rest
  case nil => simp
  case cons c rest => simp [hrest c rfl]

theorem ne_of_holds {d : Char} (hc : p c = true) (hd : p d = false) : (c == d) = false := by
  rw [beq_eq_false_iff_ne]
  rintro rfl
  rw [hc] at hd
  cases hd

theorem isDigit_of_isWordStart (h : isWordStart c = true) : c.isDigit = false := by
  rw [← Bool.not_eq_true, Char.isDigit_iff_toNat]
  have hzero : '0'.toNat = 48 := rfl
  have hnine : '9'.toNat = 57 := rfl
  simp only [isWordStart, isNameStart, Bool.or_eq_true, isAlpha_iff_toNat, decide_eq_true_eq, beq_iff_eq] at h
  rcases h with (h | rfl) | h
  case inl.inl => omega
  case inl.inr => decide
  case inr => omega

theorem isWordChar_of_isWordStart (h : isWordStart c = true) : isWordChar c = true := by
  simp only [isWordStart, isNameStart, Bool.or_eq_true] at h
  rcases h with (h | h) | h
  all_goals simp [isWordChar, isNameChar, Char.isAlphanum, h]

theorem token?_lparen (h : last.any Token.isQuantifier = false) : token? last ('(' :: rest) = some (.lparen, rest) := by
  simp [token?, h]

theorem token?_rparen : token? last (')' :: rest) = some (.rparen, rest) := by
  simp [token?]

-- The text is one word.
def isWord (s : String) : Bool :=
  match s.toList with
  | c :: text => isWordStart c && text.all isWordChar
  | [] => false

-- The text is one operator.
def isOperator (s : String) : Bool :=
  match s.toList with
  | c :: text => isOperatorChar c && text.all isOperatorChar
  | [] => false

theorem token?_word (hc : isWordStart c = true) (h : ∀ d ∈ text, isWordChar d = true) (hrest : Ends rest) :
    token? last (c :: text ++ rest) = some (.word (String.ofList (c :: text)), rest) := by
  have hall : ∀ d ∈ c :: text, isWordChar d = true := by
    intro d hd
    rcases List.mem_cons.mp hd with rfl | hd
    case inl => exact isWordChar_of_isWordStart hc
    case inr => exact h d hd
  have ⟨htake, hdrop⟩ := takeWhile_of_ends hall fun d hd => (of_ends (hrest d hd)).1
  have hne : ∀ {d : Char}, isWordStart d = false → (c == d) = false := ne_of_holds hc
  rw [List.cons_append] at htake hdrop ⊢
  simp only [token?, hne (d := '(') rfl, hne (d := ')') rfl, hne (d := ',') rfl, hne (d := quoteMark) rfl,
    hne (d := nameMark) rfl, hne (d := ':') rfl, hne (d := '-') rfl, isDigit_of_isWordStart hc, hc, htake, hdrop]
  rfl

theorem exists_of_isOperator {s : String} (h : isOperator s = true) :
    ∃ c text, s.toList = c :: text ∧ isOperatorChar c = true ∧ ∀ d ∈ text, isOperatorChar d = true := by
  unfold isOperator at h
  split at h
  case h_2 => cases h
  case h_1 c text heq =>
    rw [Bool.and_eq_true, List.all_eq_true] at h
    exact ⟨c, text, heq, h⟩

theorem token?_operator (hc : isOperatorChar c = true) (h : ∀ d ∈ text, isOperatorChar d = true) (hrest : Ends rest) :
    token? last (c :: text ++ rest) = some (.operator (String.ofList (c :: text)), rest) := by
  have hall : ∀ d ∈ c :: text, isOperatorChar d = true := List.forall_mem_cons.mpr ⟨hc, h⟩
  have ⟨htake, hdrop⟩ := takeWhile_of_ends hall fun d hd => (of_ends (hrest d hd)).2.2.1
  have hne : ∀ {d : Char}, isOperatorChar d = false → (c == d) = false := ne_of_holds hc
  have hother : c.isDigit = false ∧ isWordStart c = false := by
    simp only [isOperatorChar, Bool.or_eq_true, beq_iff_eq] at hc
    rcases hc with ((((rfl | rfl) | rfl) | rfl) | rfl) | rfl <;> decide
  rw [List.cons_append] at htake hdrop ⊢
  simp only [token?, hne (d := '(') rfl, hne (d := ')') rfl, hne (d := ',') rfl, hne (d := quoteMark) rfl,
    hne (d := nameMark) rfl, hne (d := ':') rfl, hne (d := '-') rfl, hother.1, hother.2, hc, htake, hdrop]
  rfl

-- Doubled marks do not end a quotation.
theorem quotedRun_double {mark : Char} {x : List Char} : quotedRun mark (double mark x ++ rest) =
    (double mark x ++ (quotedRun mark rest).1, (quotedRun mark rest).2) := by
  induction x
  case nil => rfl
  case cons d x ih =>
    have hcons : double mark (d :: x) = (if d == mark then [mark, mark] else [d]) ++ double mark x :=
      List.flatMap_cons
    rw [hcons]
    cases hd : d == mark
    case true => simp [quotedRun, ih]
    case false =>
      cases hmore : double mark x ++ rest
      case nil =>
        obtain ⟨hx, rfl⟩ := List.append_eq_nil_iff.mp hmore
        simp [quotedRun, hx]
      case cons e more =>
        rw [hmore] at ih
        simp [hmore, quotedRun, hd, ih]

-- The run after a mark goes up to the first mark that is not doubled, or else to the end of the text.
inductive Quotation (mark : Char) : (run rest : List Char) → Prop
  | closed {x rest : List Char} : (∀ c ∈ rest.head?, c ≠ mark) → Quotation mark (double mark x ++ [mark]) rest
  | unclosed {x : List Char} : Quotation mark (double mark x) []

theorem Quotation.quotedRun_eq {mark : Char} {run : List Char} (h : Quotation mark run rest) :
    quotedRun mark (run ++ rest) = (run, rest) := by
  cases h
  case closed x hrest =>
    have hend : quotedRun mark (mark :: rest) = ([mark], rest) := by
      cases rest
      case nil => rfl
      case cons d rest => simp [quotedRun, hrest d rfl]
    rw [List.append_assoc, List.singleton_append, quotedRun_double, hend]
  case unclosed x =>
    rw [quotedRun_double, quotedRun, List.append_nil]

theorem token?_quoted {s : String} (hrest : Ends rest) :
    token? last ((Value.quoted s).toList ++ rest) = some (.text s, rest) := by
  have hrun := Quotation.quotedRun_eq (.closed (x := s.toList) fun c hc => by
    simpa using (of_ends (hrest c hc)).2.2.2)
  have htext : (Value.quoted s).toList ++ rest = quoteMark :: (double quoteMark s.toList ++ [quoteMark] ++ rest) := by
    simp [Value.quoted]
  have hlast : (double quoteMark s.toList ++ [quoteMark]).getLast? = some quoteMark := List.getLast?_concat
  have hmark : (quoteMark == '(') = false ∧ (quoteMark == ')') = false ∧ (quoteMark == ',') = false := by decide
  rw [htext]
  simp only [token?, hmark.1, hmark.2.1, hmark.2.2, hrun, hlast, List.dropLast_concat, undouble_double]
  simp

theorem token?_digits
    (hc : c.isDigit = true ∨ c = '-' ∧ ∃ d ds, text = d :: ds ∧ d.isDigit = true ∧ allowsSign last = true)
    (h : ∀ d ∈ text, d.isDigit = true) (hrest : Ends rest) :
    token? last (c :: text ++ rest) = some (.number (String.ofList (c :: text)), rest) := by
  have hall : ∀ d ∈ text, (d.isDigit || d == '.') = true := fun d hd => by simp [h d hd]
  have ⟨htake, hdrop⟩ := takeWhile_of_ends hall fun d hd => (of_ends (hrest d hd)).2.1
  have hnumber : (c.isDigit || (c == '-' && (text ++ rest).head?.any Char.isDigit && allowsSign last)) = true := by
    rcases hc with hc | ⟨rfl, d, ds, rfl, hd, hlast⟩
    case inl => simp [hc]
    case inr => simp [hd, hlast]
  have hne : ∀ {d : Char}, (d.isDigit || d == '-') = false → (c == d) = false :=
    ne_of_holds (p := fun d => d.isDigit || d == '-') (by rcases hc with hc | hc <;> simp [hc])
  rw [List.cons_append]
  simp only [token?, hne (d := '(') rfl, hne (d := ')') rfl, hne (d := ',') rfl, hne (d := quoteMark) rfl,
    hne (d := nameMark) rfl, hne (d := ':') rfl, hnumber, htake, hdrop]
  rfl

theorem token?_integer {n : Int} (hlast : allowsSign last = true) (hrest : Ends rest) :
    token? last ((toString n).toList ++ rest) = some (.number (toString n), rest) := by
  cases n
  case ofNat m =>
    have ⟨d, ds, heq, hd⟩ := Number.repr_eq_cons (n := m)
    have htext : (toString (Int.ofNat m)).toList = d :: ds := heq
    have hdigits : ∀ c ∈ ds, c.isDigit = true := fun c hc =>
      Number.isDigit_of_mem_repr (heq ▸ List.mem_cons_of_mem d hc)
    rw [htext, token?_digits (.inl hd) hdigits hrest, ← htext, String.ofList_toList]
  case negSucc m =>
    have ⟨d, ds, heq, hd⟩ := Number.repr_eq_cons (n := m.succ)
    have htext : (toString (Int.negSucc m)).toList = '-' :: m.succ.repr.toList := String.toList_append
    have hdigits : ∀ c ∈ m.succ.repr.toList, c.isDigit = true := fun c hc => Number.isDigit_of_mem_repr hc
    rw [htext, token?_digits (.inr ⟨rfl, d, ds, heq, hd, hlast⟩) hdigits hrest, ← htext, String.ofList_toList]

theorem token?_separator (h : isSeparator c = true) : token? last (c :: text) = none := by
  rcases eq_of_isSeparator h with rfl | rfl | rfl | rfl | rfl <;> rfl

theorem tokensAfter?_token (h : token? last text = some (t, rest)) (hlt : rest.length < text.length) :
    tokensAfter? last text = (tokensAfter? (some t) rest).map (t :: ·) := by
  cases text
  case nil => cases hlt
  case cons c text =>
    have hc : isSeparator c ≠ true := by
      intro hc
      rw [token?_separator hc] at h
      cases h
    rw [tokensAfter?, if_neg hc, h]
    exact dif_pos hlt

theorem tokensAfter?_separators (h : a.all isSeparator = true) :
    tokensAfter? last (a ++ rest) = tokensAfter? last rest := by
  induction a
  case nil => rfl
  case cons c a ih =>
    rw [List.all_cons, Bool.and_eq_true] at h
    rw [List.cons_append, tokensAfter?, if_pos h.1, ih h.2]

-- What can stand between two tokens.
def isGap (text : List Char) : Bool :=
  !text.isEmpty && text.all isSeparator

theorem ends_of_isGap (h : isGap a = true) : Ends (a ++ rest) := by
  cases a
  case nil => cases h
  case cons c a =>
    simp only [isGap, List.all_cons, Bool.and_eq_true] at h
    exact ends_cons (by rw [h.2.1, Bool.true_or])

-- The text stands for these tokens, before whatever they end at, unless the parentheses of a list are awaited.
structure Spells (text : List Char) (tokens : List Token) : Prop where
  plain : ∀ t ∈ tokens, t.isQuantifier = false
  reads : ∀ last rest, last.any Token.isQuantifier = false → Ends rest →
    tokensAfter? last (text ++ rest) = (tokensAfter? (tokens.getLast?.or last) rest).map (tokens ++ ·)

namespace Spells

theorem single (ht : t.isQuantifier = false) (hne : text ≠ [])
    (h : ∀ last rest, Ends rest → token? last (text ++ rest) = some (t, rest)) : Spells text [t] where
  plain := by simpa using ht
  reads last rest _ hrest := by
    have hlt : rest.length < (text ++ rest).length := by simpa [List.length_pos_iff] using hne
    exact tokensAfter?_token (h last rest hrest) hlt

theorem last_plain (h : ∀ t ∈ tokens, t.isQuantifier = false) (hlast : last.any Token.isQuantifier = false) :
    (tokens.getLast?.or last).any Token.isQuantifier = false := by
  cases hl : tokens.getLast?
  case none => exact hlast
  case some t => exact h t (List.mem_of_getLast? hl)

theorem map_append {x : Option (List Token)} : (x.map (us ++ ·)).map (ts ++ ·) = x.map (ts ++ us ++ ·) := by
  simp [Option.map_map, Function.comp_def]

theorem append (ha : Spells a ts) (hb : Spells b us) (gap : List Char) (hgap : isGap gap = true) :
    Spells (a ++ gap ++ b) (ts ++ us) where
  plain := List.forall_mem_append.mpr ⟨ha.plain, hb.plain⟩
  reads last rest hlast hrest := by
    have hseparators := (Bool.and_eq_true_iff.mp hgap).2
    rw [List.append_assoc, List.append_assoc, ha.reads last _ hlast (ends_of_isGap hgap),
      tokensAfter?_separators hseparators, hb.reads _ rest (last_plain ha.plain hlast) hrest, map_append,
      List.getLast?_append, Option.or_assoc]

theorem parenthesized (h : Spells text tokens) : Spells ('(' :: text ++ [')']) (.lparen :: tokens ++ [.rparen]) where
  plain := by
    simp only [List.cons_append, List.forall_mem_cons, List.forall_mem_append]
    exact ⟨rfl, h.plain, rfl, by simp⟩
  reads last rest hlast hrest := by
    have hinside := h.reads (some .lparen) (')' :: rest) rfl (ends_cons rfl)
    have hgetLast : (Token.lparen :: tokens ++ [Token.rparen]).getLast? = some .rparen := List.getLast?_concat
    simp only [List.cons_append, List.append_assoc, List.nil_append] at hgetLast ⊢
    rw [tokensAfter?_token (token?_lparen hlast) (by simp), hinside, tokensAfter?_token token?_rparen (by simp),
      hgetLast]
    simp [Option.map_map, Function.comp_def]

theorem tokens? {s : String} (h : Spells s.toList tokens) : Condition.tokens? s = some tokens := by
  have hread := h.reads none [] rfl ends_nil
  rw [List.append_nil] at hread
  rw [Condition.tokens?, hread, tokensAfter?]
  simp

theorem word {s : String} (h : isWord s = true) (hplain : (Token.word s).isQuantifier = false) :
    Spells s.toList [.word s] := by
  unfold isWord at h
  split at h
  case h_2 => cases h
  case h_1 c text heq =>
    rw [Bool.and_eq_true, List.all_eq_true] at h
    have hword : s = String.ofList (c :: text) := by rw [← heq, String.ofList_toList]
    rw [heq, hword]
    exact single (hword ▸ hplain) (List.cons_ne_nil c text) fun _ _ hrest => token?_word h.1 h.2 hrest

-- An operator and what it compares with.
theorem comparison {symbol : String} {operand : List Char} (h : isOperator symbol = true)
    (ht : t.isQuantifier = false) (hne : operand ≠ [])
    (hoperand : ∀ rest, Ends rest → token? (some (.operator symbol)) (operand ++ rest) = some (t, rest)) :
    Spells (symbol.toList ++ [' '] ++ operand) [.operator symbol, t] where
  plain := by simpa [Token.isQuantifier, Token.isKeyword] using ht
  reads last rest hlast hrest := by
    obtain ⟨c, text, heq, hc, htext⟩ := exists_of_isOperator h
    have hsymbol : token? last (c :: text ++ ' ' :: (operand ++ rest)) =
        some (.operator (String.ofList (c :: text)), _) :=
      token?_operator hc htext (ends_cons rfl)
    rw [← heq, String.ofList_toList] at hsymbol
    have hblank : tokensAfter? (some (.operator symbol)) (' ' :: (operand ++ rest)) =
        tokensAfter? (some (.operator symbol)) (operand ++ rest) := tokensAfter?_separators (a := [' ']) (by decide)
    have hlt : rest.length < (operand ++ rest).length := by simpa [List.length_pos_iff] using hne
    have hlt' : (' ' :: (operand ++ rest)).length < (symbol.toList ++ ' ' :: (operand ++ rest)).length := by
      simp only [List.length_append, heq, List.length_cons]
      omega
    simp only [List.append_assoc, List.cons_append, List.nil_append]
    rw [tokensAfter?_token hsymbol hlt', hblank, tokensAfter?_token (hoperand rest hrest) hlt]
    simp [Option.map_map, Function.comp_def]

-- Texts with a word between them, and what separates it from them.
theorem joined (before after : List Char) {α : Type} {spelling : α → List Char} {read : α → List Token}
    {word : List Char} {x : α} {xs : List α} (hword : Spells word [t])
    (hbefore : isGap before = true) (hafter : isGap after = true) (h : ∀ y ∈ x :: xs, Spells (spelling y) (read y)) :
    Spells ((before ++ word ++ after).intercalate ((x :: xs).map spelling))
      (read x ++ xs.flatMap fun y => t :: read y) := by
  induction xs generalizing x
  case nil => simpa using h x List.mem_cons_self
  case cons y ys ih =>
    have hfirst := h x List.mem_cons_self
    have hrest := ih fun z hz => h z (List.mem_cons_of_mem x hz)
    have hall := (hfirst.append hword before hbefore).append hrest after hafter
    simpa [List.intercalate_cons_cons] using hall

end Spells

end Subplans.Condition
