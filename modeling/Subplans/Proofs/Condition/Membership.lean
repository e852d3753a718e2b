import Subplans.Proofs.Condition.Arrays
import Subplans.Proofs.Condition.Printing
import Subplans.Proofs.Condition.RoundTrip

/-!
Memberships in arrays of texts, as they are printed and as they are read.

The tokens of a membership are those of the column, an operator, a quantifier and the list (`tokensAfter?_membership`);
they are a condition (`comparisonOf_membership`), and it resolves to one equality for each text of the list
(`parse?_membership`). In these the quotation marks of the texts are doubled.
-/

namespace Subplans

open Condition (Token Term TermOf ComparisonOf)
open Text

namespace Condition

variable {last : Option Token} {ts : List Token} {text rest : List Char}

-- A name, a number and the type of a cast end here.
def Breaks (rest : List Char) : Prop :=
  ∃ c more, rest = ')' :: more ∨ rest = ' ' :: c :: more ∧ isNameChar c = false

theorem Breaks.ends (h : Breaks rest) : Ends rest := by
  rcases h with ⟨c, more, rfl | ⟨rfl, _⟩⟩ <;> exact ends_cons (by decide)

-- The text stands for these tokens before whatever breaks it off, and no list is awaited after it.
def Writes (text : List Char) (ts : List Token) : Prop :=
  ∀ last rest, last.any Token.isQuantifier = false → Breaks rest → ∃ last', last'.any Token.isQuantifier = false ∧
    tokensAfter? last (text ++ rest) = (tokensAfter? last' rest).map (ts ++ ·)

theorem Spells.writes (h : Spells text ts) : Writes text ts := fun last rest hlast hrest =>
  ⟨_, Spells.last_plain h.plain hlast, h.reads last rest hlast hrest.ends⟩

theorem typeName_text (h : Breaks rest) : typeName ("text".toList ++ rest) = ("text".toList, rest) := by
  have hend : ∀ c ∈ rest.head?, isNameChar c = false := by
    rcases h with ⟨c, more, rfl | ⟨rfl, _⟩⟩ <;> simp <;> decide
  have hword : ∀ c ∈ "text".toList, isNameChar c = true := List.all_eq_true.mp rfl
  obtain ⟨htake, hdrop⟩ := takeWhile_of_ends hword hend
  have hwords : typeWords rest = ([], rest) := by
    rcases h with ⟨c, more, rfl | ⟨rfl, hc⟩⟩
    case inl => simp [typeWords]
    case inr => simp [typeWords, hc]
  rw [typeName, htake, hdrop, hwords]
  rcases h with ⟨c, more, rfl | ⟨rfl, _⟩⟩ <;> rfl

theorem token?_cast (h : Breaks rest) : token? last ("::text".toList ++ rest) = some (.cast "text", rest) := by
  have htype : typeName ('t' :: 'e' :: 'x' :: 't' :: rest) = ("text".toList, rest) := typeName_text h
  have htext : "::text".toList ++ rest = ':' :: ':' :: 't' :: 'e' :: 'x' :: 't' :: rest := rfl
  rw [htext]
  simp [token?, htype, quoteMark, nameMark]

-- A text in parentheses and its cast.
theorem Writes.cast (h : Writes text ts) :
    Writes ('(' :: text ++ ")::text".toList) (.lparen :: ts ++ [.rparen, .cast "text"]) := by
  intro last rest hlast hrest
  have ⟨last', hlast', hinside⟩ := h (some .lparen) (')' :: ("::text".toList ++ rest)) rfl ⟨')', _, .inl rfl⟩
  refine ⟨some (.cast "text"), rfl, ?_⟩
  have htext : '(' :: text ++ ")::text".toList ++ rest = '(' :: (text ++ ')' :: ("::text".toList ++ rest)) := by simp
  rw [htext, tokensAfter?_token (token?_lparen hlast) (by simp), hinside, tokensAfter?_token token?_rparen (by simp),
    tokensAfter?_token (token?_cast hrest) (by simp; omega)]
  simp [Option.map_map, Function.comp_def]

theorem tokensAfter?_spaced {t : Token} (h : token? last text = some (t, rest)) (hlt : rest.length < text.length) :
    tokensAfter? last (' ' :: text) = (tokensAfter? (some t) rest).map (t :: ·) :=
  (tokensAfter?_separators (a := [' ']) (by decide)).trans (tokensAfter?_token h hlt)

end Condition

namespace Scope

variable {s : Scope} {column : ColumnRef} {written : String} {text rest : List Char}

-- A column as it is written: its name alone, if it is no reserved word, or after the alias of the table, and perhaps
-- cast.
inductive Mentions (s : Scope) (column : ColumnRef) : String → Prop
  | bare {name : String} : isIdentifier name = true →
    Condition.reserved.any (equalsIgnoringCase name) = false → s.schema.column? s.table name = some column →
    Mentions s column name
  | qualified {name : String} : isIdentifier s.aliasName = true → isIdentifier name = true →
    s.schema.column? s.table name = some column → Mentions s column (s.aliasName ++ "." ++ name)
  | cast {written : String} : Mentions s column written → Mentions s column ("(" ++ written ++ ")::text")

theorem Mentions.reads (h : s.Mentions column written) :
    ∃ ts t, Condition.Writes written.toList ts ∧ TermOf ts t ∧ s.column? t = some column := by
  induction h
  case bare name hname hreserved hcolumn =>
    have hword : ∀ a ∈ Condition.reserved, equalsIgnoringCase name a = false := by simpa using hreserved
    have hplain : (Token.word name).isQuantifier = false := by
      simp [Token.isQuantifier, Token.isKeyword, hword "ANY" (by decide), hword "ALL" (by decide)]
    have hspells := Condition.Spells.word (isWord_of_isIdentifier hname) hplain
    refine ⟨_, _, hspells.writes, .column hreserved, ?_⟩
    have hcut : cutAt? '.' name = none := by
      rw [cutAt?, cut?_eq_none (not_point_of_isIdentifier hname)]
      rfl
    rw [Scope.column?]
    simp [hcut, hcolumn]
  case qualified name ha hname hcolumn =>
    have hread : s.column? ⟨.column (s.aliasName ++ "." ++ name), none⟩ = some column :=
      (column?_qualified ha).trans hcolumn
    exact ⟨_, _, (spells_qualified ha hname).writes, .column qualified_not_reserved, hread⟩
  case cast written _ ih =>
    obtain ⟨ts, t, hwrites, ht, hcolumn⟩ := ih
    have htext : ("(" ++ written ++ ")::text").toList = '(' :: written.toList ++ ")::text".toList := by simp
    have hterm := @TermOf.cast _ _ "text" ht.parenthesis
    rw [List.append_assoc] at hterm
    exact ⟨_, _, htext ▸ hwrites.cast, hterm, hcolumn⟩

variable {negated : Bool} {xs : List String} {last : Option Token} {ts : List Token}

def operator (negated : Bool) : String :=
  if negated then "<>" else "="

def quantifier (negated : Bool) : String :=
  if negated then "ALL" else "ANY"

-- The column is one of the texts, or none of them.
def membershipText (written : String) (negated : Bool) (xs : List String) : String :=
  written ++ " " ++ operator negated ++ " " ++ quantifier negated ++ " (" ++ printedArray (xs.map String.toList) ++ ")"

def listTokens (negated : Bool) (xs : List String) : List Token :=
  [.operator (operator negated), .word (quantifier negated), .raw (printedArray (xs.map String.toList))]

theorem token?_list {keyword : String} (h : (Token.word keyword).isQuantifier = true) (ys : List (List Char)) :
    Condition.token? (some (.word keyword)) ('(' :: ((printedArray ys).toList ++ ')' :: rest)) =
      some (.raw (printedArray ys), rest) := by
  have htrim : trim (printedArray ys).toList = (printedArray ys).toList := by
    rw [toList_printedArray]
    let inside := double quoteMark ('\x7b' :: printedElements ys ++ ['\x7d'])
    have hfirst : [quoteMark] <+: quoteMark :: (inside ++ quoteMark :: "::text[]".toList) := ⟨_, rfl⟩
    have hlast : [']'] <:+ quoteMark :: (inside ++ quoteMark :: "::text[]".toList) :=
      ⟨quoteMark :: (inside ++ quoteMark :: "::text[".toList), by simp⟩
    exact trim_of_prefix_suffix hfirst hlast (by simp) (by simp) (by simp [quoteMark, isBlank])
  have hquantified : Option.any Token.isQuantifier (some (.word keyword)) = true := h
  simp [Condition.token?, hquantified, enclosed?_printed, htrim]

theorem tokensAfter?_membership (negated : Bool) (xs : List String) (rest : List Char)
    (h : Condition.Writes written.toList ts) (hlast : last.any Token.isQuantifier = false) :
    Condition.tokensAfter? last ((membershipText written negated xs).toList ++ rest) =
      (Condition.tokensAfter? (some (.raw (printedArray (xs.map String.toList)))) rest).map
        (ts ++ listTokens negated xs ++ ·) := by
  let list := '(' :: ((printedArray (xs.map String.toList)).toList ++ ')' :: rest)
  let quantified := (quantifier negated).toList ++ ' ' :: list
  let compared := (operator negated).toList ++ ' ' :: quantified
  have hbreaks : Condition.Breaks (' ' :: compared) := by
    cases negated
    case false => exact ⟨'=', _, .inr ⟨rfl, by decide⟩⟩
    case true => exact ⟨'<', _, .inr ⟨rfl, by decide⟩⟩
  have ⟨last', _, hwritten⟩ := h last _ hlast hbreaks
  have hoperator : Condition.token? last' compared = some (.operator (operator negated), ' ' :: quantified) := by
    cases negated
    case false => exact @Condition.token?_operator _ '=' [] _ rfl nofun (Condition.ends_cons rfl)
    case true => exact @Condition.token?_operator _ '<' ['>'] _ rfl (List.all_eq_true.mp rfl) (Condition.ends_cons rfl)
  have hword : Condition.token? (some (.operator (operator negated))) quantified =
      some (.word (quantifier negated), ' ' :: list) := by
    cases negated
    case false => exact @Condition.token?_word _ 'A' ['N', 'Y'] _ rfl (List.all_eq_true.mp rfl) (Condition.ends_cons rfl)
    case true => exact @Condition.token?_word _ 'A' ['L', 'L'] _ rfl (List.all_eq_true.mp rfl) (Condition.ends_cons rfl)
  have hlist : Condition.token? (some (.word (quantifier negated))) list =
      some (.raw (printedArray (xs.map String.toList)), rest) :=
    token?_list (by cases negated <;> decide) _
  have hlength : 0 < (quantifier negated).toList.length ∧ 0 < (operator negated).toList.length := by
    cases negated <;> decide
  have htext : (membershipText written negated xs).toList ++ rest = written.toList ++ ' ' :: compared := by
    simp [membershipText, compared, quantified, list]
  rw [htext, hwritten,
    Condition.tokensAfter?_spaced hoperator (by simp only [compared, List.length_append, List.length_cons]; omega),
    Condition.tokensAfter?_spaced hword (by simp only [quantified, List.length_append, List.length_cons]; omega),
    Condition.tokensAfter?_spaced hlist (by simp only [list, List.length_append, List.length_cons]; omega)]
  simp [Option.map_map, Function.comp_def, listTokens]

theorem tokens?_membership (h : Condition.Writes written.toList ts) :
    Condition.tokens? (membershipText written negated xs) = some (ts ++ listTokens negated xs) := by
  have hread := tokensAfter?_membership negated xs [] h (rfl : Option.any Token.isQuantifier none = false)
  rw [List.append_nil] at hread
  rw [Condition.tokens?, hread, Condition.tokensAfter?]
  simp

theorem tokens?_parenthesized (h : Condition.Writes written.toList ts) :
    Condition.tokens? ("(" ++ membershipText written negated xs ++ ")") =
      some (.lparen :: (ts ++ listTokens negated xs) ++ [.rparen]) := by
  have hread := tokensAfter?_membership negated xs [')'] h (rfl : Option.any Token.isQuantifier (some .lparen) = false)
  have htext : ("(" ++ membershipText written negated xs ++ ")").toList =
      '(' :: ((membershipText written negated xs).toList ++ [')']) := by simp
  rw [Condition.tokens?, htext, Condition.tokensAfter?_token (Condition.token?_lparen rfl) (by simp), hread,
    Condition.tokensAfter?_token Condition.token?_rparen (by simp), Condition.tokensAfter?]
  simp

-- The condition that a membership is read as.
def membership (t : Term) (negated : Bool) (xs : List String) : Condition :=
  .quantified t (operator negated) negated (printedArray (xs.map String.toList))

theorem comparisonOf_membership {t : Term} (h : TermOf ts t) (negated : Bool) (xs : List String) :
    ComparisonOf (ts ++ listTokens negated xs) (membership t negated xs) := by
  have hquantifier : (Token.word (quantifier negated)).isQuantifier = true := by cases negated <;> decide
  have hall : (Token.word (quantifier negated)).isKeyword "ALL" = negated := by cases negated <;> decide
  have hcomparison := @ComparisonOf.quantified _ _ _ _ (printedArray (xs.map String.toList)) _ h
    (@Condition.OperatorOf.symbol (operator negated)) hquantifier
  rw [hall, List.append_assoc] at hcomparison
  exact hcomparison

-- One equality for each of the texts, or its negation.
def equalities (s : Scope) (column : ColumnRef) (negated : Bool) (xs : List String) : Formula :=
  let atoms := xs.map fun x =>
    .atom (.comparison ⟨column, s.schema.columnName column, .text, .eq, .text x, !negated⟩)
  if negated then .and atoms else .or atoms

theorem membership?_texts (htype : s.schema.dataType column = .text) (hne : xs ≠ []) :
    s.membership? column (xs.map .text) (!negated) = some (s.equalities column negated xs) := by
  have hatoms : (xs.map Value.text).mapM (fun x => s.predicate? column .eq x (!negated)) = some (xs.map fun x =>
      .atom (.comparison ⟨column, s.schema.columnName column, .text, .eq, .text x, !negated⟩)) := by
    rw [Outcome.mapM_eq_some, List.forall₂_map_left_iff, List.forall₂_map_right_iff, List.forall₂_same]
    intro x _
    rw [predicate?, ColumnPredicate.on, htype]
    rfl
  have hsome : (xs.map Value.text).isEmpty = false := by simpa using hne
  rw [membership?, hsome, hatoms]
  cases negated <;> rfl

-- The text with its quotation marks doubled.
def doubled (x : String) : String :=
  String.ofList (double quoteMark x.toList)

theorem map_doubled_eq_self : xs.map doubled = xs ↔ ∀ x ∈ xs, quoteMark ∉ x.toList := by
  have hdoubled : ∀ x : String, doubled x = x ↔ quoteMark ∉ x.toList := by
    intro x
    rw [← double_eq_self, doubled, ← String.toList_inj, String.toList_ofList]
  induction xs
  case nil => simp
  case cons x xs ih => simp [hdoubled, ih]

theorem formula?_quantified {t : Term} {list : String} (hcolumn : s.column? t = some column) :
    s.formula? (.quantified t (operator negated) negated list) =
      (s.listValues? column list).bind (s.membership? column · (!negated)) := by
  cases negated <;> simp [formula?, operator, hcolumn]

theorem formula?_membership {t : Term} (hcolumn : s.column? t = some column)
    (htype : s.schema.dataType column = .text) (hne : xs ≠ []) :
    s.formula? (membership t negated xs) = if isLost (xs.map String.toList) then none
      else some (s.equalities column negated (xs.map doubled)) := by
  have htexts : ((xs.map String.toList).map fun x => Value.text (String.ofList (double quoteMark x))) =
      (xs.map doubled).map .text := by
    simp [doubled, Function.comp_def]
  have hmembership : s.membership? column ((xs.map doubled).map .text) (!negated) =
      some (s.equalities column negated (xs.map doubled)) :=
    membership?_texts htype (by simpa using hne)
  rw [membership, formula?_quantified hcolumn, listValues?_printed htype (by simpa using hne), htexts]
  cases isLost (xs.map String.toList)
  case true => rfl
  case false => exact hmembership

theorem parse?_membershipText (hcolumn : s.Mentions column written) (htype : s.schema.dataType column = .text)
    (hne : xs ≠ []) {text : String}
    (htext : text = membershipText written negated xs ∨ text = "(" ++ membershipText written negated xs ++ ")") :
    s.parse? text = if isLost (xs.map String.toList) then none
      else some (s.equalities column negated (xs.map doubled)) := by
  have ⟨ts, t, hwrites, ht, hread⟩ := hcolumn.reads
  have hcomparison := comparisonOf_membership ht negated xs
  rcases htext with rfl | rfl
  case inl =>
    rw [parse?, Condition.ofText?_of_derives (tokens?_membership hwrites) hcomparison.disjunction]
    exact formula?_membership hread htype hne
  case inr =>
    rw [parse?, Condition.ofText?_of_derives (tokens?_parenthesized hwrites) hcomparison.parenthesized.disjunction]
    exact formula?_membership hread htype hne

-- A membership of a column of texts is read as one equality for each text with its marks doubled, so for just these
-- texts if there are no marks in them. Only white space beyond ASCII is lost, where it is all there is.
theorem parse?_membership (hcolumn : s.Mentions column written) (htype : s.schema.dataType column = .text)
    (hne : xs ≠ []) :
    (∀ text, text = membershipText written negated xs ∨ text = "(" ++ membershipText written negated xs ++ ")" →
      s.parse? text = if isLost (xs.map String.toList) then none
        else some (s.equalities column negated (xs.map doubled))) ∧
    (xs.map doubled = xs ↔ ∀ x ∈ xs, quoteMark ∉ x.toList) :=
  ⟨fun _ => parse?_membershipText hcolumn htype hne, map_doubled_eq_self⟩

-- Texts that look like parts of the array, of the condition or of neither.
def titles : List String :=
  ["a, b", "", "Null", "\x7bx\x7d", "say \"hi\"", "O'Hara) OR ('"]

theorem mentions_name : people.Mentions ⟨0, 0⟩ "(p.name)::text" :=
  .cast (@Mentions.qualified people _ "name" (by decide) (by decide) (by decide +kernel))

theorem parse?_membership_titles : people.Mentions ⟨0, 0⟩ "(p.name)::text" ∧
    people.schema.dataType ⟨0, 0⟩ = .text ∧ titles ≠ [] ∧
    people.parse? ("(" ++ membershipText "(p.name)::text" true titles ++ ")") = some (people.equalities ⟨0, 0⟩ true
      ["a, b", "", "Null", "\x7bx\x7d", "say \"hi\"", "O''Hara) OR (''"]) := by
  have htype : people.schema.dataType ⟨0, 0⟩ = .text := by decide +kernel
  have hne : titles ≠ [] := by decide
  have hlost : isLost (titles.map String.toList) = false := by decide
  have hdoubled : titles.map doubled = ["a, b", "", "Null", "\x7bx\x7d", "say \"hi\"", "O''Hara) OR (''"] := by decide
  refine ⟨mentions_name, htype, hne, ?_⟩
  rw [(parse?_membership mentions_name htype hne).1 _ (.inr rfl), hlost, hdoubled]
  rfl

example : membershipText "(p.name)::text" true titles = "(p.name)::text <> ALL (" ++
    "'\x7b\"a, b\",\"\",\"Null\",\"\x7bx\x7d\",\"say \\\"hi\\\"\",\"O''Hara) OR (''\"\x7d'::text[])" := by
  decide

-- The mark in a name is not read back.
theorem not_kept_oHara :
    people.parse? (membershipText "name" false ["O'Hara", "Smith"]) ≠
      some (people.equalities ⟨0, 0⟩ false ["O'Hara", "Smith"]) := by
  have hmentions : people.Mentions ⟨0, 0⟩ "name" := .bare (by decide) (by decide) (by decide +kernel)
  have hlost : isLost (["O'Hara", "Smith"].map String.toList) = false := by decide
  have hdoubled : ["O'Hara", "Smith"].map doubled = ["O''Hara", "Smith"] := by decide
  rw [parse?_membershipText hmentions (by decide +kernel) (by decide) (.inl rfl), hlost, hdoubled]
  simp [equalities]

end Scope

end Subplans
