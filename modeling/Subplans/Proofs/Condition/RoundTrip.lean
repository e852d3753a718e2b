import Mathlib.Data.List.Nodup
import Subplans.Proofs.Condition.Meaning
import Subplans.Proofs.Condition.Tokens

/-!
Clauses are read back from their text.

A predicate spells tokens (`ColumnPredicate.spells`), the tokens are a condition (`negationOf_predicate`), and the
condition resolves to the predicate (`formula?_condition`); what joins predicates to clauses and clauses to a text is
seen through the same three steps. So the clauses of predicates are the normal form of what their text is read as
(`parse?_sql`).
-/

namespace Subplans

open Condition (Token Term Spells Ends)

-- An ASCII letter or an underscore and then letters, digits and underscores.
def isIdentifier (name : String) : Bool :=
  match name.toList with
  | c :: rest => Text.isNameStart c && rest.all Text.isNameChar
  | [] => false

theorem exists_of_isIdentifier {name : String} (h : isIdentifier name = true) :
    ∃ c rest, name.toList = c :: rest ∧ Text.isNameStart c = true ∧ ∀ d ∈ c :: rest, Text.isNameChar d = true := by
  unfold isIdentifier at h
  split at h
  case h_2 => cases h
  case h_1 c rest heq =>
    rw [Bool.and_eq_true, List.all_eq_true] at h
    refine ⟨c, rest, heq, h.1, List.forall_mem_cons.mpr ⟨?_, h.2⟩⟩
    have hc := h.1
    simp only [Text.isNameStart, Bool.or_eq_true] at hc
    rcases hc with hc | hc <;> simp [Text.isNameChar, Char.isAlphanum, hc]

variable {aliasName base : String} {p : ColumnPredicate} {ps : List ColumnPredicate} {rest : List Token}

theorem isWordChar_of_isNameChar {c : Char} (h : Text.isNameChar c = true) : Condition.isWordChar c = true := by
  simp [Condition.isWordChar, h]

theorem isWord_of_isIdentifier (h : isIdentifier base = true) : Condition.isWord base = true := by
  have ⟨c, rest, heq, hstart, hchars⟩ := exists_of_isIdentifier h
  rw [List.forall_mem_cons] at hchars
  rw [Condition.isWord, heq]
  simp only [Bool.and_eq_true, List.all_eq_true]
  exact ⟨by simp [Condition.isWordStart, hstart], fun d hd => isWordChar_of_isNameChar (hchars.2 d hd)⟩

theorem isWord_qualified (ha : isIdentifier aliasName = true) (hn : isIdentifier base = true) :
    Condition.isWord (aliasName ++ "." ++ base) = true := by
  have ⟨c, _, haeq, hstart, hfirst⟩ := exists_of_isIdentifier ha
  have ⟨_, _, hneq, _, hsecond⟩ := exists_of_isIdentifier hn
  rw [Condition.isWord, String.toList_append, String.toList_append, haeq, hneq]
  simp only [List.cons_append, Bool.and_eq_true, List.all_eq_true, List.forall_mem_append, List.forall_mem_cons]
    at hfirst hsecond ⊢
  have hpoint : ∀ d ∈ ".".toList, Condition.isWordChar d = true := List.all_eq_true.mp rfl
  exact ⟨by simp [Condition.isWordStart, hstart], ⟨fun d hd => isWordChar_of_isNameChar (hfirst.2 d hd), hpoint⟩,
    isWordChar_of_isNameChar hsecond.1, fun d hd => isWordChar_of_isNameChar (hsecond.2 d hd)⟩

-- No keyword has a point in it.
theorem qualified_ne_keyword (keyword : String) (h : '.' ∉ keyword.toList.map Char.toLower) :
    Text.equalsIgnoringCase (aliasName ++ "." ++ base) keyword = false := by
  have hpoint : '.' ∈ (aliasName ++ "." ++ base).toList.map Char.toLower := by simp
  rw [Text.equalsIgnoringCase, beq_eq_false_iff_ne]
  intro heq
  exact h (heq ▸ hpoint)

theorem qualified_not_reserved :
    Condition.reserved.any (Text.equalsIgnoringCase (aliasName ++ "." ++ base)) = false := by
  have hpoint : ∀ keyword ∈ Condition.reserved, '.' ∉ keyword.toList.map Char.toLower := by decide
  rw [List.any_eq_false]
  intro keyword hmem
  simp [qualified_ne_keyword keyword (hpoint keyword hmem)]

theorem spells_qualified (ha : isIdentifier aliasName = true) (hn : isIdentifier base = true) :
    Spells (aliasName ++ "." ++ base).toList [.word (aliasName ++ "." ++ base)] :=
  Spells.word (isWord_qualified ha hn) (by
    simp [Token.isQuantifier, Token.isKeyword, qualified_ne_keyword "ANY" (by decide),
      qualified_ne_keyword "ALL" (by decide)])

-- The token that a literal is.
def Value.token : Value → Token
  | .null => .word "NULL"
  | .integer n => .number (toString n)
  | x => .text x.content

theorem Value.token?_literal {type : DataType} (x : Value) (last : Option Token) (after : List Char)
    (h : x.fits type = true) (hlast : Condition.allowsSign last = true) (hafter : Ends after) :
    Condition.token? last (x.literal.toList ++ after) = some (x.token, after) := by
  unfold Value.fits at h
  split at h
  case h_1 => exact Condition.token?_integer hlast hafter
  case h_5 => cases h
  all_goals exact Condition.token?_quoted hafter

-- No column of texts can hold a number.
theorem Value.not_numeric {type : DataType} {x : Value} (h : x.fits type = true) :
    (type.isText && x.isNumeric) = false := by
  unfold Value.fits at h
  split at h
  case h_5 => cases h
  all_goals rfl

theorem Value.plain_token {x : Value} : x.token.isQuantifier = false := by
  cases x <;> rfl

-- The token that the operator of a comparison is.
def Comparison.token : Comparison → Token
  | .eq => .operator "="
  | .lt => .operator "<"
  | .gt => .operator ">"
  | .like => .word "LIKE"
  | .ilike => .word "ILIKE"
  | .is => .word "IS"

namespace ColumnPredicate

-- The comparison is one that the type of the column supports, with NULL or a value that the column can hold.
def fits (p : ColumnPredicate) : Bool :=
  p.dataType.supports p.comparison && if p.comparison = .is then p.value.isNull else p.value.fits p.dataType

-- The column as it is written.
def path (p : ColumnPredicate) (aliasName : String) : String :=
  aliasName ++ "." ++ p.name

def tokens (p : ColumnPredicate) (aliasName : String) : List Token :=
  (if p.positive then [] else [.word "NOT"]) ++ [.word (p.path aliasName)] ++ [p.comparison.token, p.value.token]

theorem fits_cases (h : p.fits = true) : p.comparison = .is ∧ p.value = .null ∨
    p.comparison ≠ .is ∧ p.value.fits p.dataType = true ∧ p.dataType.supports p.comparison = true := by
  rw [fits, Bool.and_eq_true] at h
  have ⟨hsupports, hvalue⟩ := h
  by_cases his : p.comparison = .is
  case pos =>
    rw [if_pos his] at hvalue
    cases hnull : p.value
    case null => exact .inl ⟨his, rfl⟩
    all_goals
      rw [hnull] at hvalue
      cases hvalue
  case neg =>
    rw [if_neg his] at hvalue
    exact .inr ⟨his, hvalue, hsupports⟩

theorem isText_of_supports {type : DataType} {c : Comparison} (h : type.supports c = true)
    (hc : c = .like ∨ c = .ilike) : type = .text := by
  revert h
  rcases hc with rfl | rfl <;> cases type <;> decide

theorem spells_path (ha : isIdentifier aliasName = true) (hn : isIdentifier p.name = true) :
    Spells (p.path aliasName).toList [.word (p.path aliasName)] :=
  spells_qualified ha hn

theorem spells_comparison (h : p.fits = true) :
    Spells (p.comparison.symbol ++ " " ++ p.value.literal).toList [p.comparison.token, p.value.token] := by
  rw [String.toList_append, String.toList_append]
  rcases fits_cases h with ⟨his, hnull⟩ | ⟨his, hvalue, hsupports⟩
  case inl =>
    rw [his, hnull]
    exact (Spells.word (by decide) (by decide)).append (Spells.word (by decide) (by decide)) [' '] (by decide)
  case inr =>
    have hliteral := fun last after => p.value.token?_literal last after hvalue
    have hne : p.value.literal.toList ≠ [] := by
      intro hnil
      have hnone := hliteral none [] rfl Condition.ends_nil
      rw [hnil] at hnone
      cases hnone
    have hoperator : ∀ symbol, Condition.isOperator symbol = true →
        Spells (symbol.toList ++ [' '] ++ p.value.literal.toList) [.operator symbol, p.value.token] := fun symbol hs =>
      Spells.comparison hs Value.plain_token hne fun after hafter => hliteral _ after rfl hafter
    have hword : ∀ symbol, Condition.isWord symbol = true → (Token.word symbol).isQuantifier = false →
        p.dataType = .text →
        Spells (symbol.toList ++ [' '] ++ p.value.literal.toList) [.word symbol, p.value.token] := by
      intro symbol hs hplain htype
      obtain ⟨s, hs'⟩ : ∃ s, p.value = .text s := by
        rw [htype] at hvalue
        cases heq : p.value
        case text s => exact ⟨s, rfl⟩
        all_goals
          rw [heq] at hvalue
          cases hvalue
      rw [hs'] at hne ⊢
      have hquoted : Spells (Value.text s).literal.toList [.text s] :=
        Spells.single rfl hne fun _ _ hafter => Condition.token?_quoted hafter
      exact (Spells.word hs hplain).append hquoted [' '] (by decide)
    cases hc : p.comparison
    case eq => exact hoperator "=" (by decide)
    case lt => exact hoperator "<" (by decide)
    case gt => exact hoperator ">" (by decide)
    case like => exact hword "LIKE" (by decide) (by decide) (isText_of_supports hsupports (by simp [hc]))
    case ilike => exact hword "ILIKE" (by decide) (by decide) (isText_of_supports hsupports (by simp [hc]))
    case is => contradiction

theorem sql_of_fits (h : p.fits = true) : p.sql aliasName =
    (if p.positive then "" else "NOT ") ++ p.path aliasName ++ " " ++
      (p.comparison.symbol ++ " " ++ p.value.literal) := by
  have hguard : (p.dataType.isText && p.value.isNumeric) = false := by
    rcases fits_cases h with ⟨_, hnull⟩ | ⟨_, hvalue, _⟩
    case inl => rw [hnull]; exact Bool.and_false _
    case inr => exact Value.not_numeric hvalue
  simp [sql, hguard, path, String.append_assoc]

theorem spells (ha : isIdentifier aliasName = true) (hn : isIdentifier p.name = true) (h : p.fits = true) :
    Spells (p.sql aliasName).toList (p.tokens aliasName) := by
  have hcompared := (spells_path ha hn).append (spells_comparison h) [' '] (by decide)
  rw [sql_of_fits h, tokens]
  cases p.positive
  case true => simpa using hcompared
  case false =>
    have hnot : Spells "NOT".toList [.word "NOT"] := Spells.word (by decide) (by decide)
    simpa using hnot.append hcompared [' '] (by decide)

-- The operator that a comparison is read as.
def operator : Comparison → String
  | .like => "~~"
  | .ilike => "~~*"
  | c => c.symbol

-- The condition that the comparison is read as.
def compared (p : ColumnPredicate) (aliasName : String) : Condition :=
  let column : Term := ⟨.column (p.path aliasName), none⟩
  match p.comparison with
  | .is => .nullTest column false
  | c => .compare column (operator c) ⟨.literal p.value.content, none⟩

-- The condition that the predicate is read as.
def condition (p : ColumnPredicate) (aliasName : String) : Condition :=
  if p.positive then p.compared aliasName else .not (p.compared aliasName)

end ColumnPredicate

namespace Condition

theorem termOf_path : TermOf [.word (p.path aliasName)] ⟨.column (p.path aliasName), none⟩ :=
  .column qualified_not_reserved

theorem termOf_literal {type : DataType} {x : Value} (h : x.fits type = true) :
    TermOf [x.token] ⟨.literal x.content, none⟩ := by
  unfold Value.fits at h
  split at h
  case h_1 => exact .number
  case h_5 => cases h
  all_goals exact .text

theorem operatorOf_comparison {c : Comparison} (h : c ≠ .is) : OperatorOf [c.token] (ColumnPredicate.operator c) := by
  cases c
  case is => contradiction
  case like => exact .like rfl
  case ilike => exact .ilike rfl
  all_goals exact .symbol

variable (aliasName) in
theorem comparisonOf_compared (h : p.fits = true) :
    ComparisonOf [.word (p.path aliasName), p.comparison.token, p.value.token] (p.compared aliasName) := by
  rw [ColumnPredicate.compared]
  rcases ColumnPredicate.fits_cases h with ⟨his, hnull⟩ | ⟨his, hvalue, _⟩
  case inl =>
    rw [his, hnull]
    exact .isNull termOf_path rfl rfl
  case inr =>
    split
    case h_1 => contradiction
    case h_2 => exact .compare termOf_path (operatorOf_comparison his) (termOf_literal hvalue)

variable (aliasName) in
theorem negationOf_predicate (h : p.fits = true) : NegationOf (p.tokens aliasName) (p.condition aliasName) := by
  have hcompared := NegationOf.primary (.comparison (comparisonOf_compared aliasName h))
  rw [ColumnPredicate.tokens, ColumnPredicate.condition]
  cases p.positive
  case true => exact hcompared
  case false => exact .not rfl hcompared

section Parts

variable {α : Type} {xs : List α} {read : α → List Token} {as : α → Condition}

theorem alternativesOf_map (h : ∀ x ∈ xs, ConjunctionOf (read x) (as x)) :
    AlternativesOf (xs.flatMap fun x => .word "OR" :: read x) (xs.map as) := by
  induction xs
  case nil => exact .nil
  case cons x xs ih =>
    rw [List.forall_mem_cons] at h
    exact .cons (isKeyword_self "OR") h.1 (ih h.2)

theorem conjunctsOf_map (h : ∀ x ∈ xs, NegationOf (read x) (as x)) :
    ConjunctsOf (xs.flatMap fun x => .word "AND" :: read x) (xs.map as) := by
  induction xs
  case nil => exact .nil
  case cons x xs ih =>
    rw [List.forall_mem_cons] at h
    exact .cons (isKeyword_self "AND") h.1 (ih h.2)

end Parts

def clauseTokens (aliasName : String) : List ColumnPredicate → List Token
  | [] => []
  | p :: ps =>
    let inside := p.tokens aliasName ++ ps.flatMap fun q => .word "OR" :: q.tokens aliasName
    if ps.isEmpty then inside else .lparen :: inside ++ [.rparen]

def clauseCondition (aliasName : String) (ps : List ColumnPredicate) : Condition :=
  collapse or (ps.map (·.condition aliasName))

theorem negationOf_clause (hne : ps ≠ []) (h : ∀ p ∈ ps, p.fits = true) :
    NegationOf (clauseTokens aliasName ps) (clauseCondition aliasName ps) := by
  cases ps
  case nil => contradiction
  case cons p ps =>
    rw [List.forall_mem_cons] at h
    rw [clauseTokens, clauseCondition, List.map_cons]
    cases ps
    case nil => simpa [collapse] using negationOf_predicate aliasName h.1
    case cons q qs =>
      have hmore := alternativesOf_map fun q hq => (negationOf_predicate aliasName (h.2 q hq)).conjunction
      exact .primary (.parenthesis (.mk (negationOf_predicate aliasName h.1).conjunction hmore))

theorem disjunctionOf_clauses {c : List ColumnPredicate} {cs : List (List ColumnPredicate)}
    (hne : ∀ d ∈ c :: cs, d ≠ []) (h : ∀ d ∈ c :: cs, ∀ p ∈ d, p.fits = true) :
    DisjunctionOf (clauseTokens aliasName c ++ cs.flatMap fun d => .word "AND" :: clauseTokens aliasName d)
      (collapse and ((c :: cs).map (clauseCondition aliasName))) := by
  have hclause : ∀ d ∈ c :: cs, NegationOf (clauseTokens aliasName d) (clauseCondition aliasName d) :=
    fun d hd => negationOf_clause (hne d hd) (h d hd)
  rw [List.forall_mem_cons] at hclause
  exact (ConjunctionOf.mk hclause.1 (conjunctsOf_map hclause.2)).disjunction

end Condition

theorem Clause.spells {ps : List ColumnPredicate} (ha : isIdentifier aliasName = true) (hne : ps ≠ [])
    (hn : ∀ p ∈ ps, isIdentifier p.name = true) (h : ∀ p ∈ ps, p.fits = true) :
    Spells (Clause.sql (ps.map .comparison) aliasName).toList (Condition.clauseTokens aliasName ps) := by
  cases ps
  case nil => contradiction
  case cons p ps =>
    have hor : Spells "OR".toList [.word "OR"] := Spells.word (by decide) (by decide)
    have hjoined := hor.joined [' '] [' '] (by decide) (by decide)
      fun q hq => ColumnPredicate.spells ha (hn q hq) (h q hq)
    have htext : (" OR ".intercalate (((p :: ps).map Atom.comparison).map (·.sql aliasName))).toList =
        ([' '] ++ "OR".toList ++ [' ']).intercalate ((p :: ps).map fun q => (q.sql aliasName).toList) := by
      rw [String.toList_intercalate, List.map_map, List.map_map]
      rfl
    rw [← htext] at hjoined
    rw [Clause.sql, Condition.clauseTokens]
    cases ps
    case nil => exact hjoined
    case cons => simpa using hjoined.parenthesized

theorem Clauses.spells {c : List ColumnPredicate} {cs : List (List ColumnPredicate)}
    (ha : isIdentifier aliasName = true) (hne : ∀ d ∈ c :: cs, d ≠ [])
    (hn : ∀ d ∈ c :: cs, ∀ p ∈ d, isIdentifier p.name = true) (h : ∀ d ∈ c :: cs, ∀ p ∈ d, p.fits = true) :
    Spells (Clauses.sql ((c :: cs).map (·.map .comparison)) aliasName).toList
      (Condition.clauseTokens aliasName c ++
        cs.flatMap fun d => .word "AND" :: Condition.clauseTokens aliasName d) := by
  have hand : Spells "AND".toList [.word "AND"] := Spells.word (by decide) (by decide)
  have hjoined := hand.joined ['\n', '\t'] [' '] (by decide) (by decide)
    fun d hd => Clause.spells ha (hne d hd) (hn d hd) (h d hd)
  rw [Clauses.sql, String.toList_intercalate, List.map_map, List.map_map]
  exact hjoined

namespace Scope

variable {s : Scope}

-- The alias and the names of the columns are identifiers, and no two columns have the same name.
structure Named (s : Scope) : Prop where
  aliasName : isIdentifier s.aliasName = true
  columns   : ∀ c ∈ (s.schema.table s.table).columns, isIdentifier c.name = true
  nodup     : ((s.schema.table s.table).columns.map Column.name).Nodup

-- The predicate is on a column of the table that can hold its value.
structure Admits (s : Scope) (p : ColumnPredicate) : Prop where
  on     : ColumnPredicate.on s.schema p.column p.comparison p.value p.positive = .ok p
  table  : p.column.table = s.table
  column : p.column.column < (s.schema.table s.table).columns.length
  fits   : p.fits = true

namespace Admits

variable (h : s.Admits p)

include h

theorem eq : p = ⟨p.column, s.schema.columnName p.column, s.schema.dataType p.column, p.comparison, p.value,
    p.positive⟩ := by
  have hon := h.on
  unfold ColumnPredicate.on at hon
  dsimp only at hon
  split at hon
  case isTrue => exact (Except.ok.inj hon).symm
  case isFalse => cases hon

theorem name : p.name = s.schema.columnName p.column :=
  congrArg ColumnPredicate.name h.eq

theorem dataType : p.dataType = s.schema.dataType p.column :=
  congrArg ColumnPredicate.dataType h.eq

theorem columnName : s.schema.columnName p.column =
    ((s.schema.table s.table).columns.get ⟨p.column.column, h.column⟩).name := by
  simp [Schema.columnName, Schema.column, h.table, List.getElem?_eq_getElem h.column]

theorem isIdentifier (hs : s.Named) : isIdentifier p.name = true := by
  rw [h.name, h.columnName]
  exact hs.columns _ (List.getElem_mem h.column)

theorem column? (hs : s.Named) : s.schema.column? s.table p.name = some p.column := by
  have hfind : (s.schema.table s.table).column? p.name = some p.column.column := by
    rw [h.name, h.columnName, Table.column?, List.findIdx?_eq_some_iff_getElem]
    refine ⟨h.column, beq_self_eq_true _, fun j hj heq => ?_⟩
    have hsame : ((s.schema.table s.table).columns.map Column.name)[j]? =
        ((s.schema.table s.table).columns.map Column.name)[p.column.column]? := by
      simpa [List.getElem?_eq_getElem h.column, List.getElem?_eq_getElem (hj.trans h.column)] using heq
    exact hj.ne ((List.getElem?_inj (by simpa using hj.trans h.column) hs.nodup).mp hsame)
  rw [Schema.column?, hfind, Option.map_some, ← h.table]

-- The predicate with its operator as it stands.
theorem predicate? : s.predicate? p.column p.comparison p.value true =
    some (.atom (.comparison { p with positive := true })) := by
  have hsupports : (s.schema.dataType p.column).supports p.comparison = true := by
    rw [← h.dataType]
    exact (Bool.and_eq_true_iff.mp h.fits).1
  simp [Scope.predicate?, ColumnPredicate.on, hsupports, h.name, h.dataType, Except.toOption]

end Admits

theorem not_point_of_isIdentifier (h : isIdentifier base = true) : '.' ∉ base.toList := by
  have ⟨c, _, heq, _, hchars⟩ := exists_of_isIdentifier h
  intro hmem
  have hname := hchars _ (heq ▸ hmem)
  revert hname
  decide

theorem column?_qualified (h : isIdentifier s.aliasName = true) {cast : Option String} :
    s.column? ⟨.column (s.aliasName ++ "." ++ base), cast⟩ = s.schema.column? s.table base := by
  have hcut : Text.cutAt? '.' (s.aliasName ++ "." ++ base) = some (s.aliasName, base) := by
    simp [Text.cutAt?, Text.cut?_of_notMem (not_point_of_isIdentifier h)]
  simp [Scope.column?, hcut]

theorem column?_path (hs : s.Named) (h : s.Admits p) :
    s.column? ⟨.column (p.path s.aliasName), none⟩ = some p.column :=
  (column?_qualified hs.aliasName).trans (h.column? hs)

theorem formula?_compared (hs : s.Named) (h : s.Admits p) :
    s.formula? (p.compared s.aliasName) = some (.atom (.comparison { p with positive := true })) := by
  have hcolumn := column?_path hs h
  have hpredicate := h.predicate?
  rw [ColumnPredicate.compared]
  rcases ColumnPredicate.fits_cases h.fits with ⟨his, hnull⟩ | ⟨his, hvalue, _⟩
  case inl =>
    rw [his, hnull] at hpredicate
    rw [his]
    simp [formula?, hcolumn, hpredicate, hnull]
  case inr =>
    have hliteral : s.value? p.column ⟨.literal p.value.content, none⟩ = some p.value := by
      rw [Scope.value?, ← h.dataType]
      exact literal?_content hvalue
    have hnone : s.column? ⟨.literal p.value.content, none⟩ = none := rfl
    have hsymbol : Comparison.ofSymbol? (ColumnPredicate.operator p.comparison) = some (p.comparison, true) := by
      cases p.comparison <;> rfl
    have hcompare : formula?.compare? s p.column (ColumnPredicate.operator p.comparison)
        ⟨.literal p.value.content, none⟩ = some (.atom (.comparison { p with positive := true })) := by
      simp [formula?.compare?, hsymbol, hliteral, hpredicate]
    cases hc : p.comparison
    case is => contradiction
    all_goals
      rw [hc] at hcompare
      simp [formula?, hcolumn, hnone, hcompare]

theorem formula?_condition (hs : s.Named) (h : s.Admits p) :
    s.formula? (p.condition s.aliasName) = some (.atom (.comparison p)) := by
  have hcompared := formula?_compared hs h
  rw [ColumnPredicate.condition]
  cases hp : p.positive
  case true =>
    rw [if_pos rfl, hcompared, ← hp]
  case false =>
    rw [if_neg (by decide), formula?, hcompared]
    simp [Formula.negate, Atom.complement, ColumnPredicate.complement, ← hp]

-- A condition that stands for itself has the normal form of what it is part of.
theorem formula?_collapse (combine : List Condition → Condition) (join : List Formula → Formula) {cs : List Condition}
    {fs : List Formula} (hcombine : ∀ cs, s.formula? (combine cs) = (s.formulas? cs).map join)
    (hsingle : ∀ f, (join [f]).normalForm = f.normalForm) (h : List.Forall₂ (fun c f => s.formula? c = some f) cs fs) :
    ∃ f, s.formula? (Condition.collapse combine cs) = some f ∧ f.normalForm = (join fs).normalForm := by
  have hmany : s.formula? (combine cs) = some (join fs) := by
    rw [hcombine, formulas?_eq, Outcome.mapM_eq_some.mpr h]
    rfl
  cases h
  case nil => exact ⟨_, hmany, rfl⟩
  case cons c f cs fs hf hrest =>
    cases hrest
    case nil => exact ⟨f, hf, (hsingle f).symm⟩
    case cons => exact ⟨_, hmany, rfl⟩

theorem formula?_clauseCondition (hs : s.Named) (hne : ps ≠ []) (h : ∀ p ∈ ps, s.Admits p) :
    ∃ f, s.formula? (Condition.clauseCondition s.aliasName ps) = some f ∧ f.normalForm = [ps.map .comparison] := by
  have hatoms : List.Forall₂ (fun c f => s.formula? c = some f) (ps.map (·.condition s.aliasName))
      ((ps.map .comparison).map .atom) := by
    rw [List.map_map, List.forall₂_map_left_iff, List.forall₂_map_right_iff, List.forall₂_same]
    exact fun p hp => formula?_condition hs (h p hp)
  have ⟨f, hf, hnormal⟩ := formula?_collapse .or .or (fun _ => by rw [formula?]) (fun _ => Formula.normalForm_or_single) hatoms
  refine ⟨f, hf, ?_⟩
  rw [hnormal, Formula.normalForm_or (by simpa using hne), Formula.disjunction_atoms]
  rfl

theorem formula?_clauses (hs : s.Named) {cs : List (List ColumnPredicate)} (hne : ∀ d ∈ cs, d ≠ [])
    (h : ∀ d ∈ cs, ∀ p ∈ d, s.Admits p) :
    ∃ f, s.formula? (Condition.collapse .and (cs.map (Condition.clauseCondition s.aliasName))) = some f ∧
      f.normalForm = cs.map (·.map .comparison) := by
  obtain ⟨fs, hfs⟩ := Outcome.exists_forall₂ fun d hd => formula?_clauseCondition hs (hne d hd) (h d hd)
  have hconditions : List.Forall₂ (fun c f => s.formula? c = some f)
      (cs.map (Condition.clauseCondition s.aliasName)) fs :=
    List.forall₂_map_left_iff.mpr (hfs.imp fun _ _ hf => hf.1)
  have hconjunction : Formula.conjunction fs = cs.map (·.map .comparison) := by
    clear hconditions hne h
    induction hfs
    case nil => rfl
    case cons hf _ ih => rw [Formula.conjunction, hf.2, ih]; rfl
  obtain ⟨f, hf, hnormal⟩ := formula?_collapse .and .and (fun _ => by rw [formula?])
    (fun f => by simp [Formula.normalForm, Formula.conjunction]) hconditions
  exact ⟨f, hf, by rw [hnormal, Formula.normalForm, hconjunction]⟩

-- The text of clauses of predicates is read, and the normal form of what is read are the clauses.
theorem parse?_sql (hs : s.Named) {cs : List (List ColumnPredicate)} (hne : cs ≠ []) (hclauses : ∀ d ∈ cs, d ≠ [])
    (h : ∀ d ∈ cs, ∀ p ∈ d, s.Admits p) :
    ∃ f, s.parse? (Clauses.sql (cs.map (·.map .comparison)) s.aliasName) = some f ∧
      f.normalForm = cs.map (·.map .comparison) := by
  obtain ⟨c, ds, rfl⟩ := List.exists_cons_of_ne_nil hne
  have hfits : ∀ d ∈ c :: ds, ∀ p ∈ d, p.fits = true := fun d hd p hp => (h d hd p hp).fits
  have hspells := Clauses.spells hs.aliasName hclauses (fun d hd p hp => (h d hd p hp).isIdentifier hs) hfits
  have hcondition := Condition.ofText?_of_derives hspells.tokens? (Condition.disjunctionOf_clauses hclauses hfits)
  have ⟨f, hf, hnormal⟩ := formula?_clauses hs hclauses h
  exact ⟨f, by rw [parse?, hcondition]; exact hf, hnormal⟩

-- A text with words, marks and parentheses in it, a negative number, a date, and a test for NULL.
def asked : List (List ColumnPredicate) := [
  [⟨⟨0, 0⟩, "name", .text, .eq, .text "O'Hara) OR ('é'", true⟩, ⟨⟨0, 1⟩, "year", .integer, .lt, .integer (-5), false⟩],
  [⟨⟨0, 2⟩, "born", .date, .gt, .date ⟨1990, 2, 28, by decide⟩, true⟩],
  [⟨⟨0, 3⟩, "seen", .dateTime, .is, .null, false⟩]]

theorem named_people : people.Named where
  aliasName := by decide
  columns := by decide +kernel
  nodup := by decide +kernel

theorem admits_asked : ∀ d ∈ asked, ∀ p ∈ d, people.Admits p := by
  simp only [asked, List.forall_mem_cons, List.not_mem_nil, false_implies, implies_true, and_true]
  refine ⟨⟨?_, ?_⟩, ?_, ?_⟩
  all_goals exact ⟨rfl, rfl, by decide +kernel, by decide +kernel⟩

theorem parse?_sql_asked : people.Named ∧ (∀ d ∈ asked, d ≠ []) ∧ (∀ d ∈ asked, ∀ p ∈ d, people.Admits p) ∧
    ∃ f, people.parse? (Clauses.sql (asked.map (·.map .comparison)) "p") = some f ∧
      f.normalForm = asked.map (·.map .comparison) := by
  have hne : ∀ d ∈ asked, d ≠ [] := by simp [asked]
  exact ⟨named_people, hne, admits_asked, parse?_sql named_people (by simp [asked]) hne admits_asked⟩

example : Clauses.sql (asked.map (·.map .comparison)) "p" =
    "(p.name = 'O''Hara) OR (''é''' OR NOT p.year < -5)\n\tAND p.born > '1990-02-28'\n\tAND NOT p.seen IS NULL" := by
  decide +kernel

end Scope

end Subplans
