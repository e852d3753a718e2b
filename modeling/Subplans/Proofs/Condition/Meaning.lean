import Subplans.Condition.Resolve
import Subplans.Proofs.Condition.Printing
import Subplans.Proofs.Outcome
import Subplans.Proofs.Predicate.Collation

/-!
What conditions mean, and that formulas of conditions mean the same.

`Scope.truth?` is the truth of a condition for a row as SQL has it, with operators, lists and negations as they
stand in the condition. The formula that a condition resolves to has the same truth (`formula?_meaning`).
-/

namespace Subplans

namespace Condition

variable {t : Term}

-- A column is not cast to another type.
def Term.isPlain (t : Term) : Bool :=
  match t.operand with
  | .column _ => t.cast.isNone
  | _ => true

mutual

-- The terms in a condition, but for those in the text of a list.
def terms : Condition → List Term
  | and parts => termsAll parts
  | or parts => termsAll parts
  | not part => part.terms
  | compare left _ right => [left, right]
  | nullTest term _ => [term]
  | quantified left _ _ _ => [left]
  | inList term list _ => term :: list

def termsAll : List Condition → List Term
  | [] => []
  | c :: cs => c.terms ++ termsAll cs

end

-- Induction over a condition from its comparisons up.
theorem rec_parts {motive : Condition → Prop} (and : ∀ cs, (∀ c ∈ cs, motive c) → motive (.and cs))
    (or : ∀ cs, (∀ c ∈ cs, motive c) → motive (.or cs)) (not : ∀ c, motive c → motive (.not c))
    (compare : ∀ left symbol right, motive (.compare left symbol right))
    (nullTest : ∀ term negated, motive (.nullTest term negated))
    (quantified : ∀ left symbol all list, motive (.quantified left symbol all list))
    (inList : ∀ term list negated, motive (.inList term list negated)) : ∀ c, motive c
  | .and cs => and cs fun c _ => rec_parts and or not compare nullTest quantified inList c
  | .or cs => or cs fun c _ => rec_parts and or not compare nullTest quantified inList c
  | .not c => not c (rec_parts and or not compare nullTest quantified inList c)
  | .compare left symbol right => compare left symbol right
  | .nullTest term negated => nullTest term negated
  | .quantified left symbol all list => quantified left symbol all list
  | .inList term list negated => inList term list negated

theorem termsAll_eq {cs : List Condition} : termsAll cs = cs.flatMap terms := by
  induction cs
  case nil => rfl
  case cons ih => rw [termsAll, ih, List.flatMap_cons]

end Condition

namespace Formula

variable {f : Formula} {fs : List Formula} {t : Truth} {ts : List Truth} {k : Collation} {row : Row}
  {other : String → Truth}

theorem solid_negate (h : f.solid = true) : f.negate.solid = true := by
  induction f using rec_parts
  case atom => rfl
  all_goals
    rename_i fs ih
    rw [solid, Bool.and_eq_true, solidAll_iff] at h
    rw [negate, negateAll_eq, solid, List.isEmpty_map, h.1, Bool.true_and, solidAll_iff]
    intro g hg
    obtain ⟨f, hf, rfl⟩ := List.mem_map.mp hg
    exact ih f hf (h.2 f hf)

theorem atoms_negate : f.negate.atoms = f.atoms.map Atom.complement := by
  induction f using rec_parts
  case atom => rfl
  all_goals
    rename_i fs ih
    simp only [negate, atoms, atomsAll_eq, negateAll_eq, List.flatMap_map, List.map_flatMap]
    exact List.flatMap_congr ih

-- The formula has this truth for a row, and can be negated.
structure Tells (k : Collation) (row : Row) (other : String → Truth) (f : Formula) (t : Truth) : Prop where
  value      : f.value (Atom.truth k row other) = t
  reversible : ∀ a ∈ f.atoms, a.isReversible = true

namespace Tells

theorem values (h : List.Forall₂ (Tells k row other) fs ts) : valueAll (Atom.truth k row other) fs = ts := by
  induction h
  case nil => rfl
  case cons hf _ ih => rw [valueAll, hf.value, ih]

theorem reversibles (h : List.Forall₂ (Tells k row other) fs ts) :
    ∀ a ∈ atomsAll fs, a.isReversible = true := by
  induction h
  case nil =>
    intro a ha
    cases ha
  case cons hf _ ih =>
    intro a ha
    rcases List.mem_append.mp ha with ha | ha
    case inl => exact hf.reversible a ha
    case inr => exact ih a ha

theorem and (h : List.Forall₂ (Tells k row other) fs ts) : Tells k row other (.and fs) (.all ts) where
  value := congrArg Truth.all (values h)
  reversible := reversibles h

theorem or (h : List.Forall₂ (Tells k row other) fs ts) : Tells k row other (.or fs) (.any ts) where
  value := congrArg Truth.any (values h)
  reversible := reversibles h

theorem negate (h : Tells k row other f t) : Tells k row other f.negate t.not where
  value := by
    rw [value_negate fun a ha => Atom.truth_complement (h.reversible a ha), h.value]
  reversible a ha := by
    rw [atoms_negate] at ha
    obtain ⟨b, hb, rfl⟩ := List.mem_map.mp ha
    rw [Atom.isReversible_complement]
    exact h.reversible b hb

end Tells

end Formula

namespace Scope

open Condition (Term)

variable {s : Scope} {k : Collation} {row : Row} {column : ColumnRef} {other : String → Truth}

-- The value of a term for a row. Literals are read as values of the column that they are compared with.
def operand? (s : Scope) (k : Collation) (row : Row) (column : ColumnRef) (t : Term) : Option Value :=
  match s.column? t with
  | some c => some (t.cast.elim (row c) (k.cast · (row c)))
  | none => s.value? column t

mutual

-- The truth of a condition for a row; none where a term or an operator has no meaning.
def truth? (s : Scope) (k : Collation) (row : Row) : Condition → Option Truth
  | .and parts => (s.truths? k row parts).map .all
  | .or parts => (s.truths? k row parts).map .any
  | .not part => (s.truth? k row part).map .not
  | .compare left symbol right => do
    let column ← s.column? left <|> s.column? right
    pure ((← k.operator? symbol) (← s.operand? k row column left) (← s.operand? k row column right))
  | .nullTest term negated => do
    let x ← s.operand? k row (← s.column? term) term
    pure ((Truth.ofBool x.isNull).signed (!negated))
  | .quantified left symbol all list => do
    let column ← s.column? left
    let compared := (← k.operator? symbol) (← s.operand? k row column left)
    let truths := (← s.listValues? column list).map compared
    pure (if all then .all truths else .any truths)
  | .inList term list negated => do
    let column ← s.column? term
    let compared := (← k.operator? "=") (← s.operand? k row column term)
    let truths := (← list.mapM (s.operand? k row column)).map compared
    pure ((Truth.any truths).signed (!negated))

def truths? (s : Scope) (k : Collation) (row : Row) : List Condition → Option (List Truth)
  | [] => some []
  | c :: cs => do pure ((← s.truth? k row c) :: (← s.truths? k row cs))

end

theorem operand?_of_column {t : Term} {c : ColumnRef} (h : s.column? t = some c) (ht : t.isPlain = true) :
    s.operand? k row column t = some (row c) := by
  obtain ⟨operand, cast⟩ := t
  cases operand
  case column name =>
    have hcast : cast = none := by simpa [Term.isPlain] using ht
    subst hcast
    rw [operand?, h]
    rfl
  all_goals cases h

theorem operand?_of_value {t : Term} {x : Value} (h : s.value? column t = some x) :
    s.operand? k row column t = some x := by
  have hcolumn : s.column? t = none := by
    obtain ⟨operand, cast⟩ := t
    cases operand
    case literal => rfl
    all_goals cases h
  rw [operand?, hcolumn]
  exact h

-- A column of texts is not compared with a number.
def Suits (s : Scope) (column : ColumnRef) (x : Value) : Prop :=
  ((s.schema.dataType column).isText && x.isNumeric) = false

theorem suits_of_type {text : List Char} {x : Value} (h : (s.schema.dataType column).value? text = some x) :
    s.Suits column x := by
  unfold Suits
  cases htype : s.schema.dataType column
  case text =>
    rw [htype] at h
    cases h
    rfl
  all_goals rfl

theorem suits_of_literal {text : String} {cast : Option String} {x : Value}
    (h : literal? (s.schema.dataType column) text cast = some x) : s.Suits column x := by
  unfold literal? at h
  split at h
  case h_1 =>
    split at h
    case isTrue =>
      obtain ⟨d, -, rfl⟩ := Option.map_eq_some_iff.mp h
      exact Bool.and_false _
    case isFalse => exact suits_of_type h
  case h_2 =>
    obtain ⟨t, -, rfl⟩ := Option.map_eq_some_iff.mp h
    unfold Suits
    split <;> exact Bool.and_false _
  case h_3 =>
    obtain ⟨d, -, rfl⟩ := Option.map_eq_some_iff.mp h
    exact Bool.and_false _
  case h_4 =>
    split at h
    case isTrue => exact suits_of_type h
    case isFalse => cases h

theorem suits_of_value {t : Term} {x : Value} (h : s.value? column t = some x) : s.Suits column x := by
  unfold value? at h
  split at h
  case h_1 => exact suits_of_literal h
  case h_2 => cases h

theorem suits_of_date {text : List Char} {x : Value} (h : (Date.ofText? text).map Value.date = some x) :
    s.Suits column x := by
  obtain ⟨d, -, rfl⟩ := Option.map_eq_some_iff.mp h
  exact Bool.and_false _

theorem suits_of_mapM {α : Type} {read : α → Option Value} {texts : List α} {values : List Value}
    (hread : ∀ a x, read a = some x → s.Suits column x) (h : texts.mapM read = some values) :
    ∀ x ∈ values, s.Suits column x := by
  intro x hx
  obtain ⟨a, -, ha⟩ := Outcome.exists_of_forall₂ (Outcome.mapM_eq_some.mp h) x hx
  exact hread a x ha

theorem suits_of_list {list : String} {values : List Value} (h : s.listValues? column list = some values) :
    ∀ x ∈ values, s.Suits column x := by
  have htype : ∀ text x, (s.schema.dataType column).value? text = some x → s.Suits column x :=
    fun _ _ => suits_of_type
  have hdate : ∀ text x, (Date.ofText? text).map Value.date = some x → s.Suits column x :=
    fun _ _ => suits_of_date
  unfold listValues? at h
  split at h
  case h_1 =>
    obtain ⟨body, -, h⟩ := Option.bind_eq_some_iff.mp h
    obtain ⟨elements, -, h⟩ := Option.bind_eq_some_iff.mp h
    dsimp only at h
    split at h
    case isTrue => exact suits_of_mapM htype h
    case isFalse =>
      split at h
      case isTrue => exact suits_of_mapM hdate h
      case isFalse => cases h
  case h_2 =>
    have hread : ∀ text x, (if s.schema.dataType column == .date then fun text => (Date.ofText? text).map Value.date
        else (s.schema.dataType column).value?) text = some x → s.Suits column x := by
      split
      case isTrue => exact hdate
      case isFalse => exact htype
    dsimp only at h
    split at h
    case isTrue => cases h
    case isFalse =>
      split at h
      case h_1 => exact suits_of_mapM (fun _ x => hread _ x) h
      case h_2 =>
        split at h
        case isTrue => cases h
        case isFalse => exact suits_of_mapM hread h

theorem tells_predicate {comparison : Comparison} {x : Value} {positive : Bool} {f : Formula}
    (hx : s.Suits column x) (h : s.predicate? column comparison x positive = some f) :
    f.Tells k row other ((k.comparison comparison (row column) x).signed positive) := by
  unfold predicate? ColumnPredicate.on at h
  dsimp only at h
  split at h
  case isTrue =>
    cases h
    have hguard : ColumnPredicate.isGuarded
        ⟨column, s.schema.columnName column, s.schema.dataType column, comparison, x, positive⟩ = false := hx
    constructor
    case value => simp [Formula.value, Atom.truth, ColumnPredicate.truth, hguard]
    case reversible => simp [Formula.atoms, Atom.isReversible, hguard]
  case isFalse => cases h

theorem tells_membership {values : List Value} {positive : Bool} {f : Formula}
    (hvalues : ∀ x ∈ values, s.Suits column x) (h : s.membership? column values positive = some f) :
    f.Tells k row other ((Truth.any (values.map (k.comparison .eq (row column)))).signed positive) := by
  unfold membership? at h
  split at h
  case isTrue => cases h
  case isFalse =>
    obtain ⟨atoms, hatoms, h⟩ := Option.bind_eq_some_iff.mp h
    have htells : List.Forall₂ (Formula.Tells k row other) atoms
        (values.map fun x => (k.comparison .eq (row column) x).signed positive) := by
      rw [List.forall₂_map_right_iff]
      have hall := List.forall₂_and_left _ _ |>.mpr ⟨hvalues, Outcome.mapM_eq_some.mp hatoms⟩
      exact hall.flip.imp fun f x hx => tells_predicate hx.1 hx.2
    cases positive
    case true => cases h; exact .or htells
    case false =>
      cases h
      rw [Truth.signed_false, Truth.not_any, List.map_map]
      exact .and htells

theorem formulas?_eq {cs : List Condition} : s.formulas? cs = cs.mapM s.formula? := by
  induction cs
  case nil => rfl
  case cons ih => rw [formulas?, ih, List.mapM_cons]

theorem truths?_eq {cs : List Condition} : s.truths? k row cs = cs.mapM (s.truth? k row) := by
  induction cs
  case nil => rfl
  case cons ih => rw [truths?, ih, List.mapM_cons]

theorem tells_formulas {cs : List Condition} {fs : List Formula}
    (ih : ∀ c ∈ cs, ∀ f, s.formula? c = some f → ∃ t, s.truth? k row c = some t ∧ f.Tells k row other t)
    (h : s.formulas? cs = some fs) :
    ∃ ts, s.truths? k row cs = some ts ∧ List.Forall₂ (Formula.Tells k row other) fs ts := by
  rw [formulas?_eq, Outcome.mapM_eq_some] at h
  simp only [truths?_eq, Outcome.mapM_eq_some]
  induction h
  case nil => exact ⟨[], .nil, .nil⟩
  case cons c f cs fs hf _ ih' =>
    have ⟨t, ht, htells⟩ := ih c List.mem_cons_self f hf
    have ⟨ts, hts, hall⟩ := ih' fun c hc => ih c (List.mem_cons_of_mem _ hc)
    exact ⟨t :: ts, .cons ht hts, .cons htells hall⟩

variable (k row other) in
theorem tells_compare {symbol : String} {literal : Term} {f : Formula}
    (h : formula?.compare? s column symbol literal = some f) :
    ∃ relation x, k.operator? symbol = some relation ∧ s.operand? k row column literal = some x ∧
      f.Tells k row other (relation (row column) x) := by
  obtain ⟨⟨comparison, positive⟩, hsymbol, h⟩ := Option.bind_eq_some_iff.mp h
  obtain ⟨x, hx, h⟩ := Option.bind_eq_some_iff.mp h
  exact ⟨_, x, Collation.operator?_of_symbol hsymbol, operand?_of_value hx, tells_predicate (suits_of_value hx) h⟩

variable (k row other) in
theorem tells_formula {c : Condition} {f : Formula} (hplain : ∀ t ∈ c.terms, t.isPlain = true)
    (h : s.formula? c = some f) : ∃ t, s.truth? k row c = some t ∧ f.Tells k row other t := by
  induction c using Condition.rec_parts generalizing f
  case and cs ih =>
    rw [Condition.terms, Condition.termsAll_eq] at hplain
    obtain ⟨fs, hfs, rfl⟩ := Option.map_eq_some_iff.mp h
    obtain ⟨ts, hts, hall⟩ := tells_formulas (k := k) (fun c hc f hf =>
      ih c hc (fun t ht => hplain t (List.mem_flatMap.mpr ⟨c, hc, ht⟩)) hf) hfs
    exact ⟨.all ts, by rw [truth?, hts]; rfl, .and hall⟩
  case or cs ih =>
    rw [Condition.terms, Condition.termsAll_eq] at hplain
    obtain ⟨fs, hfs, rfl⟩ := Option.map_eq_some_iff.mp h
    obtain ⟨ts, hts, hall⟩ := tells_formulas (k := k) (fun c hc f hf =>
      ih c hc (fun t ht => hplain t (List.mem_flatMap.mpr ⟨c, hc, ht⟩)) hf) hfs
    exact ⟨.any ts, by rw [truth?, hts]; rfl, .or hall⟩
  case not c ih =>
    obtain ⟨f, hf, rfl⟩ := Option.map_eq_some_iff.mp h
    obtain ⟨t, ht, htells⟩ := ih hplain hf
    exact ⟨t.not, by rw [truth?, ht]; rfl, htells.negate⟩
  case compare left symbol right =>
    have hleft := hplain left (by simp [Condition.terms])
    have hright := hplain right (by simp [Condition.terms])
    rw [formula?] at h
    split at h
    case h_1 column hl hr =>
      obtain ⟨relation, x, hsymbol, hx, htells⟩ := tells_compare k row other h
      exact ⟨_, by simp [truth?, hl, hsymbol, operand?_of_column hl hleft, hx], htells⟩
    case h_2 column hl hr =>
      obtain ⟨flipped, hflip, h⟩ := Option.bind_eq_some_iff.mp h
      obtain ⟨relation, x, hsymbol, hx, htells⟩ := tells_compare k row other h
      obtain ⟨relation', _, hsymbol', hflipped, hswap⟩ := Collation.operator?_of_flip (k := k) hflip
      rw [hsymbol] at hflipped
      cases hflipped
      rw [← hswap] at htells
      exact ⟨_, by simp [truth?, hl, hr, hsymbol', operand?_of_column hr hright, hx], htells⟩
    case h_3 => cases h
  case nullTest term negated =>
    have hterm := hplain term (by simp [Condition.terms])
    rw [formula?] at h
    obtain ⟨column, hc, h⟩ := Option.bind_eq_some_iff.mp h
    have hnull : s.Suits column .null := Bool.and_false _
    have htells : f.Tells k row other ((k.comparison .is (row column) .null).signed (!negated)) :=
      tells_predicate hnull h
    rw [Collation.comparison_null] at htells
    exact ⟨_, by simp [truth?, hc, operand?_of_column hc hterm], htells⟩
  case quantified left symbol all list =>
    have hleft := hplain left (by simp [Condition.terms])
    rw [formula?] at h
    obtain ⟨column, hc, h⟩ := Option.bind_eq_some_iff.mp h
    have hlist : ∀ {positive}, (do s.membership? column (← s.listValues? column list) positive) = some f →
        ∃ values, s.listValues? column list = some values ∧
          f.Tells k row other ((Truth.any (values.map (k.comparison .eq (row column)))).signed positive) := by
      intro positive h
      obtain ⟨values, hvalues, h⟩ := Option.bind_eq_some_iff.mp h
      exact ⟨values, hvalues, tells_membership (suits_of_list hvalues) h⟩
    dsimp only at h
    split at h
    case h_1 =>
      obtain ⟨values, hvalues, htells⟩ := hlist h
      exact ⟨_, by simp [truth?, hc, hvalues, operand?_of_column hc hleft, Collation.operator?,
        Collation.comparison], htells⟩
    case h_2 | h_3 =>
      obtain ⟨values, hvalues, htells⟩ := hlist h
      rw [Truth.signed_false, Truth.not_any, List.map_map] at htells
      exact ⟨_, by simp [truth?, hc, hvalues, operand?_of_column hc hleft, Collation.operator?,
        Collation.comparison, Collation.not_ask, bne, Function.comp_def], htells⟩
    case h_4 => cases h
  case inList term list negated =>
    have hterm := hplain term (by simp [Condition.terms])
    rw [formula?] at h
    obtain ⟨column, hc, h⟩ := Option.bind_eq_some_iff.mp h
    obtain ⟨values, hvalues, h⟩ := Option.bind_eq_some_iff.mp h
    have htells : f.Tells k row other ((Truth.any (values.map (k.comparison .eq (row column)))).signed (!negated)) :=
      tells_membership (suits_of_mapM (fun _ _ => suits_of_value) hvalues) h
    have hlist : list.mapM (s.operand? k row column) = some values :=
      Outcome.mapM_eq_some.mpr ((Outcome.mapM_eq_some.mp hvalues).imp fun _ _ => operand?_of_value)
    exact ⟨_, by simp [truth?, hc, hlist, operand?_of_column hc hterm, Collation.operator?,
      Collation.comparison], htells⟩

theorem solid_predicate {comparison : Comparison} {x : Value} {positive : Bool} {f : Formula}
    (h : s.predicate? column comparison x positive = some f) : f.solid = true := by
  obtain ⟨p, -, rfl⟩ := Option.map_eq_some_iff.mp h
  rfl

theorem solidAll_of_mapM {α : Type} {read : α → Option Formula} {xs : List α} {fs : List Formula}
    (hread : ∀ x f, x ∈ xs → read x = some f → f.solid = true) (h : xs.mapM read = some fs) :
    Formula.solidAll fs = true := by
  rw [Formula.solidAll_iff]
  intro f hf
  obtain ⟨x, hx, hxf⟩ := Outcome.exists_of_forall₂ (Outcome.mapM_eq_some.mp h) f hf
  exact hread x f hx hxf

theorem isEmpty_of_mapM {α β : Type} {read : α → Option β} {xs : List α} {ys : List β}
    (h : xs.mapM read = some ys) : ys.isEmpty = xs.isEmpty := by
  cases Outcome.mapM_eq_some.mp h <;> rfl

theorem solid_membership {values : List Value} {positive : Bool} {f : Formula}
    (h : s.membership? column values positive = some f) : f.solid = true := by
  unfold membership? at h
  split at h
  case isTrue => cases h
  case isFalse hvalues =>
    obtain ⟨atoms, hatoms, h⟩ := Option.bind_eq_some_iff.mp h
    have hempty : atoms.isEmpty = false := by simpa [isEmpty_of_mapM hatoms] using hvalues
    have hall := solidAll_of_mapM (fun _ _ _ => solid_predicate) hatoms
    split at h <;>
      · cases h
        rw [Formula.solid, hempty, hall]
        rfl

theorem solid_formula {c : Condition} {f : Formula} (hc : c.filled = true) (h : s.formula? c = some f) :
    f.solid = true := by
  induction c using Condition.rec_parts generalizing f
  case and cs ih | or cs ih =>
    rw [Condition.filled, Bool.and_eq_true, Condition.filledAll_iff] at hc
    obtain ⟨fs, hfs, rfl⟩ := Option.map_eq_some_iff.mp h
    rw [formulas?_eq] at hfs
    rw [Formula.solid, isEmpty_of_mapM hfs, hc.1, solidAll_of_mapM (fun c f hmem hf => ih c hmem (hc.2 c hmem) hf) hfs]
    rfl
  case not c ih =>
    obtain ⟨f, hf, rfl⟩ := Option.map_eq_some_iff.mp h
    exact Formula.solid_negate (ih hc hf)
  case compare left symbol right =>
    rw [formula?] at h
    split at h
    case h_1 =>
      obtain ⟨_, -, h⟩ := Option.bind_eq_some_iff.mp h
      obtain ⟨x, -, h⟩ := Option.bind_eq_some_iff.mp h
      exact solid_predicate h
    case h_2 =>
      obtain ⟨flipped, -, h⟩ := Option.bind_eq_some_iff.mp h
      obtain ⟨_, -, h⟩ := Option.bind_eq_some_iff.mp h
      obtain ⟨x, -, h⟩ := Option.bind_eq_some_iff.mp h
      exact solid_predicate h
    case h_3 => cases h
  case nullTest term negated =>
    rw [formula?] at h
    obtain ⟨column, -, h⟩ := Option.bind_eq_some_iff.mp h
    exact solid_predicate h
  case quantified left symbol all list =>
    rw [formula?] at h
    obtain ⟨column, -, h⟩ := Option.bind_eq_some_iff.mp h
    dsimp only at h
    split at h
    case h_4 => cases h
    all_goals
      obtain ⟨positive, -, h⟩ := Option.bind_eq_some_iff.mp h
      obtain ⟨values, -, h⟩ := Option.bind_eq_some_iff.mp h
      exact solid_membership h
  case inList term list negated =>
    rw [formula?] at h
    obtain ⟨column, -, h⟩ := Option.bind_eq_some_iff.mp h
    obtain ⟨values, -, h⟩ := Option.bind_eq_some_iff.mp h
    exact solid_membership h

-- A condition that resolves has a truth for every row, and it is that of its formula. It is that of the clauses, too,
-- if the condition has parts throughout, as those of texts have.
theorem formula?_meaning (k : Collation) (row : Row) (other : String → Truth) {c : Condition} {f : Formula}
    (hplain : ∀ t ∈ c.terms, t.isPlain = true) (h : s.formula? c = some f) :
    s.truth? k row c = some (f.value (Atom.truth k row other)) ∧
    (c.filled = true → s.truth? k row c = some (Clauses.value (Atom.truth k row other) f.normalForm)) ∧
    ∀ text, Condition.ofText? text = some c → c.filled = true := by
  have ⟨t, ht, htells⟩ := tells_formula k row other hplain h
  refine ⟨by rw [ht, htells.value], fun hc => ?_, fun _ => Condition.filled_ofText⟩
  rw [Formula.value_normalForm (Formula.filled_of_solid (solid_formula hc h)), ht, htells.value]

-- A table of people with their names and the years and dates of their births.
def people : Scope where
  schema := .ofTables "people" [{
    name := "person"
    cardinality := 1
    isLeaf := true
    columns := [("name", .text), ("year", .integer), ("born", .date), ("seen", .dateTime)].map fun (name, dataType) =>
      { name, dataType, indexed := false, nullable := true, nullRatio := 0, least := none, greatest := none }
    keys := []
    indexes := []
  }] []
  table := 0
  aliasName := "p"
  bareLists := false

-- Integers by their order, all else is equal, and nothing matches.
def byYear : Collation where
  order
    | .integer m, .integer n => compare m n
    | _, _ => .eq
  swap x y := by
    cases x <;> cases y
    case integer.integer => exact Std.OrientedOrd.eq_swap
    all_goals rfl
  matching _ _ _ := false
  number? _ := none
  cast _ x := x

-- NOT (1900 >= p.year OR p.year IN (1950, 2000) OR NOT p.name !~~ 'A%' AND p.born IS NULL)
def modern : Condition :=
  .not (.or [
    .compare ⟨.literal "1900", none⟩ ">=" ⟨.column "p.year", none⟩,
    .inList ⟨.column "p.year", none⟩ [⟨.literal "1950", none⟩, ⟨.literal "2000", none⟩] false,
    .and [
      .not (.compare ⟨.column "name", none⟩ "!~~" ⟨.literal "A%", none⟩),
      .nullTest ⟨.column "p.born", none⟩ false]])

-- Someone without a name who was born in 1970.
def unnamed : Row
  | ⟨_, 1⟩ => .integer 1970
  | _ => .null

theorem formula?_meaning_modern : ∃ f, people.formula? modern = some f ∧
    people.truth? byYear unnamed modern = some (f.value (Atom.truth byYear unnamed fun _ => .unknown)) ∧
    people.truth? byYear unnamed modern =
      some (Clauses.value (Atom.truth byYear unnamed fun _ => .unknown) f.normalForm) := by
  have hsome : (people.formula? modern).isSome = true := by decide +kernel
  have ⟨f, hf⟩ := Option.isSome_iff_exists.mp hsome
  have ⟨hformula, hclauses, _⟩ := formula?_meaning byYear unnamed (fun _ => .unknown) (by decide) hf
  exact ⟨f, hf, hformula, hclauses rfl⟩

example : people.truth? byYear unnamed modern = some .unknown := by decide +kernel

end Scope

end Subplans
