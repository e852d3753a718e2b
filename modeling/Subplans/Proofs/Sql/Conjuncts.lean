import Mathlib.Data.List.Forall2
import Subplans.Proofs.Outcome
import Subplans.Proofs.Sql.Classes

/-!
Conditions with further parentheses.

The operands of a conjunction are sorted one by one, each by a verdict on it alone (`sortCondition_verdict`).
Parentheses in a condition do not matter for that (`Padded.verdict`), but a conjunction in more than one pair of them is
taken as a single condition (`exists_nested_of_mem_conjuncts`): it gathers what would be sorted one by one otherwise
(`regrouped_conjuncts`). As long as it is on one table this makes no difference to the equalities of columns, and
nothing is left out (`Regrouped.preserves`).
-/

namespace Subplans.Sql

variable {e e' c o : Expr} {es es' fs fs' group : List Expr} {names : List Ident}

-- The text without its parentheses.
def unparenthesized (text : String) : List Char :=
  text.toList.filter fun c => c != '(' && c != ')'

theorem unparenthesized_append (a b : String) : unparenthesized (a ++ b) = unparenthesized a ++ unparenthesized b := by
  simp [unparenthesized]

-- The second expression is the first one with further parentheses around any expressions in it. Of other forms of
-- expressions only the text is known, and the columns in them.
inductive Padded : Expr → Expr → Prop
  | column (names : List Ident) : Padded (.column names) (.column names)
  | nested {e e' : Expr} : Padded e e' → Padded (.nested e) (.nested e')
  | binary {left left' right right' : Expr} (symbol : String) : Padded left left' → Padded right right' →
    Padded (.binary left symbol right) (.binary left' symbol right')
  | between {operand operand' low low' high high' : Expr} (negated : Bool) : Padded operand operand' →
    Padded low low' → Padded high high' → Padded (.between negated operand low high) (.between negated operand' low' high')
  | other {text text' : String} {parts parts' : List Expr} : unparenthesized text' = unparenthesized text →
    Expr.columnsAll parts' = Expr.columnsAll parts → Padded (.other text parts) (.other text' parts')
  | added {e e' : Expr} : Padded e e' → Padded e (.nested e')

namespace Expr

-- Without the parentheses around it the expression is a conjunction.
def IsConjunction (e : Expr) : Prop :=
  ∃ left right, e.bare = .binary left "AND" right

-- The operands of the outermost ANDs, in however many parentheses.
def operands : Expr → List Expr
  | nested inner => inner.operands
  | binary left "AND" right => left.operands ++ right.operands
  | e => [e]

theorem bare_ne_nested (e e' : Expr) : e.bare ≠ .nested e' := by
  fun_induction bare e
  case case1 ih => exact ih
  case case2 hne => exact hne e'

theorem columns_bare (e : Expr) : e.bare.columns = e.columns := by
  fun_induction bare e
  case case1 inner ih => rw [ih, columns]
  case case2 => rfl

theorem conjuncts_of_not_isConjunction (h : ¬e.IsConjunction) : e.conjuncts = [e] := by
  fun_cases conjuncts e
  case case1 left right => exact absurd ⟨left, right, rfl⟩ h
  case case2 left right => exact absurd ⟨left, right, rfl⟩ h
  case case3 => rfl

theorem conjuncts_nested {inner : Expr} (h : ∀ left right, inner ≠ .binary left "AND" right) :
    (nested inner).conjuncts = [nested inner] := by
  rw [conjuncts]
  · exact nofun
  · rintro left right ⟨⟩
    exact h left right rfl

-- A conjunction is parted unless it stands in two pairs of parentheses.
theorem exists_nested_of_mem_conjuncts (hc : c ∈ e.conjuncts) (h : c.IsConjunction) :
    ∃ inner, c = .nested (.nested inner) := by
  obtain ⟨left, right, hbare⟩ := h
  fun_induction conjuncts e
  case case1 ih ih' => exact (List.mem_append.mp hc).elim ih ih'
  case case2 ih ih' => exact (List.mem_append.mp hc).elim ih ih'
  case case3 e hne hne' =>
    cases List.mem_singleton.mp hc
    cases c
    case column | between | other => cases hbare
    case binary =>
      cases hbare
      exact absurd rfl (hne left right)
    case nested inner =>
      cases inner
      case column | between | other => cases hbare
      case binary =>
        cases hbare
        exact absurd rfl (hne' left right)
      case nested inner => exact ⟨inner, rfl⟩

theorem operands_binary {left right : Expr} {symbol : String} (h : symbol ≠ "AND") :
    (binary left symbol right).operands = [binary left symbol right] := by
  simp [operands, h]

-- What the operands that are parted have in common is in the operands of the whole.
theorem flatMap_operands_conjuncts (e : Expr) : e.conjuncts.flatMap operands = e.operands := by
  fun_induction conjuncts e
  case case1 ih ih' => rw [List.flatMap_append, ih, ih', operands]
  case case2 ih ih' => rw [List.flatMap_append, ih, ih', operands, operands]
  case case3 => simp

theorem flatMap_columns_conjuncts (e : Expr) : e.conjuncts.flatMap columns = e.columns := by
  fun_induction conjuncts e
  case case1 ih ih' => rw [List.flatMap_append, ih, ih', columns]
  case case2 ih ih' => rw [List.flatMap_append, ih, ih', columns, columns]
  case case3 => simp

end Expr

open Sql.Expr

namespace Padded

protected theorem refl : (e : Expr) → Padded e e
  | .column names => .column names
  | .nested inner => .nested (Padded.refl inner)
  | .binary left symbol right => .binary symbol (Padded.refl left) (Padded.refl right)
  | .between negated operand low high =>
    .between negated (Padded.refl operand) (Padded.refl low) (Padded.refl high)
  | .other _ _ => .other rfl rfl

theorem columns (h : Padded e e') : e'.columns = e.columns := by
  induction h
  case column => rfl
  case nested ih => rw [Expr.columns, Expr.columns, ih]
  case binary ih ih' => rw [Expr.columns, Expr.columns, ih, ih']
  case between ih ih' ih'' => rw [Expr.columns, Expr.columns, ih, ih', ih'']
  case other hcolumns => rw [Expr.columns, Expr.columns, hcolumns]
  case added ih => rw [Expr.columns, ih]

-- Both are written alike but for parentheses.
theorem text (h : Padded e e') : unparenthesized e'.text = unparenthesized e.text := by
  have hopening : unparenthesized "(" = [] := by decide
  have hclosing : unparenthesized ")" = [] := by decide
  induction h
  case column => rfl
  case nested ih => simp only [Expr.text, unparenthesized_append, ih]
  case binary ih ih' => simp only [Expr.text, unparenthesized_append, ih, ih']
  case between ih ih' ih'' => simp only [Expr.text, unparenthesized_append, ih, ih', ih'']
  case other htext _ => exact htext
  case added ih => simp [Expr.text, unparenthesized_append, ih, hopening, hclosing]

theorem bare (h : Padded e e') : Padded e.bare e'.bare := by
  induction h
  case column => exact .column _
  case nested ih => exact ih
  case binary hl hr _ _ => exact .binary _ hl hr
  case between hoperand hlow hhigh _ _ _ => exact .between _ hoperand hlow hhigh
  case other htext hcolumns => exact .other htext hcolumns
  case added ih => exact ih

theorem isConjunction (h : Padded e e') (he : e.IsConjunction) : e'.IsConjunction := by
  obtain ⟨left, right, hbare⟩ := he
  have hpadded := h.bare
  rw [hbare] at hpadded
  generalize hx : e'.bare = x at hpadded
  cases hpadded
  case binary left' right' _ _ => exact ⟨left', right', hx⟩
  case added => exact absurd hx (bare_ne_nested e' _)

theorem operands (h : Padded e e') : List.Forall₂ Padded e.operands e'.operands := by
  induction h
  case column => exact .cons (.column _) .nil
  case nested ih => exact ih
  case added ih => exact ih
  case binary left left' right right' symbol hl hr ih ih' =>
    by_cases hand : symbol = "AND"
    case pos =>
      subst hand
      exact List.rel_append ih ih'
    case neg =>
      rw [operands_binary hand, operands_binary hand]
      exact .cons (.binary symbol hl hr) .nil
  case between hoperand hlow hhigh _ _ _ => exact .cons (.between _ hoperand hlow hhigh) .nil
  case other htext hcolumns => exact .cons (.other htext hcolumns) .nil

end Padded

-- One condition stands for several that stood next to each other.
inductive Gathers : List Expr → Expr → Prop
  | padded {e e' : Expr} : Padded e e' → Gathers [e] e'
  | conjunction {group : List Expr} {e' : Expr} : e'.IsConjunction → group.flatMap Expr.columns = e'.columns →
    List.Forall₂ Padded (group.flatMap Expr.operands) e'.operands → Gathers group e'

inductive Regrouped : List Expr → List Expr → Prop
  | nil : Regrouped [] []
  | cons {group es es' : List Expr} {e' : Expr} : Gathers group e' → Regrouped es es' →
    Regrouped (group ++ es) (e' :: es')

theorem Regrouped.append (h : Regrouped es es') (h' : Regrouped fs fs') : Regrouped (es ++ fs) (es' ++ fs') := by
  induction h
  case nil => exact h'
  case cons hgathers _ ih =>
    rw [List.append_assoc, List.cons_append]
    exact .cons hgathers ih

theorem gathers_conjuncts (h : Padded e e') : Gathers e.conjuncts e' := by
  by_cases hconj : e'.IsConjunction
  case pos =>
    refine .conjunction hconj ?_ ?_
    · rw [flatMap_columns_conjuncts, h.columns]
    · rw [flatMap_operands_conjuncts]
      exact h.operands
  case neg =>
    rw [conjuncts_of_not_isConjunction fun he => hconj (h.isConjunction he)]
    exact .padded h

theorem Gathers.regrouped (h : Gathers group e') : Regrouped group [e'] := by
  have hregrouped := Regrouped.cons h .nil
  rwa [List.append_nil] at hregrouped

-- Where the padded condition is parted the other one is parted, too.
theorem regrouped_conjuncts (h : Padded e e') : Regrouped e.conjuncts e'.conjuncts := by
  induction h
  case column names => exact (gathers_conjuncts (.column names)).regrouped
  case between hoperand hlow hhigh _ _ _ => exact (gathers_conjuncts (.between _ hoperand hlow hhigh)).regrouped
  case other htext hcolumns => exact (gathers_conjuncts (.other htext hcolumns)).regrouped
  case binary symbol hl hr ih ih' =>
    by_cases hand : symbol = "AND"
    case pos =>
      subst hand
      exact ih.append ih'
    case neg =>
      have hone := (gathers_conjuncts (.binary symbol hl hr)).regrouped
      simpa [conjuncts, hand] using hone
  case nested inner inner' hinner ih =>
    by_cases hand : ∃ left right, inner' = .binary left "AND" right
    case pos =>
      obtain ⟨left', right', rfl⟩ := hand
      cases hinner
      exact ih
    case neg =>
      have hone := (gathers_conjuncts (.nested hinner)).regrouped
      rwa [conjuncts_nested fun left right heq => hand ⟨left, right, heq⟩]
  case added inner inner' hinner ih =>
    by_cases hand : ∃ left right, inner' = .binary left "AND" right
    case pos =>
      obtain ⟨left', right', rfl⟩ := hand
      exact ih
    case neg =>
      have hone := (gathers_conjuncts (.added hinner)).regrouped
      rwa [conjuncts_nested fun left right heq => hand ⟨left, right, heq⟩]

variable {s : Schema} {tables : List FromTable} {p q : Slot} {i : Nat} {nodes : List Nat} {sorted sorted' : Sorted}

-- What becomes of a condition: it says that columns of different tables are equal, it restricts a table, or it is
-- dropped.
inductive Verdict
  | equal (p q : Slot)
  | restricts (i : Nat)
  | dropped
deriving DecidableEq

namespace Verdict

-- By the nodes of the columns in the condition.
def ofNodes (nodes : List Nat) : Verdict :=
  match nodes.eraseDups with
  | [i] => .restricts i
  | _ => .dropped

theorem mem_of_ofNodes (h : ofNodes nodes = .restricts i) : i ∈ nodes ∧ ∀ n ∈ nodes, n = i := by
  unfold ofNodes at h
  split at h
  case h_1 j hj =>
    cases h
    have hmem : ∀ n, n ∈ nodes ↔ n = i := fun n => by rw [← List.mem_eraseDups, hj, List.mem_singleton]
    exact ⟨(hmem i).mpr rfl, fun n => (hmem n).mp⟩
  case h_2 => cases h

theorem ofNodes_of_forall (hne : nodes ≠ []) (h : ∀ n ∈ nodes, n = i) : ofNodes nodes = .restricts i := by
  cases nodes
  case nil => exact absurd rfl hne
  case cons n nodes =>
    obtain ⟨rfl, h⟩ := List.forall_mem_cons.mp h
    have hrest : nodes.filter (fun k => !k == n) = [] := by simpa using h
    simp [ofNodes, List.eraseDups_cons, hrest]

end Verdict

def verdict (s : Schema) (tables : List FromTable) (c : Expr) : Except GraphError Verdict := do
  match ← columnEquality s tables c with
  | some (p, q) => if p.node != q.node then return .equal p q
  | none => pure ()
  return .ofNodes ((← c.columns.mapM (slotOf s tables)).map Slot.node)

theorem verdict_equal (h : columnEquality s tables c = .ok (some (p, q))) (hne : p.node ≠ q.node) :
    verdict s tables c = .ok (.equal p q) := by
  rw [verdict, h]
  change (if p.node != q.node then _ else _) = _
  rw [if_pos (bne_iff_ne.mpr hne)]
  rfl

def Sorted.add (sorted : Sorted) (c : Expr) : Verdict → Sorted
  | .equal p q => { sorted with classes := equate sorted.classes p q }
  | .restricts i => { sorted with texts := sorted.texts ++ (conditionTexts c).map (i, ·) }
  | .dropped => sorted

theorem sortCondition_verdict : sortCondition s tables sorted c = (verdict s tables c).map (sorted.add c) := by
  have hrest : (do
      match ((← c.columns.mapM (slotOf s tables)).map Slot.node).eraseDups with
      | [i] => return { sorted with texts := sorted.texts ++ (conditionTexts c).map (i, ·) }
      | _ => return sorted : Except GraphError Sorted) =
      (do return Verdict.ofNodes ((← c.columns.mapM (slotOf s tables)).map Slot.node) :
        Except GraphError Verdict).map (sorted.add c) := by
    cases c.columns.mapM (slotOf s tables)
    case error => rfl
    case ok slots =>
      change (match (slots.map Slot.node).eraseDups with | [i] => _ | _ => _) = Except.ok (sorted.add c (.ofNodes _))
      unfold Verdict.ofNodes
      split <;> rfl
  unfold sortCondition verdict
  rcases columnEquality s tables c with _ | _ | ⟨p, q⟩
  case error => rfl
  case ok.none => exact hrest
  case ok.some =>
    by_cases hne : p.node != q.node
    case pos =>
      change (if p.node != q.node then _ else _) = Except.map _ (if p.node != q.node then _ else _)
      rw [if_pos hne, if_pos hne]
      rfl
    case neg =>
      change (if p.node != q.node then _ else _) = Except.map _ (if p.node != q.node then _ else _)
      rw [if_neg hne, if_neg hne]
      exact hrest

theorem columnOf_some (h : columnOf s tables e = .ok (some p)) :
    ∃ names, e = .column names ∧ slotOf s tables names = .ok p := by
  unfold columnOf at h
  split at h
  case h_1 names =>
    cases hslot : slotOf s tables names
    case error => simp [hslot, Except.map] at h
    case ok r =>
      rw [hslot] at h
      cases h
      exact ⟨names, rfl, hslot⟩
  case h_2 => cases h

-- The only columns of an equality are its sides.
theorem columnEquality_some (h : columnEquality s tables c = .ok (some (p, q))) :
    ∃ a b, c.columns = [a, b] ∧ slotOf s tables a = .ok p ∧ slotOf s tables b = .ok q := by
  unfold columnEquality at h
  split at h
  case h_1 left right hbare =>
    have ⟨l, hl, h⟩ := Outcome.bind_eq_ok.mp h
    have ⟨r, hr, h⟩ := Outcome.bind_eq_ok.mp h
    split at h
    case h_1 =>
      cases h
      have ⟨a, hleft, ha⟩ := columnOf_some hl
      have ⟨b, hright, hb⟩ := columnOf_some hr
      refine ⟨a, b, ?_, ha, hb⟩
      rw [← columns_bare, hbare, columns, ← columns_bare left, ← columns_bare right, hleft, hright]
      rfl
    case h_2 => cases h
  case h_2 => cases h

theorem columnEquality_of_isConjunction (h : c.IsConjunction) : columnEquality s tables c = .ok none := by
  obtain ⟨left, right, hbare⟩ := h
  simp [columnEquality, hbare]

-- The condition has a column that belongs to the slot.
def Has (s : Schema) (tables : List FromTable) (c : Expr) (p : Slot) : Prop :=
  ∃ names ∈ c.columns, slotOf s tables names = .ok p

-- All columns of the condition belong to slots.
def Known (s : Schema) (tables : List FromTable) (c : Expr) : Prop :=
  ∀ names ∈ c.columns, ∃ p, slotOf s tables names = .ok p

-- The verdict is right for a condition that has these slots.
def Verdict.Fits (P : Slot → Prop) : Verdict → Prop
  | equal p q => P p ∧ P q ∧ p.node ≠ q.node
  | restricts i => (∃ p, P p) ∧ ∀ p, P p → p.node = i
  | dropped => ∀ p, P p → ∃ q, P q ∧ p.node ≠ q.node

theorem Verdict.fits_ofNodes {P : Slot → Prop} {slots : List Slot} (h : ∀ p, p ∈ slots ↔ P p) :
    (ofNodes (slots.map Slot.node)).Fits P := by
  cases hv : ofNodes (slots.map Slot.node)
  case equal =>
    unfold ofNodes at hv
    split at hv <;> cases hv
  case restricts i =>
    have ⟨hmem, hall⟩ := mem_of_ofNodes hv
    have ⟨p, hp, _⟩ := List.mem_map.mp hmem
    exact ⟨⟨p, (h p).mp hp⟩, fun p hp => hall _ (List.mem_map_of_mem ((h p).mpr hp))⟩
  case dropped =>
    intro p hp
    by_contra hne
    push Not at hne
    have hone : ∀ n ∈ slots.map Slot.node, n = p.node := by
      simp only [List.forall_mem_map]
      exact fun q hq => (hne q ((h q).mp hq)).symm
    rw [ofNodes_of_forall (List.ne_nil_of_mem (List.mem_map_of_mem ((h p).mpr hp))) hone] at hv
    cases hv

theorem slots_of_mapM {slots : List Slot} (h : c.columns.mapM (slotOf s tables) = .ok slots) :
    Known s tables c ∧ ∀ p, p ∈ slots ↔ Has s tables c p := by
  have hall := Outcome.mapM_eq_ok.mp h
  have hknown : ∀ names ∈ c.columns, ∃ p ∈ slots, slotOf s tables names = .ok p :=
    Outcome.exists_of_forall₂ hall.flip
  refine ⟨fun names hnames => ?_, fun p => ⟨Outcome.exists_of_forall₂ hall p, ?_⟩⟩
  · have ⟨p, _, hp⟩ := hknown names hnames
    exact ⟨p, hp⟩
  · rintro ⟨names, hnames, hp⟩
    have ⟨q, hq, hslot⟩ := hknown names hnames
    cases hp.symm.trans hslot
    exact hq

theorem verdict_fits {v : Verdict} (h : verdict s tables c = .ok v) : Known s tables c ∧ v.Fits (Has s tables c) := by
  have hrest : (do return .ofNodes ((← c.columns.mapM (slotOf s tables)).map Slot.node) :
      Except GraphError Verdict) = .ok v → Known s tables c ∧ v.Fits (Has s tables c) := by
    intro h
    have ⟨slots, hslots, h⟩ := Outcome.bind_eq_ok.mp h
    cases h
    have ⟨hknown, hhas⟩ := slots_of_mapM hslots
    exact ⟨hknown, Verdict.fits_ofNodes hhas⟩
  have ⟨found, hfound, h⟩ := Outcome.bind_eq_ok.mp h
  rcases found with _ | ⟨p, q⟩
  case none => exact hrest h
  case some =>
    by_cases hne : p.node != q.node
    case pos =>
      dsimp only at h
      rw [if_pos hne] at h
      cases h
      have ⟨a, b, hcolumns, ha, hb⟩ := columnEquality_some hfound
      refine ⟨?_, ⟨a, by simp [hcolumns], ha⟩, ⟨b, by simp [hcolumns], hb⟩, bne_iff_ne.mp hne⟩
      simp only [Known, hcolumns, List.forall_mem_cons]
      exact ⟨⟨p, ha⟩, ⟨q, hb⟩, nofun⟩
    case neg =>
      dsimp only at h
      rw [if_neg hne] at h
      exact hrest h

theorem exists_verdict_of_isConjunction (hc : c.IsConjunction) (hknown : Known s tables c) :
    ∃ v, verdict s tables c = .ok v := by
  have ⟨slots, hslots⟩ := Outcome.exists_forall₂ hknown
  have hslots := Outcome.mapM_eq_ok.mpr hslots
  exact ⟨.ofNodes (slots.map Slot.node), by simp [verdict, columnEquality_of_isConjunction hc, hslots]; rfl⟩

namespace Padded

theorem columnOf (h : Padded e e') : columnOf s tables e'.bare = columnOf s tables e.bare := by
  have hbare := h.bare
  have hne := bare_ne_nested e'
  generalize e.bare = x, e'.bare = y at hbare hne
  cases hbare
  case column | binary | between | other => rfl
  case nested | added => exact absurd rfl (hne _)

theorem columnEquality (h : Padded e e') : columnEquality s tables e' = columnEquality s tables e := by
  have hbare := h.bare
  have hne := bare_ne_nested e'
  unfold Sql.columnEquality
  generalize e.bare = x, e'.bare = y at hbare hne
  cases hbare
  case column | between | other => rfl
  case nested | added => exact absurd rfl (hne _)
  case binary symbol hl hr =>
    by_cases heq : symbol = "="
    case pos =>
      subst heq
      simp only [hl.columnOf, hr.columnOf]
    case neg => simp [heq]

theorem verdict (h : Padded e e') : verdict s tables e' = verdict s tables e := by
  rw [Sql.verdict, Sql.verdict, h.columnEquality, h.columns]

end Padded

-- What the conditions say of columns of different tables.
def equalities (s : Schema) (tables : List FromTable) (conditions : List Expr) : List (Slot × Slot) :=
  conditions.flatMap fun c => match verdict s tables c with
    | .ok (.equal p q) => [(p, q)]
    | _ => []

-- The texts of the conditions on a table.
def textsOn (s : Schema) (tables : List FromTable) (conditions : List Expr) (i : Nat) : List String :=
  conditions.flatMap fun c => if verdict s tables c = .ok (.restricts i) then conditionTexts c else []

-- All columns of the condition are of one table.
def OneTable (s : Schema) (tables : List FromTable) (c : Expr) : Prop :=
  ∀ p q, Has s tables c p → Has s tables c q → p.node = q.node

-- No conjunction that is taken as a single condition is on several tables.
def Parted (s : Schema) (tables : List FromTable) (conditions : List Expr) : Prop :=
  ∀ c ∈ conditions, c.IsConjunction → OneTable s tables c

-- All of the conditions have a verdict, and each that is not dropped is kept by one of the other conditions: by one with
-- the same verdict that says the same or more.
def Kept (s : Schema) (tables : List FromTable) (conditions conditions' : List Expr) : Prop :=
  ∀ c ∈ conditions, ∃ v, verdict s tables c = .ok v ∧ (v ≠ .dropped →
    ∃ c' ∈ conditions', verdict s tables c' = .ok v ∧ ∀ o ∈ c.operands, ∃ o' ∈ c'.operands, Padded o o')

def Judged (s : Schema) (tables : List FromTable) (conditions : List Expr) : Prop :=
  ∀ c ∈ conditions, ∃ v, verdict s tables c = .ok v

-- What does not change if other conditions take the place of some.
structure Preserves (s : Schema) (tables : List FromTable) (es es' : List Expr) : Prop where
  judged     : Judged s tables es'
  equalities : equalities s tables es' = equalities s tables es
  kept       : Kept s tables es es'

theorem equalities_append : equalities s tables (es ++ fs) = equalities s tables es ++ equalities s tables fs :=
  List.flatMap_append

theorem Preserves.append (h : Preserves s tables es es') (h' : Preserves s tables fs fs') :
    Preserves s tables (es ++ fs) (es' ++ fs') where
  judged := List.forall_mem_append.mpr ⟨h.judged, h'.judged⟩
  equalities := by rw [equalities_append, equalities_append, h.equalities, h'.equalities]
  kept := by
    refine List.forall_mem_append.mpr ⟨fun c hc => ?_, fun c hc => ?_⟩
    · have ⟨v, hv, hkept⟩ := h.kept c hc
      refine ⟨v, hv, fun hne => ?_⟩
      have ⟨c', hc', hrest⟩ := hkept hne
      exact ⟨c', List.mem_append_left fs' hc', hrest⟩
    · have ⟨v, hv, hkept⟩ := h'.kept c hc
      refine ⟨v, hv, fun hne => ?_⟩
      have ⟨c', hc', hrest⟩ := hkept hne
      exact ⟨c', List.mem_append_right es' hc', hrest⟩

namespace OneTable

theorem mono (h : OneTable s tables c') (hle : ∀ p, Has s tables c p → Has s tables c' p) : OneTable s tables c :=
  fun p q hp hq => h p q (hle p hp) (hle q hq)

theorem verdict_ne (h : OneTable s tables c) : verdict s tables c ≠ .ok (.equal p q) := by
  intro hv
  obtain ⟨hp, hq, hne⟩ := (verdict_fits hv).2
  exact hne (h p q hp hq)

theorem equalities (h : OneTable s tables c) : equalities s tables [c] = [] := by
  cases hv : verdict s tables c
  case error => simp [Sql.equalities, hv]
  case ok v =>
    cases v
    case equal => exact absurd hv h.verdict_ne
    case restricts | dropped => simp [Sql.equalities, hv]

-- A condition with some of the columns has the same verdict, unless it is dropped.
theorem verdict_eq (h : OneTable s tables c') (hle : ∀ p, Has s tables c p → Has s tables c' p) {v v' : Verdict}
    (hv : verdict s tables c = .ok v) (hv' : verdict s tables c' = .ok v') (hne : v ≠ .dropped) : v' = v := by
  cases v
  case equal => exact absurd hv (h.mono hle).verdict_ne
  case dropped => exact absurd rfl hne
  case restricts i =>
    obtain ⟨⟨p, hp⟩, hall⟩ := (verdict_fits hv).2
    have hfits := (verdict_fits hv').2
    cases v'
    case equal => exact absurd hv' h.verdict_ne
    case dropped =>
      have ⟨q, hq, hne⟩ := hfits p (hle p hp)
      exact absurd (h p q (hle p hp) hq) hne
    case restricts j => rw [← hfits.2 p (hle p hp), hall p hp]

end OneTable

theorem preserves_of_padded (h : Padded e e') (he : Judged s tables [e]) : Preserves s tables [e] [e'] := by
  obtain ⟨v, hv⟩ := he e (List.mem_singleton_self e)
  have hv' : verdict s tables e' = .ok v := h.verdict.trans hv
  constructor
  case judged => simpa [Judged] using ⟨v, hv'⟩
  case equalities => simp [equalities, hv, hv']
  case kept =>
    intro c hc
    cases List.mem_singleton.mp hc
    exact ⟨v, hv, fun _ => ⟨e', List.mem_singleton_self e', hv', Outcome.exists_of_forall₂ h.operands.flip⟩⟩

-- Of the conditions that a conjunction gathers none is an equality, as all of them are on one table.
theorem preserves_of_conjunction (hconj : e'.IsConjunction) (hcolumns : group.flatMap columns = e'.columns)
    (hoperands : List.Forall₂ Padded (group.flatMap operands) e'.operands) (hone : OneTable s tables e')
    (hgroup : Judged s tables group) : Preserves s tables group [e'] := by
  have hmem : ∀ c ∈ group, ∀ names ∈ c.columns, names ∈ e'.columns :=
    fun c hc names hnames => hcolumns ▸ List.mem_flatMap.mpr ⟨c, hc, hnames⟩
  have hle : ∀ c ∈ group, ∀ p, Has s tables c p → Has s tables e' p :=
    fun c hc p ⟨names, hnames, hp⟩ => ⟨names, hmem c hc names hnames, hp⟩
  have hknown : Known s tables e' := by
    intro names hnames
    have ⟨c, hc, hnames⟩ := List.mem_flatMap.mp (hcolumns ▸ hnames)
    have ⟨v, hv⟩ := hgroup c hc
    exact (verdict_fits hv).1 names hnames
  have ⟨v', hv'⟩ := exists_verdict_of_isConjunction hconj hknown
  constructor
  case judged => simpa [Judged] using ⟨v', hv'⟩
  case equalities =>
    rw [hone.equalities, eq_comm, equalities, List.flatMap_eq_nil_iff]
    intro c hc
    simpa [equalities] using (hone.mono (hle c hc)).equalities
  case kept =>
    intro c hc
    have ⟨v, hv⟩ := hgroup c hc
    refine ⟨v, hv, fun hne => ⟨e', List.mem_singleton_self e', ?_, fun o ho => ?_⟩⟩
    · rw [hv', hone.verdict_eq (hle c hc) hv hv' hne]
    · exact Outcome.exists_of_forall₂ hoperands.flip o (List.mem_flatMap.mpr ⟨c, hc, ho⟩)

theorem Regrouped.preserves (h : Regrouped es es') (hparted : Parted s tables es') (hes : Judged s tables es) :
    Preserves s tables es es' := by
  induction h
  case nil => exact ⟨nofun, rfl, nofun⟩
  case cons group es es' e' hgathers _ ih =>
    obtain ⟨hone, hparted⟩ := List.forall_mem_cons.mp hparted
    obtain ⟨hgroup, hes⟩ := List.forall_mem_append.mp hes
    rw [← List.singleton_append]
    refine Preserves.append ?_ (ih hparted hes)
    cases hgathers
    case padded hpadded => exact preserves_of_padded hpadded hgroup
    case conjunction hconj hcolumns hoperands =>
      exact preserves_of_conjunction hconj hcolumns hoperands (hone hconj) hgroup

theorem sortConditions_ok {conditions : List Expr} (h : conditions.foldlM (sortCondition s tables) sorted = .ok sorted') :
    Judged s tables conditions ∧ sorted'.classes = equateAll sorted.classes (equalities s tables conditions) ∧
      ∀ i, (sorted'.texts.filter (·.1 == i)).map Prod.snd =
        (sorted.texts.filter (·.1 == i)).map Prod.snd ++ textsOn s tables conditions i := by
  induction conditions generalizing sorted
  case nil =>
    cases Outcome.pure_eq_ok.mp h
    exact ⟨nofun, rfl, fun i => (List.append_nil _).symm⟩
  case cons c conditions ih =>
    have ⟨next, hnext, h⟩ := Outcome.bind_eq_ok.mp h
    have ⟨hjudged, hclasses, htexts⟩ := ih h
    rw [sortCondition_verdict] at hnext
    cases hv : verdict s tables c
    case error => simp [hv, Except.map] at hnext
    case ok v =>
      rw [hv] at hnext
      cases hnext
      refine ⟨List.forall_mem_cons.mpr ⟨⟨v, hv⟩, hjudged⟩, ?_, fun i => ?_⟩
      · rw [hclasses]
        cases v <;> simp [equalities, hv, Sorted.add, equateAll]
      · rw [htexts]
        cases v
        case equal | dropped => simp [textsOn, hv, Sorted.add]
        case restricts j =>
          by_cases hij : j = i
          case pos => simp [textsOn, hv, Sorted.add, hij, List.filter_map, Function.comp_def]
          case neg => simp [textsOn, hv, Sorted.add, hij, List.filter_map, Function.comp_def]

theorem exists_sortConditions {conditions : List Expr} (sorted : Sorted) (h : Judged s tables conditions) :
    ∃ sorted', conditions.foldlM (sortCondition s tables) sorted = .ok sorted' := by
  induction conditions generalizing sorted
  case nil => exact ⟨sorted, rfl⟩
  case cons c conditions ih =>
    obtain ⟨⟨v, hv⟩, h⟩ := List.forall_mem_cons.mp h
    have ⟨sorted', hrest⟩ := ih (sorted.add c v) h
    exact ⟨sorted', Outcome.bind_eq_ok.mpr ⟨_, by rw [sortCondition_verdict, hv]; rfl, hrest⟩⟩

end Subplans.Sql
