import Subplans.Predicate.Basic
import Subplans.Proofs.Predicate.Truth

/-!
What formulas and their normal forms mean.

Once every atom is given a truth value, a formula has one (`Formula.value`) and so have clauses
(`Clauses.value`). The normal form has the value of the formula (`value_normalForm`), as the distributive law
holds for unknown values too (`value_distribute`), and the negation has the opposite value (`value_negate`).
-/

namespace Subplans

variable {v : Atom → Truth} {c d : Clause} {cs ds : Clauses}

def Clause.value (v : Atom → Truth) (c : Clause) : Truth :=
  Truth.any (c.map v)

def Clauses.value (v : Atom → Truth) (cs : Clauses) : Truth :=
  Truth.all (cs.map fun (c : Clause) => c.value v)

theorem Clause.value_append : Clause.value v (c ++ d) = (Clause.value v c).or (Clause.value v d) := by
  rw [Clause.value, List.map_append, Truth.any_append]
  rfl

namespace Clauses

@[simp] theorem value_nil : Clauses.value v [] = .holds :=
  rfl

@[simp] theorem value_cons : Clauses.value v (c :: cs) = (Clause.value v c).and (Clauses.value v cs) :=
  rfl

theorem value_append : Clauses.value v (cs ++ ds) = (Clauses.value v cs).and (Clauses.value v ds) := by
  rw [Clauses.value, List.map_append, Truth.all_append]
  rfl

end Clauses

namespace Formula

variable {f : Formula} {fs : List Formula} {a : Atom}

mutual

-- The truth of the formula where the atoms have these values.
def value (v : Atom → Truth) : Formula → Truth
  | and parts => .all (valueAll v parts)
  | or parts => .any (valueAll v parts)
  | atom a => v a

def valueAll (v : Atom → Truth) : List Formula → List Truth
  | [] => []
  | f :: fs => f.value v :: valueAll v fs

end

mutual

-- Nowhere in the formula is there an OR of nothing.
def filled : Formula → Bool
  | and parts => filledAll parts
  | or parts => !parts.isEmpty && filledAll parts
  | atom _ => true

def filledAll : List Formula → Bool
  | [] => true
  | f :: fs => f.filled && filledAll fs

end

mutual

-- Every conjunction and disjunction in the formula has parts.
def solid : Formula → Bool
  | and parts => !parts.isEmpty && solidAll parts
  | or parts => !parts.isEmpty && solidAll parts
  | atom _ => true

def solidAll : List Formula → Bool
  | [] => true
  | f :: fs => f.solid && solidAll fs

end

theorem valueAll_eq : valueAll v fs = fs.map (value v) := by
  induction fs
  case nil => rfl
  case cons ih => rw [valueAll, ih, List.map_cons]

theorem filledAll_iff : filledAll fs = true ↔ ∀ f ∈ fs, f.filled = true := by
  induction fs
  case nil => simp [filledAll]
  case cons ih => simp [filledAll, ih]

theorem solidAll_iff : solidAll fs = true ↔ ∀ f ∈ fs, f.solid = true := by
  induction fs
  case nil => simp [solidAll]
  case cons ih => simp [solidAll, ih]

theorem negateAll_eq : negateAll fs = fs.map negate := by
  induction fs
  case nil => rfl
  case cons ih => rw [negateAll, ih, List.map_cons]

theorem atomsAll_eq : atomsAll fs = fs.flatMap atoms := by
  induction fs
  case nil => rfl
  case cons ih => rw [atomsAll, ih, List.flatMap_cons]

theorem conjunction_eq : conjunction fs = fs.flatMap normalForm := by
  induction fs
  case nil => rfl
  case cons ih => rw [conjunction, ih, List.flatMap_cons]

-- Induction over a formula from its atoms up.
theorem rec_parts {motive : Formula → Prop} (and : ∀ fs, (∀ f ∈ fs, motive f) → motive (.and fs))
    (or : ∀ fs, (∀ f ∈ fs, motive f) → motive (.or fs)) (atom : ∀ a, motive (.atom a)) : ∀ f, motive f
  | .and fs => and fs fun f _ => rec_parts and or atom f
  | .or fs => or fs fun f _ => rec_parts and or atom f
  | .atom a => atom a

theorem filled_of_solid (h : f.solid = true) : f.filled = true := by
  induction f using rec_parts
  case and fs ih =>
    rw [solid, Bool.and_eq_true, solidAll_iff] at h
    exact filledAll_iff.mpr fun f hf => ih f hf (h.2 f hf)
  case or fs ih =>
    rw [solid, Bool.and_eq_true, solidAll_iff] at h
    rw [filled, h.1, Bool.true_and]
    exact filledAll_iff.mpr fun f hf => ih f hf (h.2 f hf)
  case atom => rfl

theorem mem_distribute : c ∈ distribute cs ds ↔ ∃ l ∈ cs, ∃ r ∈ ds, l ++ r = c := by
  simp [distribute]

theorem ne_nil_of_mem_disjunction (hcs : ∀ c ∈ cs, c ≠ []) : ∀ c ∈ disjunction cs fs, c ≠ [] := by
  induction fs generalizing cs
  case nil => exact hcs
  case cons f fs ih =>
    rw [disjunction]
    apply ih
    intro c hc
    obtain ⟨l, hl, r, -, rfl⟩ := mem_distribute.mp hc
    exact List.append_ne_nil_of_left_ne_nil (hcs l hl) r

theorem ne_nil_of_mem_normalForm (f : Formula) : ∀ c ∈ f.normalForm, c ≠ [] := by
  induction f using rec_parts
  case and fs ih =>
    rw [normalForm, conjunction_eq]
    intro c hc
    obtain ⟨f, hf, hc⟩ := List.mem_flatMap.mp hc
    exact ih f hf c hc
  case or =>
    rw [normalForm]
    intro c hc
    simpa using (List.mem_filter.mp hc).2
  case atom => simp [normalForm]

-- Only an OR of nothing makes an empty clause.
theorem normalForm_or (h : fs ≠ []) : (or fs).normalForm = disjunction [[]] fs := by
  rw [normalForm, List.filter_eq_self]
  obtain ⟨f, fs, rfl⟩ := List.exists_cons_of_ne_nil h
  have hfirst : ∀ c ∈ distribute [[]] f.normalForm, c ≠ [] := by
    simpa [distribute] using ne_nil_of_mem_normalForm f
  intro c hc
  rw [disjunction] at hc
  simpa using ne_nil_of_mem_disjunction hfirst c hc

theorem disjunction_atoms : disjunction [c] (d.map atom) = [c ++ d] := by
  induction d generalizing c
  case nil => simp [disjunction]
  case cons a d ih =>
    have hfirst : distribute [c] (atom a).normalForm = [c ++ [a]] := rfl
    rw [List.map_cons, disjunction, hfirst, ih, List.append_assoc]
    rfl

theorem normalForm_or_single : (or [f]).normalForm = f.normalForm := by
  rw [normalForm_or (by simp), disjunction, disjunction, distribute]
  simp

-- One clause with each of the others.
theorem value_map_append : Clauses.value v (ds.map (c ++ ·)) = (Clause.value v c).or (Clauses.value v ds) := by
  induction ds
  case nil => simp
  case cons d ds ih => rw [List.map_cons, Clauses.value_cons, Clauses.value_cons, ih, Clause.value_append, Truth.or_and]

theorem value_distribute :
    Clauses.value v (distribute cs ds) = (Clauses.value v cs).or (Clauses.value v ds) := by
  induction cs
  case nil => simp [distribute]
  case cons c cs ih =>
    have hcons : distribute (c :: cs) ds = ds.map (c ++ ·) ++ distribute cs ds := List.flatMap_cons
    rw [hcons, Clauses.value_append, value_map_append, ih, Clauses.value_cons, Truth.and_or]

theorem value_conjunction (h : ∀ f ∈ fs, Clauses.value v f.normalForm = f.value v) :
    Clauses.value v (conjunction fs) = .all (fs.map (value v)) := by
  induction fs
  case nil => rfl
  case cons f fs ih =>
    have hrest := ih fun g hg => h g (List.mem_cons_of_mem _ hg)
    rw [conjunction, Clauses.value_append, h f List.mem_cons_self, hrest, List.map_cons, Truth.all_cons]

theorem value_disjunction (h : ∀ f ∈ fs, Clauses.value v f.normalForm = f.value v) :
    Clauses.value v (disjunction cs fs) = (Clauses.value v cs).or (.any (fs.map (value v))) := by
  induction fs generalizing cs
  case nil => simp [disjunction]
  case cons f fs ih =>
    have hrest := fun g hg => h g (List.mem_cons_of_mem _ hg)
    rw [disjunction, ih hrest, value_distribute, h f List.mem_cons_self, Truth.or_assoc, List.map_cons,
      Truth.any_cons]

theorem value_normalForm (h : f.filled = true) : Clauses.value v f.normalForm = f.value v := by
  induction f using rec_parts
  case and fs ih =>
    rw [filled, filledAll_iff] at h
    rw [normalForm, value, valueAll_eq]
    exact value_conjunction fun f hf => ih f hf (h f hf)
  case or fs ih =>
    simp only [filled, Bool.and_eq_true, Bool.not_eq_true', List.isEmpty_eq_false_iff, filledAll_iff] at h
    have hempty : Clauses.value v [[]] = .fails := rfl
    rw [normalForm_or h.1, value, valueAll_eq, value_disjunction fun f hf => ih f hf (h.2 f hf), hempty,
      Truth.fails_or]
  case atom a => simp [normalForm, value, Clause.value]

theorem value_negate (h : ∀ a ∈ f.atoms, v a.complement = (v a).not) : f.negate.value v = (f.value v).not := by
  induction f using rec_parts
  case and fs ih =>
    rw [atoms, atomsAll_eq] at h
    have hparts : ∀ f ∈ fs, f.negate.value v = (f.value v).not := fun f hf =>
      ih f hf fun a ha => h a (List.mem_flatMap.mpr ⟨f, hf, ha⟩)
    rw [negate, value, value, valueAll_eq, valueAll_eq, negateAll_eq, Truth.not_all, List.map_map, List.map_map]
    exact congrArg Truth.any (List.map_congr_left hparts)
  case or fs ih =>
    rw [atoms, atomsAll_eq] at h
    have hparts : ∀ f ∈ fs, f.negate.value v = (f.value v).not := fun f hf =>
      ih f hf fun a ha => h a (List.mem_flatMap.mpr ⟨f, hf, ha⟩)
    rw [negate, value, value, valueAll_eq, valueAll_eq, negateAll_eq, Truth.not_any, List.map_map, List.map_map]
    exact congrArg Truth.all (List.map_congr_left hparts)
  case atom a => exact h a (by simp [atoms])

-- The normal form of a formula holds, fails or is unknown where the formula does, and the negation fails, holds
-- or is unknown there.
theorem normalForm_negate_meaning (v : Atom → Truth) (f : Formula) :
    (f.filled = true → Clauses.value v f.normalForm = f.value v) ∧
    ((∀ a ∈ f.atoms, v a.complement = (v a).not) → f.negate.value v = (f.value v).not) :=
  ⟨value_normalForm, value_negate⟩

-- A row for which the text `x` is unknown and all others hold.
def unknownX : Atom → Truth
  | .comparison _ => .unknown
  | .verbatim text positive => if text = "x" then .unknown else if positive then .holds else .fails

-- (x AND (NOT y OR (z AND NOT x))) OR NOT y
def nested : Formula :=
  .or [
    .and [.atom (.verbatim "x" true), .or [.atom (.verbatim "y" false),
      .and [.atom (.verbatim "z" true), .atom (.verbatim "x" false)]]],
    .atom (.verbatim "y" false)]

theorem normalForm_negate_meaning_nested : nested.filled = true ∧
    (∀ a ∈ nested.atoms, unknownX a.complement = (unknownX a).not) ∧
    Clauses.value unknownX nested.normalForm = nested.value unknownX ∧
    nested.negate.value unknownX = (nested.value unknownX).not := by
  have hfilled : nested.filled = true := by decide
  have hatoms : ∀ a ∈ nested.atoms, unknownX a.complement = (unknownX a).not := by decide
  have ⟨hnormal, hnegate⟩ := normalForm_negate_meaning unknownX nested
  exact ⟨hfilled, hatoms, hnormal hfilled, hnegate hatoms⟩

example : nested.value unknownX = .unknown := by decide

end Formula

end Subplans
