import Mathlib.Data.List.Flatten
import Subplans.Proofs.Predicate.Meaning

/-!
Normal forms are canonical.

The clauses of a normal form are not empty, and clauses that are not empty are their own normal form
(`normalForm_ofClauses`). An atom is lost on the way to the normal form only next to a conjunction or disjunction
without parts, as the clauses of one formula are joined to each clause of another one (`mem_flatten_distribute`).
-/

namespace Subplans.Formula

variable {f : Formula} {fs : List Formula} {a : Atom} {c : Clause} {cs ds : Clauses}

theorem normalForm_clause (h : c ≠ []) : (or (c.map atom)).normalForm = [c] := by
  rw [normalForm_or (by simpa using h), disjunction_atoms, List.nil_append]

theorem normalForm_ofClauses (h : ∀ c ∈ cs, c ≠ []) : (ofClauses cs).normalForm = cs := by
  rw [ofClauses, normalForm, conjunction_eq, List.flatMap_map]
  induction cs
  case nil => rfl
  case cons c cs ih =>
    rw [List.forall_mem_cons] at h
    rw [List.flatMap_cons, normalForm_clause h.1, ih h.2, List.singleton_append]

theorem distribute_ne_nil (hcs : cs ≠ []) (hds : ds ≠ []) : distribute cs ds ≠ [] := by
  obtain ⟨c, hc⟩ := List.exists_mem_of_ne_nil cs hcs
  obtain ⟨d, hd⟩ := List.exists_mem_of_ne_nil ds hds
  exact List.ne_nil_of_mem (mem_distribute.mpr ⟨c, hc, d, hd, rfl⟩)

-- Every clause of either side is part of some clause of the result.
theorem mem_flatten_distribute (hcs : cs ≠ []) (hds : ds ≠ []) :
    a ∈ (distribute cs ds).flatten ↔ a ∈ cs.flatten ∨ a ∈ ds.flatten := by
  simp only [List.mem_flatten, mem_distribute]
  constructor
  · rintro ⟨_, ⟨l, hl, r, hr, rfl⟩, ha⟩
    rcases List.mem_append.mp ha with ha | ha
    case inl => exact .inl ⟨l, hl, ha⟩
    case inr => exact .inr ⟨r, hr, ha⟩
  · obtain ⟨c, hc⟩ := List.exists_mem_of_ne_nil cs hcs
    obtain ⟨d, hd⟩ := List.exists_mem_of_ne_nil ds hds
    rintro (⟨l, hl, ha⟩ | ⟨r, hr, ha⟩)
    case inl => exact ⟨l ++ d, ⟨l, hl, d, hd, rfl⟩, List.mem_append_left d ha⟩
    case inr => exact ⟨c ++ r, ⟨c, hc, r, hr, rfl⟩, List.mem_append_right c ha⟩

theorem disjunction_ne_nil (hcs : cs ≠ []) (hfs : ∀ f ∈ fs, f.normalForm ≠ []) : disjunction cs fs ≠ [] := by
  induction fs generalizing cs
  case nil => exact hcs
  case cons f fs ih =>
    rw [List.forall_mem_cons] at hfs
    exact ih (distribute_ne_nil hcs hfs.1) hfs.2

theorem mem_flatten_disjunction (hcs : cs ≠ []) (hfs : ∀ f ∈ fs, f.normalForm ≠ []) :
    a ∈ (disjunction cs fs).flatten ↔ a ∈ cs.flatten ∨ ∃ f ∈ fs, a ∈ f.normalForm.flatten := by
  induction fs generalizing cs
  case nil => simp [disjunction]
  case cons f fs ih =>
    rw [List.forall_mem_cons] at hfs
    rw [disjunction, ih (distribute_ne_nil hcs hfs.1) hfs.2, mem_flatten_distribute hcs hfs.1, or_assoc,
      List.exists_mem_cons_iff]

theorem normalForm_ne_nil (h : f.solid = true) : f.normalForm ≠ [] := by
  induction f using rec_parts
  case and fs ih =>
    rw [solid, Bool.and_eq_true, solidAll_iff] at h
    obtain ⟨f, fs, rfl⟩ := List.exists_cons_of_ne_nil (by simpa using h.1)
    rw [normalForm, conjunction]
    exact List.append_ne_nil_of_left_ne_nil (ih f List.mem_cons_self (h.2 f List.mem_cons_self)) _
  case or fs ih =>
    rw [solid, Bool.and_eq_true, solidAll_iff] at h
    rw [normalForm_or (by simpa using h.1)]
    exact disjunction_ne_nil (by simp) fun f hf => ih f hf (h.2 f hf)
  case atom => simp [normalForm]

theorem mem_flatten_normalForm (h : f.solid = true) : a ∈ f.normalForm.flatten ↔ a ∈ f.atoms := by
  induction f using rec_parts
  case and fs ih =>
    rw [solid, Bool.and_eq_true, solidAll_iff] at h
    have hflatten : (fs.flatMap normalForm).flatten = fs.flatMap fun f => f.normalForm.flatten := by
      simp only [List.flatten_eq_flatMap, List.flatMap_assoc]
    rw [normalForm, conjunction_eq, hflatten, atoms, atomsAll_eq, List.mem_flatMap, List.mem_flatMap]
    exact exists_congr fun f => and_congr_right fun hf => ih f hf (h.2 f hf)
  case or fs ih =>
    rw [solid, Bool.and_eq_true, solidAll_iff] at h
    have hparts : ∀ f ∈ fs, f.normalForm ≠ [] := fun f hf => normalForm_ne_nil (h.2 f hf)
    rw [normalForm_or (by simpa using h.1), mem_flatten_disjunction (by simp) hparts, atoms, atomsAll_eq,
      List.mem_flatMap]
    simpa using exists_congr fun f => and_congr_right fun hf => ih f hf (h.2 f hf)
  case atom => simp [normalForm, atoms]

-- No clause of a normal form is empty, the formula of its clauses has the same normal form, and if every conjunction
-- and disjunction has parts, the atoms of the formula and no others occur in it.
theorem normalForm_canonical (f : Formula) :
    (∀ c ∈ f.normalForm, c ≠ []) ∧ (ofClauses f.normalForm).normalForm = f.normalForm ∧
    (f.solid = true → ∀ a, a ∈ f.normalForm.flatten ↔ a ∈ f.atoms) :=
  ⟨ne_nil_of_mem_normalForm f, normalForm_ofClauses (ne_nil_of_mem_normalForm f), fun h _ => mem_flatten_normalForm h⟩

theorem normalForm_canonical_nested : nested.solid = true ∧
    (∀ c ∈ nested.normalForm, c ≠ []) ∧ (ofClauses nested.normalForm).normalForm = nested.normalForm ∧
    ∀ a, a ∈ nested.normalForm.flatten ↔ a ∈ nested.atoms := by
  have hsolid : nested.solid = true := by decide
  have ⟨hclauses, hagain, hatoms⟩ := normalForm_canonical nested
  exact ⟨hsolid, hclauses, hagain, hatoms hsolid⟩

-- Where a conjunction is empty, what stands next to it is lost.
example : (Formula.or [.and [], .atom (.verbatim "x" true)]).normalForm = [] := rfl

end Subplans.Formula
