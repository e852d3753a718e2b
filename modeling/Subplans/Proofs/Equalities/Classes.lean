import Mathlib.Data.List.Nodup
import Subplans.Query.Equalities

/-!
Classes of slots as an equivalence.

As long as no slot is in two classes (`SlotClasses.Partition`), being in one class is an equivalence, and a union
relates exactly what was related before and the members of the two classes to each other (`same_union`).
-/

namespace Subplans.SlotClasses

variable {cs : SlotClasses} {class' : List Slot} {a b c p q : Slot}

-- No slot is in two classes.
def Partition (cs : SlotClasses) : Prop :=
  cs.Pairwise List.Disjoint

theorem partition_nil : Partition [] :=
  List.Pairwise.nil

theorem mem_classOf : b ∈ cs.classOf a ↔ cs.same a b = true :=
  List.contains_iff_mem.symm

theorem classOf_of_not_mem (h : ∀ class' ∈ cs, a ∉ class') : cs.classOf a = [a] := by
  have hnone : cs.find? (·.contains a) = none := by simpa using h
  rw [classOf, hnone, Option.getD_none]

theorem classOf_of_mem (hcs : cs.Partition) (hc : class' ∈ cs) (ha : a ∈ class') : cs.classOf a = class' := by
  induction cs
  case nil => cases hc
  case cons first rest ih =>
    have ⟨hfirst, hrest⟩ := List.pairwise_cons.mp hcs
    cases hc
    case head => simp [classOf, ha]
    case tail hc =>
      have hnot : a ∉ first := fun h => hfirst class' hc h ha
      simpa [classOf, hnot] using ih hrest hc

-- A slot is in no class and stands alone, or its class is one of those stored.
theorem classOf_cases (cs : SlotClasses) (a : Slot) :
    ((∀ class' ∈ cs, a ∉ class') ∧ cs.classOf a = [a]) ∨ (cs.classOf a ∈ cs ∧ a ∈ cs.classOf a) := by
  cases h : cs.find? (·.contains a)
  case none =>
    have hnone : ∀ class' ∈ cs, a ∉ class' := by simpa using h
    exact .inl ⟨hnone, classOf_of_not_mem hnone⟩
  case some class' =>
    have heq : cs.classOf a = class' := by rw [classOf, h, Option.getD_some]
    have ha : a ∈ class' := by simpa using List.find?_some h
    exact .inr (heq ▸ ⟨List.mem_of_find?_eq_some h, ha⟩)

theorem self_mem_classOf : a ∈ cs.classOf a := by
  rcases cs.classOf_cases a with ⟨-, h⟩ | ⟨-, h⟩
  case inl => simp [h]
  case inr => exact h

theorem classOf_eq_of_mem (hcs : cs.Partition) (hb : b ∈ cs.classOf a) : cs.classOf b = cs.classOf a := by
  rcases cs.classOf_cases a with ⟨-, h⟩ | ⟨hc, -⟩
  case inl =>
    rw [h, List.mem_singleton] at hb
    rw [hb]
  case inr => exact classOf_of_mem hcs hc hb

theorem same_iff (hcs : cs.Partition) : cs.same a b = true ↔ cs.classOf a = cs.classOf b where
  mp h := (classOf_eq_of_mem hcs (mem_classOf.mpr h)).symm
  mpr h := mem_classOf.mp (h ▸ self_mem_classOf)

theorem same_refl : cs.same a a = true :=
  mem_classOf.mp self_mem_classOf

theorem same_symm (hcs : cs.Partition) (h : cs.same a b = true) : cs.same b a = true :=
  (same_iff hcs).mpr ((same_iff hcs).mp h).symm

theorem same_trans (hcs : cs.Partition) (h : cs.same a b = true) (h' : cs.same b c = true) : cs.same a c = true :=
  (same_iff hcs).mpr (((same_iff hcs).mp h).trans ((same_iff hcs).mp h'))

-- Without classes each slot stands alone.
theorem eq_of_same_nil (h : same [] a b = true) : a = b := by
  simpa [eq_comm, same, classOf] using h

theorem equivalence (hcs : cs.Partition) : Equivalence fun a b => cs.same a b = true where
  refl _ := same_refl
  symm := same_symm hcs
  trans := same_trans hcs

theorem union_of_same (h : cs.same a b = true) : cs.union a b = cs :=
  if_pos h

theorem union_of_not_same (h : ¬cs.same a b = true) : cs.union a b =
    (cs.classOf a ++ cs.classOf b) :: cs.filter fun c => !c.contains a && !c.contains b :=
  if_neg h

-- A class that the slot is not in has nothing in common with that of the slot.
theorem disjoint_classOf (hcs : cs.Partition) (hc : class' ∈ cs) (ha : a ∉ class') :
    List.Disjoint (cs.classOf a) class' := by
  intro p hp hmem
  have heq := (classOf_of_mem hcs hc hmem).symm.trans (classOf_eq_of_mem hcs hp)
  exact ha (heq ▸ self_mem_classOf)

theorem Partition.union (hcs : cs.Partition) : (cs.union a b).Partition := by
  by_cases h : cs.same a b = true
  case pos => rwa [union_of_same h]
  case neg =>
    rw [union_of_not_same h, Partition, List.pairwise_cons]
    refine ⟨fun class' hc => ?_, hcs.filter _⟩
    obtain ⟨hc, ha, hb⟩ : class' ∈ cs ∧ a ∉ class' ∧ b ∉ class' := by simpa using hc
    rw [List.disjoint_append_left]
    exact ⟨disjoint_classOf hcs hc ha, disjoint_classOf hcs hc hb⟩

theorem classOf_union (hcs : cs.Partition) (h : ¬cs.same a b = true) : (cs.union a b).classOf p =
    if cs.same a p = true ∨ cs.same b p = true then cs.classOf a ++ cs.classOf b else cs.classOf p := by
  have hu : (cs.union a b).Partition := hcs.union
  rw [union_of_not_same h] at hu ⊢
  simp only [← mem_classOf, ← List.mem_append]
  split
  case isTrue hp => exact classOf_of_mem hu List.mem_cons_self hp
  case isFalse hp =>
    rcases cs.classOf_cases p with ⟨hnone, halone⟩ | ⟨hc, hmem⟩
    case inl =>
      rw [halone]
      refine classOf_of_not_mem fun class' hc hmem => ?_
      cases hc
      case head => exact hp hmem
      case tail hc => exact hnone class' (List.mem_filter.mp hc).1 hmem
    case inr =>
      -- The class is kept, since it has neither `a` nor `b`.
      have hnot : ∀ c, c ∈ cs.classOf p → p ∈ cs.classOf c :=
        fun c hc => classOf_eq_of_mem hcs hc ▸ hmem
      have ha : a ∉ cs.classOf p := fun h => hp (List.mem_append_left _ (hnot a h))
      have hb : b ∉ cs.classOf p := fun h => hp (List.mem_append_right _ (hnot b h))
      exact classOf_of_mem hu (List.mem_cons_of_mem _ (List.mem_filter.mpr ⟨hc, by simp [ha, hb]⟩)) hmem

theorem same_union (hcs : cs.Partition) : (cs.union a b).same p q = true ↔
    cs.same p q = true ∨ (cs.same p a = true ∧ cs.same b q = true) ∨ (cs.same p b = true ∧ cs.same a q = true) := by
  by_cases h : cs.same a b = true
  case pos =>
    rw [union_of_same h]
    simp only [same_iff hcs] at *
    grind
  case neg =>
    rw [← mem_classOf, classOf_union hcs h]
    split
    case isTrue hp =>
      rw [List.mem_append, mem_classOf, mem_classOf]
      simp only [same_iff hcs] at *
      grind
    case isFalse hp =>
      rw [mem_classOf]
      simp only [same_iff hcs] at *
      grind

-- A union relates no more than it has to.
theorem of_same_union {R : Slot → Slot → Prop} (hcs : cs.Partition) (hR : Equivalence R)
    (hle : ∀ p q, cs.same p q = true → R p q) (hab : R a b) (h : (cs.union a b).same p q = true) : R p q := by
  rcases (same_union hcs).mp h with h | ⟨h, h'⟩ | ⟨h, h'⟩
  · exact hle p q h
  · exact hR.trans (hle p a h) (hR.trans hab (hle b q h'))
  · exact hR.trans (hle p b h) (hR.trans (hR.symm hab) (hle a q h'))

theorem same_union_self (hcs : cs.Partition) : (cs.union a b).same a b = true :=
  (same_union hcs).mpr (.inr (.inl ⟨same_refl, same_refl⟩))

theorem same_union_of_same (hcs : cs.Partition) (h : cs.same p q = true) : (cs.union a b).same p q = true :=
  (same_union hcs).mpr (.inl h)

end Subplans.SlotClasses
