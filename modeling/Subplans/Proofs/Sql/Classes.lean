import Mathlib.Data.List.Pairwise
import Mathlib.Data.Multiset.Basic
import Subplans.Proofs.Closure
import Subplans.Sql.Graph

/-!
Classes of equal columns.

Taking in an equality of two columns (`Equated`) merges the classes that they are in (`Merges`), and merges nothing
else. So what is in one class after all equalities were taken in is equal by them (`closure_classes`).

It moves columns from one class to another, and adds those of the two that are in no class (`Equated.perm_flatten`): so
no column comes into two classes or twice into one. Two columns are in one class exactly if a chain of the equalities
leads from the one to the other, and but for order the classes are the same in whatever order, and whichever way round,
the equalities stand (`partition_equateAll`).
-/

namespace Subplans.Sql

open Closure Relation

variable {classes classes' : List (List Slot)} {c d : List Slot} {p q a b : Slot} {i j : Nat}

-- Some class has both columns.
def Within (classes : List (List Slot)) (a b : Slot) : Prop :=
  ∃ c ∈ classes, a ∈ c ∧ b ∈ c

-- What becomes of some classes when the columns `p` and `q` turn out to be equal.
structure Merges (classes : List (List Slot)) (p q : Slot) (classes' : List (List Slot)) : Prop where
  -- No class is parted.
  grows  : ∀ c ∈ classes, ∃ d ∈ classes', c ⊆ d
  joined : Within classes' p q
  -- A class that was not there before consists of the two columns and the classes that they were in.
  origin : ∀ d ∈ classes', d ∈ classes ∨
    ∀ a ∈ d, a = p ∨ a = q ∨ ∃ c ∈ classes, a ∈ c ∧ (p ∈ c ∨ q ∈ c)

theorem Merges.swap (h : Merges classes p q classes') : Merges classes q p classes' where
  grows := h.grows
  joined := by
    have ⟨d, hd, hp, hq⟩ := h.joined
    exact ⟨d, hd, hq, hp⟩
  origin d hd := by
    rcases h.origin d hd with hmem | hall
    case inl => exact .inl hmem
    case inr =>
      refine .inr fun a ha => ?_
      rcases hall a ha with rfl | rfl | ⟨c, hc, hac, hpq⟩
      · exact .inr (.inl rfl)
      · exact .inl rfl
      · exact .inr (.inr ⟨c, hc, hac, hpq.symm⟩)

-- What taking in an equality does with the two columns.
inductive Equated (classes : List (List Slot)) (p q : Slot) : List (List Slot) → Prop
  | same {c : List Slot} {i : Nat} : classes[i]? = some c → p ∈ c → q ∈ c → Equated classes p q classes
  | joined {c d : List Slot} {i j : Nat} : i < j → classes[i]? = some c → classes[j]? = some d →
    (p ∈ c ∧ q ∈ d ∨ q ∈ c ∧ p ∈ d) → Equated classes p q ((classes.eraseIdx j).modify i (· ++ d))
  | left {c : List Slot} {i : Nat} : classes[i]? = some c → p ∈ c → q ∉ classes.flatten →
    Equated classes p q (classes.modify i (· ++ [q]))
  | right {d : List Slot} {i : Nat} : classes[i]? = some d → q ∈ d → p ∉ classes.flatten →
    Equated classes p q (classes.modify i (· ++ [p]))
  | both : p ∉ classes.flatten → q ∉ classes.flatten → Equated classes p q (classes ++ [[p, q]])

theorem exists_of_findIdx? (h : classes.findIdx? (·.contains p) = some i) : ∃ c, classes[i]? = some c ∧ p ∈ c := by
  have ⟨hlt, hmem, _⟩ := List.findIdx?_eq_some_iff_getElem.mp h
  exact ⟨classes[i], List.getElem?_eq_getElem hlt, by simpa using hmem⟩

theorem not_mem_of_findIdx? (h : classes.findIdx? (·.contains p) = none) : p ∉ classes.flatten := by
  rw [List.mem_flatten]
  rintro ⟨c, hc, hp⟩
  have hnot := List.findIdx?_eq_none_iff.mp h c hc
  simp [hp] at hnot

theorem equated_equate : Equated classes p q (equate classes p q) := by
  unfold equate
  split
  case h_1 l r hl hr =>
    obtain ⟨c, hc, hp⟩ := exists_of_findIdx? hl
    obtain ⟨d, hd, hq⟩ := exists_of_findIdx? hr
    split
    case isTrue heq =>
      rw [← eq_of_beq heq, hc] at hd
      cases hd
      exact .same hc hp hq
    case isFalse hne =>
      have hne : l ≠ r := by simpa using hne
      have hcd : classes.getD l [] = c ∧ classes.getD r [] = d := by simp [List.getD_eq_getElem?_getD, hc, hd]
      rcases Nat.lt_or_gt_of_ne hne with hlt | hgt
      case inl =>
        rw [Nat.max_eq_right (Nat.le_of_lt hlt), Nat.min_eq_left (Nat.le_of_lt hlt), hcd.2]
        exact .joined hlt hc hd (.inl ⟨hp, hq⟩)
      case inr =>
        rw [Nat.max_eq_left (Nat.le_of_lt hgt), Nat.min_eq_right (Nat.le_of_lt hgt), hcd.1]
        exact .joined hgt hd hc (.inr ⟨hq, hp⟩)
  case h_2 l hl hr =>
    obtain ⟨c, hc, hp⟩ := exists_of_findIdx? hl
    exact .left hc hp (not_mem_of_findIdx? hr)
  case h_3 r hl hr =>
    obtain ⟨d, hd, hq⟩ := exists_of_findIdx? hr
    exact .right hd hq (not_mem_of_findIdx? hl)
  case h_4 hl hr => exact .both (not_mem_of_findIdx? hl) (not_mem_of_findIdx? hr)

-- Two columns that are in one class already.
theorem merges_same (hc : classes[i]? = some c) (hp : p ∈ c) (hq : q ∈ c) : Merges classes p q classes where
  grows c hc := ⟨c, hc, List.Subset.refl c⟩
  joined := ⟨c, List.mem_of_getElem? hc, hp, hq⟩
  origin _ hd := .inl hd

-- A column that is in no class gets into that of the other one.
theorem merges_modify (hc : classes[i]? = some c) (hp : p ∈ c) : Merges classes p q (classes.modify i (· ++ [q])) := by
  have hat : (classes.modify i (· ++ [q]))[i]? = some (c ++ [q]) := by simp [hc]
  constructor
  case grows =>
    intro d hd
    obtain ⟨j, hj⟩ := List.mem_iff_getElem?.mp hd
    by_cases hij : i = j
    case pos =>
      subst hij
      rw [hc] at hj
      cases hj
      exact ⟨c ++ [q], List.mem_of_getElem? hat, List.subset_append_left c [q]⟩
    case neg =>
      have hat' : (classes.modify i (· ++ [q]))[j]? = some d := by simp [hij, hj]
      exact ⟨d, List.mem_of_getElem? hat', List.Subset.refl d⟩
  case joined => exact ⟨c ++ [q], List.mem_of_getElem? hat, List.mem_append_left _ hp, by simp⟩
  case origin =>
    intro d hd
    obtain ⟨j, hj⟩ := List.mem_iff_getElem?.mp hd
    by_cases hij : i = j
    case pos =>
      subst hij
      rw [hat] at hj
      cases hj
      refine .inr fun a ha => ?_
      rcases List.mem_append.mp ha with ha | ha
      case inl => exact .inr (.inr ⟨c, List.mem_of_getElem? hc, ha, .inl hp⟩)
      case inr => exact .inr (.inl (List.mem_singleton.mp ha))
    case neg =>
      have hat' : classes[j]? = some d := by simpa [hij] using hj
      exact .inl (List.mem_of_getElem? hat')

-- Two classes become one, in the place of the first of them.
theorem merges_erase (hij : i < j) (hc : classes[i]? = some c) (hd : classes[j]? = some d) (hp : p ∈ c) (hq : q ∈ d) :
    Merges classes p q ((classes.eraseIdx j).modify i (· ++ d)) := by
  have hat : ((classes.eraseIdx j).modify i (· ++ d))[i]? = some (c ++ d) := by
    simp [List.getElem?_eraseIdx, hij, hc]
  have hother : ∀ {k}, k ≠ i → ((classes.eraseIdx j).modify i (· ++ d))[k]? =
      if k < j then classes[k]? else classes[k + 1]? := by
    intro k hk
    simp [List.getElem?_eraseIdx, hk.symm]
  constructor
  case grows =>
    intro e he
    obtain ⟨k, hk⟩ := List.mem_iff_getElem?.mp he
    rcases Nat.lt_trichotomy k j with hlt | rfl | hgt
    · by_cases hki : k = i
      case pos =>
        subst hki
        rw [hc] at hk
        cases hk
        exact ⟨c ++ d, List.mem_of_getElem? hat, List.subset_append_left c d⟩
      case neg =>
        refine ⟨e, List.mem_of_getElem? (i := k) ?_, List.Subset.refl e⟩
        rw [hother hki, if_pos hlt, hk]
    · rw [hd] at hk
      cases hk
      exact ⟨c ++ d, List.mem_of_getElem? hat, List.subset_append_right c d⟩
    · refine ⟨e, List.mem_of_getElem? (i := k - 1) ?_, List.Subset.refl e⟩
      rw [hother (by omega), if_neg (by omega), Nat.sub_add_cancel (by omega), hk]
  case joined =>
    exact ⟨c ++ d, List.mem_of_getElem? hat, List.mem_append_left _ hp, List.mem_append_right _ hq⟩
  case origin =>
    intro e he
    obtain ⟨k, hk⟩ := List.mem_iff_getElem?.mp he
    by_cases hki : k = i
    case pos =>
      subst hki
      rw [hat] at hk
      cases hk
      refine .inr fun a ha => .inr (.inr ?_)
      rcases List.mem_append.mp ha with ha | ha
      case inl => exact ⟨c, List.mem_of_getElem? hc, ha, .inl hp⟩
      case inr => exact ⟨d, List.mem_of_getElem? hd, ha, .inr hq⟩
    case neg =>
      rw [hother hki] at hk
      split at hk
      case isTrue => exact .inl (List.mem_of_getElem? hk)
      case isFalse => exact .inl (List.mem_of_getElem? hk)

-- Two columns that are in no class make one.
theorem merges_append : Merges classes p q (classes ++ [[p, q]]) where
  grows c hc := ⟨c, List.mem_append_left _ hc, List.Subset.refl c⟩
  joined := ⟨[p, q], by simp, by simp, by simp⟩
  origin d hd := by
    rcases List.mem_append.mp hd with hd | hd
    case inl => exact .inl hd
    case inr =>
      cases List.mem_singleton.mp hd
      refine .inr fun a ha => ?_
      have ha : a = p ∨ a = q := by simpa using ha
      exact ha.imp_right .inl

theorem Equated.merges (h : Equated classes p q classes') : Merges classes p q classes' := by
  cases h
  case same hc hp hq => exact merges_same hc hp hq
  case joined hij hc hd hends =>
    rcases hends with ⟨hp, hq⟩ | ⟨hq, hp⟩
    case inl => exact merges_erase hij hc hd hp hq
    case inr => exact (merges_erase hij hc hd hq hp).swap
  case left hc hp _ => exact merges_modify hc hp
  case right hd hq _ => exact (merges_modify hd hq).swap
  case both => exact merges_append

theorem merges_equate : Merges classes p q (equate classes p q) :=
  equated_equate.merges

theorem Merges.closure (h : Merges classes p q classes') :
    EqvGen (Within classes') a b ↔ EqvGen (Either (Within classes) (Pair p q)) a b where
  mp hab := by
    refine of_le ?_ hab
    rintro a b ⟨d, hd, ha, hb⟩
    rcases h.origin d hd with hmem | hall
    case inl => exact .rel _ _ (.inl ⟨d, hmem, ha, hb⟩)
    case inr =>
      -- All of the class is equal to `p`.
      have heq : ∀ a ∈ d, EqvGen (Either (Within classes) (Pair p q)) a p := by
        intro a ha
        rcases hall a ha with rfl | rfl | ⟨c, hc, hac, hp | hq⟩
        · exact .refl _
        · exact .symm _ _ of_pair
        · exact .rel _ _ (.inl ⟨c, hc, hac, hp⟩)
        · exact .trans _ _ _ (.rel _ _ (.inl ⟨c, hc, hac, hq⟩)) (.symm _ _ of_pair)
      exact .trans _ _ _ (heq a ha) (.symm _ _ (heq b hb))
  mpr hab := by
    refine of_le ?_ hab
    rintro a b (⟨c, hc, ha, hb⟩ | ⟨rfl, rfl⟩)
    case inl =>
      have ⟨d, hd, hsub⟩ := h.grows c hc
      exact .rel _ _ ⟨d, hd, hsub ha, hsub hb⟩
    case inr => exact .rel _ _ h.joined

-- The classes after some equalities were taken in.
def equateAll (classes : List (List Slot)) (equalities : List (Slot × Slot)) : List (List Slot) :=
  equalities.foldl (fun classes e => equate classes e.1 e.2) classes

theorem closure_equateAll {equalities : List (Slot × Slot)} : EqvGen (Within (equateAll classes equalities)) a b ↔
    EqvGen (Either (Within classes) fun p q => (p, q) ∈ equalities) a b := by
  induction equalities generalizing classes
  case nil => simp [equateAll, either_false]
  case cons e es ih =>
    obtain ⟨p, q⟩ := e
    have hcons : Either (Pair p q) (fun p q => (p, q) ∈ es) = fun a b => (a, b) ∈ (p, q) :: es := by
      funext a b
      simp [Either, Pair]
    have hmerges : Merges classes p q (equate classes p q) := merges_equate
    have hfirst := either_congr (C := fun p q => (p, q) ∈ es) (a := a) (b := b) fun _ _ => hmerges.closure
    rw [either_assoc, hcons] at hfirst
    exact ih.trans hfirst

-- What is in a class was in an equality.
theorem mem_equateAll {P : Slot → Prop} {equalities : List (Slot × Slot)} (hclasses : ∀ c ∈ classes, ∀ a ∈ c, P a)
    (h : ∀ e ∈ equalities, P e.1 ∧ P e.2) : ∀ c ∈ equateAll classes equalities, ∀ a ∈ c, P a := by
  induction equalities generalizing classes
  case nil => exact hclasses
  case cons e es ih =>
    refine ih ?_ fun e he => h e (List.mem_cons_of_mem _ he)
    intro d hd a ha
    rcases merges_equate.origin d hd with hmem | hall
    case inl => exact hclasses d hmem a ha
    case inr =>
      rcases hall a ha with rfl | rfl | ⟨c, hc, hac, _⟩
      · exact (h e List.mem_cons_self).1
      · exact (h e List.mem_cons_self).2
      · exact hclasses c hc a hac

theorem closure_classes {equalities : List (Slot × Slot)} : EqvGen (Within (equateAll [] equalities)) a b ↔
    EqvGen (fun p q => (p, q) ∈ equalities) a b := by
  have hnone : Either (Within []) (fun p q => (p, q) ∈ equalities) = fun p q => (p, q) ∈ equalities := by
    funext p q
    simp [Either, Within]
  rw [closure_equateAll, hnone]

variable {equalities equalities' : List (Slot × Slot)}

theorem perm_flatten_modify (hc : classes[i]? = some c) :
    (classes.modify i (· ++ d)).flatten.Perm (classes.flatten ++ d) := by
  induction classes generalizing i
  case nil => cases hc
  case cons e es ih =>
    cases i
    case zero =>
      rw [List.modify_zero_cons, List.flatten_cons, List.flatten_cons, List.append_assoc, List.append_assoc]
      exact List.perm_append_comm.append_left e
    case succ i =>
      rw [List.modify_succ_cons, List.flatten_cons, List.flatten_cons, List.append_assoc]
      exact (ih hc).append_left e

theorem perm_flatten_eraseIdx (hd : classes[j]? = some d) :
    ((classes.eraseIdx j).flatten ++ d).Perm classes.flatten := by
  obtain ⟨hj, rfl⟩ := List.getElem?_eq_some_iff.mp hd
  exact List.perm_append_comm.trans (List.getElem_cons_eraseIdx_perm hj).flatten

-- Two classes become one.
theorem perm_flatten_erase (hij : i < j) (hc : classes[i]? = some c) (hd : classes[j]? = some d) :
    ((classes.eraseIdx j).modify i (· ++ d)).flatten.Perm classes.flatten := by
  have hkept : (classes.eraseIdx j)[i]? = some c := by simp [List.getElem?_eraseIdx, hij, hc]
  exact (perm_flatten_modify hkept).trans (perm_flatten_eraseIdx hd)

-- Those of two columns that are in no class.
def unclassed (classes : List (List Slot)) (p q : Slot) : List Slot :=
  [p, q].filter (· ∉ classes.flatten)

theorem Equated.perm_flatten (h : Equated classes p q classes') :
    classes'.flatten.Perm (classes.flatten ++ unclassed classes p q) := by
  have hmem : ∀ {c i a}, classes[i]? = some c → a ∈ c → a ∈ classes.flatten := fun hc ha =>
    List.mem_flatten.mpr ⟨_, List.mem_of_getElem? hc, ha⟩
  cases h
  case same hc hp hq =>
    have hnone : unclassed classes p q = [] := by simp [-List.mem_flatten, unclassed, hmem hc hp, hmem hc hq]
    rw [hnone, List.append_nil]
  case joined hij hc hd hends =>
    have hnone : unclassed classes p q = [] := by
      rcases hends with ⟨hp, hq⟩ | ⟨hq, hp⟩
      case inl => simp [-List.mem_flatten, unclassed, hmem hc hp, hmem hd hq]
      case inr => simp [-List.mem_flatten, unclassed, hmem hd hp, hmem hc hq]
    rw [hnone, List.append_nil]
    exact perm_flatten_erase hij hc hd
  case left hc hp hq =>
    have hright : unclassed classes p q = [q] := by simp [-List.mem_flatten, unclassed, hmem hc hp, hq]
    exact hright ▸ perm_flatten_modify hc
  case right hd hq hp =>
    have hleft : unclassed classes p q = [p] := by simp [-List.mem_flatten, unclassed, hmem hd hq, hp]
    exact hleft ▸ perm_flatten_modify hd
  case both hp hq =>
    have hboth : unclassed classes p q = [p, q] := by simp [-List.mem_flatten, unclassed, hp, hq]
    simp [hboth]

-- No column is in two classes or twice in one, and no class is empty.
structure Partition (classes : List (List Slot)) : Prop where
  nodup    : classes.flatten.Nodup
  nonempty : [] ∉ classes

theorem exists_of_mem_modify {columns : List Slot} (hd : d ∈ classes.modify i (· ++ columns)) :
    ∃ c ∈ classes, c <+: d := by
  obtain ⟨j, hj⟩ := List.mem_iff_getElem?.mp hd
  rw [List.getElem?_modify] at hj
  obtain ⟨c, hc, rfl⟩ := Option.map_eq_some_iff.mp hj
  refine ⟨c, List.mem_of_getElem? hc, ?_⟩
  split
  case isTrue => exact List.prefix_append c columns
  case isFalse => exact List.prefix_rfl

-- A class has grown out of another one, or consists of the two columns.
theorem Equated.exists_of_mem (h : Equated classes p q classes') (hd : d ∈ classes') :
    d = [p, q] ∨ ∃ c ∈ classes, c <+: d := by
  cases h
  case same => exact .inr ⟨d, hd, List.prefix_rfl⟩
  case joined =>
    obtain ⟨c, hc, hstart⟩ := exists_of_mem_modify hd
    exact .inr ⟨c, List.mem_of_mem_eraseIdx hc, hstart⟩
  case left => exact .inr (exists_of_mem_modify hd)
  case right => exact .inr (exists_of_mem_modify hd)
  case both =>
    rcases List.mem_append.mp hd with hd | hd
    case inl => exact .inr ⟨d, hd, List.prefix_rfl⟩
    case inr => exact .inl (List.mem_singleton.mp hd)

theorem Partition.equate (h : Partition classes) (hne : p ≠ q) : Partition (equate classes p q) where
  nodup := by
    have hnew : (unclassed classes p q).Nodup := List.Nodup.filter _ (by simpa using hne)
    rw [equated_equate.perm_flatten.nodup_iff]
    refine h.nodup.append hnew ?_
    intro a ha hmem
    exact absurd ha (by simpa using (List.mem_filter.mp hmem).2)
  nonempty hnil := by
    rcases equated_equate.exists_of_mem hnil with heq | ⟨c, hc, hstart⟩
    case inl => cases heq
    case inr => exact h.nonempty (List.prefix_nil.mp hstart ▸ hc)

namespace Partition

theorem equateAll (h : Partition classes) (hne : ∀ e ∈ equalities, e.1 ≠ e.2) :
    Partition (equateAll classes equalities) := by
  induction equalities generalizing classes
  case nil => exact h
  case cons e es ih =>
    have ⟨hfirst, hrest⟩ := List.forall_mem_cons.mp hne
    exact ih (h.equate hfirst) hrest

theorem disjoint (h : Partition classes) : classes.Pairwise List.Disjoint :=
  (List.nodup_flatten.mp h.nodup).2

theorem nodup_of_mem (h : Partition classes) (hc : c ∈ classes) : c.Nodup :=
  (List.nodup_flatten.mp h.nodup).1 c hc

-- A column tells its class.
theorem class_unique (h : Partition classes) (hc : c ∈ classes) (hd : d ∈ classes) (hac : a ∈ c) (had : a ∈ d) :
    c = d := by
  by_contra hne
  have : Std.Symm (List.Disjoint (α := Slot)) := ⟨fun _ _ hdisjoint _ hd hc => hdisjoint hc hd⟩
  have hdisjoint : List.Disjoint c d := h.disjoint.forall hc hd hne
  exact hdisjoint hac had

-- Classes differ also but for the order of their columns.
theorem nodup_map (h : Partition classes) : (classes.map Multiset.ofList).Nodup := by
  refine List.pairwise_map.mpr (h.disjoint.imp_of_mem ?_)
  intro c d hc hd hdisjoint heq
  obtain ⟨a, ha⟩ := List.exists_mem_of_ne_nil c fun hnil => h.nonempty (hnil ▸ hc)
  exact hdisjoint ha ((Multiset.coe_eq_coe.mp heq).mem_iff.mp ha)

theorem closure (h : Partition classes) (hab : EqvGen (Within classes) a b) : a = b ∨ Within classes a b := by
  induction hab
  case rel hab => exact .inr hab
  case refl => exact .inl rfl
  case symm ih =>
    rcases ih with rfl | ⟨c, hc, ha, hb⟩
    case inl => exact .inl rfl
    case inr => exact .inr ⟨c, hc, hb, ha⟩
  case trans ih ih' =>
    rcases ih with rfl | ⟨c, hc, ha, hb⟩
    case inl => exact ih'
    case inr =>
      rcases ih' with rfl | ⟨d, hd, hb', he⟩
      case inl => exact .inr ⟨c, hc, ha, hb⟩
      case inr =>
        cases h.class_unique hc hd hb hb'
        exact .inr ⟨c, hc, ha, he⟩

end Partition

theorem partition_of_ne (hne : ∀ e ∈ equalities, e.1 ≠ e.2) : Partition (equateAll [] equalities) :=
  Partition.equateAll ⟨List.nodup_nil, List.not_mem_nil⟩ hne

-- A chain of the equalities, each read in either direction, leads from the one column to the other.
def Linked (equalities : List (Slot × Slot)) : Slot → Slot → Prop :=
  TransGen (SymmGen fun p q => (p, q) ∈ equalities)

theorem mem_flatten_equate : a ∈ (equate classes p q).flatten ↔ a ∈ classes.flatten ∨ a = p ∨ a = q := by
  rw [equated_equate.perm_flatten.mem_iff, List.mem_append, unclassed, List.mem_filter]
  by_cases ha : a ∈ classes.flatten <;> simp [-List.mem_flatten, ha]

-- The columns of the classes are those that some equality is about.
theorem mem_flatten_equateAll : a ∈ (equateAll classes equalities).flatten ↔
    a ∈ classes.flatten ∨ ∃ e ∈ equalities, a = e.1 ∨ a = e.2 := by
  induction equalities generalizing classes
  case nil => simp [equateAll]
  case cons e es ih =>
    have hfirst : equateAll classes (e :: es) = equateAll (equate classes e.1 e.2) es := rfl
    rw [hfirst, ih, mem_flatten_equate, or_assoc, List.exists_mem_cons_iff]

theorem linked_self_iff : Linked equalities a a ↔ ∃ e ∈ equalities, a = e.1 ∨ a = e.2 where
  mp h := by
    obtain ⟨b, hab | hba, _⟩ := TransGen.head'_iff.mp h
    case inl => exact ⟨(a, b), hab, .inl rfl⟩
    case inr => exact ⟨(b, a), hba, .inr rfl⟩
  mpr := by
    rintro ⟨⟨p, q⟩, hpq, rfl | rfl⟩
    case inl => exact .tail (.single (.inl hpq)) (.inr hpq)
    case inr => exact .tail (.single (.inr hpq)) (.inl hpq)

theorem within_iff_linked (hne : ∀ e ∈ equalities, e.1 ≠ e.2) :
    Within (equateAll [] equalities) a b ↔ Linked equalities a b := by
  have hpartition := partition_of_ne hne
  have hself : Within (equateAll [] equalities) a a ↔ Linked equalities a a := by
    have hmem : a ∈ (equateAll [] equalities).flatten ↔ a ∈ List.flatten [] ∨ _ := mem_flatten_equateAll
    rw [linked_self_iff]
    simpa [Within] using hmem
  by_cases hab : a = b
  case pos => exact hab ▸ hself
  case neg =>
    have hclosure : EqvGen (Within (equateAll [] equalities)) a b ↔ Within (equateAll [] equalities) a b :=
      ⟨fun h => (hpartition.closure h).resolve_left hab, .rel _ _⟩
    rw [← hclosure, closure_classes, ← EqvGen.reflTransGen_symmGen, reflTransGen_iff_eq_or_transGen]
    exact or_iff_right (Ne.symm hab)

theorem linked_congr
    (h : ∀ p q, (p, q) ∈ equalities' ∨ (q, p) ∈ equalities' ↔ (p, q) ∈ equalities ∨ (q, p) ∈ equalities) :
    Linked equalities' = Linked equalities := by
  have hpairs : SymmGen (fun p q => (p, q) ∈ equalities') = SymmGen (fun p q => (p, q) ∈ equalities) := by
    funext p q
    exact propext (h p q)
  rw [Linked, Linked, hpairs]

-- A class is what is linked to one of its columns.
theorem mem_class_iff (hne : ∀ e ∈ equalities, e.1 ≠ e.2) (hc : c ∈ equateAll [] equalities) (ha : a ∈ c) :
    b ∈ c ↔ Linked equalities a b := by
  have hpartition := partition_of_ne hne
  rw [← within_iff_linked hne]
  constructor
  case mp => exact fun hb => ⟨c, hc, ha, hb⟩
  case mpr =>
    rintro ⟨d, hd, had, hbd⟩
    exact hpartition.class_unique hc hd ha had ▸ hbd

-- Equalities that link the same columns make the same classes.
theorem mem_map_of_linked (hne : ∀ e ∈ equalities, e.1 ≠ e.2) (hne' : ∀ e ∈ equalities', e.1 ≠ e.2)
    (h : Linked equalities' = Linked equalities) (hc : c ∈ equateAll [] equalities) :
    (c : Multiset Slot) ∈ (equateAll [] equalities').map Multiset.ofList := by
  have hpartition := partition_of_ne hne
  have hpartition' := partition_of_ne hne'
  obtain ⟨a, ha⟩ := List.exists_mem_of_ne_nil c fun hnil => hpartition.nonempty (hnil ▸ hc)
  obtain ⟨d, hd, had, -⟩ := (within_iff_linked hne').mpr (h ▸ (mem_class_iff hne hc ha).mp ha)
  have hperm : d.Perm c := by
    refine (List.perm_ext_iff_of_nodup (hpartition'.nodup_of_mem hd) (hpartition.nodup_of_mem hc)).mpr fun b => ?_
    rw [mem_class_iff hne' hd had, mem_class_iff hne hc ha, h]
  exact List.mem_map.mpr ⟨d, hd, Multiset.coe_eq_coe.mpr hperm⟩

theorem partition_equateAll (hne : ∀ e ∈ equalities, e.1 ≠ e.2) :
    (equateAll [] equalities).Pairwise List.Disjoint ∧
    (∀ c ∈ equateAll [] equalities, c ≠ [] ∧ c.Nodup ∧ ∀ p ∈ c, ∃ e ∈ equalities, p = e.1 ∨ p = e.2) ∧
    (∀ p q, (∃ c ∈ equateAll [] equalities, p ∈ c ∧ q ∈ c) ↔ Linked equalities p q) ∧
    ∀ equalities', (∀ p q, (p, q) ∈ equalities' ∨ (q, p) ∈ equalities' ↔ (p, q) ∈ equalities ∨ (q, p) ∈ equalities) →
      ((equateAll [] equalities').map Multiset.ofList).Perm ((equateAll [] equalities).map Multiset.ofList) := by
  have hpartition := partition_of_ne hne
  refine ⟨hpartition.disjoint, ?mentioned, fun _ _ => within_iff_linked hne, ?order⟩
  case mentioned =>
    intro c hc
    refine ⟨fun hnil => hpartition.nonempty (hnil ▸ hc), hpartition.nodup_of_mem hc, fun p hp => ?_⟩
    have hmem : p ∈ (equateAll [] equalities).flatten := List.mem_flatten.mpr ⟨c, hc, hp⟩
    exact (mem_flatten_equateAll.mp hmem).resolve_left List.not_mem_nil
  case order =>
    intro equalities' hsame
    have hne' : ∀ e ∈ equalities', e.1 ≠ e.2 := by
      intro e he
      rcases (hsame e.1 e.2).mp (.inl he) with hmem | hmem
      case inl => exact hne _ hmem
      case inr => exact (hne _ hmem).symm
    have hpartition' := partition_of_ne hne'
    have hlinked : Linked equalities' = Linked equalities := linked_congr hsame
    refine (List.perm_ext_iff_of_nodup hpartition'.nodup_map hpartition.nodup_map).mpr fun columns => ?_
    constructor
    case mp =>
      intro hcolumns
      obtain ⟨c, hc, rfl⟩ := List.mem_map.mp hcolumns
      exact mem_map_of_linked hne' hne hlinked.symm hc
    case mpr =>
      intro hcolumns
      obtain ⟨c, hc, rfl⟩ := List.mem_map.mp hcolumns
      exact mem_map_of_linked hne hne' hlinked hc

-- Two classes that an equality makes one, and the same equalities turned round and in another order.
theorem partition_equateAll_merged :
    let slot (node : Nat) : Slot := ⟨node, ⟨node, 0⟩⟩
    let equalities := [(slot 0, slot 1), (slot 3, slot 2), (slot 5, slot 4), (slot 2, slot 1)]
    let equalities' := [(slot 1, slot 2), (slot 4, slot 5), (slot 0, slot 1), (slot 2, slot 3)]
    (∀ e ∈ equalities, e.1 ≠ e.2) ∧
    equateAll [] equalities = [[slot 0, slot 1, slot 3, slot 2], [slot 5, slot 4]] ∧
    equateAll [] equalities' = [[slot 1, slot 2, slot 0, slot 3], [slot 4, slot 5]] ∧
    Linked equalities (slot 0) (slot 3) ∧
    ((equateAll [] equalities').map Multiset.ofList).Perm ((equateAll [] equalities).map Multiset.ofList) := by
  intro slot equalities equalities'
  have hne : ∀ e ∈ equalities, e.1 ≠ e.2 := by decide
  have ⟨_, _, hlinked, horder⟩ := partition_equateAll hne
  refine ⟨hne, by decide, by decide, (hlinked _ _).mp (by decide), horder equalities' ?_⟩
  intro p q
  simp only [equalities, equalities', List.mem_cons, List.not_mem_nil, Prod.mk.injEq]
  grind

end Subplans.Sql
