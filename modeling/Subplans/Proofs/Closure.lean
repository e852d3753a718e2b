import Mathlib.Data.List.Nodup
import Mathlib.Logic.Relation

/-!
Equivalence closures, and what can be seen of them from some of the elements.

Two relations agree on some elements if their closures do there. A relation between such elements can then
be added to both (`Agree.sup`), although the closures may run through other elements.
-/

namespace Subplans.Closure

open Relation

variable {α β : Type} {A B C J : α → α → Prop} {P : α → Prop} {a b : α}

theorem map {B : β → β → Prop} (f : α → β) (h : ∀ a b, A a b → EqvGen B (f a) (f b)) (hab : EqvGen A a b) :
    EqvGen B (f a) (f b) := by
  induction hab
  case rel hab => exact h _ _ hab
  case refl => exact .refl _
  case symm ih => exact .symm _ _ ih
  case trans ih ih' => exact .trans _ _ _ ih ih'

theorem of_le (h : ∀ a b, A a b → EqvGen B a b) (hab : EqvGen A a b) : EqvGen B a b :=
  map id h hab

theorem iff_eq (h : ∀ a b, ¬A a b) : EqvGen A a b ↔ a = b where
  mp hab := by
    induction hab
    case rel hab => exact absurd hab (h _ _)
    case refl => rfl
    case symm ih => exact ih.symm
    case trans ih ih' => exact ih.trans ih'
  mpr h := h ▸ .refl _

-- What a closure relates is equal, or is all of it related to something.
theorem eq_or (h : ∀ a b, A a b → P a ∧ P b) (hab : EqvGen A a b) : a = b ∨ (P a ∧ P b) := by
  induction hab
  case rel hab => exact .inr (h _ _ hab)
  case refl => exact .inl rfl
  case symm ih => exact ih.imp Eq.symm And.symm
  case trans ih ih' =>
    rcases ih with rfl | ⟨ha, hb⟩
    case inl => exact ih'
    case inr =>
      rcases ih' with rfl | ⟨-, hc⟩
      case inl => exact .inr ⟨ha, hb⟩
      case inr => exact .inr ⟨ha, hc⟩

-- A step of either relation.
def Either (A B : α → α → Prop) : α → α → Prop :=
  fun a b => A a b ∨ B a b

theorem left (hab : EqvGen A a b) : EqvGen (Either A B) a b :=
  of_le (fun _ _ h => .rel _ _ (.inl h)) hab

theorem right (hab : EqvGen B a b) : EqvGen (Either A B) a b :=
  of_le (fun _ _ h => .rel _ _ (.inr h)) hab

theorem either_assoc : Either (Either A B) C = Either A (Either B C) := by
  funext a b
  simp [Either, or_assoc]

theorem either_false : Either A (fun _ _ => False) = A := by
  funext a b
  simp [Either]

theorem either_congr (h : ∀ a b, EqvGen A a b ↔ EqvGen B a b) :
    EqvGen (Either A C) a b ↔ EqvGen (Either B C) a b := by
  have once : ∀ {A B}, (∀ a b, EqvGen A a b ↔ EqvGen B a b) →
      EqvGen (Either A C) a b → EqvGen (Either B C) a b := by
    intro A B h hab
    refine of_le ?_ hab
    rintro a b (hab | hab)
    case inl => exact left ((h a b).mp (.rel _ _ hab))
    case inr => exact .rel _ _ (.inr hab)
  exact ⟨once h, once fun a b => (h a b).symm⟩

-- One pair of elements.
def Pair (x y : α) : α → α → Prop :=
  fun a b => a = x ∧ b = y

theorem of_pair {x y : α} : EqvGen (Either A (Pair x y)) x y :=
  .rel _ _ (.inr ⟨rfl, rfl⟩)

-- One pair more makes one class of two, whichever element comes first.
theorem pair_comm {x y : α} : EqvGen (Either A (Pair x y)) a b ↔ EqvGen (Either A (Pair y x)) a b := by
  have once : ∀ {x y}, EqvGen (Either A (Pair x y)) a b → EqvGen (Either A (Pair y x)) a b := by
    intro x y h
    refine of_le ?_ h
    rintro a b (h | ⟨rfl, rfl⟩)
    case inl => exact .rel _ _ (.inl h)
    case inr => exact .symm _ _ of_pair
  exact ⟨once, once⟩

-- An element that only two pairs lead to can be left out, if `f` puts the other end in its place.
theorem shortcut {x y z : α} (f : α → α) (hA : ∀ a b, A a b → f a = a ∧ f b = b) (hx : f x = x) (hy : f y = x)
    (hz : f z = z) (ha : f a = a) (hb : f b = b) :
    EqvGen (Either (Either A (Pair x y)) (Pair y z)) a b ↔ EqvGen (Either A (Pair x z)) a b where
  mp h := by
    have := map (B := Either A (Pair x z)) f ?_ h
    case refine_1 =>
      rintro a b ((h | ⟨rfl, rfl⟩) | ⟨rfl, rfl⟩)
      · rw [(hA a b h).1, (hA a b h).2]
        exact .rel _ _ (.inl h)
      · rw [hx, hy]
        exact .refl _
      · rw [hy, hz]
        exact of_pair
    rwa [ha, hb] at this
  mpr h := by
    refine of_le ?_ h
    rintro a b (h | ⟨rfl, rfl⟩)
    case inl => exact .rel _ _ (.inl (.inl h))
    case inr => exact .trans _ _ _ (left of_pair) of_pair

-- The closures cannot be told apart on the elements with `P`.
def Agree (P : α → Prop) (A B : α → α → Prop) : Prop :=
  ∀ a b, P a → P b → (EqvGen A a b ↔ EqvGen B a b)

-- A stretch of steps in `A` between elements with `P`.
def Stretch (P : α → Prop) (A : α → α → Prop) : α → α → Prop :=
  fun a b => P a ∧ P b ∧ EqvGen A a b

-- A chain of steps in `A` and `J` leaves the elements with `P` only within a stretch of steps in `A`.
theorem restrict (hJ : ∀ a b, J a b → P a ∧ P b) (ha : P a) (hb : P b) (h : EqvGen (Either A J) a b) :
    EqvGen (Either (Stretch P A) J) a b := by
  -- In between a chain may pass elements without `P`, so the induction keeps the loose ends apart: `A` alone
  -- leads to the first element with `P` and from the last one on.
  have hpath : EqvGen A a b ∨ ∃ u v, P u ∧ P v ∧ EqvGen A a u ∧
      EqvGen (Either (Stretch P A) J) u v ∧ EqvGen A v b := by
    clear ha hb
    induction h
    case rel a b h =>
      cases h
      case inl h => exact .inl (.rel _ _ h)
      case inr h =>
        have ⟨ha, hb⟩ := hJ a b h
        exact .inr ⟨a, b, ha, hb, .refl _, .rel _ _ (.inr h), .refl _⟩
    case refl => exact .inl (.refl _)
    case symm ih =>
      cases ih
      case inl h => exact .inl (.symm _ _ h)
      case inr h =>
        have ⟨u, v, hu, hv, hau, huv, hvb⟩ := h
        exact .inr ⟨v, u, hv, hu, .symm _ _ hvb, .symm _ _ huv, .symm _ _ hau⟩
    case trans ih ih' =>
      rcases ih with h | ⟨u, v, hu, hv, hau, huv, hvb⟩ <;> rcases ih' with h' | ⟨u', v', hu', hv', hbu, huv', hvc⟩
      case inl.inl => exact .inl (.trans _ _ _ h h')
      case inl.inr => exact .inr ⟨u', v', hu', hv', .trans _ _ _ h hbu, huv', hvc⟩
      case inr.inl => exact .inr ⟨u, v, hu, hv, hau, huv, .trans _ _ _ hvb h'⟩
      case inr.inr =>
        have hmid : EqvGen (Either (Stretch P A) J) v u' := .rel _ _ (.inl ⟨hv, hu', .trans _ _ _ hvb hbu⟩)
        exact .inr ⟨u, v', hu, hv', hau, .trans _ _ _ huv (.trans _ _ _ hmid huv'), hvc⟩
  cases hpath
  case inl h => exact .rel _ _ (.inl ⟨ha, hb, h⟩)
  case inr h =>
    have ⟨u, v, hu, hv, hau, huv, hvb⟩ := h
    exact .trans _ _ _ (.rel _ _ (.inl ⟨ha, hu, hau⟩)) (.trans _ _ _ huv (.rel _ _ (.inl ⟨hv, hb, hvb⟩)))

theorem restrict_iff (hJ : ∀ a b, J a b → P a ∧ P b) (ha : P a) (hb : P b) :
    EqvGen (Either A J) a b ↔ EqvGen (Either (Stretch P A) J) a b where
  mp := restrict hJ ha hb
  mpr h := by
    refine of_le ?_ h
    rintro a b (⟨-, -, h⟩ | h)
    case inl => exact left h
    case inr => exact .rel _ _ (.inr h)

theorem stretch_iff (ha : P a) (hb : P b) : EqvGen A a b ↔ EqvGen (Stretch P A) a b where
  mp h := .rel _ _ ⟨ha, hb, h⟩
  mpr h := of_le (fun _ _ h => h.2.2) h

-- A closure whose steps do not leave the elements with `P` relates these elements by steps between them.
theorem within (h : ∀ a b, A a b → (P a ↔ P b)) (ha : P a) (hab : EqvGen A a b) :
    EqvGen (fun a b => A a b ∧ P a ∧ P b) a b := by
  have hboth : (P a ↔ P b) ∧ (P a → EqvGen (fun a b => A a b ∧ P a ∧ P b) a b) := by
    clear ha
    induction hab
    case rel a b hab => exact ⟨h a b hab, fun ha => .rel _ _ ⟨hab, ha, (h a b hab).mp ha⟩⟩
    case refl => exact ⟨.rfl, fun _ => .refl _⟩
    case symm ih => exact ⟨ih.1.symm, fun hb => .symm _ _ (ih.2 (ih.1.mpr hb))⟩
    case trans ih ih' => exact ⟨ih.1.trans ih'.1, fun ha => .trans _ _ _ (ih.2 ha) (ih'.2 (ih.1.mp ha))⟩
  exact hboth.2 ha

-- No chain changes over between two relations of which one relates elements with `P` and the other one elements without.
theorem left_or_right (hA : ∀ a b, A a b → P a ∧ P b) (hB : ∀ a b, B a b → ¬P a ∧ ¬P b)
    (hab : EqvGen (Either A B) a b) : EqvGen A a b ∨ EqvGen B a b := by
  have hstep : ∀ a b, Either A B a b → (P a ↔ P b) := by
    rintro a b (h | h)
    case inl => exact iff_of_true (hA a b h).1 (hA a b h).2
    case inr => exact iff_of_false (hB a b h).1 (hB a b h).2
  by_cases ha : P a
  case pos =>
    refine .inl (of_le ?_ (within hstep ha hab))
    rintro a b ⟨h | h, ha, -⟩
    case inl => exact .rel _ _ h
    case inr => exact absurd ha (hB a b h).1
  case neg =>
    refine .inr (of_le ?_ (within (fun a b h => not_congr (hstep a b h)) ha hab))
    rintro a b ⟨h | h, ha, -⟩
    case inl => exact absurd (hA a b h).1 ha
    case inr => exact .rel _ _ h

-- A step between elements with `P`, or two steps from such elements to one without.
def Hop (P : α → Prop) (A : α → α → Prop) (a b : α) : Prop :=
  P a ∧ P b ∧ (A a b ∨ ∃ c, ¬P c ∧ A a c ∧ A b c)

-- If all steps start at elements with `P`, the others can be left out.
theorem hops (hA : ∀ a b, A a b → P a) (ha : P a) (hb : P b) (hab : EqvGen A a b) : EqvGen (Hop P A) a b := by
  classical
  -- In place of an element without `P` stands one from which a step leads to it.
  let f := fun c => if h : ¬P c ∧ ∃ a, A a c then h.2.choose else c
  have hf : ∀ {c}, P c → f c = c := fun hc => dif_neg fun h => h.1 hc
  have hsteps : ∀ a b, A a b → EqvGen (Hop P A) (f a) (f b) := by
    intro a b hab
    rw [hf (hA a b hab)]
    by_cases hb : P b
    case pos =>
      rw [hf hb]
      exact .rel _ _ ⟨hA a b hab, hb, .inl hab⟩
    case neg =>
      have h : ¬P b ∧ ∃ a, A a b := ⟨hb, a, hab⟩
      have heq : f b = h.2.choose := dif_pos h
      have hchosen := h.2.choose_spec
      rw [heq]
      exact .rel _ _ ⟨hA a b hab, hA _ b hchosen, .inr ⟨b, hb, hab, hchosen⟩⟩
  have hmap := map f hsteps hab
  rwa [hf ha, hf hb] at hmap

namespace Agree

theorem symm (h : Agree P A B) : Agree P B A :=
  fun a b ha hb => (h a b ha hb).symm

theorem trans (h : Agree P A B) (h' : Agree P B C) : Agree P A C :=
  fun a b ha hb => (h a b ha hb).trans (h' a b ha hb)

theorem sup (h : Agree P A B) (hJ : ∀ a b, J a b → P a ∧ P b) : Agree P (Either A J) (Either B J) := by
  have once : ∀ {A B}, Agree P A B → ∀ a b, P a → P b → EqvGen (Either A J) a b → EqvGen (Either B J) a b := by
    intro A B h a b ha hb hab
    refine of_le ?_ ((restrict_iff hJ ha hb).mp hab)
    rintro x y (⟨hx, hy, hxy⟩ | hxy)
    case inl => exact left ((h x y hx hy).mp hxy)
    case inr => exact .rel _ _ (.inr hxy)
  exact fun a b ha hb => ⟨once h a b ha hb, once h.symm a b ha hb⟩

end Agree

-- Elements of a list are related as their positions are.
theorem transfer {A B : Nat → Nat → Prop} {l : List Nat} {a b i j : Nat} (hl : l.Nodup)
    (hA : ∀ a b, A a b → ∃ i j, l[i]? = some a ∧ l[j]? = some b ∧ EqvGen B i j)
    (hB : ∀ i j, B i j → ∃ a b, l[i]? = some a ∧ l[j]? = some b ∧ EqvGen A a b) (ha : l[i]? = some a)
    (hb : l[j]? = some b) : EqvGen A a b ↔ EqvGen B i j := by
  have position : ∀ {i a}, l[i]? = some a → l.idxOf a = i := by
    intro i a h
    obtain ⟨hi, rfl⟩ := List.getElem?_eq_some_iff.mp h
    exact hl.idxOf_getElem i hi
  constructor
  · intro hab
    have hmap := map (B := B) (fun a => l.idxOf a) ?_ hab
    case refine_1 =>
      intro a b hab
      have ⟨i, j, hi, hj, hij⟩ := hA a b hab
      rwa [position hi, position hj]
    rwa [position ha, position hb] at hmap
  · intro hij
    have hmap := map (B := A) (fun i => l.getD i 0) ?_ hij
    case refine_1 =>
      intro i j hij
      have ⟨a, b, ha, hb, hab⟩ := hB i j hij
      simpa [List.getD_eq_getElem?_getD, ha, hb] using hab
    simpa [List.getD_eq_getElem?_getD, ha, hb] using hmap

end Subplans.Closure
