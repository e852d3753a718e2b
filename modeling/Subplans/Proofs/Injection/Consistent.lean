import Mathlib.Algebra.Order.Ring.Rat
import Mathlib.Tactic.NormNum
import Subplans.Proofs.Injection.Correction

/-!
Estimates of joins that agree with those of their inputs.

What every join is corrected by is settled before it, so there is only one way to agree (`Consistent.unique`), and it is
what the joins are corrected to. Over the rationals a corrected estimate stays within what its inputs allow
(`bounds_correct`).
-/

namespace Subplans.Correction

variable {infos : List (Option JoinInfo)}

section

variable {α : Type} [BEq α] [LT α] [DecidableLT α] [Sub α] [Neg α] [OfNat α 0] [OfNat α 1]
  {tables joins js js' : List α}

-- Every estimate is the given one, or corrected by what finally becomes of the inputs.
structure Consistent (tables joins : List α) (infos : List (Option JoinInfo)) (js : List α) : Prop where
  length  : js.length = joins.length
  entries : ∀ (k : Nat) x info, joins[k]? = some x → infos[k]? = some info → js[k]? = some (corrected tables js x info)

theorem Consistent.unique (h : Consistent tables joins infos js) (h' : Consistent tables joins infos js')
    (hlength : infos.length = joins.length) (hbefore : ∀ k info, infos[k]? = some info → Before k info) :
    js' = js := by
  apply List.ext_getElem?
  intro k
  -- What a join is corrected by comes before it, so both lists agree on it.
  induction k using Nat.strongRecOn
  case ind k ih =>
    by_cases hk : k < joins.length
    case pos =>
      have hx := List.getElem?_eq_getElem hk
      have hinfo := List.getElem?_eq_getElem (hlength ▸ hk : k < infos.length)
      rw [h.entries k _ _ hx hinfo, h'.entries k _ _ hx hinfo, corrected_congr (hbefore k _ hinfo) ih]
    case neg =>
      have hle := Nat.le_of_not_lt hk
      rw [List.getElem?_eq_none (h'.length ▸ hle), List.getElem?_eq_none (h.length ▸ hle)]

end

variable {tables joins js : List ℚ} {x outer inner : ℚ} {type : JoinType} {info : JoinInfo}

theorem larger_eq_max : larger x outer = max x outer := by
  by_cases h : x < outer
  case pos => simp [larger, h, h.le]
  case neg => simp [larger, h, not_lt.mp h]

-- A number of rows, unless nothing is known.
def IsEstimate (x : ℚ) : Prop :=
  x = unknown ∨ 0 ≤ x

-- What a join of this type can have, if its inputs have that many rows. Nothing is ever known of a semi-join.
def Bounds (outer inner x : ℚ) : JoinType → Prop
  | .inner => True
  | .left => outer ≤ x
  | .full => outer ≤ x ∧ inner ≤ x
  | .semi => False
  | .anti => 0 ≤ x ∧ x ≤ outer

theorem isEstimate_correct (hx : 0 ≤ x) : IsEstimate (correct type x outer inner) := by
  by_cases hunknown : (outer == unknown || inner == unknown) = true
  case pos => cases type <;> simp [correct, hunknown, IsEstimate, hx]
  case neg => cases type <;> simp [correct, hunknown, larger_eq_max, IsEstimate, hx]

theorem bounds_correct (hx : 0 ≤ x) (houter : IsEstimate outer) :
    correct type x outer inner = unknown ∨ Bounds outer inner (correct type x outer inner) type := by
  by_cases hunknown : (outer == unknown || inner == unknown) = true
  case pos => cases type <;> simp [correct, hunknown, Bounds]
  case neg =>
    have hrows : 0 ≤ outer := houter.resolve_left (by simp_all)
    cases type
    case inner => exact .inr trivial
    case left => simp [correct, hunknown, larger_eq_max, Bounds]
    case full => simp [correct, hunknown, larger_eq_max, Bounds]
    case semi => simp [correct, hunknown]
    case anti => simp [correct, hunknown, larger_eq_max, Bounds, hx, hrows]

-- The estimate is corrected if it and those of both inputs are there.
theorem corrected_eq_correct (hx : x ≠ unknown) (houter : estimateAt? tables js info.outer = some outer)
    (hinner : estimateAt? tables js info.inner = some inner) :
    corrected tables js x (some info) = correct info.joinType x outer inner := by
  by_cases htype : info.joinType = .inner
  case pos => simp [corrected, correct, htype]
  case neg => simp [corrected, hx, htype, houter, hinner]

theorem isEstimate_corrected {info : Option JoinInfo} (hx : IsEstimate x) :
    IsEstimate (corrected tables js x info) := by
  unfold corrected
  split
  case h_1 => exact hx
  case h_2 =>
    split
    case isTrue => exact hx
    case isFalse hknown =>
      split
      case h_1 => exact isEstimate_correct (hx.resolve_left (by simp_all))
      case h_2 => exact hx

namespace Consistent

variable (h : Consistent tables joins infos js) (hlength : infos.length = joins.length)
  (hgiven : ∀ x ∈ tables ++ joins, IsEstimate x)

include h hlength in
theorem exists_corrected {k : Nat} {y : ℚ} (hy : js[k]? = some y) :
    ∃ x info, joins[k]? = some x ∧ infos[k]? = some info ∧ y = corrected tables js x info := by
  have hk : k < joins.length := h.length ▸ (List.getElem?_eq_some_iff.mp hy).1
  have hx := List.getElem?_eq_getElem hk
  have hinfo := List.getElem?_eq_getElem (hlength ▸ hk : k < infos.length)
  exact ⟨_, _, hx, hinfo, Option.some.inj (hy.symm.trans (h.entries k _ _ hx hinfo))⟩

include h hlength hgiven

theorem isEstimate : ∀ y ∈ js, IsEstimate y := by
  intro y hy
  have ⟨k, hk⟩ := List.mem_iff_getElem?.mp hy
  obtain ⟨x, info, hx, _, rfl⟩ := h.exists_corrected hlength hk
  exact isEstimate_corrected (hgiven x (List.mem_append_right _ (List.mem_of_getElem? hx)))

theorem isEstimate_at {r : EstimateRef} (hr : estimateAt? tables js r = some x) : IsEstimate x := by
  unfold estimateAt? at hr
  split at hr
  case isTrue => exact h.isEstimate hlength hgiven x (List.mem_of_getElem? hr)
  case isFalse => exact hgiven x (List.mem_append_left _ (List.mem_of_getElem? hr))

theorem bounds {k : Nat} {y : ℚ} (hinfo : infos[k]? = some (some info)) (hy : js[k]? = some y)
    (houter : estimateAt? tables js info.outer = some outer) (hinner : estimateAt? tables js info.inner = some inner) :
    y = unknown ∨ Bounds outer inner y info.joinType := by
  obtain ⟨x, info', hx, hinfo', rfl⟩ := h.exists_corrected hlength hy
  cases hinfo.symm.trans hinfo'
  by_cases hknown : x = unknown
  case pos => exact .inl (by simp [corrected, hknown])
  case neg =>
    have hrows := (hgiven x (List.mem_append_right _ (List.mem_of_getElem? hx))).resolve_left hknown
    rw [corrected_eq_correct hknown houter hinner]
    exact bounds_correct hrows (h.isEstimate_at hlength hgiven houter)

end Consistent

end Subplans.Correction
