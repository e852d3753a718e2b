import Mathlib.Logic.Relation
import Subplans.Proofs.Equalities.Printed
import Subplans.Proofs.Estimate.Simulation

/-!
Estimation in parallel.

Workers take the chunks of some queries and put each estimate at the position of its query. They may go on with their
chunks in any order. If what is answered for a query depends on the query only, all of them come to an end just if every
query has an estimate, and the estimates are those that are made one after the other (`ends_estimateAll`).
-/

namespace Subplans.Estimator

open Outcome QueryGraph Relation

variable {size count bound : Nat}

theorem flatMap_range (size count : Nat) :
    (List.range count).flatMap (fun i => List.range' (i * size) size) = List.range (count * size) := by
  induction count
  case zero => simp
  case succ count ih =>
    rw [List.range_succ, List.flatMap_append, ih, List.flatMap_singleton, Nat.succ_mul, List.range_eq_range',
      List.range_eq_range', ← List.range'_append_1, Nat.zero_add]

theorem filter_range (h : count ≤ bound) : (List.range bound).filter (· < count) = List.range count := by
  obtain ⟨rest, rfl⟩ := Nat.exists_eq_add_of_le h
  rw [List.range_add, List.filter_append, List.filter_eq_self.mpr (by simp), List.filter_eq_nil_iff.mpr (by simp),
    List.append_nil]

-- The chunks are made of the positions in their order.
theorem flatten_chunks (size count : Nat) : (chunks size count).flatten = List.range count := by
  have hpositive : 0 < max size 1 := by omega
  have hcover : count ≤ (count + (max size 1 - 1)) / max size 1 * max size 1 := by
    have hdiv := Nat.div_add_mod (count + (max size 1 - 1)) (max size 1)
    have hmod := Nat.mod_lt (count + (max size 1 - 1)) hpositive
    rw [Nat.mul_comm] at hdiv
    omega
  rw [chunks, ← List.flatMap_def, ← List.filter_flatMap, flatMap_range, filter_range hcover]

-- What is done, and what is left.
structure Work where
  estimates : List Float
  -- The positions that are left in each of the chunks.
  left      : List (List Nat)
  failures  : List BackendError

namespace Work

def start (size count : Nat) : Work where
  estimates := List.replicate count unknownEstimate
  left      := chunks size count
  failures  := []

-- Nothing is left to be done, or else nothing needs to be done after a failure.
inductive Ends : Work → Except BackendError (List Float) → Prop
  | all {xs left} (h : ∀ chunk ∈ left, chunk = []) : Ends ⟨xs, left, []⟩ (.ok xs)
  | failed {xs left errors err} (h : err ∈ errors) : Ends ⟨xs, left, errors⟩ (.error err)

end Work

variable {σ : Type} {e : Estimator (StateM σ)} {s : Schema} {queries : List (Option QueryGraph)} {st : σ} {w w' : Work}
  {result : Except BackendError (List Float)}

-- A worker goes on with its chunk, in whatever state the others have left behind.
inductive Step (e : Estimator (StateM σ)) (s : Schema) (queries : List (Option QueryGraph)) : Work → Work → Prop
  | write {xs others others' front back errors p st x} (h : outcome (e.estimate s (queries.getD p none)) st = .ok x) :
      Step e s queries ⟨xs, others ++ (front ++ p :: back) :: others', errors⟩
        ⟨xs.set p x, others ++ (front ++ back) :: others', errors⟩
  | fail {xs others others' front back errors p st err}
      (h : outcome (e.estimate s (queries.getD p none)) st = .error err) :
      Step e s queries ⟨xs, others ++ (front ++ p :: back) :: others', errors⟩ ⟨xs, others ++ others', err :: errors⟩

def Reached (e : Estimator (StateM σ)) (s : Schema) (size : Nat) (queries : List (Option QueryGraph)) : Work → Prop :=
  ReflTransGen (e.Step s queries) (.start size queries.length)

-- As long as no worker has failed, those who have something left can go on.
theorem exists_step_or_ends (st : σ) (w : Work) : (∃ w', e.Step s queries w w') ∨ ∃ result, w.Ends result := by
  obtain ⟨xs, left, errors⟩ := w
  rcases errors with _ | ⟨err, errors⟩
  case cons => exact .inr ⟨_, .failed List.mem_cons_self⟩
  case nil =>
    by_cases hall : ∀ chunk ∈ left, chunk = []
    case pos => exact .inr ⟨_, .all hall⟩
    case neg =>
      push Not at hall
      obtain ⟨chunk, hchunk, hne⟩ := hall
      obtain ⟨others, others', rfl⟩ := List.append_of_mem hchunk
      obtain ⟨p, back, rfl⟩ := List.exists_cons_of_ne_nil hne
      refine .inl ?_
      rw [← List.nil_append (p :: back)]
      cases h : outcome (e.estimate s (queries.getD p none)) st
      case error err => exact ⟨_, .fail h⟩
      case ok x => exact ⟨_, .write h⟩

theorem Step.length_lt (h : e.Step s queries w w') : w'.left.flatten.length < w.left.flatten.length := by
  cases h
  case write => simp
  case fail => simp; omega

theorem wellFounded_step : WellFounded fun w' w => e.Step s queries w w' :=
  Subrelation.wf Step.length_lt (measure fun w : Work => w.left.flatten.length).wf

-- The estimates that are there are right, and a failure is that of a query.
structure Sound (e : Estimator (StateM σ)) (s : Schema) (queries : List (Option QueryGraph)) (st : σ) (w : Work) :
    Prop where
  length : w.estimates.length = queries.length
  lt     : ∀ p ∈ w.left.flatten, p < queries.length
  done   : w.failures = [] → ∀ p < queries.length, p ∈ w.left.flatten ∨
    ∃ x, outcome (e.estimate s (queries.getD p none)) st = .ok x ∧ w.estimates[p]? = some x
  failed : ∀ err ∈ w.failures, ∃ p < queries.length, outcome (e.estimate s (queries.getD p none)) st = .error err

theorem sound_start : Sound e s queries st (.start size queries.length) where
  length := by simp [Work.start]
  lt p hp := by simpa [Work.start, flatten_chunks] using hp
  done _ p hp := .inl (by simpa [Work.start, flatten_chunks] using hp)
  failed := nofun

-- What the estimator comes to for a query depends on the query only.
def Steady (e : Estimator (StateM σ)) (s : Schema) : Prop :=
  ∀ g st st', outcome (e.connected s g) st = outcome (e.connected s g) st'

namespace Steady

variable (he : e.Steady s)

include he

theorem estimate (query : Option QueryGraph) (st st' : σ) :
    outcome (e.estimate s query) st = outcome (e.estimate s query) st' :=
  estimate_simulates .steady he query st st'

theorem estimateAll (st : σ) :
    outcome (e.estimateAll s queries) st = queries.mapM fun query => outcome (e.estimate s query) st :=
  outcome_mapM he.estimate queries st st

theorem sound_step (hw : Sound e s queries st w) (h : e.Step s queries w w') : Sound e s queries st w' := by
  cases h
  case write xs others others' front back errors p st' x h =>
    have hp : p < queries.length := hw.lt p (by simp)
    have hx := he.estimate _ st st' ▸ h
    refine ⟨by simpa using hw.length, fun q hq => hw.lt q ?_, fun hnone q hq => ?_, hw.failed⟩
    · simp only [List.mem_flatten, List.mem_append, List.mem_cons] at hq ⊢
      grind
    · by_cases hqp : q = p
      case pos =>
        have hlength : p < xs.length := by simpa [hw.length] using hp
        exact .inr ⟨x, hqp ▸ hx, by simp [hqp, hlength]⟩
      case neg =>
        rcases hw.done hnone q hq with hleft | ⟨y, hy, hget⟩
        · refine .inl ?_
          simpa [hqp] using hleft
        · exact .inr ⟨y, hy, by rwa [List.getElem?_set_ne (Ne.symm hqp)]⟩
  case fail xs others others' front back errors p st' err h =>
    have hp : p < queries.length := hw.lt p (by simp)
    refine ⟨hw.length, fun q hq => hw.lt q ?_, nofun, fun err' herr => ?_⟩
    · simp at hq ⊢
      grind
    · rcases List.mem_cons.mp herr with rfl | herr
      · exact ⟨p, hp, he.estimate _ st st' ▸ h⟩
      · exact hw.failed err' herr

theorem sound (h : e.Reached s size queries w) : Sound e s queries st w := by
  induction h
  case refl => exact sound_start
  case tail hstep ih => exact he.sound_step ih hstep

end Steady

-- To work on the positions in their order is one way to go on.
theorem exists_run (left : List (List Nat)) (xs : List Float) (st : σ) :
    ∃ w, ReflTransGen (e.Step s queries) ⟨xs, left, []⟩ w ∧
      w.Ends (outcome (left.flatten.foldlM (fun estimates i => do
        let x ← e.estimate s (queries.getD i none)
        return estimates.set i x) xs) st) := by
  generalize hpositions : left.flatten = positions
  induction positions generalizing left xs st
  case nil => exact ⟨_, .refl, .all (List.flatten_eq_nil_iff.mp hpositions)⟩
  case cons p rest ih =>
    obtain ⟨done, back, others, rfl, hdone, rfl⟩ := List.flatten_eq_cons_iff.mp hpositions
    rw [List.foldlM_cons, bind_assoc, outcome_bind]
    simp only [pure_bind]
    cases h : outcome (e.estimate s (queries.getD p none)) st
    case error err =>
      have hstep : e.Step s queries ⟨xs, done ++ ([] ++ p :: back) :: others, []⟩ ⟨xs, done ++ others, [err]⟩ := .fail h
      exact ⟨_, .single hstep, .failed (List.mem_singleton_self err)⟩
    case ok x =>
      have hstep : e.Step s queries ⟨xs, done ++ ([] ++ p :: back) :: others, []⟩
          ⟨xs.set p x, done ++ ([] ++ back) :: others, []⟩ := .write h
      have hrest : (done ++ ([] ++ back) :: others).flatten = back ++ others.flatten := by
        simp [List.flatten_eq_nil_iff.mpr hdone]
      obtain ⟨w, hw, hends⟩ := ih _ (xs.set p x) (after (e.estimate s (queries.getD p none)) st) hrest
      exact ⟨w, .head hstep hw, hends⟩

theorem ends_estimateInChunks (e : Estimator (StateM σ)) (s : Schema) (size : Nat)
    (queries : List (Option QueryGraph)) (st : σ) :
    ∃ w, e.Reached s size queries w ∧ w.Ends (outcome (e.estimateInChunks s size queries) st) :=
  exists_run _ _ st

namespace Sound

variable (he : e.Steady s) (hw : Sound e s queries st w)

include he hw

-- If nothing is left, the estimates are those that are made one after the other.
theorem estimateAll_eq_ok (hleft : ∀ chunk ∈ w.left, chunk = []) (hnone : w.failures = []) :
    outcome (e.estimateAll s queries) st = .ok w.estimates := by
  rw [he.estimateAll, mapM_eq_ok, List.forall₂_iff_get]
  refine ⟨hw.length.symm, fun p hp hp' => ?_⟩
  rcases hw.done hnone p hp with hleft' | ⟨x, hx, hget⟩
  · simp [List.flatten_eq_nil_iff.mpr hleft] at hleft'
  · rw [List.getElem?_eq_getElem hp', Option.some.injEq] at hget
    simpa [hp, hget] using hx

theorem estimateAll_ne_ok {err : BackendError} (herr : err ∈ w.failures) (xs : List Float) :
    outcome (e.estimateAll s queries) st ≠ .ok xs := by
  intro hok
  obtain ⟨p, hp, herr⟩ := hw.failed err herr
  rw [he.estimateAll, mapM_eq_ok, List.forall₂_iff_get] at hok
  have hx := hok.2 p hp (hok.1 ▸ hp)
  simp [hp] at herr hx
  simp [herr] at hx

theorem ends_iff (hends : w.Ends result) (xs : List Float) :
    result = .ok xs ↔ outcome (e.estimateAll s queries) st = .ok xs := by
  cases hends
  case all left ys hleft =>
    rw [hw.estimateAll_eq_ok he hleft rfl]
  case failed err herr => exact iff_of_false nofun (hw.estimateAll_ne_ok he herr xs)

end Sound

-- A missing query counts as one that cannot be estimated.
theorem answers_estimateAll (he : e.Steady s) {xs : List Float} (h : outcome (e.estimateAll s queries) st = .ok xs) :
    List.Forall₂ (fun query x => outcome (e.estimate s query) st = .ok x ∧ (query = none → x = unknownEstimate))
      queries xs := by
  rw [he.estimateAll, mapM_eq_ok] at h
  refine h.imp fun query x hx => ⟨hx, ?_⟩
  rintro rfl
  exact (Except.ok.inj hx).symm

theorem ends_estimateAll (he : e.Steady s) (size : Nat) (batches : List (List (Option QueryGraph))) (st : σ) :
    (∀ w result, e.Reached s size batches.flatten w → w.Ends result →
      ∀ xs, result = .ok xs ↔ outcome (e.estimateAll s batches.flatten) st = .ok xs) ∧
    (∀ w, (∃ w', e.Step s batches.flatten w w') ∨ ∃ result, w.Ends result) ∧
    (WellFounded fun w' w => e.Step s batches.flatten w w') ∧
    (∀ xs, outcome (e.estimateInChunks s size batches.flatten) st = .ok xs ↔
      outcome (e.estimateAll s batches.flatten) st = .ok xs) ∧
    ∀ xs, outcome (e.estimateAll s batches.flatten) st = .ok xs →
      List.Forall₂ (fun query x => outcome (e.estimate s query) st = .ok x ∧ (query = none → x = unknownEstimate))
        batches.flatten xs := by
  have hends : ∀ w result, e.Reached s size batches.flatten w → w.Ends result →
      ∀ xs, result = .ok xs ↔ outcome (e.estimateAll s batches.flatten) st = .ok xs :=
    fun w result hw hends => (he.sound hw).ends_iff he hends
  obtain ⟨w, hw, hresult⟩ := ends_estimateInChunks e s size batches.flatten st
  exact ⟨hends, exists_step_or_ends st, wellFounded_step, hends w _ hw hresult, fun _ => answers_estimateAll he⟩

def counting : Estimator (StateM Nat) where
  connected _ g := do
    modify (· + 1)
    return g.edges.length.toFloat

theorem steady_counting : counting.Steady s :=
  fun _ _ _ => rfl

-- A missing query, and films with two edges and with three.
def filmBatches : List (List (Option QueryGraph)) :=
  [[some (.filmGraph true [(0, 0), (1, 2)]), none], [], [some (.filmGraph true [(0, 0), (1, 2), (0, 1)])]]

theorem ends_estimateAll_counting : counting.Steady filmSchema ∧
    ∀ w result, counting.Reached filmSchema 0 filmBatches.flatten w → w.Ends result →
      result = .ok [Nat.toFloat 2, unknownEstimate, Nat.toFloat 3] := by
  refine ⟨steady_counting, fun w result hw hends => ?_⟩
  exact ((ends_estimateAll steady_counting 0 filmBatches 5).1 w result hw hends _).mpr rfl

end Subplans.Estimator
