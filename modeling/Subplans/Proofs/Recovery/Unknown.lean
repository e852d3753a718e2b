import Subplans.Proofs.Recovery.Faithful

/-!
Operators that nobody knows are reported.

`Plan.Sees` tells which operations of a plan are looked at: all of them, except that below a bitmap heap scan it is only
its inputs, up to the first that is no bitmap of index scans. If one that is looked at has an unknown operator, nothing
is recovered from the plan, whatever the database answers (`recover_fails`).
-/

namespace Subplans

namespace Outcome

variable {α β ε : Type} {m : Type → Type} [Monad m] [LawfulMonad m] {x : ExceptT ε m α} {f : α → ExceptT ε m β} {e : ε}

-- The run ends with an error, whatever it is answered on the way.
def Fails (x : ExceptT ε m α) : Prop :=
  ∃ c : m ε, x.run = Except.error <$> c

theorem fails_throw : Fails (throw e : ExceptT ε m α) :=
  ⟨pure e, by simp⟩

theorem Fails.bind (h : Fails x) : Fails (x >>= f) := by
  obtain ⟨c, hc⟩ := h
  exact ⟨c, by simp [ExceptT.run_bind, hc]⟩

theorem fails_bind (h : ∀ a, Fails (f a)) : Fails (x >>= f) := by
  choose c hc using h
  let next : Except ε α → m ε
    | .ok a => c a
    | .error e => pure e
  refine ⟨x.run >>= next, ?_⟩
  rw [ExceptT.run_bind, map_bind]
  congr 1
  funext outcome
  cases outcome
  case error e => simp [next]
  case ok a => exact hc a

end Outcome

open Outcome Recovery

namespace Plan

-- The input yields what a bitmap heap scan reads: the rows that an index scan finds, or those that all of several find.
def isBitmap (p : Plan) : Bool :=
  match p.operation.operator? with
  | some .bitmapIndexScan => true
  | some .bitmapAnd => (intersected p.inputs).isSome
  | _ => false

-- The operations that are looked at.
inductive Sees : Plan → Operation → Prop
  | root {o : Operation} {inputs : List Plan} : Sees (node o inputs) o
  | input {o o' : Operation} {p : Plan} {inputs : List Plan} :
    o.operator? ≠ some .bitmapHeapScan → p ∈ inputs → Sees p o' → Sees (node o inputs) o'
  | bitmap {o : Operation} {p : Plan} {before after : List Plan} :
    o.operator? = some .bitmapHeapScan → (∀ q ∈ before, q.isBitmap = true) →
    Sees (node o (before ++ p :: after)) p.operation

theorem operationsAll_eq {ps : List Plan} : operationsAll ps = ps.flatMap operations := by
  induction ps
  case nil => rfl
  case cons p ps ih => rw [operationsAll, ih, List.flatMap_cons]

-- Only bitmap heap scans hide something.
theorem sees_of_mem_operations {p : Plan} (h : ∀ o ∈ p.operations, o.operator? ≠ some .bitmapHeapScan) :
    ∀ o ∈ p.operations, p.Sees o := by
  induction p using rec_inputs
  case step o inputs ih =>
    simp only [operations, operationsAll_eq, List.mem_cons, List.mem_flatMap] at h ⊢
    rintro o' (rfl | ⟨p, hp, ho'⟩)
    · exact .root
    · exact .input (h o (.inl rfl)) hp (ih p hp (fun o'' ho'' => h o'' (.inr ⟨p, hp, ho''⟩)) o' ho')

end Plan

namespace Recovery

variable {m : Type → Type} [Monad m] [LawfulMonad m] {r : Recovery m} {depth : Nat} {o : Operation} {p : Plan}
  {inputs before after : List Plan}

theorem bitmapSource_unknown (hp : p.operation.operator? = none) (hb : ∀ q ∈ before, q.isBitmap = true) :
    bitmapSource (before ++ p :: after) = .unknown p.operation.name := by
  induction before
  case nil => simp [bitmapSource, hp]
  case cons q before ih =>
    have ih := ih fun q' hq' => hb q' (List.mem_cons_of_mem q hq')
    have hq := hb q List.mem_cons_self
    unfold Plan.isBitmap at hq
    rw [List.cons_append, bitmapSource]
    split at hq
    case h_1 hscan => simp [hscan, bitmapSource.after, ih]
    case h_2 hand =>
      obtain ⟨operations, hoperations⟩ := Option.isSome_iff_exists.mp hq
      simp [hand, hoperations, bitmapSource.after, ih]
    case h_3 => cases hq

theorem fails_recoverAll (hp : p ∈ inputs) (h : Fails (r.recoverBelow depth p)) :
    Fails (r.recoverAll depth inputs) := by
  induction inputs
  case nil => cases hp
  case cons q rest ih =>
    rw [recoverAll]
    cases hp
    case head => exact h.bind
    case tail hp => exact fails_bind fun _ => (ih hp).bind

-- A node fails if what it needs does: its inputs, or what a heap scan takes from them.
theorem fails_node (hheap : o.operator? = some .bitmapHeapScan → Fails (r.heapScan o inputs))
    (hother : o.operator? ≠ none → o.operator? ≠ some .bitmapHeapScan → Fails (r.recoverAll (depth + 1) inputs)) :
    Fails (r.recoverBelow depth (.node o inputs)) := by
  rw [recoverBelow]
  split
  case isTrue => exact fails_throw.bind
  case isFalse =>
  cases ho : o.operator?
  case none => exact fails_throw
  case some operator =>
    by_cases hoperator : operator = .bitmapHeapScan
    case pos =>
      subst hoperator
      exact hheap ho
    case neg =>
      simp only [beq_iff_eq, hoperator, reduceIte]
      split
      case isTrue => exact fails_throw
      case isFalse => exact (hother (by simp [ho]) (by simp [ho, hoperator])).bind

theorem fails_recoverBelow (h : p.Sees o) (ho : o.operator? = none) (depth : Nat) :
    Fails (r.recoverBelow depth p) := by
  induction h generalizing depth
  case root => exact fails_node (fun h => by simp [ho] at h) fun h => absurd ho h
  case input hne hp _ ih => exact fails_node (fun h => absurd h hne) fun _ _ => fails_recoverAll hp (ih ho _)
  case bitmap hheap hb =>
    refine fails_node (fun _ => ?_) fun _ h => absurd hheap h
    rw [heapScan, bitmapSource_unknown ho hb]
    exact fails_throw

-- Where an operator that nobody knows is looked at, there is an error, whatever the database answers; and without
-- bitmap heap scans all operators are looked at.
theorem recover_fails (r : Recovery m) (p : Plan) : (∀ o, p.Sees o → o.operator? = none → Fails (r.recover p)) ∧
    ((∀ o ∈ p.operations, o.operator? ≠ some .bitmapHeapScan) →
      (∃ o ∈ p.operations, o.operator? = none) → Fails (r.recover p)) := by
  have hsees : ∀ o, p.Sees o → o.operator? = none → Fails (r.recover p) :=
    fun _ hsees ho => fails_recoverBelow hsees ho 0
  refine ⟨hsees, fun hheap ⟨o, hmem, ho⟩ => hsees o (Plan.sees_of_mem_operations hheap o hmem) ho⟩

def indexScan : Plan :=
  .node { name := "Bitmap Index Scan", index := some "a_key" } []

def functionScan : Operation where
  name := "Function Scan"
  aliasName := some "f"

-- A function stands among the inputs of a bitmap heap scan.
def besideBitmaps : Plan :=
  .node { name := "Bitmap Heap Scan", relation := some "a", aliasName := some "z" } [
    indexScan, .node { name := "BitmapAnd" } [indexScan, indexScan], .node functionScan []]

def belowJoin : Plan :=
  .node { name := "Hash Join", joinType := some "Inner" } [
    .node { name := "Seq Scan", relation := some "b", aliasName := some "y" } [],
    .node { name := "Hash" } [besideBitmaps]]

theorem sees_belowJoin : belowJoin.Sees functionScan := by
  have hbitmaps : ∀ q ∈ [indexScan, .node { name := "BitmapAnd" } [indexScan, indexScan]], q.isBitmap = true := by
    decide
  have hheap : besideBitmaps.Sees functionScan := .bitmap (p := .node functionScan []) (by decide) hbitmaps
  have hhash : (Plan.node { name := "Hash" } [besideBitmaps]).Sees functionScan :=
    .input (by decide) List.mem_cons_self hheap
  exact .input (by decide) (List.mem_cons_of_mem _ List.mem_cons_self) hhash

theorem recover_fails_belowJoin : belowJoin.Sees functionScan ∧ functionScan.operator? = none ∧
    (∀ o ∈ (Plan.node functionScan []).operations, o.operator? ≠ some .bitmapHeapScan) ∧
    Fails (refusing.recover (.node functionScan [])) ∧ Fails (refusing.recover belowJoin) := by
  have hunknown : functionScan.operator? = none := by decide
  have hheap : ∀ o ∈ (Plan.node functionScan []).operations, o.operator? ≠ some .bitmapHeapScan := by decide
  exact ⟨sees_belowJoin, hunknown, hheap,
    (recover_fails refusing _).2 hheap ⟨functionScan, List.mem_cons_self, hunknown⟩,
    (recover_fails refusing _).1 _ sees_belowJoin hunknown⟩

-- A function stands among bitmaps that are combined. It is taken for bitmaps that are combined in another way, and the
-- heap scan for one that no query stands for.
def functionInBitmaps : Plan :=
  .node { name := "Bitmap Heap Scan", relation := some "a", aliasName := some "z" } [
    .node { name := "BitmapAnd" } [indexScan, .node functionScan []]]

theorem not_fails_functionInBitmaps : (∃ o ∈ functionInBitmaps.operations, o.operator? = none) ∧
    ¬Fails (refusing.recover functionInBitmaps) := by
  constructor
  · exact ⟨functionScan, by simp [functionInBitmaps, Plan.operations, Plan.operationsAll], by decide⟩
  · rintro ⟨e, he⟩
    have hand : Operator.named? "BitmapAnd" = some .bitmapAnd := by decide
    have hnone : intersected [indexScan, .node functionScan []] = none := by decide
    have hsource : bitmapSource functionInBitmaps.inputs = .combined := by
      simp [functionInBitmaps, Plan.inputs, bitmapSource, Plan.operation, Operation.operator?, hand, hnone]
    have hrun : refusing.recover functionInBitmaps =
        refusing.heapScan functionInBitmaps.operation functionInBitmaps.inputs := rfl
    rw [hrun, heapScan, hsource] at he
    cases he

end Recovery

end Subplans
