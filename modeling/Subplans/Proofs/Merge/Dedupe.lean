import Subplans.Proofs.Graph.WellFormed
import Subplans.Query.Merge

/-!
Equal edges.

Of edges that are the same join all but one are removed. The graph keeps its nodes and joins
(`deduped_dedupeEdges`), and no equal edges are left in it (`simple_dedupeEdges`).
-/

namespace Subplans.QueryGraph

variable {g g' : QueryGraph} {id kept added added' : Nat} {x : Edge}

-- No two edges are this join.
def Once (g : QueryGraph) (x : Edge) : Prop :=
  ∀ e e', g.edge? e = some x → g.edge? e' = some x → e = e'

-- No two edges are the same join.
def Simple (g : QueryGraph) : Prop :=
  ∀ x, g.Once x

-- The graphs have the same joins, and the one that stood at `added` stands at `added'`.
structure Deduped (g : QueryGraph) (added : Nat) (g' : QueryGraph) (added' : Nat) : Prop where
  sameNodes  : SameNodes g g'
  wellFormed : g.WellFormed → g'.WellFormed
  wired      : g.Wired → g'.Wired
  edge?      : ∀ e x, g'.edge? e = some x → g.edge? e = some x
  hasEdge    : ∀ x, g'.HasEdge x ↔ g.HasEdge x
  stays      : ∀ x, g'.edge? added = some x → added' = added
  added      : g'.edge? added' = g.edge? added

namespace Deduped

theorem refl : Deduped g added g added :=
  ⟨.refl, id, id, fun _ _ => id, fun _ => .rfl, fun _ _ => rfl, rfl⟩

theorem trans {g'' : QueryGraph} {added'' : Nat} (h : Deduped g added g' added')
    (h' : Deduped g' added' g'' added'') : Deduped g added g'' added'' where
  sameNodes := h.sameNodes.trans h'.sameNodes
  wellFormed hg := h'.wellFormed (h.wellFormed hg)
  wired hg := h'.wired (h.wired hg)
  edge? e x he := h.edge? e x (h'.edge? e x he)
  hasEdge x := (h'.hasEdge x).trans (h.hasEdge x)
  stays x hx := by
    have heq := h.stays x (h'.edge? added x hx)
    exact (h'.stays x (heq ▸ hx)).trans heq
  added := h'.added.trans h.added

-- An edge is removed while an equal one stays.
theorem removeEdge (hk : g.edge? kept = some x) (hid : g.edge? id = some x) (hne : kept ≠ id) :
    Deduped g added (g.removeEdge id) (if id == added then kept else added) where
  sameNodes := sameNodes_removeEdge
  wellFormed hg := hg.removeEdge
  wired hg := hg.removeEdge
  edge? e y he := by
    rw [edge?_removeEdge] at he
    split at he
    case isTrue => cases he
    case isFalse => exact he
  hasEdge y := by
    constructor
    · rintro ⟨e, he⟩
      rw [edge?_removeEdge] at he
      split at he
      case isTrue => cases he
      case isFalse => exact ⟨e, he⟩
    · rintro ⟨e, he⟩
      by_cases heq : e = id
      case pos =>
        refine ⟨kept, ?_⟩
        rw [edge?_removeEdge, if_neg hne, hk, ← hid, ← heq, he]
      case neg => exact ⟨e, by rw [edge?_removeEdge, if_neg heq, he]⟩
  stays y hy := by
    by_cases heq : id = added
    case pos => simp [heq, edge?_removeEdge] at hy
    case neg => simp [heq]
  added := by
    rw [edge?_removeEdge]
    by_cases heq : id = added
    case pos => simp [heq, ← hid, hk, heq ▸ hne]
    case neg => simp [heq, Ne.symm heq]

end Deduped

-- What is done with one edge: the graph so far, the edges seen in it, and the edge that stands for `added`.
def dedupeStep (acc : QueryGraph × List (Edge × Nat) × Nat) (id : Nat) : QueryGraph × List (Edge × Nat) × Nat :=
  match acc.1.edge? id with
  | none => acc
  | some e =>
    match acc.2.1.lookup e with
    | some kept => (acc.1.removeEdge id, acc.2.1, if id == acc.2.2 then kept else acc.2.2)
    | none => (acc.1, (e, id) :: acc.2.1, acc.2.2)

-- The joins seen so far are those of the edges that are there and not among the edges to come, each at one of them.
theorem deduped_foldl {ids : List Nat} {t : QueryGraph × List (Edge × Nat) × Nat} (hids : ids.Nodup)
    (hseen : ∀ x kept, t.2.1.lookup x = some kept ↔ t.1.edge? kept = some x ∧ kept ∉ ids) :
    Deduped t.1 t.2.2 (ids.foldl dedupeStep t).1 (ids.foldl dedupeStep t).2.2 ∧
      (ids.foldl dedupeStep t).1.Simple := by
  induction ids generalizing t
  case nil =>
    refine ⟨.refl, fun x e e' he he' => ?_⟩
    have hlook := (hseen x e).mpr ⟨he, List.not_mem_nil⟩
    have hlook' := (hseen x e').mpr ⟨he', List.not_mem_nil⟩
    exact Option.some.inj (hlook.symm.trans hlook')
  case cons id ids ih =>
    have ⟨hid, hids⟩ := List.nodup_cons.mp hids
    rw [List.foldl_cons]
    cases he : t.1.edge? id
    case none =>
      have hstep : dedupeStep t id = t := by simp [dedupeStep, he]
      rw [hstep]
      refine ih hids fun x kept => (hseen x kept).trans ?_
      by_cases hk : kept = id <;> simp [hk, he]
    case some e =>
      cases hlook : t.2.1.lookup e
      case some kept =>
        have hstep : dedupeStep t id =
            (t.1.removeEdge id, t.2.1, if id == t.2.2 then kept else t.2.2) := by
          simp [dedupeStep, he, hlook]
        have ⟨hk, hnot⟩ := (hseen e kept).mp hlook
        have hne : kept ≠ id := fun h => hnot (h ▸ List.mem_cons_self)
        rw [hstep]
        have ⟨hrest, hsimple⟩ := ih (t := (t.1.removeEdge id, t.2.1, if id == t.2.2 then kept else t.2.2)) hids
          fun x kept' => by
            rw [hseen, edge?_removeEdge]
            by_cases hk' : kept' = id <;> simp [hk']
        exact ⟨(Deduped.removeEdge hk he hne).trans hrest, hsimple⟩
      case none =>
        have hstep : dedupeStep t id = (t.1, (e, id) :: t.2.1, t.2.2) := by
          simp [dedupeStep, he, hlook]
        rw [hstep]
        refine ih (t := (t.1, (e, id) :: t.2.1, t.2.2)) hids fun x kept => ?_
        by_cases hx : x = e
        case pos =>
          -- No other edge that was seen is this join.
          have hnone : ∀ k, t.1.edge? k = some e → k ∉ ids → k = id := by
            intro k hk hnot
            by_contra hne
            simp [(hseen e k).mpr ⟨hk, by simp [hne, hnot]⟩] at hlook
          simp only [hx, List.lookup_cons_self, Option.some.injEq]
          exact ⟨fun h => h ▸ ⟨he, hid⟩, fun ⟨hk, hnot⟩ => (hnone kept hk hnot).symm⟩
        case neg =>
          have hxe : (x == e) = false := beq_eq_false_iff_ne.mpr hx
          simp only [List.lookup_cons, hxe, hseen x kept]
          by_cases hk : kept = id
          case pos => simp [hk, he, Ne.symm hx]
          case neg => simp [hk]

theorem dedupeEdges_eq : g.dedupeEdges added =
    ((g.edgeIds.foldl dedupeStep (g, [], added)).1, (g.edgeIds.foldl dedupeStep (g, [], added)).2.2) :=
  rfl

theorem seen_none (x : Edge) (kept : Nat) :
    ([] : List (Edge × Nat)).lookup x = some kept ↔ g.edge? kept = some x ∧ kept ∉ g.edgeIds := by
  rw [mem_edgeIds]
  simp +contextual

theorem deduped_dedupeEdges : Deduped g added (g.dedupeEdges added).1 (g.dedupeEdges added).2 := by
  rw [dedupeEdges_eq]
  exact (deduped_foldl (t := (g, [], added)) nodup_edgeIds seen_none).1

theorem simple_dedupeEdges : (g.dedupeEdges added).1.Simple := by
  rw [dedupeEdges_eq]
  exact (deduped_foldl (t := (g, [], added)) nodup_edgeIds seen_none).2

end Subplans.QueryGraph
