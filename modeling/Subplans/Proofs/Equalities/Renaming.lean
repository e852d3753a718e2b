import Mathlib.Data.List.Basic
import Subplans.Proofs.Equalities.Run
import Subplans.Proofs.Graph.Renaming
import Subplans.Query.Sql

/-!
Equalities of graphs that differ in the numbers of their nodes and edges.

The equalities are collected in the order of the traversal and never by the numbers of nodes, so those of the two graphs
are between the same columns and in the same order (`Renaming.equalities`). If the nodes also have the same aliases,
tables of the same names and predicates of the same text, the graphs have the same SQL (`Copy.sql`).
-/

namespace Subplans

theorem Slot.map_injective {φ : Nat → Nat} (hφ : Function.Injective φ) : Function.Injective (Slot.map φ) := by
  rintro ⟨n, c⟩ ⟨m, d⟩ h
  obtain ⟨hn, hc⟩ := Slot.mk.inj h
  exact congrArg₂ Slot.mk (hφ hn) hc

namespace Assoc

variable {α β γ δ : Type} [BEq α] [LawfulBEq α] [BEq γ] [LawfulBEq γ] {f : α → γ} {k : β → δ} {a : α} {b : β}

theorem lookup_map (hf : Function.Injective f) {entries : List (α × β)} :
    (entries.map (Prod.map f k)).lookup (f a) = (entries.lookup a).map k := by
  induction entries
  case nil => rfl
  case cons entry rest ih =>
    obtain ⟨a', b'⟩ := entry
    rw [List.map_cons, Prod.map_apply, List.lookup_cons, List.lookup_cons, hf.beq_eq, ih]
    split <;> rfl

theorem put_map (hf : Function.Injective f) {entries : List (α × β)} :
    put (f a) (k b) (entries.map (Prod.map f k)) = (put a b entries).map (Prod.map f k) := by
  induction entries
  case nil => rfl
  case cons entry rest ih =>
    obtain ⟨a', b'⟩ := entry
    simp only [List.map_cons, Prod.map_apply, put, hf.beq_eq, ih]
    split <;> rfl

end Assoc

namespace SlotClasses

variable {f : Slot → Slot} {cs : SlotClasses} {a b : Slot}

-- The classes of the slots that stand for others.
def map (f : Slot → Slot) (cs : SlotClasses) : SlotClasses :=
  List.map (List.map f) cs

theorem contains_map (hf : Function.Injective f) {class' : List Slot} :
    (class'.map f).contains (f a) = class'.contains a := by
  rw [Bool.eq_iff_iff, List.contains_iff_mem, List.contains_iff_mem, List.mem_map_of_injective hf]

theorem classOf_map (hf : Function.Injective f) : (cs.map f).classOf (f a) = (cs.classOf a).map f := by
  simp only [classOf, map, List.find?_map, Function.comp_def, contains_map hf]
  cases cs.find? fun class' => class'.contains a <;> rfl

theorem same_map (hf : Function.Injective f) : (cs.map f).same (f a) (f b) = cs.same a b := by
  rw [same, same, classOf_map hf, contains_map hf]

theorem union_map (hf : Function.Injective f) : (cs.map f).union (f a) (f b) = (cs.union a b).map f := by
  simp only [union, same_map hf, classOf_map hf]
  split
  case isTrue => rfl
  case isFalse => simp only [map, List.map_cons, List.map_append, List.filter_map, Function.comp_def, contains_map hf]

end SlotClasses

namespace Equalities

section

variable {α α' β β' : Type} {f : α → α'} {k : β → β'} {step : β → α → β} {step' : β' → α' → β'}

theorem foldl_map_hom (hstep : ∀ b a, step' (k b) (f a) = k (step b a)) (as : List α) (b : β) :
    (as.map f).foldl step' (k b) = k (as.foldl step b) := by
  rw [List.foldl_map]
  exact List.foldl_hom k hstep

end

variable {φ ψ : Nat → Nat} {g g' : QueryGraph} {s : Schema} {order : List Nat} {slots updated : List Slot}
  {q : Equalities} {n e : Nat} {x : Edge} {pair : ColumnRef × ColumnRef} {a b l r start up candidate : Slot}

-- The same is known of the nodes with the other numbers.
def map (φ : Nat → Nat) (q : Equalities) : Equalities where
  conditions := q.conditions.map (Prod.map φ (List.map (Prod.map (Slot.map φ) (Slot.map φ))))
  required   := q.required.map (Slot.map φ)
  stated     := q.stated.map (Slot.map φ)
  source     := q.source.map (Prod.map (Slot.map φ) (Slot.map φ))

section

variable (hφ : Function.Injective φ)

include hφ

theorem state_map : (q.map φ).state (φ n) (a.map φ) (b.map φ) = (q.state n a b).map φ := by
  simp only [state, map, List.map_map, Equalities.mk.injEq, and_true]
  refine List.map_congr_left fun entry _ => ?_
  obtain ⟨m, eqs⟩ := entry
  simp only [Function.comp_apply, Prod.map_apply, hφ.beq_eq]
  split <;> simp

theorem lookup_source_map : (q.map φ).source.lookup (a.map φ) = (q.source.lookup a).map (Slot.map φ) :=
  Assoc.lookup_map (Slot.map_injective hφ)

theorem same_stated_map : (q.map φ).stated.same (a.map φ) (b.map φ) = q.stated.same a b :=
  SlotClasses.same_map (Slot.map_injective hφ)

theorem union_stated_map : (q.map φ).stated.union (a.map φ) (b.map φ) = (q.stated.union a b).map (Slot.map φ) :=
  SlotClasses.union_map (Slot.map_injective hφ)

theorem follow_map {steps : Nat} : (q.map φ).follow steps (a.map φ) = (q.follow steps a).map φ := by
  induction steps generalizing a
  case zero => rfl
  case succ steps ih =>
    rw [follow, follow, lookup_source_map hφ]
    cases q.source.lookup a
    case none => rfl
    case some next =>
      simp only [Option.map_some, same_stated_map hφ, ih]
      split <;> rfl

theorem root_map : (q.map φ).root (a.map φ) = (q.root a).map φ := by
  have hlength : (q.map φ).source.length = q.source.length := List.length_map ..
  rw [root, root, hlength, follow_map hφ]

theorem idxOf_map : (order.map φ).idxOf (φ n) = order.idxOf n := by
  induction order
  case nil => rfl
  case cons m order ih => simp only [List.map_cons, List.idxOf_cons, hφ.beq_eq, ih]

theorem enter_map : enter (updated.map (Slot.map φ)) (a.map φ) (b.map φ) = (enter updated a b).map (Slot.map φ) := by
  have hstep : ∀ (u : List Slot) (c : Slot),
      (if (u.map (Slot.map φ)).contains (c.map φ) then u.map (Slot.map φ) else u.map (Slot.map φ) ++ [c.map φ]) =
        (if u.contains c then u else u ++ [c]).map (Slot.map φ) := by
    intro u c
    rw [SlotClasses.contains_map (Slot.map_injective hφ)]
    split <;> simp
  simp only [enter, List.foldl_cons, List.foldl_nil, hstep]

end

-- What is known once a pair of slots is taken in that have to be equal.
def takeIn (g : QueryGraph) (node : Nat) (q : Equalities) (updated : List Slot) (a b : Slot) : Equalities × List Slot :=
  if q.required.same a b then (q, updated)
  else if g.isVirtual a.node || g.isVirtual b.node then
    ({ q with required := q.required.union a b, source := sourced g q a b }, enter updated a b)
  else
    ({ { q with required := q.required.union a b, stated := q.stated.union a b }.state node a b with
      source := sourced g q a b }, updated)

theorem addPair_eq : addPair g n x (q, updated) pair = takeIn g n q updated ⟨x.source, pair.1⟩ ⟨x.target, pair.2⟩ := by
  simp only [addPair, takeIn]
  split
  case isTrue => rfl
  case isFalse =>
    cases hs : g.isVirtual x.source <;> cases ht : g.isVirtual x.target <;> simp [sourced, enter, state, ht]

-- What is known once two slots are compared, the left one at the later node.
def relate (q : Equalities) (stated : SlotClasses) (l r : Slot) : Equalities :=
  (if (q.source.lookup l).isNone && (q.source.lookup r).isNone then
    { q with stated, source := Assoc.put l r q.source } else { q with stated }).state l.node l r

theorem relate_map (hφ : Function.Injective φ) {stated : SlotClasses} :
    relate (q.map φ) (stated.map (Slot.map φ)) (l.map φ) (r.map φ) = (relate q stated l r).map φ := by
  have hput : Assoc.put (l.map φ) (r.map φ) (q.map φ).source =
      (Assoc.put l r q.source).map (Prod.map (Slot.map φ) (Slot.map φ)) := Assoc.put_map (Slot.map_injective hφ)
  simp only [relate, lookup_source_map hφ, hput, Option.isNone_map]
  split
  · exact state_map hφ (q := { q with stated, source := Assoc.put l r q.source })
  · exact state_map hφ (q := { q with stated })

theorem visit_eq {edges : List Nat} : visit g s order q (n, edges) =
    (edges.foldl (addEdge g s n) (opened g n q, [])).2.foldl (repair g order)
      (edges.foldl (addEdge g s n) (opened g n q, [])).1 :=
  rfl

section

variable (h : QueryGraph.Renaming φ ψ g g')

include h

theorem isVirtual_map : g'.isVirtual (a.map φ).node = g.isVirtual a.node :=
  h.isVirtual a.node

theorem sourced_map : sourced g' (q.map φ) (a.map φ) (b.map φ) =
    (sourced g q a b).map (Prod.map (Slot.map φ) (Slot.map φ)) := by
  simp only [sourced, isVirtual_map h]
  split
  case isTrue => rfl
  case isFalse => exact Assoc.put_map (Slot.map_injective h.inj)

theorem takeIn_map : takeIn g' (φ n) (q.map φ) (updated.map (Slot.map φ)) (a.map φ) (b.map φ) =
    Prod.map (map φ) (List.map (Slot.map φ)) (takeIn g n q updated a b) := by
  have hf := Slot.map_injective h.inj
  have hsame : (q.map φ).required.same (a.map φ) (b.map φ) = q.required.same a b := SlotClasses.same_map hf
  have hrequired : (q.map φ).required.union (a.map φ) (b.map φ) = (q.required.union a b).map (Slot.map φ) :=
    SlotClasses.union_map hf
  simp only [takeIn, hsame, hrequired, union_stated_map h.inj, isVirtual_map h, sourced_map h, enter_map h.inj]
  split
  case isTrue => rfl
  case isFalse =>
    split
    case isTrue => rfl
    case isFalse =>
      have hstate := state_map (n := n) (a := a) (b := b) h.inj (q := { q with
        required := q.required.union a b, stated := q.stated.union a b })
      exact Prod.ext (congrArg (fun q' : Equalities => { q' with
        source := (sourced g q a b).map (Prod.map (Slot.map φ) (Slot.map φ)) }) hstate) rfl

theorem addPair_map : addPair g' (φ n) (x.map φ) (q.map φ, updated.map (Slot.map φ)) pair =
    Prod.map (map φ) (List.map (Slot.map φ)) (addPair g n x (q, updated) pair) := by
  rw [addPair_eq, addPair_eq]
  exact takeIn_map h (a := ⟨x.source, pair.1⟩) (b := ⟨x.target, pair.2⟩)

theorem addEdge_map : addEdge g' s (φ n) (q.map φ, updated.map (Slot.map φ)) (ψ e) =
    Prod.map (map φ) (List.map (Slot.map φ)) (addEdge g s n (q, updated) e) := by
  rw [addEdge, addEdge, h.edge?]
  cases g.edge? e
  case none => rfl
  case some x =>
    have hstep : ∀ acc pair, addPair g' (φ n) (x.map φ) (Prod.map (map φ) (List.map (Slot.map φ)) acc) pair =
        Prod.map (map φ) (List.map (Slot.map φ)) (addPair g n x acc pair) := fun _ _ => addPair_map h
    have hpairs := foldl_map_hom (f := id) hstep (s.key x.key).pairs (q, updated)
    rwa [List.map_id] at hpairs

theorem compareWith_map : compareWith g' (order.map φ) (q.map φ, up.map φ) (candidate.map φ) =
    Prod.map (map φ) (Slot.map φ) (compareWith g order (q, up) candidate) := by
  have hnode : ((candidate.map φ).node == (up.map φ).node) = (candidate.node == up.node) := h.inj.beq_eq
  have hbefore : (order.map φ).idxOf ((q.root up).map φ).node < (order.map φ).idxOf ((q.root candidate).map φ).node ↔
      order.idxOf (q.root up).node < order.idxOf (q.root candidate).node :=
    iff_of_eq (congrArg₂ _ (idxOf_map h.inj) (idxOf_map h.inj))
  simp only [compareWith, hnode, isVirtual_map h, same_stated_map h.inj, root_map h.inj,
    union_stated_map h.inj, hbefore]
  split
  case isTrue => rfl
  case isFalse =>
    split
    · exact Prod.ext (relate_map h.inj) rfl
    · exact Prod.ext (relate_map h.inj) rfl

theorem repair_map : repair g' (order.map φ) (q.map φ) (start.map φ) = (repair g order q start).map φ := by
  have hclass : (q.map φ).required.classOf (start.map φ) = (q.required.classOf start).map (Slot.map φ) :=
    SlotClasses.classOf_map (Slot.map_injective h.inj)
  have hstep : ∀ acc c, compareWith g' (order.map φ) (Prod.map (map φ) (Slot.map φ) acc) (Slot.map φ c) =
      Prod.map (map φ) (Slot.map φ) (compareWith g order acc c) := fun _ _ => compareWith_map h
  simp only [repair, isVirtual_map h, hclass]
  split
  case isTrue => rfl
  case isFalse => exact congrArg Prod.fst (foldl_map_hom hstep _ (q, start))

theorem opened_map : opened g' (φ n) (q.map φ) = (opened g n q).map φ := by
  rw [opened, opened, h.isVirtual]
  split
  case isTrue => rfl
  case isFalse => simp [map]

theorem visit_map {edges : List Nat} : visit g' s (order.map φ) (q.map φ) (φ n, edges.map ψ) =
    (visit g s order q (n, edges)).map φ := by
  have hedges : (edges.map ψ).foldl (addEdge g' s (φ n)) (opened g' (φ n) (q.map φ), []) =
      Prod.map (map φ) (List.map (Slot.map φ))
        (edges.foldl (addEdge g s n) (opened g n q, [])) := by
    rw [opened_map h]
    exact foldl_map_hom (fun _ _ => addEdge_map h) edges (opened g n q, [])
  rw [visit_eq, visit_eq, hedges]
  have hrepair : ∀ q start, repair g' (order.map φ) (map φ q) (Slot.map φ start) =
      map φ (repair g order q start) := fun _ _ => repair_map h
  exact foldl_map_hom hrepair _ _

end

end Equalities

namespace QueryGraph.Renaming

variable {φ ψ : Nat → Nat} {g g' : QueryGraph}

-- The equalities of the nodes are between the same columns.
theorem equalities (h : Renaming φ ψ g g') (s : Schema) : g'.equalities s =
    (g.equalities s).map (Prod.map φ (List.map (Prod.map (Slot.map φ) (Slot.map φ)))) := by
  have hequalities : ∀ g : QueryGraph, g.equalities s =
      (g.traverse.foldl (Equalities.visit g s g.visitOrder) .none).conditions := fun _ => rfl
  have hvisit : ∀ q v, Equalities.visit g' s (g.visitOrder.map φ) (Equalities.map φ q) (renameVisit φ ψ v) =
      Equalities.map φ (Equalities.visit g s g.visitOrder q v) := fun _ _ => Equalities.visit_map h
  rw [hequalities, hequalities, h.visitOrder, h.traverse]
  exact congrArg Equalities.conditions (Equalities.foldl_map_hom hvisit g.traverse .none)

end QueryGraph.Renaming

variable {s : Schema} {φ ψ : Nat → Nat} {g g' : QueryGraph} {a : Slot} {cs : Clauses} {aliasName : String}

-- The texts of the atoms of every clause.
def Clauses.texts (cs : Clauses) (aliasName : String) : List (List String) :=
  cs.map fun clause => clause.map (·.sql aliasName)

-- Clauses in SQL are made of the texts of their atoms.
theorem Clauses.sql_eq : cs.sql aliasName = "\n\tAND ".intercalate ((cs.texts aliasName).map fun texts =>
    if 1 < texts.length then "(" ++ " OR ".intercalate texts ++ ")" else " OR ".intercalate texts) := by
  simp [Clauses.sql, Clauses.texts, Clause.sql, Function.comp_def]

theorem Clauses.isEmpty_texts (cs : Clauses) (aliasName : String) : (cs.texts aliasName).isEmpty = cs.isEmpty := by
  simp [Clauses.texts]

namespace QueryGraph

structure Copy (s : Schema) (φ ψ : Nat → Nat) (g g' : QueryGraph) : Prop extends Renaming φ ψ g g' where
  aliasName : ∀ n, g'.aliasName (φ n) = g.aliasName n
  tableName : ∀ n, (s.table (g'.node (φ n)).table).name = (s.table (g.node n).table).name
  texts     : ∀ n, (g'.node (φ n)).clauses.texts (g.aliasName n) = (g.node n).clauses.texts (g.aliasName n)

namespace Copy

theorem slotName (h : Copy s φ ψ g g') : g'.slotName s (a.map φ) = g.slotName s a := by
  simp only [QueryGraph.slotName, Slot.map, h.aliasName]

theorem joinedTable (h : Copy s φ ψ g g') {eqs : List (Slot × Slot)} :
    g'.joinedTable s (eqs.map (Prod.map (Slot.map φ) (Slot.map φ))) = g.joinedTable s eqs := by
  simp only [QueryGraph.joinedTable, List.isEmpty_map, List.map_map, Function.comp_def, Prod.map_fst, Prod.map_snd,
    h.slotName]

theorem fromList (h : Copy s φ ψ g g') : g'.fromList s = g.fromList s := by
  simp only [QueryGraph.fromList, h.equalities, List.zipIdx_map, List.map_map, Function.comp_def, Prod.map_fst,
    Prod.map_snd, h.aliasName, h.tableName, h.joinedTable, id]

theorem whereClause (h : Copy s φ ψ g g') : g'.whereClause = g.whereClause := by
  have hempty : ∀ n, (g'.node (φ n)).clauses.isEmpty = (g.node n).clauses.isEmpty := fun n => by
    rw [← Clauses.isEmpty_texts _ (g.aliasName n), h.texts, Clauses.isEmpty_texts]
  have hsql : ∀ n, (g'.node (φ n)).clauses.sql (g'.aliasName (φ n)) = (g.node n).clauses.sql (g.aliasName n) :=
    fun n => by rw [h.aliasName, Clauses.sql_eq, h.texts, ← Clauses.sql_eq]
  simp only [QueryGraph.whereClause, h.nodes, List.filter_map, List.map_map, Function.comp_def, hempty, hsql]

theorem sql (h : Copy s φ ψ g g') (count : Bool) : g'.sql s count = g.sql s count := by
  rw [QueryGraph.sql, QueryGraph.sql, h.fromList, h.whereClause]

end Copy

end QueryGraph

end Subplans
