import Subplans.Proofs.Equalities.Lookups
import Subplans.Query.Sql
import Subplans.Schema.Description

/-!
What the SQL text of a query graph joins.

The FROM list names every node that is not virtual, and each ON clause states equalities that the graph forces,
between columns of nodes listed so far (`Collects.justified`). `Renders` says so of the text as a whole, which it spells
out, and `Prints` tells what the ON clauses in it imply.
-/

namespace Subplans

-- Films, which one table refers to twice and another one once.
def Schema.films : SchemaDescription where
  name := "films"
  tables := [
    { name := "film", cardinality := 1, columns := [{ name := "id", dataType := "integer" }] },
    { name := "link", cardinality := 1, columns := [
      { name := "film_id", dataType := "integer" }, { name := "linked_id", dataType := "integer" }] },
    { name := "info", cardinality := 1, columns := [{ name := "film_id", dataType := "integer" }] }]
  keys := [
    { name := "link_film", source := "link", sourceColumns := ["film_id"], target := "film", targetColumns := ["id"] },
    { name := "link_linked", source := "link", sourceColumns := ["linked_id"], target := "film",
      targetColumns := ["id"] },
    { name := "info_film", source := "info", sourceColumns := ["film_id"], target := "film", targetColumns := ["id"] }]

namespace QueryGraph

open Equalities Relation

variable {s : Schema} {g : QueryGraph} {order : List Nat} {P : Nat → Bool} {tables : List (Nat × List (Slot × Slot))}
  {m n i : Nat} {e : Slot × Slot} {eqs : List (Slot × Slot)}

def tableText (g : QueryGraph) (s : Schema) (n : Nat) : String :=
  (s.table (g.node n).table).name ++ " AS " ++ g.aliasName n

def columnText (g : QueryGraph) (s : Schema) (p : Slot) : String :=
  g.aliasName p.node ++ "." ++ s.columnName p.column

def equalityText (g : QueryGraph) (s : Schema) (e : Slot × Slot) : String :=
  g.columnText s e.1 ++ " = " ++ g.columnText s e.2

-- The ON clause of a table with these equalities.
def onText (g : QueryGraph) (s : Schema) : List (Slot × Slot) → String
  | [] => " ON TRUE"
  | eqs => " ON " ++ " AND ".intercalate (eqs.map (g.equalityText s))

-- Each table after the first is followed by its equalities.
def tableTexts (g : QueryGraph) (s : Schema) : List (Nat × List (Slot × Slot)) → List String
  | [] => []
  | (n, _) :: rest => g.tableText s n :: rest.map fun (m, eqs) => g.tableText s m ++ g.onText s eqs

-- The equalities of the ON clauses.
def onEqualities (tables : List (Nat × List (Slot × Slot))) : List (Slot × Slot) :=
  tables.tail.flatMap Prod.snd

theorem onText_eq : g.onText s eqs = g.joinedTable s eqs := by
  cases eqs <;> rfl

theorem fromList_eq (h : g.equalities s = tables) : g.fromList s = "\n\tJOIN ".intercalate (g.tableTexts s tables) := by
  rw [fromList, h]
  congr 1
  cases tables
  case nil => rfl
  case cons v rest =>
    rw [List.zipIdx_cons, List.map_cons, tableTexts]
    refine congrArg₂ List.cons (by simp [tableText]) ?_
    nth_rewrite 2 [← List.zipIdx_map_fst 1 rest]
    rw [List.map_map]
    refine List.map_congr_left fun v hv => ?_
    have hlater : v.2 ≠ 0 := Nat.ne_of_gt (List.le_snd_of_mem_zipIdx hv)
    simp [tableText, hlater, onText_eq]

theorem pairwise_idxOf (h : order.Nodup) : order.Pairwise fun m n => order.idxOf m < order.idxOf n := by
  rw [List.pairwise_iff_getElem]
  intro i j hi hj hij
  rwa [h.idxOf_getElem i hi, h.idxOf_getElem j hj]

-- What comes no later among all comes no later among some.
theorem mem_take_of_idxOf_le (h : order.Nodup) (hn : (order.filter P)[i]? = some n) (hm : m ∈ order.filter P)
    (hle : order.idxOf m ≤ order.idxOf n) : m ∈ (order.filter P).take (i + 1) := by
  obtain ⟨hi, rfl⟩ := List.getElem?_eq_some_iff.mp hn
  obtain ⟨j, hj, rfl⟩ := List.getElem_of_mem hm
  have hsorted := List.pairwise_iff_getElem.mp ((pairwise_idxOf h).filter P)
  have hji : j ≤ i := by
    by_contra hij
    exact Nat.not_le_of_lt (hsorted i j hi hj (Nat.lt_of_not_le hij)) hle
  exact List.mem_take_iff_getElem.mpr ⟨j, by omega, rfl⟩

-- The graph forces the equality, and its sides are columns of nodes that are not virtual and have been listed.
structure Justified (s : Schema) (g : QueryGraph) (listed : List Nat) (e : Slot × Slot) : Prop where
  forces     : g.Forces s e.1 e.2
  real_left  : g.Real e.1
  real_right : g.Real e.2
  mem_left   : e.1.node ∈ listed
  mem_right  : e.2.node ∈ listed

theorem Linked.mem_realNodes (hg : g.Linked) :
    n ∈ g.realNodes ↔ n ∈ g.visitOrder.filter (!g.isVirtual ·) := by
  simp [QueryGraph.mem_realNodes, hg.mem_visitOrder, hg.mem_nodes]

namespace Collects

variable {q : Equalities} {slots : List Slot}

theorem sound (h : g.Collects s slots q) : Sound s g g.visitOrder g.visitOrder.reverse q :=
  h.reached.invariant.sound

theorem map_fst (h : g.Collects s slots q) : q.conditions.map Prod.fst = g.visitOrder.filter (!g.isVirtual ·) := by
  rw [h.sound.nodes, List.reverse_reverse]

theorem mem_map_fst (h : g.Collects s slots q) : n ∈ q.conditions.map Prod.fst ↔ n ∈ g.realNodes := by
  rw [h.map_fst, h.linked.mem_realNodes]

theorem real_of_stated {a b : Slot} (h : g.Collects s slots q) (hab : q.stated.same a b = true) (hne : a ≠ b) :
    g.Real a := by
  have ⟨hq, he, _⟩ := h.reached.invariant
  refine h.mem_map_fst.mp (Met.mem_nodes hq he ⟨?_, hq.real a b hab hne⟩)
  exact he.same a b (hq.requires a b hab) hne

theorem justified (h : g.Collects s slots q) (hi : q.conditions[i]? = some (n, eqs)) (he : e ∈ eqs) :
    g.Justified s ((q.conditions.take (i + 1)).map Prod.fst) e := by
  have hq := h.sound
  have hplaced : Scoped g.visitOrder q n e.1 e.2 := hq.placed _ _ _ ⟨eqs, List.mem_of_getElem? hi, he⟩
  have hleft : g.Real e.1 := h.real_of_stated hplaced.same hplaced.ne
  have hright : g.Real e.2 := h.real_of_stated (SlotClasses.same_symm hq.stated hplaced.same) hplaced.ne.symm
  have hn : (g.visitOrder.filter (!g.isVirtual ·))[i]? = some n := by
    rw [← h.map_fst, List.getElem?_map, hi, Option.map_some]
  have mem : ∀ p : Slot, g.Real p → g.visitOrder.idxOf p.node ≤ g.visitOrder.idxOf n →
      p.node ∈ (q.conditions.take (i + 1)).map Prod.fst := by
    intro p hp hle
    rw [List.map_take, h.map_fst]
    exact mem_take_of_idxOf_le h.linked.nodup_visitOrder hn (h.linked.mem_realNodes.mp hp) hle
  exact ⟨hq.forces _ _ (hq.requires _ _ hplaced.same), hleft, hright, mem _ hleft hplaced.left,
    mem _ hright hplaced.right⟩

end Collects

-- What the text says when the tables stand in the FROM list with their equalities.
structure Renders (s : Schema) (g : QueryGraph) (tables : List (Nat × List (Slot × Slot))) : Prop where
  -- Nothing that is looked up on the way is missing.
  lookups   : g.equalities? s = some tables
  stored    : g.equalities s = tables
  text      : ∀ count, g.sql s count = "SELECT " ++ (if count then "COUNT(*)" else "*") ++
    "\nFROM " ++ "\n\tJOIN ".intercalate (g.tableTexts s tables) ++ g.whereClause ++ ";"
  -- Each node that is not virtual is listed once, and no other.
  nodup     : (tables.map Prod.fst).Nodup
  mem       : ∀ n, n ∈ tables.map Prod.fst ↔ n ∈ g.nodes ∧ g.isVirtual n = false
  justified : ∀ i n eqs, tables[i]? = some (n, eqs) → ∀ e ∈ eqs,
    g.Justified s ((tables.take (i + 1)).map Prod.fst) e

-- The ON clauses of the text imply that the slots are equal.
def Prints (s : Schema) (g : QueryGraph) (a b : Slot) : Prop :=
  ∃ tables, g.Renders s tables ∧ EqvGen (fun l r => (l, r) ∈ onEqualities tables) a b

theorem sql_sound (s : Schema) (hg : g.Linked) : ∃ tables, g.Renders s tables := by
  obtain ⟨slots, q, hsome, heq, h⟩ := hg.collects_equalities s
  refine ⟨q.conditions, hsome, heq, fun count => ?_, ?_, fun n => ?_, fun i n eqs hi e => h.justified hi⟩
  · rw [sql, fromList_eq heq]
  · rw [h.map_fst]
    exact hg.nodup_visitOrder.filter _
  · rw [h.mem_map_fst, mem_realNodes]

def filmSchema : Schema :=
  (Schema.ofDescription Schema.films).toOption.get (by decide +kernel)

-- A link, an information and a film.
def filmNodes (filmIsVirtual : Bool) : QueryGraph :=
  let g := (empty.add { table := 1, cardinality := 1, clauses := [], isVirtual := false } "x").2
  let g := (g.add { table := 2, cardinality := 1, clauses := [], isVirtual := false } "y").2
  (g.add { table := 0, cardinality := 1, clauses := [], isVirtual := filmIsVirtual } "z").2

-- The same with joins to the film, each from a node along a key.
def filmGraph (filmIsVirtual : Bool) (joins : List (Nat × Nat)) : QueryGraph :=
  joins.foldl (fun g (source, key) => (g.addEdge source key 2).2) (filmNodes filmIsVirtual)

theorem wellFormed_filmGraph {v : Bool} {joins : List (Nat × Nat)} (h : ∀ j ∈ joins, j.1 < 3) :
    (filmGraph v joins).WellFormed := by
  let P := fun g : QueryGraph => g.WellFormed ∧ ∀ n < 3, g.contains n = true
  have hstart : P (filmNodes v) := by
    refine ⟨?_, by cases v <;> decide⟩
    have hx : (empty.add { table := 1, cardinality := 1, clauses := [], isVirtual := false } "x").2.WellFormed :=
      WellFormed.empty.add rfl
    have hy := hx.add (o := { table := 2, cardinality := 1, clauses := [], isVirtual := false }) (a := "y") rfl
    exact hy.add (o := { table := 0, cardinality := 1, clauses := [], isVirtual := v }) (a := "z") rfl
  have hstep : ∀ g, P g → ∀ j ∈ joins, P (g.addEdge j.1 j.2 2).2 := fun g ⟨hg, hc⟩ j hj =>
    ⟨hg.addEdge (hc _ (h j hj)) (hc 2 (by decide)), fun n hn => sameNodes_addEdge.contains.trans (hc n hn)⟩
  exact (List.foldlRecOn (motive := P) joins _ hstart hstep).1

-- The link refers to the film twice and the information once.
def linkedTwice : QueryGraph :=
  filmGraph true [(0, 0), (1, 2), (0, 1)]

theorem linked_linkedTwice : linkedTwice.Linked :=
  (wellFormed_filmGraph (by decide)).linked

theorem sql_sound_linkedTwice : linkedTwice.Linked ∧ ∃ tables, linkedTwice.Renders filmSchema tables :=
  ⟨linked_linkedTwice, sql_sound filmSchema linked_linkedTwice⟩

end QueryGraph

end Subplans
