import Subplans.Proofs.Merge.Aliases
import Subplans.Proofs.Merge.Exact
import Subplans.Proofs.Merge.Grounded
import Subplans.Proofs.Recovery.Faithful
import Subplans.Proofs.Recovery.Runs

/-!
Recovered queries join tables along foreign keys only.

A `JoinTree` tells how a query has come about: from scans and the joins that conditions were placed for, each between
columns that the keys of the schema make equal. The edges of a query are typed, and they connect its nodes just as the
joins of its tree do (`recover_justified`). So a query is connected if at every join in the plan some condition is
placed.
-/

namespace Subplans

open Closure Outcome QueryGraph Relation

-- Each key of the schema leads from one table to another, or each has one pair of columns.
def Schema.Straight (s : Schema) : Prop :=
  s.Outward ∨ ∀ key ∈ s.keys, key.pairs.length = 1

-- A join of a column of a node on the left with one of a node on the right, both nodes by their positions.
structure NodeJoin where
  first  : Nat
  left   : ColumnRef
  second : Nat
  right  : ColumnRef

-- How a query has come about.
inductive JoinTree
  | scan (node : Occurrence)
  | join (left right : JoinTree) (joins : List NodeJoin)

namespace JoinTree

-- The scanned tables from left to right.
def nodes : JoinTree → List Occurrence
  | scan node => [node]
  | join left right _ => left.nodes ++ right.nodes

-- A join is placed between the nodes at the positions.
inductive Links : JoinTree → Nat → Nat → Prop
  | left {t u joins i j} : Links t i j → Links (join t u joins) i j
  | right {t u joins i j} : Links u i j → Links (join t u joins) (t.nodes.length + i) (t.nodes.length + j)
  | here {t u joins} (x : NodeJoin) : x ∈ joins → Links (join t u joins) x.first (t.nodes.length + x.second)

-- Some condition is placed at every join.
def Joined : JoinTree → Prop
  | scan _ => True
  | join left right joins => left.Joined ∧ right.Joined ∧ joins ≠ []

-- The columns belong to the tables of the nodes, and foreign keys make them equal.
structure Founded (s : Schema) (t u : JoinTree) (x : NodeJoin) : Prop where
  left   : t.nodes[x.first]?.map Occurrence.table = some x.left.table
  right  : u.nodes[x.second]?.map Occurrence.table = some x.right.table
  equals : x.left ≠ x.right ∧ EqvGen s.bonds.Paired x.left x.right

-- All joins are between columns that foreign keys make equal.
def Sound (s : Schema) : JoinTree → Prop
  | scan _ => True
  | join left right joins => left.Sound s ∧ right.Sound s ∧ ∀ x ∈ joins, Founded s left right x

variable {s : Schema} {t u : JoinTree} {i j : Nat}

theorem Founded.lt {x : NodeJoin} (h : Founded s t u x) : x.first < t.nodes.length ∧ x.second < u.nodes.length := by
  have ⟨_, hleft, _⟩ := Option.map_eq_some_iff.mp h.left
  have ⟨_, hright, _⟩ := Option.map_eq_some_iff.mp h.right
  exact ⟨(List.getElem?_eq_some_iff.mp hleft).1, (List.getElem?_eq_some_iff.mp hright).1⟩

theorem Links.lt (h : t.Links i j) (hs : t.Sound s) : i < t.nodes.length ∧ j < t.nodes.length := by
  induction h
  case left ih =>
    have ⟨hi, hj⟩ := ih hs.1
    simp only [nodes, List.length_append]
    omega
  case right ih =>
    have ⟨hi, hj⟩ := ih hs.2.1
    simp only [nodes, List.length_append]
    omega
  case here x hx =>
    have ⟨hi, hj⟩ := (hs.2.2 x hx).lt
    simp only [nodes, List.length_append]
    omega

-- Where some condition is placed at every join all nodes hang together.
theorem Joined.links (h : t.Joined) (hs : t.Sound s) (hi : i < t.nodes.length) (hj : j < t.nodes.length) :
    EqvGen t.Links i j := by
  induction t generalizing i j
  case scan node =>
    have hij : i = j := by
      simp only [nodes, List.length_singleton] at hi hj
      omega
    exact hij ▸ .refl _
  case join t u joins iht ihu =>
    have ⟨x, hx⟩ := List.exists_mem_of_ne_nil joins h.2.2
    have ⟨hfirst, hsecond⟩ := (hs.2.2 x hx).lt
    -- Every node hangs together with the left end of the join.
    have ends : ∀ {i}, i < (join t u joins).nodes.length → EqvGen (join t u joins).Links x.first i := by
      intro i hi
      by_cases hlt : i < t.nodes.length
      case pos => exact of_le (fun _ _ h => .rel _ _ (.left h)) (iht h.1 hs.1 hfirst hlt)
      case neg =>
        obtain ⟨k, rfl⟩ := Nat.exists_eq_add_of_le (Nat.le_of_not_lt hlt)
        have hk : k < u.nodes.length := by
          simp only [nodes, List.length_append] at hi
          omega
        have hright := ihu h.2.1 hs.2.1 hsecond hk
        exact .trans _ _ _ (.rel _ _ (.here x hx))
          (Closure.map (t.nodes.length + ·) (fun _ _ h => .rel _ _ (.right h)) hright)
    exact .trans _ _ _ (.symm _ _ (ends hi)) (ends hj)

end JoinTree

namespace Recovery

variable {m : Type → Type} {r : Recovery m} {s : Schema} {A : String → Except BackendError Explain → Prop} {scan : Scan}
  {p q part : Plan} {o : Operation} {inputs : List Plan} {operator : Operator} {found left right : Recovered}
  {first second g : QueryGraph} {t u : JoinTree} {j : EquivalenceJoin} {joins : List EquivalenceJoin}
  {orphaned : List String} {condition : String} {outcome : Except RecoveryError Recovered}

-- The joins that the conditions of a join become, with the conditions that wait. None if one of them is rejected.
def placements (s : Schema) (o : Operation) (left right : Recovered) (first second : QueryGraph) :
    Option (List EquivalenceJoin × List String) :=
  placeConditions (fun condition => placeCondition s first second (orphanSide left right condition) condition) [] []
    (pending o left right)

theorem innerJoin_eq : innerJoin s o left right first second =
    match placements s o left right first second with
    | none => giveUp [left, right]
    | some (joins, orphaned) =>
      { gather [left, right] with
        subplans := (gather [left, right]).subplans ++ if orphaned.isEmpty then [merge s first second joins] else []
        query := some (merge s first second joins)
        orphaned } := by
  have hconditions : (gather [left, right]).orphaned ++ Plan.ownTexts o = pending o left right := by
    simp [gather, pending]
  rw [placements, ← hconditions, Plan.ownTexts_eq]
  rfl

-- The condition equates columns that no keys make equal.
def Unrelated (s : Schema) (first second : QueryGraph) (preferred : Option Side) (condition : String) : Prop :=
  ∃ left right a b u v, Condition.joinColumns? condition = some (left, right) ∧
    (left.aliasName.orElse fun _ => findAlias? s first second left.column preferred) = some a ∧
    (right.aliasName.orElse fun _ => findAlias? s first second right.column preferred) = some b ∧
    Equates s first second (a, left.column) (b, right.column) u v ∧ ¬EqvGen s.bonds.Paired u.column v.column

theorem joinColumns_unrelated (hs : s.Loaded) {a b : String × String} {u v : Slot} (hu : Located s first a u)
    (hv : Located s second b v) (h : ¬EqvGen s.bonds.Paired u.column v.column) :
    joinColumns s first second (u.node, a.2) (v.node, b.2) = .rejected := by
  have hnone : s.connection? u.column v.column = none := by
    refine Option.not_isSome_iff_eq_none.mp fun hsome => ?_
    exact h (hs.connection?_isSome_iff.mp hsome).2
  simp [joinColumns, hu.column, hv.column, hnone]

theorem placeCondition_unrelated (hs : s.Loaded) {preferred : Option Side}
    (h : Unrelated s first second preferred condition) :
    placeCondition s first second preferred condition = .rejected := by
  obtain ⟨left, right, a, b, u, v, hcolumns, ha, hb, hequates, hunrelated⟩ := h
  simp only [placeCondition, hcolumns, ha, hb, resolve]
  cases hequates
  case straight hu hv =>
    simp only [hu.node, hv.node]
    exact joinColumns_unrelated hs hu hv hunrelated
  case crossed hnot hu hv =>
    split
    case h_1 ha hb => exact absurd ⟨by simp [ha], by simp [hb]⟩ hnot
    case h_2 =>
      simp only [hu.node, hv.node]
      exact joinColumns_unrelated hs hu hv hunrelated

theorem innerJoin_unrelated (hs : s.Loaded) (hmem : condition ∈ pending o left right)
    (h : Unrelated s first second (orphanSide left right condition) condition) :
    innerJoin s o left right first second = giveUp [left, right] := by
  rw [innerJoin_eq]
  cases hplaced : placements s o left right first second
  case none => rfl
  case some =>
    have hplaceable := (orphaned_of_placeConditions hplaced).2 condition hmem
    exact absurd (placeCondition_unrelated hs h) hplaceable

-- The join is one of nodes at these positions, between columns that keys make equal.
structure Stated (s : Schema) (first second : QueryGraph) (j : EquivalenceJoin) (x : NodeJoin) : Prop where
  first_at  : first.realNodes[x.first]? = some j.first
  second_at : second.realNodes[x.second]? = some j.second
  source    : first.table? j.first = some x.left.table
  target    : second.table? j.second = some x.right.table
  equals    : x.left ≠ x.right ∧ EqvGen s.bonds.Paired x.left x.right

-- The tree has a join where the plan has one, with the conditions that are placed there, and scans what the plan scans.
inductive Follows (s : Schema) : Plan → Recovered → JoinTree → Prop
  | scan {o inputs operator scan node found} : o.operator? = some operator → operator.category = .scan →
    Scan.ofNode? s operator o inputs = some scan → node.table = scan.table →
    found.instances = [(scan.aliasName, node)] → Follows s (.node o inputs) found (.scan node)
  | passing {o p inputs operator found rest t} : o.operator? = some operator → operator.category = .passing →
    Follows s p found t → Follows s (.node o (p :: inputs)) (handOn (found :: rest) found.query) t
  | join {o p q operator left right first second placed orphaned t u joins} : o.operator? = some operator →
    operator.category = .join → o.joinType = some "Inner" → Follows s p left t → Follows s q right u →
    left.query = some first → right.query = some second →
    placements s o left right first second = some (placed, orphaned) → List.Forall₂ (Stated s first second) placed joins →
    Follows s (.node o [p, q]) (innerJoin s o left right first second) (.join t u joins)

-- What is recovered from the plan has this query. Its nodes that are not virtual are those of the tree. Its edges are
-- typed, and they connect these nodes just as the joins of the tree do.
structure Justified (s : Schema) (p : Plan) (found : Recovered) (g : QueryGraph) (t : JoinTree) : Prop where
  query      : found.query = some g
  follows    : Follows s p found t
  sound      : t.Sound s
  wellFormed : g.WellFormed
  nodes      : g.realNodes.map g.node? = t.nodes.map some
  typed      : ∀ x, g.HasEdge x → g.Typed s x
  connects   : ∀ i j n m, g.realNodes[i]? = some n → g.realNodes[j]? = some m → (g.Connects n m ↔ EqvGen t.Links i j)

namespace Justified

theorem length (h : Justified s p found g t) : g.realNodes.length = t.nodes.length := by
  simpa using congrArg List.length h.nodes

theorem table (h : Justified s p found g t) {i n : Nat} (hi : g.realNodes[i]? = some n) :
    g.table? n = t.nodes[i]?.map Occurrence.table := by
  have hnode := congrArg (·[i]?) h.nodes
  simp only [List.getElem?_map, hi, Option.map_some] at hnode
  rw [table?]
  cases hnodes : t.nodes[i]? <;> simp_all

theorem connected (h : Justified s p found g t) (ht : t.Joined) :
    ∀ n ∈ g.realNodes, ∀ m ∈ g.realNodes, g.Connects n m := by
  intro n hn m hm
  have ⟨i, hi⟩ := List.getElem?_of_mem hn
  have ⟨j, hj⟩ := List.getElem?_of_mem hm
  have hlt := (List.getElem?_eq_some_iff.mp hi).1
  have hlt' := (List.getElem?_eq_some_iff.mp hj).1
  exact (h.connects i j n m hi hj).mpr (ht.links h.sound (h.length ▸ hlt) (h.length ▸ hlt'))

end Justified

-- The query is justified, and grounded besides, so that it can be merged with others.
structure Rooted (s : Schema) (p : Plan) (found : Recovered) (g : QueryGraph) (t : JoinTree) : Prop
    extends Justified s p found g t where
  grounded : g.Grounded s

theorem rooted_scan {node : Occurrence} {a : String} (ho : o.operator? = some operator) (hc : operator.category = .scan)
    (hscan : Scan.ofNode? s operator o inputs = some scan) (htable : node.table = scan.table)
    (hreal : node.isVirtual = false) (hinstances : found.instances = [(scan.aliasName, node)])
    (hquery : found.query = some (QueryGraph.empty.add node a).2) :
    Rooted s (.node o inputs) found (QueryGraph.empty.add node a).2 (.scan node) := by
  have hnone : ∀ x, ¬(QueryGraph.empty.add node a).2.HasEdge x := by
    intro x hx
    simpa [QueryGraph.add, QueryGraph.empty] using hasEdge_iff_mem.mp hx
  have hnodes : (QueryGraph.empty.add node a).2.realNodes = [0] := by
    have h : (QueryGraph.empty.add node a).2.realNodes = _ := realNodes_add WellFormed.empty.indexed
    simpa [hreal, QueryGraph.empty, realNodes] using h
  have htidy : (QueryGraph.empty.add node a).2.Tidy s := Tidy.empty.add rfl
  refine ⟨⟨hquery, .scan ho hc hscan htable hinstances, trivial, htidy.wellFormed, ?_,
    fun x hx => absurd hx (hnone x), ?_⟩, htidy.wellFormed, fun x hx => absurd hx (hnone x), .inr htidy⟩
  case refine_1 =>
    have hlength : QueryGraph.empty.slots.length = 0 := rfl
    simp [hnodes, JoinTree.nodes, node?_add, hlength]
  case refine_2 =>
    intro i j n m hi hj
    have hij : ∀ {i n}, (QueryGraph.empty.add node a).2.realNodes[i]? = some n → i = 0 ∧ n = 0 := by
      intro i n h
      rw [hnodes] at h
      obtain ⟨hlt, h⟩ := List.getElem?_eq_some_iff.mp h
      simp only [List.length_singleton, Nat.lt_one_iff] at hlt
      subst hlt
      exact ⟨rfl, h.symm⟩
    obtain ⟨rfl, rfl⟩ := hij hi
    obtain ⟨rfl, rfl⟩ := hij hj
    exact iff_of_true (.refl _) (.refl _)

theorem table_of_column? {k : Nat} {name : String} {c : ColumnRef} (h : s.column? k name = some c) : c.table = k := by
  obtain ⟨_, _, rfl⟩ := Option.map_eq_some_iff.mp h
  rfl

-- The join leads between the columns that the condition is about.
theorem spanned_of_resolve (hs : s.Loaded) (hk : s.Straight) (hf : first.WellFormed) (hg : second.WellFormed)
    {left right : String × String} (h : resolve s first second left right = .join j) :
    ∃ c d, Equates s first second left right ⟨j.first, c⟩ ⟨j.second, d⟩ ∧ Spanned s first second j c d ∧
      c ≠ d ∧ EqvGen s.bonds.Paired c d := by
  obtain ⟨c, d, hcd, hconnection⟩ := equates_of_resolve h
  obtain ⟨hfirst, hsecond⟩ := hcd.real hf hg
  have located : ∀ {g : QueryGraph} {side n c}, g.WellFormed → Located s g side ⟨n, c⟩ →
      g.table? n = some c.table := by
    intro g side n c hg h
    have hn := (hg.mem_realNodes.mp (h.real hg)).1
    rw [table?, node?_eq_some_node hn, Option.map_some, table_of_column? h.column]
  obtain ⟨hc, hd⟩ : first.table? j.first = some c.table ∧ second.table? j.second = some d.table := by
    cases hcd
    case straight hc hd => exact ⟨located hf hc, located hg hd⟩
    case crossed hc hd => exact ⟨located hf hc, located hg hd⟩
  have hwalk : Walk (Crossing s) c j.connection d := (hs.walk_proper hconnection).mono fun _ _ _ _ hstep =>
    ⟨hstep.1, hk.imp_right fun hk => steps_of_crosses hk hstep⟩
  have hsome : (s.connection? c d).isSome = true := by simp [hconnection]
  exact ⟨c, d, hcd, ⟨hfirst, hsecond, hc, hd, hwalk⟩, hs.connection?_isSome_iff.mp hsome⟩

theorem spanned_of_placeCondition (hs : s.Loaded) (hk : s.Straight) (hf : first.WellFormed) (hg : second.WellFormed)
    {preferred : Option Side} (h : placeCondition s first second preferred condition = .join j) :
    ∃ c d, Spanned s first second j c d ∧ c ≠ d ∧ EqvGen s.bonds.Paired c d := by
  unfold placeCondition at h
  split at h
  case h_1 => split at h <;> cases h
  case h_2 left right _ =>
    dsimp only at h
    split at h
    case h_2 => cases h
    case h_1 a b _ _ =>
      obtain ⟨c, d, -, hspanned⟩ := spanned_of_resolve hs hk hf hg h
      exact ⟨c, d, hspanned⟩

theorem Stated.founded (hf : Justified s p left first t) (hg : Justified s q right second u) {x : NodeJoin}
    (h : Stated s first second j x) : JoinTree.Founded s t u x where
  left := (hf.table h.first_at).symm.trans h.source
  right := (hg.table h.second_at).symm.trans h.target
  equals := h.equals

theorem at_left {π ρ : Nat → Nat} (h : Assembled s first second π ρ joins g) {i n : Nat}
    (hi : first.realNodes[i]? = some n) : g.realNodes[i]? = some (π n) := by
  have hlt := (List.getElem?_eq_some_iff.mp hi).1
  rw [h.realNodes, List.getElem?_append_left (by simpa using hlt), List.getElem?_map, hi, Option.map_some]

theorem at_right {π ρ : Nat → Nat} (h : Assembled s first second π ρ joins g) {i n : Nat}
    (hi : second.realNodes[i]? = some n) : g.realNodes[first.realNodes.length + i]? = some (ρ n) := by
  rw [h.realNodes, List.getElem?_append_right (by simp), List.getElem?_map, List.length_map, Nat.add_sub_cancel_left, hi,
    Option.map_some]

-- The nodes of a merger are bonded just as their positions are linked.
theorem bonded_iff_links {π ρ : Nat → Nat} {xs : List NodeJoin} {i k n m : Nat} (hf : Justified s p left first t)
    (hg : Justified s q right second u) (h : Assembled s first second π ρ joins g)
    (hxs : List.Forall₂ (Stated s first second) joins xs) (hi : g.realNodes[i]? = some n)
    (hk : g.realNodes[k]? = some m) :
    EqvGen (Bonded first second π ρ joins) n m ↔ EqvGen (JoinTree.join t u xs).Links i k := by
  have hlength := hf.length
  refine transfer (h.grounded.wellFormed.nodup_nodes.filter _) ?_ ?_ hi hk
  case refine_1 =>
    rintro _ _ ((⟨a, ha, b, hb, hab, rfl, rfl⟩ | ⟨a, ha, b, hb, hab, rfl, rfl⟩) | ⟨j, hj, rfl, rfl⟩)
    · have ⟨i, hi⟩ := List.getElem?_of_mem ha
      have ⟨k, hk⟩ := List.getElem?_of_mem hb
      have hlinks := (hf.connects i k a b hi hk).mp hab
      exact ⟨i, k, at_left h hi, at_left h hk, of_le (fun _ _ h => .rel _ _ (.left h)) hlinks⟩
    · have ⟨i, hi⟩ := List.getElem?_of_mem ha
      have ⟨k, hk⟩ := List.getElem?_of_mem hb
      have hlinks := (hg.connects i k a b hi hk).mp hab
      refine ⟨_, _, at_right h hi, at_right h hk, ?_⟩
      rw [hlength]
      exact Closure.map (t.nodes.length + ·) (fun _ _ h => .rel _ _ (.right h)) hlinks
    · have ⟨x, hx, hstated⟩ := exists_of_forall₂ hxs.flip j hj
      refine ⟨_, _, at_left h hstated.first_at, at_right h hstated.second_at, ?_⟩
      rw [hlength]
      exact .rel _ _ (.here x hx)
  case refine_2 =>
    rintro _ _ (hij | hij | ⟨x, hx⟩)
    case left i j =>
      have ⟨hi, hj⟩ := hij.lt hf.sound
      have ⟨a, ha⟩ : ∃ a, first.realNodes[i]? = some a := ⟨_, List.getElem?_eq_getElem (hlength ▸ hi)⟩
      have ⟨b, hb⟩ : ∃ b, first.realNodes[j]? = some b := ⟨_, List.getElem?_eq_getElem (hlength ▸ hj)⟩
      have hconnects := (hf.connects i j a b ha hb).mpr (.rel _ _ hij)
      exact ⟨_, _, at_left h ha, at_left h hb,
        .rel _ _ (.inl (.inl ⟨a, List.mem_of_getElem? ha, b, List.mem_of_getElem? hb, hconnects, rfl, rfl⟩))⟩
    case right i j =>
      have ⟨hi, hj⟩ := hij.lt hg.sound
      have ⟨a, ha⟩ : ∃ a, second.realNodes[i]? = some a := ⟨_, List.getElem?_eq_getElem (hg.length ▸ hi)⟩
      have ⟨b, hb⟩ : ∃ b, second.realNodes[j]? = some b := ⟨_, List.getElem?_eq_getElem (hg.length ▸ hj)⟩
      have hconnects := (hg.connects i j a b ha hb).mpr (.rel _ _ hij)
      rw [← hlength]
      exact ⟨_, _, at_right h ha, at_right h hb,
        .rel _ _ (.inl (.inr ⟨a, List.mem_of_getElem? ha, b, List.mem_of_getElem? hb, hconnects, rfl, rfl⟩))⟩
    case here =>
      have ⟨j, hj, hstated⟩ := exists_of_forall₂ hxs x hx
      rw [← hlength]
      exact ⟨_, _, at_left h hstated.first_at, at_right h hstated.second_at, .rel _ _ (.inr ⟨j, hj, rfl, rfl⟩)⟩

theorem rooted_innerJoin (hs : s.Loaded) (hk : s.Straight) (ho : o.operator? = some operator)
    (hc : operator.category = .join) (htype : o.joinType = some "Inner") (hf : Rooted s p left first t)
    (hg : Rooted s q right second u) (hplaced : placements s o left right first second = some (joins, orphaned)) :
    ∃ xs : List NodeJoin, Rooted s (.node o [p, q]) (innerJoin s o left right first second)
      (merge s first second joins) (.join t u xs) := by
  have hj : ∀ j ∈ joins, ∃ c d, Spanned s first second j c d ∧ c ≠ d ∧ EqvGen s.bonds.Paired c d := by
    intro j hmem
    have ⟨condition, _, hplace⟩ := (placedAll_of_placeConditions hplaced).origin j hmem
    exact spanned_of_placeCondition hs hk hf.wellFormed hg.wellFormed hplace
  have ⟨π, ρ, hassembled⟩ : ∃ π ρ, Assembled s first second π ρ joins (merge s first second joins) :=
    assembled_merge hs hf.grounded hg.grounded fun j hmem => by
      have ⟨c, d, hspanned, _⟩ := hj j hmem
      exact ⟨c, d, hspanned⟩
  have ⟨xs, hxs⟩ : ∃ xs, List.Forall₂ (Stated s first second) joins xs := exists_forall₂ fun j hmem => by
    have ⟨c, d, hspanned, hequals⟩ := hj j hmem
    have ⟨i, hi⟩ := List.getElem?_of_mem hspanned.first_mem
    have ⟨k, hk⟩ := List.getElem?_of_mem hspanned.second_mem
    exact ⟨⟨i, c, k, d⟩, hi, hk, hspanned.source, hspanned.target, hequals⟩
  refine ⟨xs, ⟨?query, .join ho hc htype hf.follows hg.follows hf.query hg.query hplaced hxs,
    ⟨hf.sound, hg.sound, ?sound⟩, hassembled.grounded.wellFormed, ?nodes, hassembled.grounded.typed, ?connects⟩,
    hassembled.grounded⟩
  case query => rw [innerJoin_eq, hplaced]
  case sound =>
    intro x hx
    have ⟨j, _, hstated⟩ := exists_of_forall₂ hxs x hx
    exact hstated.founded hf.toJustified hg.toJustified
  case nodes =>
    rw [hassembled.realNodes, List.map_append, List.map_map, List.map_map, JoinTree.nodes, List.map_append, ← hf.nodes,
      ← hg.nodes]
    congr 1
    · exact List.map_congr_left fun n hn => hassembled.left n hn
    · exact List.map_congr_left fun n hn => hassembled.right n hn
  case connects =>
    intro i k n m hi hk
    rw [hassembled.connects n (List.mem_of_getElem? hi) m (List.mem_of_getElem? hk)]
    exact bonded_iff_links hf.toJustified hg.toJustified hassembled hxs hi hk

-- The query belongs to a node of the plan at which no condition waits.
def Grown (s : Schema) (p : Plan) (g : QueryGraph) : Prop :=
  ∃ part ∈ p.subplans, ∃ found t, found.orphaned = [] ∧ Rooted s part found g t

-- All that is recovered from the plan is justified.
structure Growing (s : Schema) (p : Plan) (found : Recovered) : Prop where
  query    : ∀ g, found.query = some g → ∃ t, Rooted s p found g t
  subplans : ∀ g ∈ found.subplans, Grown s p g

theorem Grown.of_input (h : Grown s p g) (hp : p ∈ inputs) : Grown s (.node o inputs) g := by
  have ⟨part, hpart, h⟩ := h
  exact ⟨part, Plan.mem_subplans_of_input hp hpart, h⟩

theorem grown_self (h : Rooted s p found g t) (ho : found.orphaned = []) : Grown s p g :=
  ⟨p, p.mem_subplans_self, found, t, ho, h⟩

theorem growing_single {node : Occurrence} (ho : o.operator? = some operator) (hc : operator.category = .scan)
    (hscan : Scan.ofNode? s operator o inputs = some scan) (htable : node.table = scan.table)
    (hreal : node.isVirtual = false) (hinstances : found.instances = [(scan.aliasName, node)])
    (hquery : found.query = some (QueryGraph.empty.add node scan.aliasName).2)
    (hsubplans : ∀ g ∈ found.subplans, found.query = some g ∧ found.orphaned = []) :
    Growing s (.node o inputs) found := by
  have hrooted : Rooted s (.node o inputs) found _ _ := rooted_scan ho hc hscan htable hreal hinstances hquery
  constructor
  case query =>
    intro g hg
    cases hquery.symm.trans hg
    exact ⟨_, hrooted⟩
  case subplans =>
    intro g hg
    have ⟨hg, horphaned⟩ := hsubplans g hg
    cases hquery.symm.trans hg
    exact grown_self hrooted horphaned

theorem growing_of_nodeRun (hs : r.schema.Loaded) (hk : r.schema.Straight)
    (h : NodeRun r A (fun p outcome => ∀ found, outcome = .ok found → Growing r.schema p found) o inputs outcome) :
    ∀ found, outcome = .ok found → Growing r.schema (.node o inputs) found := by
  -- What is justified for an input is justified for the plan.
  have below : ∀ {parts}, List.Forall₂ (fun p part => ∀ found, Except.ok (ε := RecoveryError) part = .ok found →
      Growing r.schema p found) inputs parts → ∀ g ∈ (gather parts).subplans, Grown r.schema (.node o inputs) g := by
    intro parts hparts g hg
    have ⟨part, hpart, hg⟩ := List.mem_flatMap.mp hg
    have ⟨p, hp, hgrowing⟩ := exists_of_forall₂ hparts part hpart
    exact ((hgrowing part rfl).subplans g hg).of_input hp
  cases h
  case fault => exact nofun
  case input => exact nofun
  case unread =>
    rintro _ ⟨⟩
    exact ⟨nofun, nofun⟩
  case heap scan ho hscan hrun =>
    rintro _ rfl
    cases hrun
    case found =>
      refine growing_single ho rfl hscan rfl rfl rfl rfl fun g hg => ?_
      unfold scanned at hg ⊢
      grind
  case none hparts =>
    rintro _ ⟨⟩
    exact ⟨nofun, below hparts⟩
  case passing operator first rest ho hc hparts =>
    rintro _ ⟨⟩
    refine ⟨fun g hg => ?_, below hparts⟩
    cases hparts
    case cons hfirst _ =>
      have ⟨t, ht⟩ := (hfirst first rfl).query g hg
      exact ⟨t, ⟨hg, .passing ho hc ht.follows, ht.sound, ht.wellFormed, ht.nodes, ht.typed, ht.connects⟩, ht.grounded⟩
  case join operator left right first second ho hc htype hparts hleft hright =>
    rintro _ ⟨⟩
    have hbelow := below hparts
    cases hparts with | @cons p _ _ _ hl hparts =>
    cases hparts with | @cons q _ _ _ hr hparts =>
    cases hparts
    have ⟨t, ht⟩ := (hl left rfl).query first hleft
    have ⟨u, hu⟩ := (hr right rfl).query second hright
    cases hplaced : placements r.schema o left right first second
    case none =>
      rw [innerJoin_eq, hplaced]
      exact ⟨nofun, hbelow⟩
    case some placed =>
      obtain ⟨joins, orphaned⟩ := placed
      have ⟨xs, hrooted⟩ := rooted_innerJoin hs hk ho hc htype ht hu hplaced
      have heq : innerJoin r.schema o left right first second = _ := innerJoin_eq
      rw [hplaced] at heq
      constructor
      case query =>
        intro g hg
        cases hrooted.query.symm.trans hg
        exact ⟨_, hrooted⟩
      case subplans =>
        intro g hg
        rw [heq, List.mem_append] at hg
        cases hg
        case inl hg => exact hbelow g hg
        case inr hg =>
          -- The query of the join itself is emitted if nothing waits.
          split at hg
          case isFalse => cases hg
          case isTrue hempty =>
            cases List.mem_singleton.mp hg
            exact grown_self hrooted (heq ▸ List.isEmpty_iff.mp hempty)
  case scan operator parts scan outcome ho hc hparts hscan hrun =>
    cases hrun
    case lost => exact nofun
    case failed => exact nofun
    case found =>
      rintro _ ⟨⟩
      refine growing_single ho hc hscan rfl rfl rfl rfl fun g hg => ?_
      unfold beside scanned at hg ⊢
      grind

variable [Monad m] [LawfulMonad m] {d : SchemaDescription}

-- Whatever the database answers, every query that is emitted belongs to a node of the plan, and its edges are typed. It
-- connects what conditions have been placed between, and so it is connected if there is one at every join below. No
-- query has a join on columns that no keys make equal.
theorem recover_justified (hd : Schema.ofDescription d = .ok r.schema) (hk : r.schema.Straight) (p : Plan) :
    Always (fun outcome => ∀ found, outcome = .ok found → ∀ g ∈ found.subplans,
      ∃ part ∈ p.subplans, ∃ below t, below.orphaned = [] ∧ Justified r.schema part below g t ∧
        (t.Joined → ∀ n ∈ g.realNodes, ∀ m ∈ g.realNodes, g.Connects n m)) (r.recover p) ∧
    ∀ o left right first second condition, condition ∈ pending o left right →
      Unrelated r.schema first second (orphanSide left right condition) condition →
      (innerJoin r.schema o left right first second).query = none ∧
      (innerJoin r.schema o left right first second).subplans = (gather [left, right]).subplans := by
  have hs := Schema.loaded_of_ofDescription hd
  have hA : r.backend.Answers fun _ _ => True := fun sql settings =>
    ⟨(fun answer => ⟨answer, trivial⟩) <$> r.backend.explain sql settings, by simp⟩
  have hrecover : Always (fun outcome => ∀ found, outcome = .ok found → Growing r.schema p found) (r.recover p) :=
    always_recoverBelow hA (fun _ _ _ h => growing_of_nodeRun hs hk h) p 0
  constructor
  case left =>
    refine hrecover.mono fun outcome hgrowing found hfound g hg => ?_
    have ⟨part, hpart, below, t, horphaned, hrooted⟩ := (hgrowing found hfound).subplans g hg
    exact ⟨part, hpart, below, t, horphaned, hrooted.toJustified, hrooted.connected⟩
  case right =>
    intro o left right first second condition hmem hunrelated
    rw [innerJoin_unrelated hs hmem hunrelated]
    exact ⟨rfl, rfl⟩

-- The tables of the triangle, two of which have a column besides that no key uses.
def sizes : SchemaDescription where
  name := "sizes"
  tables := [
    { name := "a", cardinality := 1, columns := [{ name := "id", dataType := "integer" }] },
    { name := "b", cardinality := 1, columns := [
      { name := "a_id", dataType := "integer" }, { name := "size", dataType := "integer" }] },
    { name := "c", cardinality := 1, columns := [
      { name := "a_id", dataType := "integer" }, { name := "size", dataType := "integer" }] }]
  keys := Schema.triangle.keys

def sized : Recovery Id :=
  { refusing with schema := (Schema.ofDescription sizes).toOption.get (by decide +kernel) }

theorem unrelated_sizes : Unrelated sized.schema (alone 2 "x") (alone 1 "y") none "(x.size = y.size)" := by
  refine ⟨⟨some "x", "size"⟩, ⟨some "y", "size"⟩, "x", "y", ⟨0, ⟨2, 1⟩⟩, ⟨0, ⟨1, 1⟩⟩, by decide +kernel, rfl, rfl,
    .straight ⟨by decide +kernel, by decide +kernel⟩ ⟨by decide +kernel, by decide +kernel⟩, fun hequal => ?_⟩
  have hs : sized.schema.Loaded := Schema.loaded_of_ofDescription (d := sizes) rfl
  have hequivalent := hs.areEquivalent_iff.mpr ⟨(by decide +kernel : (⟨2, 1⟩ : ColumnRef) ∈ _), hequal⟩
  exact absurd hequivalent (by decide +kernel)

theorem recover_justified_lookup : Schema.ofDescription sizes = .ok sized.schema ∧ sized.schema.Straight ∧
    (∃ found, sized.recover lookup = pure found ∧
      (found.subplans.map fun g => g.occurrences.map Prod.fst) = [["x"], ["y"], ["x", "y"], ["x", "y", "z"]] ∧
      ∀ g ∈ found.subplans, ∃ part ∈ lookup.subplans, ∃ below t, below.orphaned = [] ∧
        Justified sized.schema part below g t ∧
        (t.Joined → ∀ n ∈ g.realNodes, ∀ m ∈ g.realNodes, g.Connects n m)) ∧
    Unrelated sized.schema (alone 2 "x") (alone 1 "y") none "(x.size = y.size)" ∧
    (innerJoin sized.schema { name := "Hash Join", hashCondition := some "(x.size = y.size)" } {} {} (alone 2 "x")
      (alone 1 "y")).query = none := by
  have hd : Schema.ofDescription sizes = .ok sized.schema := rfl
  have hk : sized.schema.Straight := .inr (by decide +kernel)
  have ⟨hrecover, hunrelated⟩ := recover_justified hd hk lookup
  have haliases : ((sized.recover lookup).run.toOption.map fun found =>
      found.subplans.map fun g => g.occurrences.map Prod.fst) = some [["x"], ["y"], ["x", "y"], ["x", "y", "z"]] := by
    decide +kernel
  refine ⟨hd, hk, ?_, unrelated_sizes, (hunrelated _ {} {} _ _ _ (by decide +kernel) unrelated_sizes).1⟩
  obtain ⟨⟨outcome, hjustified⟩, hrun⟩ := hrecover
  change (sized.recover lookup).run = outcome at hrun
  rw [hrun] at haliases
  cases outcome
  case error => simp [Except.toOption] at haliases
  case ok found => exact ⟨found, hrun, by simpa [Except.toOption] using haliases, hjustified found rfl⟩

-- Every pair of rows of two tables.
def product : Plan :=
  .node { name := "Nested Loop", joinType := some "Inner" } [
    .node { name := "Seq Scan", relation := some "c", aliasName := some "x" } [],
    .node { name := "Seq Scan", relation := some "b", aliasName := some "y" } []]

-- A join without conditions is emitted as well, and nothing connects its tables.
theorem not_connected_product : ∃ graphs, refusing.subplans product = pure graphs ∧
    ∃ g ∈ graphs, ∃ n ∈ g.realNodes, ∃ m ∈ g.realNodes, ¬g.Connects n m := by
  have h : ((refusing.subplans product).run.toOption.map fun graphs =>
      graphs.map fun g => (g.realNodes, g.edges)) = some [([0], []), ([0], []), ([0, 1], [])] := by decide +kernel
  cases hrun : (refusing.subplans product).run
  case error => simp [hrun, Except.toOption] at h
  case ok graphs =>
    have h : (graphs.map fun g => (g.realNodes, g.edges)) = [([0], []), ([0], []), ([0, 1], [])] := by
      simpa [hrun, Except.toOption] using h
    have hlast : ([0, 1], []) ∈ graphs.map fun g => (g.realNodes, g.edges) := by simp [h]
    obtain ⟨g, hg, heq⟩ := List.mem_map.mp hlast
    obtain ⟨hreal, hedges⟩ := Prod.mk.injEq .. ▸ heq
    refine ⟨graphs, hrun, g, hg, 0, by simp [hreal], 1, by simp [hreal], fun hconnects => ?_⟩
    have hnone : ∀ n m, ¬g.Adjacent n m := by
      rintro n m ⟨x, hx, -⟩
      simp [hasEdge_iff_mem, hedges] at hx
    exact absurd ((Closure.iff_eq hnone).mp hconnects) (by decide)

end Recovery

end Subplans
