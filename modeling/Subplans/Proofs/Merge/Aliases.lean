import Subplans.Proofs.Merge.Exact
import Subplans.Proofs.Merge.Redundancy
import Subplans.Schema.Description

/-!
Aliases in mergers.

Joins leave the nodes that are not virtual as they are (`extends_addConnection`), but copying a graph exchanges aliases
that are taken. In a merger the nodes of the first graph go by the aliases they had there, and so do those of the
second unless their alias is contested (`merge_aliases`).
-/

namespace Subplans.QueryGraph

variable {s : Schema} {g g' source first second : QueryGraph} {m n key last next target : Nat} {natural : Bool}
  {π : Nat → Nat}

-- The nodes of the graph that are not virtual are there unchanged, and aliases tell all nodes apart.
structure Extends (g g' : QueryGraph) : Prop where
  keeps   : Keeps g g'
  indexed : g'.Indexed

namespace Extends

theorem trans {g'' : QueryGraph} (h : Extends g g') (h' : Extends g' g'') : Extends g g'' where
  keeps := h.keeps.trans h'.keeps
  indexed := h'.indexed

protected theorem addFresh (hg : g.Indexed) (t : Nat) : Extends g (g.addFresh (.virtual s t)).2 where
  keeps := keeps_addFresh hg rfl
  indexed := hg.addFresh

protected theorem addStep (hg : g.Indexed) : Extends g (g.addStep key natural last next).1 := by
  cases natural
  all_goals
    constructor
    case keeps => exact sameNodes_addEdge.keeps.trans keeps_mergeVirtual
    case indexed => exact (hg.of_sameNodes sameNodes_addEdge).mergeVirtual

end Extends

theorem extends_addConnection {w : Connection} {pending : Option (Nat × Bool)} (hg : g.Indexed) :
    Extends g (addConnection s target g last pending w) := by
  apply addConnection_run (P := fun g' _ => Extends g g') (Q := Extends g)
  case hnone => exact id
  case hlast => exact fun h => h.trans (.addStep h.indexed)
  case hstep =>
    intro g' last key natural t h
    have hnode : Extends g' (g'.addFresh (.virtual s t)).2 := .addFresh h.indexed t
    exact h.trans (hnode.trans (.addStep hnode.indexed))
  case h => exact ⟨.refl, hg⟩

theorem extends_joins {ρ : Nat → Nat} (hg : g.Indexed) (joins : List EquivalenceJoin) :
    Extends g (joins.foldl (fun g j => addConnection s (ρ j.second) g (π j.first) none j.connection) g) := by
  refine List.foldlRecOn joins _ ⟨.refl, hg⟩ fun g' h j _ => ?_
  exact h.trans (extends_addConnection h.indexed)

-- The node is found by its alias, as it was, and no virtual node has the alias.
structure Found (g merged : QueryGraph) (n : Nat) : Prop where
  real : ∃ m, merged.realNode? (g.aliasName n) = some m ∧ merged.node? m = g.node? n
  sole : ∀ v, merged.isVirtual v = true → merged.aliasName v ≠ g.aliasName n

-- The alias of a node of the second graph is taken by a virtual node of the first, or it is one that may be handed
-- out in exchange for another one that is taken.
inductive Contested (first second : QueryGraph) (n : Nat) : Prop
  | taken (m : Nat) : first.isVirtual m = true → first.aliasName m = second.aliasName n → Contested first second n
  | fresh (k m v : Nat) : second.aliasName n = numbered k → first.contains m = true → second.contains v = true →
    first.aliasName m = second.aliasName v → Contested first second n

-- Where a node has been copied to it stays.
theorem Extends.found (h : Extends g g') (hreal : m ∈ g.realNodes) (hnode : g.node? m = source.node? n)
    (halias : g.aliasName m = source.aliasName n) : Found source g' n := by
  have ⟨hc, hv⟩ := h.indexed.mem_realNodes.mp (h.keeps.realNodes ▸ hreal)
  have ha : g'.aliasName m = source.aliasName n := (h.keeps.aliasName m hreal).trans halias
  constructor
  case real =>
    have hby := (h.indexed.byAlias _ m).mpr ⟨hc, ha⟩
    exact ⟨m, by simp [realNode?, hby, hv], (h.keeps.node? m hreal).trans hnode⟩
  case sole =>
    intro v hvirtual heq
    have hvm := h.indexed.aliasName_inj (contains_of_isVirtual hvirtual) hc (heq.trans ha.symm)
    simp [hvm, hv] at hvirtual

theorem clear_empty : Clear empty source n :=
  ⟨rfl, fun _ _ _ _ => rfl⟩

-- An alias in the copy of the first graph is one that the first graph had.
theorem Copied.alias_of_empty (h : Copied empty first g π) (hf : first.WellFormed) {a : String}
    (ha : (g.byAlias? a).isSome) : ∃ m, first.contains m = true ∧ first.aliasName m = a := by
  have ⟨k, hk⟩ := Option.isSome_iff_exists.mp ha
  have ⟨hc, halias⟩ := (h.wellFormed.byAlias a k).mp hk
  have hmem := (h.wellFormed.mem_nodes k).mpr hc
  have hnodes : g.nodes = first.nodes.map π := h.nodes
  rw [hnodes, List.mem_map] at hmem
  have ⟨m, hm, hplace⟩ := hmem
  have hm := (hf.mem_nodes m).mp hm
  exact ⟨m, hm, (h.kept m hm clear_empty).symm.trans (hplace ▸ halias)⟩

theorem clear_of_not_contested (h : Copied empty first g π) (hf : first.WellFormed) (hs : second.WellFormed)
    (hapart : Apart second first) (hn : n ∈ second.realNodes) (hfree : ¬Contested first second n) :
    Clear g second n where
  free := by
    rw [← Option.not_isSome_iff_eq_none]
    intro ha
    have ⟨m, hm, halias⟩ := h.alias_of_empty hf ha
    cases hv : first.isVirtual m
    case false => exact hapart n hn m (hf.mem_realNodes.mpr ⟨hm, hv⟩) halias.symm
    case true => exact hfree (.taken m hv halias)
  fresh k hk v hv := by
    rw [← Option.not_isSome_iff_eq_none]
    intro ha
    have ⟨m, hm, halias⟩ := h.alias_of_empty hf ha
    exact hfree (.fresh k m v hk hm ((hs.mem_nodes v).mp hv) halias)

theorem merge_aliases (hf : first.WellFormed) (hs : second.WellFormed) (hapart : Apart second first) (s : Schema)
    (joins : List EquivalenceJoin) :
    (∀ n ∈ first.realNodes, Found first (merge s first second joins) n) ∧
    ∀ n ∈ second.realNodes, ¬Contested first second n → Found second (merge s first second joins) n := by
  have ⟨π, ρ, g₁, g, h₁, h₂, hmerge⟩ := merge_copies hf hs
  have hjoins : Extends g (merge s first second joins) := hmerge s joins ▸ extends_joins h₂.wellFormed.indexed joins
  constructor
  case left =>
    intro n hn
    have ⟨hc, _⟩ := hf.mem_realNodes.mp hn
    have hc₁ : g₁.contains (π n) = true := by rwa [contains, h₁.placed n hc]
    have hreal : π n ∈ g₁.realNodes := by
      rw [h₁.realNodes .empty hf]
      exact List.mem_append_right _ (List.mem_map_of_mem hn)
    apply hjoins.found
    case hnode => rw [h₂.node? _ hc₁, h₁.placed n hc]
    case hreal =>
      rw [h₂.realNodes h₁.wellFormed hs]
      exact List.mem_append_left _ hreal
    case halias => rw [h₂.aliasName _ hc₁, h₁.kept n hc clear_empty]
  case right =>
    intro n hn hfree
    have ⟨hc, _⟩ := hs.mem_realNodes.mp hn
    apply hjoins.found
    case hnode => exact h₂.placed n hc
    case hreal =>
      rw [h₂.realNodes h₁.wellFormed hs]
      exact List.mem_append_right _ (List.mem_map_of_mem hn)
    case halias => exact h₂.kept n hc (clear_of_not_contested h₁ hf hs hapart hn hfree)

-- Two tables that refer to films.
def films : SchemaDescription where
  name := "films"
  tables := [
    { name := "film", cardinality := 1, columns := [{ name := "id", dataType := "integer" }] },
    { name := "link", cardinality := 1, columns := [{ name := "film_id", dataType := "integer" }] },
    { name := "info", cardinality := 1, columns := [{ name := "film_id", dataType := "integer" }] }]
  keys := [
    { name := "link_film", source := "link", sourceColumns := ["film_id"], target := "film", targetColumns := ["id"] },
    { name := "info_film", source := "info", sourceColumns := ["film_id"], target := "film", targetColumns := ["id"] }]

def filmsSchema : Schema :=
  (Schema.ofDescription films).toOption.get (by decide +kernel)

-- A graph of one table.
def alone (table : Nat) (a : String) : QueryGraph :=
  (empty.add { table, cardinality := 1, clauses := [], isVirtual := false } a).2

-- The join of a link and an information about one film.
def throughFilm : EquivalenceJoin :=
  ⟨0, [.join 0 true, .table 0, .join 1 false], 0⟩

-- A link and an information about the same film, which is a virtual node with the alias `n1`.
def sameFilm : QueryGraph :=
  merge filmsSchema (alone 1 "ml") (alone 2 "mi") [throughFilm]

theorem built_alone {table : Nat} {a : String} : Built s (alone table a) := by
  refine .single (WellFormed.empty.add rfl) (n := 0) rfl rfl fun x hx => ?_
  simpa [alone, add, empty] using hasEdge_iff_mem.mp hx

theorem resolved_throughFilm : Resolved filmsSchema (alone 1 "ml") (alone 2 "mi") throughFilm ∧
    ∀ a ∈ ["mj", "n1"], Resolved filmsSchema sameFilm (alone 2 a) throughFilm := by
  constructor
  case left => exact ⟨("ml", "film_id"), ("mi", "film_id"), by decide +kernel⟩
  case right =>
    intro a ha
    refine ⟨("ml", "film_id"), (a, "film_id"), ?_⟩
    revert a
    decide +kernel

theorem built_sameFilm : Built filmsSchema sameFilm :=
  .merge built_alone built_alone (by simpa using resolved_throughFilm.1)

theorem wellFormed_sameFilm : sameFilm.WellFormed := by
  have hd : Schema.ofDescription films = .ok filmsSchema := rfl
  have hk : ∀ key ∈ filmsSchema.keys, key.pairs.length = 1 := by decide +kernel
  exact (built_sameFilm.tidy (Schema.loaded_of_ofDescription hd) hk).wellFormed

theorem wellFormed_alone {table : Nat} {a : String} : (alone table a).WellFormed :=
  WellFormed.empty.add rfl

instance : Decidable (Apart g g') :=
  inferInstanceAs (Decidable (∀ n ∈ g.realNodes, ∀ m ∈ g'.realNodes, g.aliasName n ≠ g'.aliasName m))

theorem not_contested_sameFilm : ¬Contested sameFilm (alone 2 "mj") 0 := by
  rintro (⟨m, hv, ha⟩ | ⟨k, _, _, hk, _⟩)
  case taken =>
    have hlt := lt_of_contains (contains_of_isVirtual hv)
    have hfree : ∀ m < sameFilm.slots.length, sameFilm.isVirtual m = true → sameFilm.aliasName m ≠ "mj" := by
      decide +kernel
    exact hfree m hlt hv ha
  case fresh =>
    -- Aliases that are handed out begin with another letter.
    have := congrArg (fun a => a.toList.head?) hk
    simp [numbered, alone, add, aliasName, slot?, empty] at this

theorem merge_aliases_sameFilm : sameFilm.WellFormed ∧ (alone 2 "mj").WellFormed ∧ Apart (alone 2 "mj") sameFilm ∧
    (∀ n ∈ sameFilm.realNodes, Found sameFilm (merge filmsSchema sameFilm (alone 2 "mj") [throughFilm]) n) ∧
    Found (alone 2 "mj") (merge filmsSchema sameFilm (alone 2 "mj") [throughFilm]) 0 := by
  have hapart : Apart (alone 2 "mj") sameFilm := by decide +kernel
  have ⟨hfirst, hsecond⟩ := merge_aliases wellFormed_sameFilm wellFormed_alone hapart filmsSchema [throughFilm]
  exact ⟨wellFormed_sameFilm, wellFormed_alone, hapart, hfirst, hsecond 0 (by decide) not_contested_sameFilm⟩

-- The node of the second graph goes by another alias, as a virtual node of the first had its own.
theorem not_found_sameFilm : sameFilm.WellFormed ∧ (alone 2 "n1").WellFormed ∧ Apart (alone 2 "n1") sameFilm ∧
    Resolved filmsSchema sameFilm (alone 2 "n1") throughFilm ∧ (alone 2 "n1").realNode? "n1" = some 0 ∧
    (merge filmsSchema sameFilm (alone 2 "n1") [throughFilm]).realNode? "n1" = none ∧
    (merge filmsSchema sameFilm (alone 2 "n1") [throughFilm]).realNode? "n2" = some 3 :=
  ⟨wellFormed_sameFilm, wellFormed_alone, by decide +kernel, resolved_throughFilm.2 _ (by simp), by decide,
    by decide +kernel, by decide +kernel⟩

end Subplans.QueryGraph
