import Subplans.Proofs.Recovery.Justified

/-!
Joins with their sides or their graphs exchanged.

A condition may name its sides in either order, and the graphs that it joins may come in either order. What becomes
of it is the same up to the direction of the join, and either merger makes the two columns equal
(`resolve_orientation`): a walk along a connection takes what is equal to its first column along to the last one
(`leads_addConnection`).

A walk can lose its way where an edge leads from a virtual node to itself: the node that it goes on from may have been
taken out, and then the columns are equal in one of the two mergers only (`not_forces_revisions`).
-/

namespace Subplans

open Closure Relation

variable {s : Schema} {first second : QueryGraph} {j : EquivalenceJoin} {joins : List EquivalenceJoin}

-- The same join from its other end.
def EquivalenceJoin.reversed (j : EquivalenceJoin) : EquivalenceJoin where
  first := j.second
  connection := j.connection.reversed
  second := j.first

def JoinResolution.reversed : JoinResolution → JoinResolution
  | join j => join j.reversed
  | orphaned => orphaned
  | rejected => rejected

namespace QueryGraph

-- No alias is that of a node of either graph that is not virtual.
def Unshared (first second : QueryGraph) : Prop :=
  ∀ a, first.realNode? a = none ∨ second.realNode? a = none

theorem Unshared.symm (h : Unshared first second) : Unshared second first :=
  fun a => (h a).symm

theorem joinColumns_exchanged (hs : s.Loaded) (a b : Nat × String) :
    joinColumns s second first b a = (joinColumns s first second a b).reversed := by
  unfold joinColumns
  cases s.column? (first.node a.1).table a.2 <;> cases s.column? (second.node b.1).table b.2
  case some.some c d =>
    simp only [hs.areEquivalent_comm d c, hs.connection?_comm c d, BEq.comm (a := d)]
    split
    case isTrue => rfl
    case isFalse => cases s.connection? c d <;> rfl
  all_goals rfl

-- Each alias is found in one of the graphs at most, so the nodes of the sides can be told in one way only.
theorem resolve_exchanged_sides (hu : Unshared first second) (left right : String × String) :
    resolve s first second right left = resolve s first second left right := by
  have hl := hu left.1
  have hr := hu right.1
  unfold resolve
  generalize first.realNode? left.1 = a, first.realNode? right.1 = b, second.realNode? left.1 = c,
    second.realNode? right.1 = d at hl hr ⊢
  cases a <;> cases b <;> cases c <;> cases d <;> first | rfl | simp at hl hr

theorem resolve_exchanged (hs : s.Loaded) (hu : Unshared first second) (left right : String × String) :
    resolve s second first left right = (resolve s first second left right).reversed := by
  have hl := hu left.1
  have hr := hu right.1
  unfold resolve
  generalize first.realNode? left.1 = a, first.realNode? right.1 = b, second.realNode? left.1 = c,
    second.realNode? right.1 = d at hl hr ⊢
  cases a <;> cases b <;> cases c <;> cases d <;>
    first | rfl | exact joinColumns_exchanged hs _ _ | simp at hl hr

variable {g g' g'' h : QueryGraph} {key last next target : Nat} {natural : Bool} {a c d : ColumnRef} {w : Connection}
  {p q r : Slot} {φ π ρ : Nat → Nat}

-- The nodes that are not virtual stay, and so does what is forced between their columns.
structure Retains (s : Schema) (g g' : QueryGraph) : Prop where
  keeps  : Keeps g g'
  forces : ∀ p q, g.Real p → g.Real q → g.Forces s p q → g'.Forces s p q

-- What is forced to equal the one slot before is forced to equal the other one after.
structure Leads (s : Schema) (g : QueryGraph) (p : Slot) (g' : QueryGraph) (q : Slot) : Prop
    extends Retains s g g' where
  leads : ∀ a, g.Real a → g.Forces s a p → g'.Forces s a q

theorem Retains.trans (h : Retains s g g') (h' : Retains s g' g'') : Retains s g g'' where
  keeps := h.keeps.trans h'.keeps
  forces p q hp hq hpq := h'.forces p q (h.keeps.real ▸ hp) (h.keeps.real ▸ hq) (h.forces p q hp hq hpq)

theorem Leads.trans (h : Leads s g p g' q) (h' : Leads s g' q g'' r) : Leads s g p g'' r where
  toRetains := h.toRetains.trans h'.toRetains
  leads a ha hap := h'.leads a (h.keeps.real ▸ ha) (h.leads a ha hap)

theorem Fuses.forces (hf : Fuses g g' φ) (hpq : g.Forces s p q) : g'.Forces s (p.map φ) (q.map φ) := by
  refine Closure.map (Slot.map φ) ?_ hpq
  rintro p q ⟨x, hx, hp, hq, hmem⟩
  exact .rel _ _ ⟨x.map φ, (hf.hasEdge _).mpr ⟨x, hx, rfl⟩, congrArg φ hp, congrArg φ hq, hmem⟩

theorem Fuses.map_real (hf : Fuses g g' φ) (hp : g.Real p) : p.map φ = p := by
  rw [Slot.map, hf.fixed _ hp]

theorem mem_pairs_of_bonds (h : s.bonds key c d) : (c, d) ∈ (s.key key).pairs := by
  obtain ⟨entry, hentry, hmem⟩ := h
  rwa [Schema.key, List.getD_eq_getElem?_getD, hentry]

namespace Lengthened

theorem forces (hl : Lengthened s g key natural last next h) (hpq : g.Forces s p q) : h.Forces s p q := by
  refine of_le ?_ hpq
  rintro p q ⟨x, hx, hends⟩
  exact .rel _ _ ⟨x, (hl.hasEdge x).mpr (.inr hx), hends⟩

theorem forces_ends (hl : Lengthened s g key natural last next h) (hk : s.bonds.Crosses key natural c d) :
    h.Forces s ⟨last, c⟩ ⟨next, d⟩ := by
  have hedge := (hl.hasEdge _).mpr (.inl rfl)
  cases natural
  case false => exact .symm _ _ (.rel _ _ ⟨_, hedge, rfl, rfl, mem_pairs_of_bonds hk⟩)
  case true => exact .rel _ _ ⟨_, hedge, rfl, rfl, mem_pairs_of_bonds hk⟩

end Lengthened

theorem leads_of_fuses (hl : Lengthened s g key natural last next h) (hf : Fuses h g' φ)
    (hk : s.bonds.Crosses key natural c d) : Leads s g ⟨last, c⟩ g' ⟨φ next, d⟩ := by
  have hreal : ∀ {p}, g.Real p → h.Real p := fun hp => hl.sameNodes.keeps.real ▸ hp
  refine ⟨⟨hl.sameNodes.keeps.trans hf.keeps, ?forces⟩, ?leads⟩
  case forces =>
    intro p q hp hq hpq
    have hmap := hf.forces (hl.forces hpq)
    rwa [hf.map_real (hreal hp), hf.map_real (hreal hq)] at hmap
  case leads =>
    intro a ha hac
    have hmap := hf.forces (.trans _ _ _ (hl.forces hac) (hl.forces_ends hk))
    rwa [hf.map_real (hreal ha)] at hmap

-- A new virtual node takes the equality over from the last one.
theorem leads_addFresh (hs : s.Loaded) (ha : Arrived s g last c) (hk : Crossing s key natural c d) :
    Leads s g ⟨last, c⟩ ((g.addFresh (.virtual s d.table)).2.addStep key natural last g.slots.length).1
      ⟨((g.addFresh (.virtual s d.table)).2.addStep key natural last g.slots.length).2, d⟩ := by
  obtain ⟨h, φ, hl, hf, -, harrive⟩ := addFresh_fuses hs ha hk
  have hfresh : Leads s g ⟨last, c⟩ (g.addFresh (.virtual s d.table)).2 ⟨last, c⟩ :=
    ⟨⟨keeps_addFresh ha.grounded.wellFormed.indexed rfl, fun _ _ _ _ => id⟩, fun _ _ => id⟩
  rw [harrive]
  exact hfresh.trans (leads_of_fuses hl hf hk.crosses)

theorem leads_addStep (hs : s.Loaded) (ha : Arrived s g last c) (hk : Crossing s key natural c d)
    (ht : target ∈ g.realNodes) (hd : g.table? target = some d.table) :
    Leads s g ⟨last, c⟩ (g.addStep key natural last target).1 ⟨target, d⟩ := by
  have hreal := (ha.grounded.wellFormed.mem_realNodes.mp ht).2
  have htakes : g.Takes s target d := fun hv => by simp [hreal] at hv
  obtain ⟨h, φ, hl, hf, -, -⟩ := addStep_fuses hs ha hk hd htakes fun heq => heq ▸ hreal
  have hleads := leads_of_fuses hl hf hk.crosses
  rwa [hf.fixed target (hl.sameNodes.realNodes ▸ ht)] at hleads

theorem leads_addConnection (hs : s.Loaded) (hw : Walk (Crossing s) a w d) {pending : Option (Nat × Bool)}
    (ha : Arrived s g last a) (ht : target ∈ g.realNodes) (hd : g.table? target = some d.table) :
    Leads s g ⟨last, a⟩ (addConnection s target g last pending w) ⟨target, d⟩ := by
  induction hw generalizing g last pending
  case single hk =>
    have hstep := leads_addStep hs ha hk ht hd
    cases pending <;> simpa [addConnection] using hstep
  case cons key natural a b d w hk hw ih =>
    have hpassed := passed_addStep hs ha hk
    rw [addConnection_cons]
    have ht' := hpassed.keeps.realNodes ▸ ht
    exact (leads_addFresh hs ha hk).trans (ih hpassed.arrived ht' ((hpassed.keeps.table? ht).trans hd))

theorem Crossing.flip (h : Crossing s key natural c d) : Crossing s key (!natural) d c where
  crosses := h.crosses.flip
  straight := h.straight.imp_right fun hstep => by cases natural <;> exact hstep

theorem Spanned.reversed (h : Spanned s first second j c d) : Spanned s second first j.reversed d c where
  first_mem := h.second_mem
  second_mem := h.first_mem
  source := h.target
  target := h.source
  walk := h.walk.reversed Crossing.flip

-- Each join makes its columns equal, and the later ones leave it at that.
theorem forces_foldl (hs : s.Loaded) (hg : g.Grounded s) (hj : ∀ j ∈ joins, ∃ c d, Spanned s g g (placedJoin π ρ j) c d) :
    Retains s g (joins.foldl (fun g j => addConnection s (ρ j.second) g (π j.first) none j.connection) g) ∧
    ∀ j ∈ joins, ∀ c d, Spanned s g g (placedJoin π ρ j) c d →
      (joins.foldl (fun g j => addConnection s (ρ j.second) g (π j.first) none j.connection) g).Forces s
        ⟨π j.first, c⟩ ⟨ρ j.second, d⟩ := by
  induction joins generalizing g
  case nil => exact ⟨⟨.refl, fun _ _ _ _ => id⟩, nofun⟩
  case cons j joins ih =>
    have leads : ∀ {c d}, Spanned s g g (placedJoin π ρ j) c d →
        Leads s g ⟨π j.first, c⟩ (addConnection s (ρ j.second) g (π j.first) none j.connection) ⟨ρ j.second, d⟩ :=
      fun hspanned => leads_addConnection hs hspanned.walk (hspanned.arrived hg) hspanned.second_mem hspanned.target
    obtain ⟨c, d, hspanned⟩ := hj j List.mem_cons_self
    have hbridged : Bridged s g (addConnection s (ρ j.second) g (π j.first) none j.connection) _ :=
      bridged_addConnection hs hspanned.walk (hspanned.arrived hg) hspanned.second_mem hspanned.target
    obtain ⟨hretains, hforces⟩ := ih hbridged.grounded fun j h => by
      obtain ⟨c, d, hspanned⟩ := hj j (List.mem_cons_of_mem _ h)
      exact ⟨c, d, hspanned.keeps hbridged.keeps⟩
    rw [List.foldl_cons]
    refine ⟨(leads hspanned).toRetains.trans hretains, fun j' hmem c' d' hspanned' => ?_⟩
    rcases List.mem_cons.mp hmem with rfl | hmem
    · have hfirst : g.Real ⟨π j'.first, c'⟩ := hspanned'.first_mem
      have hsecond : g.Real ⟨ρ j'.second, d'⟩ := hspanned'.second_mem
      rw [← hbridged.keeps.real] at hfirst hsecond
      exact hretains.forces _ _ hfirst hsecond ((leads hspanned').leads _ hspanned'.first_mem (.refl _))
    · exact hforces j' hmem c' d' (hspanned'.keeps hbridged.keeps)

theorem forces_merge (hs : s.Loaded) (hf : first.Grounded s) (hg : second.Grounded s)
    (hj : ∀ j ∈ joins, ∃ c d, Spanned s first second j c d) :
    ∃ π ρ, Unites first second π ρ (merge s first second joins) ∧ ∀ j ∈ joins, ∀ c d,
      Spanned s first second j c d → (merge s first second joins).Forces s ⟨π j.first, c⟩ ⟨ρ j.second, d⟩ := by
  obtain ⟨π, ρ, g₁, g₂, h₁, h₂, hmerge⟩ := merge_copies hf.wellFormed hg.wellFormed
  have hgrounded := h₂.grounded (h₁.grounded .empty hf) hg
  have hunites : Unites first second π ρ g₂ := .of_copied hf.wellFormed hg.wellFormed h₁ h₂
  have hplaced : ∀ j ∈ joins, ∃ c d, Spanned s g₂ g₂ (placedJoin π ρ j) c d := by
    intro j hmem
    obtain ⟨c, d, hspanned⟩ := hj j hmem
    exact ⟨c, d, hunites.spanned hspanned⟩
  have hbridged := bridged_foldl hs hgrounded hplaced
  obtain ⟨hretains, hforces⟩ := forces_foldl hs hgrounded hplaced
  rw [← hmerge s joins] at hbridged hretains hforces
  exact ⟨π, ρ, hunites.keeps hretains.keeps hbridged.grounded.wellFormed, fun j hmem c d hspanned =>
    hforces j hmem c d (hunites.spanned hspanned)⟩

-- The join that a condition makes, and the one that it makes when the graphs are exchanged, have mergers in which the
-- columns of the condition are equal.
theorem resolve_orientation {d : SchemaDescription} (hd : Schema.ofDescription d = .ok s) (hu : Unshared first second) :
    (∀ left right, resolve s first second right left = resolve s first second left right ∧
      resolve s second first left right = (resolve s first second left right).reversed) ∧
    (s.Straight → first.Grounded s → second.Grounded s → ∀ joins, (∀ j ∈ joins, Resolved s first second j) →
      ∃ π ρ π' ρ', Unites first second π ρ (merge s first second joins) ∧
        Unites second first ρ' π' (merge s second first (joins.map .reversed)) ∧
        ∀ left right, ∀ j ∈ joins, resolve s first second left right = .join j →
          ∃ p q, Equates s first second left right p q ∧
            (merge s first second joins).Forces s (p.map π) (q.map ρ) ∧
            (merge s second first (joins.map .reversed)).Forces s (p.map π') (q.map ρ')) := by
  have hs := Schema.loaded_of_ofDescription hd
  refine ⟨fun left right => ⟨resolve_exchanged_sides hu left right, resolve_exchanged hs hu left right⟩, ?_⟩
  intro hk hf hg joins hj
  have hspanned : ∀ j ∈ joins, ∃ c d, Spanned s first second j c d := by
    intro j hmem
    obtain ⟨left, right, h⟩ := hj j hmem
    obtain ⟨c, d, -, hspanned, -⟩ := Recovery.spanned_of_resolve hs hk hf.wellFormed hg.wellFormed h
    exact ⟨c, d, hspanned⟩
  have hreversed : ∀ j ∈ joins.map .reversed, ∃ c d, Spanned s second first j c d := by
    intro j hmem
    obtain ⟨i, hi, rfl⟩ := List.mem_map.mp hmem
    obtain ⟨c, d, hcd⟩ := hspanned i hi
    exact ⟨d, c, hcd.reversed⟩
  obtain ⟨π, ρ, hunites, hforces⟩ := forces_merge hs hf hg hspanned
  obtain ⟨ρ', π', hunites', hforces'⟩ := forces_merge hs hg hf hreversed
  refine ⟨π, ρ, π', ρ', hunites, hunites', fun left right j hmem h => ?_⟩
  obtain ⟨c, d, hequates, hcd, -⟩ := Recovery.spanned_of_resolve hs hk hf.wellFormed hg.wellFormed h
  have hexchanged := hforces' j.reversed (List.mem_map_of_mem hmem) d c hcd.reversed
  exact ⟨_, _, hequates, hforces j hmem c d hcd, .symm _ _ hexchanged⟩

theorem grounded_alone {table : Nat} {a : String} : (alone table a).Grounded s where
  wellFormed := wellFormed_alone
  typed x hx := by simpa [alone, add, empty] using hasEdge_iff_mem.mp hx
  straight := .inr (Tidy.empty.add rfl)

theorem unshared_of_aliasIndex (h : ∀ x ∈ first.aliasIndex, ∀ y ∈ second.aliasIndex, x.1 ≠ y.1) :
    Unshared first second := by
  have indexed : ∀ {g : QueryGraph} {a}, g.realNode? a ≠ none → ∃ x ∈ g.aliasIndex, x.1 = a := by
    intro g a ha
    obtain ⟨n, hn⟩ := Option.ne_none_iff_exists'.mp ha
    have hlookup : (g.aliasIndex.lookup a).isSome = true := by
      rw [← byAlias?, (Option.filter_eq_some_iff.mp hn).1, Option.isSome_some]
    obtain ⟨x, hx, heq⟩ := List.lookup_isSome_iff.mp hlookup
    exact ⟨x, hx, (beq_iff_eq.mp heq).symm⟩
  intro a
  by_contra hnot
  obtain ⟨hf, hs⟩ := not_or.mp hnot
  obtain ⟨x, hx, rfl⟩ := indexed hf
  obtain ⟨y, hy, heq⟩ := indexed hs
  exact h x hx y hy heq.symm

theorem resolve_orientation_triangle : ∃ s, Schema.ofDescription Schema.triangle = .ok s ∧
    Unshared (alone 1 "b") (alone 2 "c") ∧ s.Straight ∧
    resolve s (alone 1 "b") (alone 2 "c") ("c", "a_id") ("b", "a_id") = .join ⟨0, [.join 2 false], 0⟩ ∧
    resolve s (alone 2 "c") (alone 1 "b") ("b", "a_id") ("c", "a_id") = .join ⟨0, [.join 2 true], 0⟩ ∧
    ∃ π ρ π' ρ', Unites (alone 1 "b") (alone 2 "c") π ρ
        (merge s (alone 1 "b") (alone 2 "c") [⟨0, [.join 2 false], 0⟩]) ∧
      Unites (alone 2 "c") (alone 1 "b") ρ' π' (merge s (alone 2 "c") (alone 1 "b") [⟨0, [.join 2 true], 0⟩]) ∧
      ∃ p q, Equates s (alone 1 "b") (alone 2 "c") ("b", "a_id") ("c", "a_id") p q ∧
        (merge s (alone 1 "b") (alone 2 "c") [⟨0, [.join 2 false], 0⟩]).Forces s (p.map π) (q.map ρ) ∧
        (merge s (alone 2 "c") (alone 1 "b") [⟨0, [.join 2 true], 0⟩]).Forces s (p.map π') (q.map ρ') := by
  obtain ⟨s, hd, hk, h⟩ : ∃ s, Schema.ofDescription Schema.triangle = .ok s ∧
      (∀ key ∈ s.keys, key.pairs.length = 1) ∧
      resolve s (alone 1 "b") (alone 2 "c") ("b", "a_id") ("c", "a_id") = .join ⟨0, [.join 2 false], 0⟩ :=
    ⟨_, rfl, by decide +kernel, by decide +kernel⟩
  have hu : Unshared (alone 1 "b") (alone 2 "c") := unshared_of_aliasIndex (by decide)
  obtain ⟨hexchanged, hmerge⟩ := resolve_orientation hd hu
  obtain ⟨hsides, hgraphs⟩ := hexchanged ("b", "a_id") ("c", "a_id")
  have hsides' := (hexchanged ("c", "a_id") ("b", "a_id")).2
  obtain ⟨π, ρ, π', ρ', hunites, hunites', hequal⟩ := hmerge (.inr hk) grounded_alone grounded_alone
    [⟨0, [.join 2 false], 0⟩] (by simpa using ⟨_, _, h⟩)
  exact ⟨s, hd, hu, .inr hk, hsides.trans h, hsides'.trans (congrArg JoinResolution.reversed (hsides.trans h)), π, ρ, π',
    ρ', hunites, hunites', hequal _ _ _ (List.mem_singleton_self _) h⟩

-- A revision names its parent and its grandparent, which is the parent's parent. Notes name the grandparent of one.
def revisions : SchemaDescription where
  name := "revisions"
  tables := [
    { name := "revision", cardinality := 1, columns := [{ name := "id", dataType := "integer" },
      { name := "parent", dataType := "integer" }, { name := "grandparent", dataType := "integer" }] },
    { name := "note", cardinality := 1, columns := [{ name := "origin", dataType := "integer" }] }]
  keys := [
    { name := "revision_parent", source := "revision", sourceColumns := ["parent", "grandparent"],
      target := "revision", targetColumns := ["id", "parent"] },
    { name := "note_origin", source := "note", sourceColumns := ["origin"], target := "revision",
      targetColumns := ["grandparent"] }]

def revisionsSchema : Schema :=
  (Schema.ofDescription revisions).toOption.get (by decide +kernel)

-- The origin of a note is the parent of a revision.
def ofParent : EquivalenceJoin :=
  ⟨0, [.join 0 false, .table 0, .join 1 false], 0⟩

-- The origin of a note is a revision.
def ofRevision : EquivalenceJoin :=
  ⟨0, [.join 0 false, .table 0, .join 0 false, .table 0, .join 1 false], 0⟩

-- A revision that is its own parent, with a note: the revision that the note is about has become its own parent, too.
def annotated : QueryGraph :=
  merge revisionsSchema (alone 0 "r") (alone 1 "x") [ofParent, ofRevision]

theorem built_annotated : Built revisionsSchema annotated := by
  have hparent : resolve revisionsSchema (alone 0 "r") (alone 1 "x") ("r", "parent") ("x", "origin") =
      .join ofParent := by
    decide +kernel
  have hrevision : resolve revisionsSchema (alone 0 "r") (alone 1 "x") ("r", "id") ("x", "origin") =
      .join ofRevision := by
    decide +kernel
  exact .merge built_alone built_alone (by simpa using And.intro ⟨_, _, hparent⟩ ⟨_, _, hrevision⟩)

-- The virtual revision on the way to the second note is found to be the first revision, but the walk goes on from the
-- node that it had. From the other side the last step is the one that finds it out.
theorem not_forces_revisions : Schema.ofDescription revisions = .ok revisionsSchema ∧
    Built revisionsSchema annotated ∧ Built revisionsSchema (alone 1 "y") ∧ Unshared annotated (alone 1 "y") ∧
    resolve revisionsSchema annotated (alone 1 "y") ("r", "parent") ("y", "origin") = .join ofParent ∧
    (merge revisionsSchema annotated (alone 1 "y") [ofParent]).realNode? "r" = some 0 ∧
    (merge revisionsSchema annotated (alone 1 "y") [ofParent]).realNode? "y" = some 3 ∧
    ¬(merge revisionsSchema annotated (alone 1 "y") [ofParent]).Forces revisionsSchema ⟨0, ⟨0, 1⟩⟩ ⟨3, ⟨1, 0⟩⟩ ∧
    (merge revisionsSchema (alone 1 "y") annotated [ofParent.reversed]).realNode? "r" = some 1 ∧
    (merge revisionsSchema (alone 1 "y") annotated [ofParent.reversed]).realNode? "y" = some 0 ∧
    (merge revisionsSchema (alone 1 "y") annotated [ofParent.reversed]).Forces revisionsSchema ⟨1, ⟨0, 1⟩⟩
      ⟨0, ⟨1, 0⟩⟩ := by
  have hu : Unshared annotated (alone 1 "y") := unshared_of_aliasIndex (by decide +kernel)
  refine ⟨rfl, built_annotated, built_alone, hu, by decide +kernel, by decide +kernel, by decide +kernel, ?lost,
    by decide +kernel, by decide +kernel, ?found⟩
  case lost =>
    intro hforced
    have hsides : ∀ e ∈ (merge revisionsSchema annotated (alone 1 "y") [ofParent]).relations revisionsSchema,
        (e.1.node < 3) = (e.2.node < 3) := by
      decide +kernel
    have hside := side_eq_of_forces (fun p => p.node < 3) (by simpa using hsides) hforced
    exact absurd hside (by decide)
  case found =>
    have relates : ∀ {p q}, (p, q) ∈ (merge revisionsSchema (alone 1 "y") annotated [ofParent.reversed]).relations
        revisionsSchema → (merge revisionsSchema (alone 1 "y") annotated [ofParent.reversed]).Forces revisionsSchema
          p q :=
      forces_of_mem_relations
    have hgrandparent := relates (p := ⟨1, ⟨0, 2⟩⟩) (q := ⟨1, ⟨0, 1⟩⟩) (by decide +kernel)
    have hnote := relates (p := ⟨0, ⟨1, 0⟩⟩) (q := ⟨1, ⟨0, 2⟩⟩) (by decide +kernel)
    exact .symm _ _ (.trans _ _ _ hnote hgrandparent)

end QueryGraph

end Subplans
