import Mathlib.Data.List.Induction
import Subplans.Proofs.Sql.Conjuncts
import Subplans.Proofs.Sql.Joins
import Subplans.Schema.Description

/-!
The joins of a SELECT in its graph.

If all conditions are equalities of columns of different tables (`Select.Joins`), the database is not asked and the
graph comes from the tables and the classes of equal columns (`graph_eq`). Its edges never force more than the
conditions say (`Sound`). They may force less: the columns of a class that are joined to a virtual node need not refer
to the same column of its table (`not_forces_apart`). Where they do, the edges force all of it (`graph_joins`).
-/

namespace Subplans.Sql

open Closure Relation QueryGraph

variable {m : Type → Type} [Monad m] {s : Schema} {tables : List FromTable} {g g' : QueryGraph} {p q : Slot} {e : Expr}

theorem owner_lt {aliasName : Option String} {column : String} {i : Nat} (h : owner s tables aliasName column = .ok i) :
    i < tables.length := by
  unfold owner at h
  split at h
  case h_1 =>
    split at h
    case h_1 j hj =>
      cases h
      exact (List.findIdx?_eq_some_iff_getElem.mp hj).1
    case h_2 => cases h
  case h_2 =>
    split at h
    case h_1 j hj =>
      cases h
      have hmem : i ∈ [i] := List.mem_singleton_self i
      rw [← hj, List.mem_filter, List.mem_range] at hmem
      exact hmem.1
    case h_2 | h_3 => cases h

theorem slotOf_lt {names : List Ident} (h : slotOf s tables names = .ok p) : p.node < tables.length := by
  -- However the table is named, the column belongs to the one that is found.
  unfold slotOf at h
  split at h
  case h_1 | h_2 =>
    obtain ⟨_, -, h⟩ := Outcome.bind_eq_ok.mp h
    obtain ⟨i, hi, h⟩ := Outcome.bind_eq_ok.mp h
    dsimp only at h
    split at h
    case h_1 =>
      cases h
      exact owner_lt hi
    case h_2 => cases h
  case h_3 => cases h

theorem columnEquality_lt (h : columnEquality s tables e = .ok (some (p, q))) :
    p.node < tables.length ∧ q.node < tables.length := by
  have ⟨_, _, _, hp, hq⟩ := columnEquality_some h
  exact ⟨slotOf_lt hp, slotOf_lt hq⟩

-- The condition says that the columns, of different tables, are equal.
def Says (s : Schema) (tables : List FromTable) (e : Expr) (equality : Slot × Slot) : Prop :=
  columnEquality s tables e = .ok (some equality) ∧ equality.1.node ≠ equality.2.node

theorem sortCondition_eq {sorted : Sorted} {equality : Slot × Slot} (h : Says s tables e equality) :
    sortCondition s tables sorted e =
      .ok { sorted with classes := equate sorted.classes equality.1 equality.2 } := by
  rw [sortCondition_verdict, verdict_equal h.1 h.2]
  rfl

theorem sortConditions_eq [LawfulMonad m] {conditions : List Expr} {equalities : List (Slot × Slot)}
    {sorted : Sorted} (h : List.Forall₂ (Says s tables) conditions equalities) :
    conditions.foldlM (fun sorted e => (liftM (sortCondition s tables sorted e) : ExceptT GraphError m Sorted))
      sorted = pure { sorted with classes := equateAll sorted.classes equalities } := by
  induction h generalizing sorted
  case nil => rfl
  case cons hsays _ ih =>
    rw [List.foldlM_cons, sortCondition_eq hsays]
    exact (pure_bind _ _).trans ih

-- Between columns of tables in the list.
theorem says_lt {conditions : List Expr} {equalities : List (Slot × Slot)}
    (h : List.Forall₂ (Says s tables) conditions equalities) :
    ∀ e ∈ equalities, e.1.node < tables.length ∧ e.2.node < tables.length := by
  intro e he
  have ⟨_, _, hsays⟩ := Outcome.exists_of_forall₂ h e he
  exact columnEquality_lt hsays.1

-- The occurrence of a table without conditions.
def plain (s : Schema) (t : FromTable) : Occurrence where
  table := t.table
  cardinality := (s.table t.table).cardinality
  clauses := []
  isVirtual := false

-- Without conditions nobody is asked for their rows.
theorem addTable_eq [LawfulMonad m] {b : Backend m} {t : FromTable} :
    addTable s b [] t g = pure (g.add (plain s t) t.aliasName).2 := by
  have hclauses : ∀ scope : Scope, scope.clauses [] = [] := fun scope => rfl
  have hasks : ExceptT.adapt GraphError.backend (b.occurrence s t.table [] t.aliasName) = pure (plain s t) := by
    change Except.mapError GraphError.backend <$> (pure (.ok (plain s t)) : m (Except BackendError Occurrence)) = _
    rw [map_pure]
    rfl
  simp [addTable, hclauses, hasks]

-- The graph of some tables without joins.
def unjoined (s : Schema) (tables : List FromTable) : QueryGraph :=
  tables.foldl (fun g t => (g.add (plain s t) t.aliasName).2) empty

-- The nodes of the tables stand first.
structure Placed (s : Schema) (tables : List FromTable) (g : QueryGraph) : Prop where
  length : tables.length ≤ g.slots.length
  node   : ∀ i t, tables[i]? = some t → g.node? i = some (plain s t) ∧ g.aliasName i = t.aliasName

theorem unjoined_append {t : FromTable} :
    unjoined s (tables ++ [t]) = ((unjoined s tables).add (plain s t) t.aliasName).2 := by
  simp [unjoined]

theorem length_unjoined : (unjoined s tables).slots.length = tables.length := by
  induction tables using List.reverseRecOn
  case nil => rfl
  case append_singleton tables t ih => rw [unjoined_append, length_add, ih, List.length_append, List.length_singleton]

theorem placed_unjoined : Placed s tables (unjoined s tables) where
  length := Nat.le_of_eq length_unjoined.symm
  node := by
    induction tables using List.reverseRecOn
    case nil => exact nofun
    case append_singleton tables t ih =>
      intro i u hi
      rw [unjoined_append, node?_add, aliasName_add, length_unjoined]
      split
      case isTrue heq =>
        have htu : t = u := by simpa [heq] using hi
        exact ⟨by rw [htu], by rw [htu]⟩
      case isFalse hne =>
        have hlt : i < (tables ++ [t]).length := (List.getElem?_eq_some_iff.mp hi).1
        rw [List.length_append, List.length_singleton] at hlt
        rw [List.getElem?_append_left (by omega)] at hi
        exact ih i u hi

theorem not_relates_unjoined : ¬(unjoined s tables).Relates s p q := by
  induction tables using List.reverseRecOn
  case nil =>
    rintro ⟨_, ⟨_, hx⟩, _⟩
    simp [unjoined, empty, edge?] at hx
  case append_singleton tables t ih =>
    rw [unjoined_append, Relates.congr fun _ => hasEdge_add]
    exact ih

-- The SELECT is from the tables, and its conditions say that the columns are equal.
def Select.Joins (s : Schema) (select : Select) (tables : List FromTable) (equalities : List (Slot × Slot)) : Prop :=
  ∃ conditions, fromList s select.items = .ok (tables, conditions) ∧
    List.Forall₂ (Says s tables) (conditions ++ (select.condition.map Expr.conjuncts).getD []) equalities

theorem graph_eq [LawfulMonad m] {b : Backend m} {select : Select} {equalities : List (Slot × Slot)}
    (h : select.Joins s tables equalities) : select.graph s b =
      ExceptT.mk (pure ((equateAll [] equalities).foldlM (joinClass s tables) (unjoined s tables))) := by
  have ⟨conditions, hfrom, h⟩ := h
  have hadd : ∀ (g : QueryGraph) (t : FromTable × Nat),
      addTable s b ((([] : List (Nat × String)).filter (·.1 == t.2)).map Prod.snd) t.1 g =
        pure (g.add (plain s t.1) t.1.aliasName).2 := fun _ _ => addTable_eq
  have hnodes : tables.zipIdx.foldl (fun g t => (QueryGraph.add g (plain s t.1) t.1.aliasName).2) empty =
      unjoined s tables := by
    rw [unjoined,
      ← List.foldl_map (f := Prod.fst) (g := fun (g : QueryGraph) t => (g.add (plain s t) t.aliasName).2),
      List.zipIdx_map_fst]
  unfold Select.graph
  rw [hfrom]
  refine (pure_bind _ _).trans ?_
  dsimp only
  rw [sortConditions_eq h, pure_bind]
  simp only [hadd, List.foldlM_pure, pure_bind, hnodes]
  rfl

-- What every class leaves as it is.
theorem placed_joinClass {c : List Slot} (hkeys : ∀ key ∈ s.keys, key.pairs.length = 1) (hg : Placed s tables g)
    (h : joinClass s tables g c = .ok g') : Placed s tables g' where
  length := Nat.le_trans hg.length (joined_joinClass hkeys h).length
  node i t hi := by
    have hlt : i < g.slots.length := Nat.lt_of_lt_of_le (List.getElem?_eq_some_iff.mp hi).1 hg.length
    rw [(joined_joinClass hkeys h).node? i hlt, (joined_joinClass hkeys h).aliasName i hlt]
    exact hg.node i t hi

-- A slot of each node stands for those of the nodes that are added, and then the edges relate only what is equal.
structure Sound (s : Schema) (tables : List FromTable) (R : Slot → Slot → Prop) (g : QueryGraph) : Prop where
  placed : Placed s tables g
  ends   : ∀ p q, g.Relates s p q → p.node < g.slots.length ∧ q.node < g.slots.length
  place  : ∃ place : Slot → Slot, (∀ p, p.node < tables.length → place p = p) ∧
    ∀ p q, g.Relates s p q → EqvGen R (place p) (place q)

namespace Sound

variable {R : Slot → Slot → Prop} {c : List Slot}

protected theorem unjoined : Sound s tables R (unjoined s tables) where
  placed := placed_unjoined
  ends _ _ h := absurd h not_relates_unjoined
  place := ⟨id, fun _ _ => rfl, fun _ _ h => absurd h not_relates_unjoined⟩

theorem joinClass (hg : Sound s tables R g) (hkeys : ∀ key ∈ s.keys, key.pairs.length = 1)
    (hc : ∀ a ∈ c, a.node < tables.length) (hR : ∀ a ∈ c, ∀ b ∈ c, EqvGen R a b)
    (h : joinClass s tables g c = .ok g') : Sound s tables R g' := by
  have hj := joined_joinClass hkeys h
  have hlength := hg.placed.length
  constructor
  case placed => exact placed_joinClass hkeys hg.placed h
  case ends =>
    intro p q hpq
    rcases hj.origin p q hpq with hpq | ⟨hp, hq⟩
    case inl =>
      have ⟨hp, hq⟩ := hg.ends p q hpq
      exact ⟨Nat.lt_of_lt_of_le hp hj.length, Nat.lt_of_lt_of_le hq hj.length⟩
    case inr =>
      have hp := hc p hp
      have hlength' := hj.length
      refine ⟨by omega, ?_⟩
      rcases hq with hq | ⟨_, hq⟩
      case inl =>
        have hq := hc q hq
        omega
      case inr => exact hq
  case place =>
    -- Any of the columns stands for those of the node that is added.
    have ⟨place, hown, hplace⟩ := hg.place
    have hold : ∀ p : Slot, p.node < g.slots.length →
        (if p.node = g.slots.length then c.headD p else place p) = place p :=
      fun p hp => if_neg (Nat.ne_of_lt hp)
    refine ⟨fun p => if p.node = g.slots.length then c.headD p else place p, ?_, ?_⟩
    case refine_1 =>
      intro p hp
      exact (hold p (Nat.lt_of_lt_of_le hp hlength)).trans (hown p hp)
    case refine_2 =>
      intro p q hpq
      have hin : ∀ a ∈ c, (if a.node = g.slots.length then c.headD a else place a) = a := by
        intro a ha
        rw [hold a (Nat.lt_of_lt_of_le (hc a ha) hlength)]
        exact hown a (hc a ha)
      dsimp only
      rcases hj.origin p q hpq with hpq | ⟨hp, hq | ⟨hq, _⟩⟩
      case inl =>
        rw [hold p (hg.ends p q hpq).1, hold q (hg.ends p q hpq).2]
        exact hplace p q hpq
      case inr.inl =>
        rw [hin p hp, hin q hq]
        exact hR p hp q hq
      case inr.inr =>
        rw [hin p hp, if_pos hq]
        refine hR p hp _ ?_
        cases c
        case nil => cases hp
        case cons => exact List.mem_cons_self

-- Between columns of the tables the edges force nothing else.
theorem of_forces (hg : Sound s tables R g) (hp : p.node < tables.length) (hq : q.node < tables.length)
    (h : g.Forces s p q) : EqvGen R p q := by
  have ⟨place, hown, hplace⟩ := hg.place
  have hpq := map place hplace h
  rwa [hown p hp, hown q hq] at hpq

end Sound

-- Columns of one class are equal in the end, as no class takes edges away.
theorem forces_foldlM {classes : List (List Slot)} {c : List Slot} (hkeys : ∀ key ∈ s.keys, key.pairs.length = 1)
    (hagree : ∀ c ∈ classes, Agreeing s fun a b => a ∈ c ∧ b ∈ c)
    (h : classes.foldlM (joinClass s tables) g = .ok g') (hc : c ∈ classes) (hp : p ∈ c) (hq : q ∈ c) :
    g'.Forces s p q := by
  induction classes generalizing g
  case nil => cases hc
  case cons d classes ih =>
    have ⟨next, hnext, hrest⟩ := Outcome.bind_eq_ok.mp h
    rcases List.mem_cons.mp hc with rfl | hc
    case inl =>
      have hforced := forces_joinClass hkeys hnext (hagree c List.mem_cons_self) hp hq
      have hkeeps : ∀ p q, next.Relates s p q → g'.Relates s p q :=
        Outcome.foldlM_ok (P := fun g => ∀ p q, next.Relates s p q → g.Relates s p q)
          (fun _ _ _ _ hg hstep p q hpq => (joined_joinClass hkeys hstep).keeps p q (hg p q hpq)) (fun _ _ => id) hrest
      exact of_le (fun p q hpq => .rel _ _ (hkeeps p q hpq)) hforced
    case inr => exact ih (fun c hc => hagree c (List.mem_cons_of_mem d hc)) hrest hc

-- What the equalities say.
def Equal (equalities : List (Slot × Slot)) : Slot → Slot → Prop :=
  EqvGen fun p q => (p, q) ∈ equalities

-- A SELECT of tables with equalities of columns of different tables has a graph, or one of its joins is not
-- supported. The nodes of the graph are the tables and what completes their joins. What it forces to be equal is equal
-- by the conditions; and it forces all of that, unless columns that are equal refer to different columns of one table.
theorem graph_joins [LawfulMonad m] {b : Backend m} {select : Select} {equalities : List (Slot × Slot)}
    (hkeys : ∀ key ∈ s.keys, key.pairs.length = 1) (hselect : select.Joins s tables equalities) :
    ∃ outcome, select.graph s b = ExceptT.mk (pure outcome) ∧
      (∀ e, outcome = .error e → ∃ fault, e = .unsupportedJoin fault) ∧
      ∀ g, outcome = .ok g →
        Placed s tables g ∧
        (∀ p q, p.node < tables.length → q.node < tables.length → g.Forces s p q → Equal equalities p q) ∧
        (Agreeing s (Equal equalities) → ∀ p q, Equal equalities p q → g.Forces s p q) := by
  refine ⟨_, graph_eq hselect, ?_, ?_⟩
  case refine_1 =>
    intro e he
    have ⟨_, _, _, hfails⟩ := Outcome.foldlM_error he
    exact joinClass_error hfails
  case refine_2 =>
    intro g hg
    have ⟨_, _, hsays⟩ := hselect
    have hlt : ∀ c ∈ equateAll [] equalities, ∀ p ∈ c, p.node < tables.length :=
      mem_equateAll nofun (says_lt hsays)
    have hequal : ∀ c ∈ equateAll [] equalities, ∀ a ∈ c, ∀ b ∈ c, Equal equalities a b :=
      fun c hc a ha b hb => closure_classes.mp (.rel _ _ ⟨c, hc, ha, hb⟩)
    have hsound := Outcome.foldlM_ok (P := Sound s tables fun p q => (p, q) ∈ equalities)
      (fun c hc _ _ hg hstep => hg.joinClass hkeys (hlt c hc) (hequal c hc) hstep) .unjoined hg
    refine ⟨hsound.placed, fun p q => hsound.of_forces, ?_⟩
    intro hagree p q hpq
    have hclasses : ∀ c ∈ equateAll [] equalities, Agreeing s fun a b => a ∈ c ∧ b ∈ c :=
      fun c hc a b j k d e hab => hagree a b j k d e (hequal c hc a hab.1 b hab.2)
    refine of_le ?_ (closure_classes.mpr hpq)
    rintro a b ⟨c, hc, ha, hb⟩
    exact forces_foldlM hkeys hclasses hg hc ha hb

-- Codes with two columns that tables refer to.
def codes : SchemaDescription where
  name := "codes"
  tables := [
    { name := "code", cardinality := 100,
      columns := [{ name := "id", dataType := "integer" }, { name := "number", dataType := "integer" }] },
    { name := "a", cardinality := 100, columns := [{ name := "code_id", dataType := "integer" }] },
    { name := "b", cardinality := 100, columns := [{ name := "code_number", dataType := "integer" }] }]
  keys := [
    { name := "a_code", source := "a", sourceColumns := ["code_id"], target := "code", targetColumns := ["id"] },
    { name := "b_code", source := "b", sourceColumns := ["code_number"], target := "code",
      targetColumns := ["number"] }]

def codesSchema : Schema :=
  (Schema.ofDescription codes).toOption.get (by decide +kernel)

-- A database that answers nothing.
def silent : Backend Id where
  explain _ _ := .error .unavailable
  explainAnalyze _ _ := .error .unavailable
  count _ := .error .unavailable
  dataDirectory := .error .unavailable

theorem mem_pairs {e : ColumnRef × ColumnRef} {k : Nat} (h : e ∈ (s.key k).pairs) :
    e ∈ s.keys.flatMap ForeignKey.pairs := by
  rw [Schema.key, List.getD_eq_getElem?_getD] at h
  cases hk : s.keys[k]?
  case none =>
    rw [hk] at h
    cases h
  case some key =>
    rw [hk] at h
    exact List.mem_flatMap.mpr ⟨key, List.mem_of_getElem? hk, h⟩

-- SELECT * FROM a AS x, t AS y WHERE x.code_id = y.d
def codesOf (t d : String) : Select where
  items := [⟨.table [⟨"a", none⟩] (some ⟨"x", none⟩), []⟩, ⟨.table [⟨t, none⟩] (some ⟨"y", none⟩), []⟩]
  condition := some (.binary (.column [⟨"x", none⟩, ⟨"code_id", none⟩]) "=" (.column [⟨"y", none⟩, ⟨d, none⟩]))

def codesTables (t : Nat) : List FromTable :=
  [⟨"x", 1⟩, ⟨"y", t⟩]

theorem joins_codesOf : (codesOf "a" "code_id").Joins codesSchema (codesTables 1) [(⟨0, ⟨1, 0⟩⟩, ⟨1, ⟨1, 0⟩⟩)] ∧
    (codesOf "b" "code_number").Joins codesSchema (codesTables 2) [(⟨0, ⟨1, 0⟩⟩, ⟨1, ⟨2, 0⟩⟩)] :=
  ⟨⟨[], by rfl, .cons ⟨by rfl, by decide⟩ .nil⟩, ⟨[], by rfl, .cons ⟨by rfl, by decide⟩ .nil⟩⟩

-- Two rows with one code meet in a virtual node.
theorem graph_joins_sameCode : ∃ g, (codesOf "a" "code_id").graph codesSchema silent = pure g ∧
    g.Forces codesSchema ⟨0, ⟨1, 0⟩⟩ ⟨1, ⟨1, 0⟩⟩ := by
  have ⟨outcome, hgraph, _, hjoins⟩ := graph_joins (b := silent) (by decide +kernel) joins_codesOf.1
  have hagree : Agreeing codesSchema (Equal [(⟨0, ⟨1, 0⟩⟩, ⟨1, ⟨1, 0⟩⟩)]) := by
    intro p q j k c d hpq hc hd _
    -- Equal columns are the same, and a column refers to only one.
    have hcolumn : p.column = q.column := by
      refine (iff_eq (A := fun _ _ => False) (by simp)).mp (map Slot.column ?_ hpq)
      intro a b hab
      cases List.mem_singleton.mp hab
      exact .refl _
    have hone : ∀ e ∈ codesSchema.keys.flatMap ForeignKey.pairs, ∀ f ∈ codesSchema.keys.flatMap ForeignKey.pairs,
        e.1 = f.1 → e.2 = f.2 := by decide +kernel
    exact hone _ (mem_pairs hc) _ (mem_pairs hd) hcolumn
  rcases outcome with e | g
  case error =>
    have hdone : ((codesOf "a" "code_id").graph codesSchema silent : Except GraphError QueryGraph).toOption.isSome =
        true := by decide +kernel
    rw [hgraph] at hdone
    cases hdone
  case ok =>
    have ⟨_, _, hforces⟩ := hjoins g rfl
    exact ⟨g, hgraph, hforces hagree _ _ (.rel _ _ (List.mem_singleton_self _))⟩

-- The graph of a code by its id and a code by its number.
def apart : QueryGraph :=
  ((codesOf "b" "code_number").graph codesSchema silent : Except GraphError QueryGraph).toOption.get (by decide +kernel)

-- What refers to different columns of one table stays apart, although the condition says that it is equal.
theorem not_forces_apart : (codesOf "b" "code_number").graph codesSchema silent = pure apart ∧
    (codesOf "b" "code_number").Joins codesSchema (codesTables 2) [(⟨0, ⟨1, 0⟩⟩, ⟨1, ⟨2, 0⟩⟩)] ∧
    ¬apart.Forces codesSchema ⟨0, ⟨1, 0⟩⟩ ⟨1, ⟨2, 0⟩⟩ := by
  refine ⟨rfl, joins_codesOf.2, fun hforced => ?_⟩
  -- Each edge lies on one side of the node: at its id or at its number.
  let side (p : Slot) : Bool := p ∈ [(⟨0, ⟨1, 0⟩⟩ : Slot), ⟨2, ⟨0, 0⟩⟩]
  have hsides : ∀ e ∈ apart.relations codesSchema, side e.1 = side e.2 := by decide +kernel
  have hside : side ⟨0, ⟨1, 0⟩⟩ = side ⟨1, ⟨2, 0⟩⟩ := by
    refine (iff_eq (A := fun _ _ => False) (by simp)).mp (map side ?_ hforced)
    intro p q hpq
    exact hsides _ (relates_iff_mem.mp hpq) ▸ .refl _
  exact absurd hside (by decide)

end Subplans.Sql
