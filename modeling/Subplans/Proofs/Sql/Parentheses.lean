import Subplans.Proofs.Answers
import Subplans.Proofs.Sql.Conjuncts
import Subplans.Proofs.Sql.Graph

/-!
SELECTs with further parentheses in their conditions.

What a query graph is apart from the rows and conditions of its tables is its `outline`. It comes from the tables and
the classes of equal columns (`outline_joinClass`), which further parentheses leave as they are, and so the edges force
the same. Every condition that is not dropped is kept by the node of its table (`graph_padded`). That is so as long as
no conjunction on several tables stands in more than one pair of parentheses; otherwise its equalities are lost
(`not_forces_doubled`).
-/

namespace Subplans

def Occurrence.outline (s : Schema) (o : Occurrence) : Occurrence :=
  { o with cardinality := (s.table o.table).cardinality, clauses := [] }

def NodeSlot.outline (s : Schema) (slot : NodeSlot) : NodeSlot :=
  { slot with occurrence := slot.occurrence.map (Occurrence.outline s) }

-- The graph with all rows of its tables, and without conditions on them.
def QueryGraph.outline (s : Schema) (g : QueryGraph) : QueryGraph :=
  { g with slots := g.slots.map (NodeSlot.outline s) }

namespace QueryGraph

variable {s : Schema} {g : QueryGraph} {o : Occurrence} {a : String} {p q : Slot} {source key target : Nat}

theorem length_outline : (g.outline s).slots.length = g.slots.length :=
  List.length_map _

theorem forces_outline : (g.outline s).Forces s p q ↔ g.Forces s p q :=
  .rfl

theorem outline_add : (g.add o a).2.outline s = ((g.outline s).add (o.outline s) a).2 := by
  simp [add, outline, NodeSlot.outline]

theorem outline_addFresh : (g.addFresh o).2.outline s = ((g.outline s).addFresh (o.outline s)).2 :=
  outline_add

-- A change of what an outline keeps is the same change of the outline.
theorem outline_modify {slots : List NodeSlot} {n : Nat} {f : NodeSlot → NodeSlot}
    (hf : ∀ slot, (f slot).outline s = f (slot.outline s)) :
    (slots.modify n f).map (NodeSlot.outline s) = (slots.map (NodeSlot.outline s)).modify n f := by
  apply List.ext_getElem?
  intro k
  rw [List.getElem?_map, List.getElem?_modify, List.getElem?_modify, List.getElem?_map]
  cases slots[k]?
  case none => rfl
  case some slot => by_cases hn : n = k <;> simp [hn, hf]

theorem outline_addEdge : (g.addEdge source key target).2.outline s = ((g.outline s).addEdge source key target).2 := by
  simp only [addEdge, outline]
  rw [outline_modify, outline_modify]
  · exact fun _ => rfl
  · exact fun _ => rfl

end QueryGraph

namespace Sql

open Outcome QueryGraph

variable {s : Schema} {tables : List FromTable} {g g' : QueryGraph} {columns remaining : List Slot}

theorem outline_joinStep {state : List Slot × QueryGraph} {a : Slot} :
    joinStep s (state.1, state.2.outline s) a = ((joinStep s state a).1, (joinStep s state a).2.outline s) := by
  unfold joinStep
  dsimp only
  split
  case h_1 => rfl
  case h_2 =>
    split
    case h_1 => rfl
    case h_2 => rw [outline_addEdge]

theorem outline_joinDirectly : joinDirectly s columns (g.outline s) =
    ((joinDirectly s columns g).1, (joinDirectly s columns g).2.outline s) := by
  have hfoldl : ∀ (cs : List Slot) (state : List Slot × QueryGraph),
      cs.foldl (joinStep s) (state.1, state.2.outline s) =
        ((cs.foldl (joinStep s) state).1, (cs.foldl (joinStep s) state).2.outline s) := by
    intro cs
    induction cs
    case nil => exact fun _ => rfl
    case cons c cs ih =>
      intro state
      rw [List.foldl_cons, List.foldl_cons, outline_joinStep, ih]
  rw [joinDirectly_eq, joinDirectly_eq]
  exact hfoldl columns (columns, g)

theorem outline_joinTo {n : Nat} (joins : List (Nat × Nat)) :
    (joinTo n g joins).outline s = joinTo n (g.outline s) joins := by
  induction joins generalizing g
  case nil => rfl
  case cons join joins ih =>
    rw [joinTo, List.foldl_cons, ← joinTo, ih, outline_addEdge]
    rfl

theorem outline_joinClass : joinClass s tables (g.outline s) columns = (joinClass s tables g columns).map (outline s) := by
  rw [joinClass, joinClass, outline_joinDirectly]
  dsimp only
  split
  case isTrue => rfl
  case isFalse =>
    cases sharedKeys s tables none (joinDirectly s columns g).1
    case error => rfl
    case ok joins =>
      rcases joins with _ | ⟨⟨node, key⟩, joins⟩
      case nil => rfl
      case cons =>
        -- The virtual node gets the same place and alias, as both graphs have the same nodes and aliases.
        have hplace : (((joinDirectly s columns g).2.outline s).addFresh (.virtual s (s.key key).target)).1 =
            ((joinDirectly s columns g).2.addFresh (.virtual s (s.key key).target)).1 := length_outline
        have hjoined := outline_joinTo (s := s) (n := (joinDirectly s columns g).2.slots.length)
          (g := ((joinDirectly s columns g).2.addFresh (.virtual s (s.key key).target)).2) ((node, key) :: joins)
        rw [outline_addFresh] at hjoined
        refine congrArg Except.ok ?_
        rw [hplace]
        exact hjoined.symm

section Nodes

variable {m : Type → Type} [Monad m] [LawfulMonad m] {b : Backend m} {A : String → Except BackendError Explain → Prop}

-- The clauses that become of some texts about a table.
def tableClauses (s : Schema) (t : FromTable) (texts : List String) : Clauses :=
  let scope : Scope := { schema := s, table := t.table, aliasName := t.aliasName, bareLists := false }
  scope.clauses <| texts.map fun text =>
    String.ofList (Condition.qualify ('(' :: text.toList ++ [')']) t.aliasName (s.table t.table))

-- The database has failed to answer, which is not that it took too long.
def Failed (A : String → Except BackendError Explain → Prop) (e : GraphError) : Prop :=
  ∃ sql error, A sql (.error error) ∧ error ≠ .timeout ∧ e = .backend error

theorem always_addTable (hA : b.Answers A) (texts : List String) (t : FromTable) (g : QueryGraph) :
    Always (Ending (fun g' => ∃ cardinality,
      g' = (g.add ⟨t.table, cardinality, tableClauses s t texts, false⟩ t.aliasName).2) (Failed A))
      (addTable s b texts t g) := by
  have hfound : Always (Ending (fun o => ∃ cardinality, o = ⟨t.table, cardinality, tableClauses s t texts, false⟩)
      (Failed A)) ((b.occurrence s t.table (tableClauses s t texts) t.aliasName).adapt .backend) := by
    refine (always_found hA t.table (tableClauses s t texts) t.aliasName).adapt fun outcome h => ?_
    cases outcome
    case ok => exact h
    case error error => exact ⟨_, error, h.1, h.2, rfl⟩
  refine hfound.bind (fun o ⟨cardinality, ho⟩ => always_pure ⟨cardinality, ?_⟩) fun _ => id
  rw [ho]

def addTables (s : Schema) (b : Backend m) (tables : List FromTable) (texts : List (Nat × String)) :
    ExceptT GraphError m QueryGraph :=
  tables.zipIdx.foldlM (fun g x => addTable s b ((texts.filter (·.1 == x.2)).map Prod.snd) x.1 g) empty

-- The graph consists of these tables, and each has the clauses of the texts with its number.
structure Consists (s : Schema) (texts : List (Nat × String)) (done : List (FromTable × Nat)) (g : QueryGraph) :
    Prop where
  outline : g.outline s = unjoined s (done.map Prod.fst)
  clauses : ∀ k t i, done[k]? = some (t, i) →
    (g.node? k).map Occurrence.clauses = some (tableClauses s t ((texts.filter (·.1 == i)).map Prod.snd))

namespace Consists

variable {texts : List (Nat × String)} {done : List (FromTable × Nat)} {t : FromTable} {i : Nat}

theorem length (h : Consists s texts done g) : g.slots.length = done.length := by
  rw [← length_outline (s := s), h.outline, length_unjoined, List.length_map]

theorem add (h : Consists s texts done g) (cardinality : Float) : Consists s texts (done ++ [(t, i)])
    (g.add ⟨t.table, cardinality, tableClauses s t ((texts.filter (·.1 == i)).map Prod.snd), false⟩ t.aliasName).2 where
  outline := by
    rw [outline_add, h.outline, List.map_append, List.map_singleton, unjoined_append]
    rfl
  clauses k u j hk := by
    rw [node?_add, h.length]
    by_cases hlast : k = done.length
    case pos =>
      subst hlast
      rw [List.getElem?_concat_length] at hk
      cases hk
      rw [if_pos rfl]
      rfl
    case neg =>
      have hlt : k < (done ++ [(t, i)]).length := (List.getElem?_eq_some_iff.mp hk).1
      rw [List.length_append, List.length_singleton] at hlt
      rw [List.getElem?_append_left (by omega)] at hk
      rw [if_neg hlast]
      exact h.clauses k u j hk

theorem outline_joinClasses (h : Consists s texts tables.zipIdx g) (classes : List (List Slot)) :
    classes.foldlM (joinClass s tables) (unjoined s tables) =
      (classes.foldlM (joinClass s tables) g).map (QueryGraph.outline s) := by
  rw [← foldlM_map fun _ _ => outline_joinClass, h.outline, List.zipIdx_map_fst]

end Consists

theorem always_addTables (hA : b.Answers A) (texts : List (Nat × String)) :
    Always (Ending (Consists s texts tables.zipIdx) (Failed A)) (addTables s b tables texts) := by
  refine always_foldlM (fun done x g h => ?_) ⟨rfl, nofun⟩ tables.zipIdx
  refine (always_addTable hA _ x.1 g).mono fun outcome hadded => ?_
  cases outcome
  case error => exact hadded
  case ok g' =>
    obtain ⟨cardinality, rfl⟩ := hadded
    exact h.add cardinality

end Nodes

-- The tables that a SELECT is from, and its conditions as far as they are parted.
def Select.parts (s : Schema) (select : Select) : Except GraphError (List FromTable × List Expr) := do
  let found ← fromList s select.items
  return (found.1, found.2 ++ (select.condition.map Expr.conjuncts).getD [])

theorem graph_eq_parts {m : Type → Type} [Monad m] [LawfulMonad m] {b : Backend m} {select : Select} :
    select.graph s b = (do
      let found ← (select.parts s : Except GraphError _)
      let sorted ← (found.2.foldlM (sortCondition s found.1) {} : Except GraphError Sorted)
      let g ← addTables s b found.1 sorted.texts
      (sorted.classes.foldlM (joinClass s found.1) g : Except GraphError QueryGraph)) := by
  unfold Select.graph Select.parts
  simp only [foldlM_liftM, liftM_bind, liftM_pure, bind_assoc, pure_bind]
  rfl

inductive JoinKind.Padded : JoinKind → JoinKind → Prop
  | cross : Padded .cross .cross
  | inner {c c' : Expr} : Sql.Padded c c' → Padded (.inner c) (.inner c')
  | other : Padded .other .other

structure FromItem.Padded (item item' : FromItem) : Prop where
  source : item'.source = item.source
  joins  : List.Forall₂ (fun join join' => JoinKind.Padded join.1 join'.1 ∧ join'.2 = join.2) item.joins item'.joins

-- The second SELECT is the first one with further parentheses in its conditions.
structure Select.Padded (select select' : Select) : Prop where
  items     : List.Forall₂ FromItem.Padded select.items select'.items
  condition : Option.Rel Sql.Padded select.condition select'.condition

-- Of two lists of tables and conditions the second has the same tables, and conditions that are gathered.
def Gathered (found found' : List FromTable × List Expr) : Prop :=
  found'.1 = found.1 ∧ Regrouped found.2 found'.2

theorem gathered_addJoin {join join' : JoinKind × Source} {found found' next : List FromTable × List Expr}
    (hjoin : JoinKind.Padded join.1 join'.1 ∧ join'.2 = join.2) (h : Gathered found found')
    (hnext : addJoin s found join = .ok next) : ∃ next', addJoin s found' join' = .ok next' ∧ Gathered next next' := by
  obtain ⟨kind, source⟩ := join
  obtain ⟨kind', source'⟩ := join'
  obtain ⟨tables, conditions⟩ := found
  obtain ⟨tables', conditions'⟩ := found'
  obtain ⟨hkind, rfl⟩ := hjoin
  obtain ⟨rfl, hconditions⟩ := h
  cases hkind
  case other => cases hnext
  case cross =>
    have ⟨_, hall, hnext⟩ := bind_eq_ok.mp hnext
    have ⟨after, hafter, hnext⟩ := bind_eq_ok.mp hnext
    cases hall
    cases hnext
    exact ⟨(after, conditions'), bind_eq_ok.mpr ⟨_, rfl, bind_eq_ok.mpr ⟨after, hafter, rfl⟩⟩, rfl, hconditions⟩
  case inner c c' hpadded =>
    have ⟨_, hall, hnext⟩ := bind_eq_ok.mp hnext
    have ⟨after, hafter, hnext⟩ := bind_eq_ok.mp hnext
    cases hall
    cases hnext
    refine ⟨(after, conditions' ++ c'.conjuncts), bind_eq_ok.mpr ⟨_, rfl, bind_eq_ok.mpr ⟨after, hafter, rfl⟩⟩, rfl, ?_⟩
    exact hconditions.append (regrouped_conjuncts hpadded)

theorem gathered_addItem {item item' : FromItem} {found found' next : List FromTable × List Expr}
    (hitem : item.Padded item') (h : Gathered found found') (hnext : addItem s found item = .ok next) :
    ∃ next', addItem s found' item' = .ok next' ∧ Gathered next next' := by
  have ⟨after, hafter, hnext⟩ := bind_eq_ok.mp hnext
  have hstart : Gathered (after, found.2) (after, found'.2) := ⟨rfl, h.2⟩
  have ⟨next', hnext', hgathered⟩ := foldlM_simulates gathered_addJoin hitem.joins hstart hnext
  refine ⟨next', bind_eq_ok.mpr ⟨after, ?_, hnext'⟩, hgathered⟩
  rw [h.1, hitem.source, hafter]

theorem gathered_fromList {items items' : List FromItem} {found : List FromTable × List Expr}
    (hitems : List.Forall₂ FromItem.Padded items items') (h : fromList s items = .ok found) :
    ∃ found', fromList s items' = .ok found' ∧ Gathered found found' := by
  have ⟨all, hall, h⟩ := bind_eq_ok.mp h
  have hstart : Gathered ([], []) ([], []) := ⟨rfl, .nil⟩
  have ⟨all', hall', hgathered⟩ := foldlM_simulates gathered_addItem hitems hstart hall
  by_cases hempty : all.1.isEmpty
  case pos =>
    rw [if_pos hempty] at h
    cases h
  case neg =>
    rw [if_neg hempty] at h
    cases h
    refine ⟨all', bind_eq_ok.mpr ⟨all', hall', ?_⟩, hgathered⟩
    rw [hgathered.1, if_neg hempty]
    rfl

theorem gathered_parts {select select' : Select} {found : List FromTable × List Expr} (hp : select.Padded select')
    (h : select.parts s = .ok found) : ∃ found', select'.parts s = .ok found' ∧ Gathered found found' := by
  have ⟨listed, hlisted, h⟩ := bind_eq_ok.mp h
  cases h
  have ⟨listed', hlisted', htables, hconditions⟩ := gathered_fromList hp.items hlisted
  refine ⟨_, bind_eq_ok.mpr ⟨listed', hlisted', rfl⟩, htables, hconditions.append ?_⟩
  have hcondition := hp.condition
  generalize select.condition = c, select'.condition = c' at hcondition
  cases hcondition
  case none => exact .nil
  case some hpadded => exact regrouped_conjuncts hpadded

section Graph

variable {σ : Type} {b : Backend (StateM σ)} {st st' st₁ : σ} {conditions conditions' : List Expr}
  {select select' : Select}

-- The node of each table has the clauses of the conditions on it.
def Bears (s : Schema) (tables : List FromTable) (conditions : List Expr) (g : QueryGraph) : Prop :=
  ∀ i t, tables[i]? = some t →
    (g.node? i).map Occurrence.clauses = some (tableClauses s t (textsOn s tables conditions i))

theorem bears_of_consists {sorted : Sorted} {classes : List (List Slot)}
    (hsorted : conditions.foldlM (sortCondition s tables) {} = .ok sorted)
    (hg : Consists s sorted.texts tables.zipIdx g) (hjoins : classes.foldlM (joinClass s tables) g = .ok g') :
    Bears s tables conditions g' := by
  intro i t hi
  have hkeeps : KeepsNodes g g' :=
    foldlM_ok (P := KeepsNodes g) (fun _ _ _ _ h hstep => h.trans (keepsNodes_joinClass hstep))
      (keepsNodes_of_sameNodes .refl) hjoins
  have hlt : i < g.slots.length := by
    rw [hg.length, List.length_zipIdx]
    exact (List.getElem?_eq_some_iff.mp hi).1
  rw [hkeeps.node? i hlt, hg.clauses i t i (by simp [hi]), (sortConditions_ok hsorted).2.2 i]
  rfl

-- What the run of a SELECT has come by where it has a graph.
theorem yields_graph (h : Yields (select.graph s b) st g st₁) : ∃ tables conditions sorted g₀,
    select.parts s = .ok (tables, conditions) ∧ conditions.foldlM (sortCondition s tables) {} = .ok sorted ∧
      Consists s sorted.texts tables.zipIdx g₀ ∧ sorted.classes.foldlM (joinClass s tables) g₀ = .ok g := by
  rw [graph_eq_parts] at h
  have ⟨⟨tables, conditions⟩, _, hparts, h⟩ := yields_bind.mp h
  have ⟨sorted, _, hsorted, h⟩ := yields_bind.mp h
  have ⟨g₀, _, hadded, h⟩ := yields_bind.mp h
  exact ⟨tables, conditions, sorted, g₀, (yields_liftM.mp hparts).1, (yields_liftM.mp hsorted).1,
    (always_addTables b.answers_states sorted.texts).yields hadded, (yields_liftM.mp h).1⟩

-- The error is that in some state the database does not answer a statement.
def Unanswered (b : Backend (StateM σ)) (e : GraphError) : Prop :=
  Failed (fun sql answer => ∃ settings st, ((b.explain sql settings).run st).run.1 = answer) e

-- Where the joins of the bare tables can be made, the tables have a graph with their conditions, or the database fails.
theorem exists_graph {sorted : Sorted} {joined : QueryGraph} (hparts : select.parts s = .ok (tables, conditions))
    (hsorted : conditions.foldlM (sortCondition s tables) {} = .ok sorted)
    (hjoins : sorted.classes.foldlM (joinClass s tables) (unjoined s tables) = .ok joined) (st : σ) :
    (∃ g st₁, Yields (select.graph s b) st g st₁ ∧ g.outline s = joined ∧ Bears s tables conditions g) ∨
      ∃ e, Stops (select.graph s b) st e ∧ Unanswered b e := by
  have hparts : Yields (liftM (select.parts s) : ExceptT GraphError (StateM σ) _) st (tables, conditions) st :=
    yields_liftM.mpr ⟨hparts, rfl⟩
  have hadds : Always (Ending (Consists s sorted.texts tables.zipIdx) (Unanswered b)) (addTables s b tables sorted.texts) :=
    always_addTables b.answers_states sorted.texts
  rw [graph_eq_parts]
  rcases exists_yields_or_stops (addTables s b tables sorted.texts) st with ⟨g₀, st₁, hg₀⟩ | ⟨e, he⟩
  case inl =>
    have hconsists := hadds.yields hg₀
    rw [hconsists.outline_joinClasses] at hjoins
    cases hg : sorted.classes.foldlM (joinClass s tables) g₀
    case error => simp [hg, Except.map] at hjoins
    case ok g =>
      rw [hg] at hjoins
      cases hjoins
      refine .inl ⟨g, st₁, ?_, rfl, bears_of_consists hsorted hconsists hg⟩
      refine yields_bind.mpr ⟨_, st, hparts, yields_bind.mpr ⟨sorted, st, yields_liftM.mpr ⟨hsorted, rfl⟩, ?_⟩⟩
      exact yields_bind.mpr ⟨g₀, st₁, hg₀, yields_liftM.mpr ⟨hg, rfl⟩⟩
  case inr =>
    refine .inr ⟨e, ?_, hadds.stops he⟩
    refine stops_bind.mpr (.inr ⟨_, st, hparts, stops_bind.mpr (.inr ⟨sorted, st, ?_, stops_bind.mpr (.inl he)⟩)⟩)
    exact yields_liftM.mpr ⟨hsorted, rfl⟩

-- No conjunction on several tables is left together.
def Select.Parted (s : Schema) (select : Select) : Prop :=
  ∀ tables conditions, select.parts s = .ok (tables, conditions) → Sql.Parted s tables conditions

-- If a SELECT has a graph, it has one with further parentheses in its conditions, with the same tables, joins and forced
-- equalities, unless the database fails to answer what it is asked then. Each condition that is not dropped is kept, and
-- the conditions on a table are those of its node.
theorem graph_padded (hp : select.Padded select') (hparted : select'.Parted s)
    (h : Yields (select.graph s b) st g st₁) (st' : σ) : ∃ tables conditions conditions',
      select.parts s = .ok (tables, conditions) ∧ select'.parts s = .ok (tables, conditions') ∧
      Kept s tables conditions conditions' ∧ Bears s tables conditions g ∧
      ((∃ g' st₂, Yields (select'.graph s b) st' g' st₂ ∧ g'.outline s = g.outline s ∧
        (∀ p q, g'.Forces s p q ↔ g.Forces s p q) ∧ Bears s tables conditions' g') ∨
      ∃ e, Stops (select'.graph s b) st' e ∧ Unanswered b e) := by
  have ⟨tables, conditions, sorted, g₀, hparts, hsorted, hconsists, hjoins⟩ := yields_graph h
  have ⟨⟨_, conditions'⟩, hparts', rfl, hregrouped⟩ := gathered_parts hp hparts
  have ⟨hjudged, hclasses, _⟩ := sortConditions_ok hsorted
  have hpreserves := hregrouped.preserves (hparted _ _ hparts') hjudged
  have ⟨sorted', hsorted'⟩ := exists_sortConditions {} hpreserves.judged
  have ⟨_, hclasses', _⟩ := sortConditions_ok hsorted'
  have hsame : sorted'.classes = sorted.classes := by rw [hclasses', hclasses, hpreserves.equalities]
  have houtline : sorted'.classes.foldlM (joinClass s tables) (unjoined s tables) = .ok (g.outline s) := by
    rw [hsame, hconsists.outline_joinClasses, hjoins]
    rfl
  refine ⟨tables, conditions, conditions', hparts, hparts', hpreserves.kept, bears_of_consists hsorted hconsists hjoins, ?_⟩
  refine (exists_graph hparts' hsorted' houtline st').imp_left fun ⟨g', st₂, hg', hsame, hbears⟩ => ?_
  refine ⟨g', st₂, hg', hsame, fun p q => ?_, hbears⟩
  rw [← forces_outline, hsame, forces_outline]

end Graph

-- A database that takes too long for everything.
def slow : Backend (StateM Unit) where
  explain _ _ := pure (.error .timeout)
  explainAnalyze _ _ := pure (.error .timeout)
  count _ := pure (.error .timeout)
  dataDirectory := pure (.error .timeout)

theorem not_unanswered_slow {e : GraphError} : ¬Unanswered slow e := by
  rintro ⟨_, error, ⟨_, _, hanswer⟩, hne, _⟩
  cases hanswer
  exact hne rfl

theorem exists_graph_slow {select : Select} {conditions : List Expr} {joined : QueryGraph} (sorted : Sorted)
    (hparts : select.parts s = .ok (tables, conditions))
    (hsorted : conditions.foldlM (sortCondition s tables) {} = .ok sorted)
    (hjoins : sorted.classes.foldlM (joinClass s tables) (unjoined s tables) = .ok joined) :
    ∃ g, Yields (select.graph s slow) () g () ∧ g.outline s = joined := by
  rcases exists_graph (b := slow) hparts hsorted hjoins () with ⟨g, _, hg, houtline, _⟩ | ⟨_, _, hunanswered⟩
  case inl => exact ⟨g, hg, houtline⟩
  case inr => exact absurd hunanswered not_unanswered_slow

def codeOf (aliasName : String) : Expr :=
  .column [⟨aliasName, none⟩, ⟨"code_id", none⟩]

-- SELECT * FROM a AS x, a AS y WHERE ...
def codesWhere (condition : Expr) : Select where
  items := [⟨.table [⟨"a", none⟩] (some ⟨"x", none⟩), []⟩, ⟨.table [⟨"a", none⟩] (some ⟨"y", none⟩), []⟩]
  condition := some condition

-- x.code_id = y.code_id
def sameCode : Expr :=
  .binary (codeOf "x") "=" (codeOf "y")

-- x.code_id > 1 AND x.code_id < 5
def codeRange : Expr :=
  .binary (.binary (codeOf "x") ">" (.other "1" [])) "AND" (.binary (codeOf "x") "<" (.other "5" []))

-- x.code_id = y.code_id AND (x.code_id > 1 AND x.code_id < 5)
def sameInRange : Expr :=
  .binary sameCode "AND" (.nested codeRange)

-- ((x.code_id = y.code_id)) AND ((x.code_id > 1 AND x.code_id < 5))
def sameInRangePadded : Expr :=
  .binary (.nested (.nested sameCode)) "AND" (.nested (.nested codeRange))

theorem parted_sameInRange : (codesWhere sameInRangePadded).Parted codesSchema := by
  intro tables conditions hparts
  have hknown : (codesWhere sameInRangePadded).parts codesSchema =
      .ok (codesTables 1, [.nested (.nested sameCode), .nested (.nested codeRange)]) := by rfl
  cases hknown.symm.trans hparts
  refine List.forall_mem_cons.mpr ⟨?_, List.forall_mem_singleton.mpr fun _ => ?_⟩
  case refine_1 =>
    rintro ⟨_, _, hbare⟩
    simp [Expr.bare, sameCode] at hbare
  case refine_2 =>
    have hx : ∀ p, Has codesSchema (codesTables 1) (.nested (.nested codeRange)) p → p.node = 0 := by
      rintro p ⟨names, hnames, hp⟩
      have hnames : names = [⟨"x", none⟩, ⟨"code_id", none⟩] := by
        simpa [codeRange, codeOf, Expr.columns, Expr.columnsAll] using hnames
      subst hnames
      cases hp
      rfl
    intro p q hp hq
    rw [hx p hp, hx q hq]

def codesSorted : Sorted where
  classes := [[⟨0, ⟨1, 0⟩⟩, ⟨1, ⟨1, 0⟩⟩]]
  texts := [(0, "x.code_id > 1"), (0, "x.code_id < 5")]

-- The two tables, and the code that both refer to.
def meeting : QueryGraph :=
  (codesSorted.classes.foldlM (joinClass codesSchema (codesTables 1)) (unjoined codesSchema (codesTables 1))).toOption.get
    (by decide +kernel)

theorem parts_sameInRange : (codesWhere sameInRange).parts codesSchema = .ok (codesTables 1,
    [sameCode, .binary (codeOf "x") ">" (.other "1" []), .binary (codeOf "x") "<" (.other "5" [])]) :=
  rfl

theorem exists_sameInRange : ∃ g, Yields ((codesWhere sameInRange).graph codesSchema slow) () g () ∧
    g.outline codesSchema = meeting :=
  exists_graph_slow codesSorted parts_sameInRange rfl rfl

-- Two pairs of parentheses around an equality, and two around a range.
theorem graph_padded_sameInRange : (codesWhere sameInRange).Padded (codesWhere sameInRangePadded) ∧
    (codesWhere sameInRangePadded).Parted codesSchema ∧
    ∃ g g' st, Yields ((codesWhere sameInRange).graph codesSchema slow) () g () ∧
      Yields ((codesWhere sameInRangePadded).graph codesSchema slow) () g' st ∧
      g'.outline codesSchema = g.outline codesSchema ∧
      ∀ p q, g'.Forces codesSchema p q ↔ g.Forces codesSchema p q := by
  have hpadded : (codesWhere sameInRange).Padded (codesWhere sameInRangePadded) := {
    items := .cons ⟨rfl, .nil⟩ (.cons ⟨rfl, .nil⟩ .nil)
    condition := .some (.binary "AND" (.added (.added (.refl _))) (.nested (.added (.refl _)))) }
  have ⟨g, hg, _⟩ := exists_sameInRange
  have ⟨_, _, _, _, _, _, _, hgraph⟩ := graph_padded hpadded parted_sameInRange hg ()
  rcases hgraph with ⟨g', st, hg', houtline, hforces, _⟩ | ⟨_, _, hunanswered⟩
  case inl => exact ⟨hpadded, parted_sameInRange, g, g', st, hg, hg', houtline, hforces⟩
  case inr => exact absurd hunanswered not_unanswered_slow

-- An equality and a range in two pairs of parentheses are taken as one condition on two tables, and both are dropped.
theorem not_forces_doubled :
    (codesWhere sameInRange).Padded (codesWhere (.nested (.nested sameInRange))) ∧
    ∃ g g', Yields ((codesWhere sameInRange).graph codesSchema slow) () g () ∧
      Yields ((codesWhere (.nested (.nested sameInRange))).graph codesSchema slow) () g' () ∧
      g.Forces codesSchema ⟨0, ⟨1, 0⟩⟩ ⟨1, ⟨1, 0⟩⟩ ∧ ¬g'.Forces codesSchema ⟨0, ⟨1, 0⟩⟩ ⟨1, ⟨1, 0⟩⟩ := by
  have ⟨g, hg, houtline⟩ := exists_sameInRange
  have hparts : (codesWhere (.nested (.nested sameInRange))).parts codesSchema =
      .ok (codesTables 1, [.nested (.nested sameInRange)]) := rfl
  have ⟨g', hg', houtline'⟩ := exists_graph_slow {} hparts rfl rfl
  refine ⟨⟨.cons ⟨rfl, .nil⟩ (.cons ⟨rfl, .nil⟩ .nil), .some (.added (.added (.refl _)))⟩, g, g', hg, hg', ?_, ?_⟩
  case refine_1 =>
    have hrelates : ∀ n < 2, meeting.Relates codesSchema ⟨n, ⟨1, 0⟩⟩ ⟨2, ⟨0, 0⟩⟩ := by
      simp only [relates_iff_mem]
      decide +kernel
    rw [← forces_outline, houtline]
    exact .trans _ _ _ (.rel _ _ (hrelates 0 (by decide))) (.symm _ _ (.rel _ _ (hrelates 1 (by decide))))
  case refine_2 =>
    rw [← forces_outline, houtline']
    intro hforced
    have hnone : ∀ e ∈ (unjoined codesSchema (codesTables 1)).relations codesSchema, False := by decide +kernel
    rcases forces_cases (P := fun _ => False) (fun e he => (hnone e he).elim) hforced with heq | ⟨hfalse, _⟩
    case inl => cases heq
    case inr => exact hfalse

end Sql
end Subplans
