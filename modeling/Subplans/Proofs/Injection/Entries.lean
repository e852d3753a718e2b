import Mathlib.Data.List.Nodup
import Mathlib.Logic.Relation
import Subplans.Injection.LoggedQuery
import Subplans.Proofs.Recovery.Place

/-!
What the entries of logs say of their queries.

A join is logged above its inputs (`Log.Below`). Its clauses are equalities of columns of tables below it
(`Log.Says`). A clause has to wait until a join has the tables of its two sides below one input each (`Log.Waits`).
Queries that have the tables of two inputs place it just then (`Log.splits_iff`).
-/

namespace Subplans

open QueryGraph Relation

-- The node with the alias stands for the entry.
structure TableEntry.Stands (s : Schema) (t : TableEntry) (node : String × Occurrence) : Prop where
  aliasName : node.1 = t.aliasName
  table     : s.table? t.table = some node.2.table
  clauses   : node.2.clauses =
    ({ schema := s, table := node.2.table, aliasName := t.aliasName, bareLists := true } : Scope).clauses
      (t.predicates.map fun p => "(" ++ p ++ ")")
  real      : node.2.isVirtual = false

namespace Log

variable {s : Schema} {tables ts us : List TableEntry} {joins : List JoinEntry} {e : JoinEntry} {id id' : Int}
  {clause : String} {x y x' y' : Label} {first second g : QueryGraph}

-- From the entry `id` inputs lead to the entry `id'`.
def Below (joins : List JoinEntry) : Int → Int → Prop :=
  ReflTransGen fun id id' => ∃ e ∈ joins, e.id = id ∧ ∃ input ∈ e.inputs, input.id = id'

theorem entry_unique {e' : JoinEntry} (hids : (joins.map JoinEntry.id).Nodup) (he : e ∈ joins) (he' : e' ∈ joins)
    (h : e.id = e'.id) : e = e' :=
  List.inj_on_of_nodup_map hids he he' h

theorem below_input {input : InputEntry} (he : e ∈ joins) (hinput : input ∈ e.inputs)
    (h : Below joins input.id id) : Below joins e.id id :=
  .head ⟨e, he, rfl, input, hinput, rfl⟩ h

theorem below_join (hids : (joins.map JoinEntry.id).Nodup) (he : e ∈ joins) :
    Below joins e.id id ↔ id = e.id ∨ ∃ input ∈ e.inputs, Below joins input.id id where
  mp h := by
    cases h.cases_head
    case inl h => exact .inl h.symm
    case inr h =>
      obtain ⟨_, ⟨e', he', heq, input, hinput, rfl⟩, h⟩ := h
      cases entry_unique hids he' he heq
      exact .inr ⟨input, hinput, h⟩
  mpr := by
    rintro (rfl | ⟨input, hinput, h⟩)
    case inl => exact .refl
    case inr => exact below_input he hinput h

-- No entry stands below one that is no join.
theorem below_leaf (hid : ∀ e ∈ joins, e.id ≠ id) : Below joins id id' ↔ id' = id where
  mp h := by
    cases h.cases_head
    case inl h => exact h.symm
    case inr h =>
      obtain ⟨_, ⟨e, he, heq, -⟩, -⟩ := h
      exact absurd heq (hid e he)
  mpr h := h ▸ .refl

-- These are the entries for tables at `id` or below, each once.
structure Covers (tables : List TableEntry) (joins : List JoinEntry) (id : Int) (ts : List TableEntry) : Prop where
  nodup : (ts.map TableEntry.aliasName).Nodup
  mem   : ∀ t, t ∈ ts ↔ t ∈ tables ∧ Below joins id t.id

-- A table with this alias is logged at `id` or below.
def HasAlias (tables : List TableEntry) (joins : List JoinEntry) (id : Int) (a : String) : Prop :=
  ∃ t ∈ tables, t.aliasName = a ∧ Below joins id t.id

-- No table is logged below two inputs of a join.
def Disjoint (tables : List TableEntry) (joins : List JoinEntry) : Prop :=
  ∀ e ∈ joins, e.inputs.Pairwise fun a b => ∀ t ∈ tables, Below joins a.id t.id → ¬Below joins b.id t.id

-- The conditions under which logs have one meaning: identifiers tell entries apart and aliases tell tables apart,
-- no alias is one of those that merging hands out, and no table is joined with itself.
structure Definite (tables : List TableEntry) (joins : List JoinEntry) : Prop where
  ids      : (tables.map TableEntry.id ++ joins.map JoinEntry.id).Nodup
  aliases  : (tables.map TableEntry.aliasName).Nodup
  names    : ∀ t ∈ tables, ∀ k, t.aliasName ≠ numbered k
  disjoint : Disjoint tables joins

namespace Definite

theorem joins_nodup (h : Definite tables joins) : (joins.map JoinEntry.id).Nodup :=
  (List.nodup_append.mp h.ids).2.1

theorem ids_ne {t : TableEntry} (h : Definite tables joins) (ht : t ∈ tables) (he : e ∈ joins) : e.id ≠ t.id :=
  ((List.nodup_append.mp h.ids).2.2 t.id (List.mem_map_of_mem ht) e.id (List.mem_map_of_mem he)).symm

theorem alias_unique {t t' : TableEntry} (h : Definite tables joins) (ht : t ∈ tables) (ht' : t' ∈ tables)
    (heq : t.aliasName = t'.aliasName) : t = t' :=
  List.inj_on_of_nodup_map h.aliases ht ht' heq

-- No table is below both inputs.
theorem apart {outer inner : InputEntry} {t : TableEntry} (h : Definite tables joins) (he : e ∈ joins)
    (hinputs : e.inputs = [outer, inner]) (ht : t ∈ tables) (hbelow : Below joins outer.id t.id) :
    ¬Below joins inner.id t.id := by
  have hapart := h.disjoint e he
  rw [hinputs] at hapart
  exact List.rel_of_pairwise_cons hapart List.mem_cons_self t ht hbelow

end Definite

theorem Covers.table {t : TableEntry} (hlog : Definite tables joins) (ht : t ∈ tables) :
    Covers tables joins t.id [t] where
  nodup := List.nodup_singleton _
  mem t' := by
    have htables := (List.nodup_append.mp hlog.ids).1
    rw [List.mem_singleton, below_leaf fun e he => hlog.ids_ne ht he]
    refine ⟨?_, fun ⟨ht', heq⟩ => List.inj_on_of_nodup_map htables ht' ht heq⟩
    rintro rfl
    exact ⟨ht, rfl⟩

-- The tables below a join are those below its inputs.
theorem Covers.join {outer inner : InputEntry} (hlog : Definite tables joins) (he : e ∈ joins)
    (hinputs : e.inputs = [outer, inner]) (ho : Covers tables joins outer.id ts) (hi : Covers tables joins inner.id us) :
    Covers tables joins e.id (ts ++ us) where
  nodup := by
    rw [List.map_append, List.nodup_append]
    refine ⟨ho.nodup, hi.nodup, fun a ha b hb heq => ?_⟩
    obtain ⟨t, ht, rfl⟩ := List.mem_map.mp ha
    obtain ⟨u, hu, rfl⟩ := List.mem_map.mp hb
    have ⟨ht, hbelow⟩ := (ho.mem t).mp ht
    have ⟨hu, hbelow'⟩ := (hi.mem u).mp hu
    cases hlog.alias_unique ht hu heq
    exact hlog.apart he hinputs ht hbelow hbelow'
  mem t := by
    rw [List.mem_append, ho.mem, hi.mem, below_join hlog.joins_nodup he, hinputs]
    have hne : t ∈ tables → t.id ≠ e.id := fun ht => (hlog.ids_ne ht he).symm
    simp only [List.mem_cons, List.not_mem_nil, or_false, exists_eq_or_imp, exists_eq_left]
    grind

-- The columns that a clause has equal, each with the alias before it.
def sides? (clause : String) : Option ((String × String) × (String × String)) :=
  match Text.words clause.toList with
  | [left, ['='], right] =>
    match LoggedQuery.qualifiedColumn? left, LoggedQuery.qualifiedColumn? right with
    | some left, some right => some (left, right)
    | _, _ => none
  | _ => none

-- One side of a clause is the column of the table with its alias.
structure Names (s : Schema) (tables : List TableEntry) (side : String × String) (x : Label) : Prop where
  qualifier : x.1 = side.1
  column    : ∃ t ∈ tables, t.aliasName = side.1 ∧ ∃ n, s.table? t.table = some n ∧ s.column? n side.2 = some x.2

-- The clause says that the columns are equal.
def Says (s : Schema) (tables : List TableEntry) (clause : String) (x y : Label) : Prop :=
  ∃ left right, sides? clause = some (left, right) ∧
    ((Names s tables left x ∧ Names s tables right y) ∨ (Names s tables left y ∧ Names s tables right x))

theorem Names.unique {side : String × String} (hlog : Definite tables joins)
    (h : Names s tables side x) (h' : Names s tables side y) : x = y := by
  have ⟨t, ht, hta, n, hn, hc⟩ := h.column
  have ⟨t', ht', hta', n', hn', hc'⟩ := h'.column
  cases hlog.alias_unique ht ht' (hta.trans hta'.symm)
  cases hn.symm.trans hn'
  exact Prod.ext (h.qualifier.trans h'.qualifier.symm) (Option.some.inj (hc.symm.trans hc'))

-- A clause says nothing else, up to its direction.
theorem Says.unique (hlog : Definite tables joins) (h : Says s tables clause x y)
    (h' : Says s tables clause x' y') : (x = x' ∧ y = y') ∨ (x = y' ∧ y = x') := by
  have ⟨left, right, hsides, hnames⟩ := h
  have ⟨left', right', hsides', hnames'⟩ := h'
  cases hsides.symm.trans hsides'
  rcases hnames with ⟨hx, hy⟩ | ⟨hy, hx⟩ <;> rcases hnames' with ⟨hx', hy'⟩ | ⟨hy', hx'⟩
  · exact .inl ⟨hx.unique hlog hx', hy.unique hlog hy'⟩
  · exact .inr ⟨hx.unique hlog hy', hy.unique hlog hx'⟩
  · exact .inr ⟨hx.unique hlog hy', hy.unique hlog hx'⟩
  · exact .inl ⟨hx.unique hlog hx', hy.unique hlog hy'⟩

-- The equalities that the clauses of the joins at `id` or below say.
def equalities (s : Schema) (tables : List TableEntry) (joins : List JoinEntry) (id : Int) (x y : Label) : Prop :=
  ∃ e ∈ joins, Below joins id e.id ∧ ∃ clause ∈ e.clauses, Says s tables clause x y

-- The tables of the two sides of the clause are below one input of the join each.
def Splits (tables : List TableEntry) (joins : List JoinEntry) (e : JoinEntry) (clause : String) : Prop :=
  ∃ left right outer inner, sides? clause = some (left, right) ∧ e.inputs = [outer, inner] ∧
    ((HasAlias tables joins outer.id left.1 ∧ HasAlias tables joins inner.id right.1) ∨
      (HasAlias tables joins outer.id right.1 ∧ HasAlias tables joins inner.id left.1))

-- The clause is logged at `id` or below, and no join on the way up to `id` splits it.
inductive Waits (tables : List TableEntry) (joins : List JoinEntry) : Int → String → Prop
  | own {e : JoinEntry} {clause : String} : e ∈ joins → clause ∈ e.clauses → ¬Splits tables joins e clause →
    Waits tables joins e.id clause
  | input {e : JoinEntry} {input : InputEntry} {clause : String} : e ∈ joins → input ∈ e.inputs →
    Waits tables joins input.id clause → ¬Splits tables joins e clause → Waits tables joins e.id clause

theorem Waits.exists_entry (h : Waits tables joins id clause) :
    ∃ e ∈ joins, Below joins id e.id ∧ clause ∈ e.clauses := by
  induction h
  case own e _ he hclause _ => exact ⟨e, he, .refl, hclause⟩
  case input he hinput _ _ ih =>
    have ⟨e', he', hbelow, hclause⟩ := ih
    exact ⟨e', he', below_input he hinput hbelow, hclause⟩

theorem waits_join (hids : (joins.map JoinEntry.id).Nodup) (he : e ∈ joins) :
    Waits tables joins e.id clause ↔
      (clause ∈ e.clauses ∨ ∃ input ∈ e.inputs, Waits tables joins input.id clause) ∧ ¬Splits tables joins e clause where
  mp h := by
    generalize hid : e.id = id at h
    cases h
    case own e' he' hclause hsplits =>
      cases entry_unique hids he he' hid
      exact ⟨.inl hclause, hsplits⟩
    case input e' input he' hinput hwaits hsplits =>
      cases entry_unique hids he he' hid
      exact ⟨.inr ⟨input, hinput, hwaits⟩, hsplits⟩
  mpr := by
    rintro ⟨hclause | ⟨input, hinput, hwaits⟩, hsplits⟩
    case inl => exact .own he hclause hsplits
    case inr => exact .input he hinput hwaits hsplits

theorem not_waits_leaf (hid : ∀ e ∈ joins, e.id ≠ id) : ¬Waits tables joins id clause := by
  intro h
  cases h
  case own he _ _ => exact hid _ he rfl
  case input he _ _ _ => exact hid _ he rfl

-- An equality is handed on if its aliases are not those of nodes of one graph each.
theorem resolve_eq_orphaned {left right : String × String} : resolve s first second left right = .orphaned ↔
    ¬(((first.realNode? left.1).isSome ∧ (second.realNode? right.1).isSome) ∨
      ((first.realNode? right.1).isSome ∧ (second.realNode? left.1).isSome)) := by
  have hcolumns : ∀ a b, joinColumns s first second a b ≠ .orphaned := by
    intro a b
    unfold joinColumns
    grind
  unfold resolve
  cases first.realNode? left.1 <;> cases second.realNode? right.1 <;> cases first.realNode? right.1 <;>
    cases second.realNode? left.1 <;> simp [hcolumns]

theorem placeClause_eq : LoggedQuery.placeClause s first second clause =
    match sides? clause with
    | some (left, right) => resolve s first second left right
    | none => .rejected := by
  unfold LoggedQuery.placeClause sides?
  split
  case h_1 left right hwords =>
    cases hleft : LoggedQuery.qualifiedColumn? left <;> cases hright : LoggedQuery.qualifiedColumn? right <;>
      simp_all
  case h_2 => simp

-- The query has the tables at `id` and below.
def Holds (s : Schema) (tables : List TableEntry) (joins : List JoinEntry) (id : Int) (g : QueryGraph) : Prop :=
  ∃ ts, Covers tables joins id ts ∧ List.Forall₂ (TableEntry.Stands s) ts g.occurrences

namespace Holds

variable {a : String} {n : Nat}

theorem exists_entry (h : Holds s tables joins id g) (hn : n ∈ g.realNodes) :
    ∃ t ∈ tables, Below joins id t.id ∧ t.Stands s (g.aliasName n, g.node n) := by
  have ⟨ts, hcovers, hstands⟩ := h
  have ⟨t, ht, hstands⟩ := Outcome.exists_of_forall₂ hstands _ (List.mem_map_of_mem hn)
  have ⟨hmem, hbelow⟩ := (hcovers.mem t).mp ht
  exact ⟨t, hmem, hbelow, hstands⟩

theorem exists_node (h : Holds s tables joins id g) (ha : HasAlias tables joins id a) :
    ∃ n ∈ g.realNodes, g.aliasName n = a := by
  obtain ⟨ts, hcovers, hstands⟩ := h
  obtain ⟨t, ht, rfl, hbelow⟩ := ha
  have ⟨node, hnode, hstands⟩ := Outcome.exists_of_forall₂ hstands.flip t ((hcovers.mem t).mpr ⟨ht, hbelow⟩)
  obtain ⟨n, hn, rfl⟩ := List.mem_map.mp hnode
  exact ⟨n, hn, hstands.aliasName⟩

theorem join {outer inner : InputEntry} (hlog : Definite tables joins) (he : e ∈ joins)
    (hinputs : e.inputs = [outer, inner]) (ho : Holds s tables joins outer.id first)
    (hi : Holds s tables joins inner.id second) (hg : g.occurrences = first.occurrences ++ second.occurrences) :
    Holds s tables joins e.id g := by
  have ⟨ts, hts, hstands⟩ := ho
  have ⟨us, hus, hstands'⟩ := hi
  exact ⟨ts ++ us, hts.join hlog he hinputs hus, hg ▸ List.rel_append hstands hstands'⟩

-- The nodes for the tables below two inputs have different aliases.
theorem apart {outer inner : InputEntry} (hlog : Definite tables joins) (he : e ∈ joins)
    (hinputs : e.inputs = [outer, inner]) (ho : Holds s tables joins outer.id first)
    (hi : Holds s tables joins inner.id second) : Apart second first := by
  intro n hn m hm heq
  have ⟨t, ht, hbelow, hstands⟩ := hi.exists_entry hn
  have ⟨t', ht', hbelow', hstands'⟩ := ho.exists_entry hm
  cases hlog.alias_unique ht ht' (hstands.aliasName.symm.trans (heq.trans hstands'.aliasName))
  exact hlog.apart he hinputs ht hbelow' hbelow

-- The alias of a table below is that of a node.
theorem isSome_realNode? (h : Holds s tables joins id g) (hg : g.WellFormed) :
    (g.realNode? a).isSome ↔ HasAlias tables joins id a where
  mp ha := by
    have ⟨n, hn⟩ := Option.isSome_iff_exists.mp ha
    have ⟨hreal, halias⟩ := realNode?_eq_some hg hn
    have ⟨t, ht, hbelow, hstands⟩ := h.exists_entry hreal
    exact ⟨t, ht, hstands.aliasName.symm.trans halias, hbelow⟩
  mpr ha := by
    have ⟨n, hn, halias⟩ := h.exists_node ha
    have ⟨hc, hv⟩ := hg.mem_realNodes.mp hn
    rw [realNode?, (hg.byAlias a n).mpr ⟨hc, halias⟩]
    simp [hv]

theorem names (h : Holds s tables joins id g) (hn : n ∈ g.realNodes) {side : String × String} {c : ColumnRef}
    (halias : g.aliasName n = side.1) (hc : s.column? (g.node n).table side.2 = some c) :
    Names s tables side (g.aliasName n, c) := by
  have ⟨t, ht, _, hstands⟩ := h.exists_entry hn
  exact ⟨halias, t, ht, hstands.aliasName.symm.trans halias, _, hstands.table, hc⟩

end Holds

-- What a placed clause has become is what it says.
theorem says_of_placeClause {j : EquivalenceJoin} (hf : first.WellFormed) (hs : second.WellFormed)
    (ho : Holds s tables joins id first) (hi : Holds s tables joins id' second)
    (h : LoggedQuery.placeClause s first second clause = .join j) :
    ∃ c d, j.first ∈ first.realNodes ∧ j.second ∈ second.realNodes ∧ s.connection? c d = some j.connection ∧
      Says s tables clause (first.aliasName j.first, c) (second.aliasName j.second, d) := by
  rw [placeClause_eq] at h
  split at h
  case h_2 => cases h
  case h_1 left right hsides =>
    have ⟨c, d, hleads⟩ := leads_of_resolve hf hs h
    refine ⟨c, d, ?_⟩
    rcases hleads with hl | hl
    · have hnames := And.intro (ho.names hl.firstReal hl.firstAlias hl.firstColumn)
        (hi.names hl.secondReal hl.secondAlias hl.secondColumn)
      exact ⟨hl.firstReal, hl.secondReal, hl.connection, left, right, hsides, .inl hnames⟩
    · have hnames := And.intro (hi.names hl.secondReal hl.secondAlias hl.secondColumn)
        (ho.names hl.firstReal hl.firstAlias hl.firstColumn)
      exact ⟨hl.firstReal, hl.secondReal, hl.connection, left, right, hsides, .inr hnames⟩

-- A clause that is not rejected is handed on where the join does not split it.
theorem splits_iff {outer inner : InputEntry} (hinputs : e.inputs = [outer, inner]) (hf : first.WellFormed)
    (hs : second.WellFormed) (ho : Holds s tables joins outer.id first) (hi : Holds s tables joins inner.id second)
    (h : LoggedQuery.placeClause s first second clause ≠ .rejected) :
    LoggedQuery.placeClause s first second clause = .orphaned ↔ ¬Splits tables joins e clause := by
  rw [placeClause_eq] at h ⊢
  split at h
  case h_2 => exact absurd rfl h
  case h_1 left right hsides =>
    have hsplits : Splits tables joins e clause ↔
        ((first.realNode? left.1).isSome ∧ (second.realNode? right.1).isSome) ∨
          ((first.realNode? right.1).isSome ∧ (second.realNode? left.1).isSome) := by
      rw [ho.isSome_realNode? hf, hi.isSome_realNode? hs, ho.isSome_realNode? hf, hi.isSome_realNode? hs]
      constructor
      · rintro ⟨_, _, _, _, hsides', hinputs', h⟩
        cases hsides.symm.trans hsides'
        cases hinputs.symm.trans hinputs'
        exact h
      · exact fun h => ⟨left, right, outer, inner, hsides, hinputs, h⟩
    rw [hsplits, resolve_eq_orphaned]

end Log

end Subplans
