import Subplans.Backend.Script
import Subplans.Proofs.Injection.Entries
import Subplans.Proofs.Injection.LoggedQueries
import Subplans.Proofs.Merge.Aliases
import Subplans.Proofs.Recovery.Scans

/-!
The queries of logged joins say what is logged.

`Accounts` is what holds of the query of any entry: its nodes that are not virtual are the tables below, and it
means the clauses below but for those that wait. Joins preserve it (`accounts_join`), and so it holds of whatever is
rebuilt (`accounts_of_rebuilt`, by induction over the log). A query is reported only where no clause waits
(`reported_of_ofEntries`).
-/

namespace Subplans

open Closure Outcome QueryGraph Relation

variable {σ : Type} {s : Schema} {b : Backend (StateM σ)} {onlyInner : Bool} {st st' : σ} {k : Nat}

theorem Backend.of_occurrence {table : Nat} {clauses : Clauses} {a : String} {o : Occurrence}
    (h : Yields (b.occurrence s table clauses a) st o st') :
    o.table = table ∧ o.clauses = clauses ∧ o.isVirtual = false := by
  unfold Backend.occurrence at h
  dsimp only at h
  split at h
  case isTrue =>
    obtain ⟨rfl, -⟩ := yields_pure.mp h
    exact ⟨rfl, rfl, rfl⟩
  case isFalse =>
    have ⟨answer, _, _, h⟩ := yields_bind.mp h
    split at h
    case h_1 | h_2 =>
      obtain ⟨rfl, -⟩ := yields_pure.mp h
      exact ⟨rfl, rfl, rfl⟩
    case h_3 => exact absurd h yields_throw

namespace LoggedQuery

variable {log : List LoggedQuery} {q outer inner : LoggedQuery} {first second g : QueryGraph}
  {js : List EquivalenceJoin}

theorem query_of_ofTable {t : TableEntry} (h : Yields (ofTable s b k t) st q st') :
    q.pending = [] ∧ ∀ g, q.query = some g →
      ∃ o, t.Stands s (t.aliasName, o) ∧ g = (QueryGraph.empty.add o t.aliasName).2 := by
  unfold ofTable at h
  dsimp only at h
  split at h
  case isTrue =>
    obtain ⟨rfl, -⟩ := yields_pure.mp h
    exact ⟨rfl, nofun⟩
  case isFalse =>
    split at h
    case h_1 => exact absurd h yields_throw
    case h_2 table htable =>
      have ⟨o, _, ho, h⟩ := yields_bind.mp h
      have ⟨hotable, hclauses, hreal⟩ := Backend.of_occurrence (yields_adapt.mp ho)
      obtain ⟨rfl, -⟩ := yields_pure.mp h
      refine ⟨rfl, ?_⟩
      rintro g ⟨⟩
      exact ⟨o, ⟨rfl, hotable ▸ htable, hotable ▸ hclauses, hreal⟩, rfl⟩

-- The query of a join is the merger of those of its inputs, on the clauses that it can place.
structure Merges (s : Schema) (log : List LoggedQuery) (e : JoinEntry) (q outer inner : LoggedQuery)
    (first second : QueryGraph) (js : List EquivalenceJoin) : Prop where
  outer_mem : outer ∈ log
  inner_mem : inner ∈ log
  inputs    : ∃ a b, e.inputs = [a, b] ∧ outer.id = a.id ∧ inner.id = b.id
  ofOuter   : outer.query = some first
  ofInner   : inner.query = some second
  query     : q.query = some (merge s first second js)
  placed    : PlacedAll (placeClause s first second) (outer.pending ++ inner.pending ++ e.clauses) js q.pending
  orphaned  : q.pending =
    (outer.pending ++ inner.pending ++ e.clauses).filter (placeClause s first second · = .orphaned)
  accepted  : ∀ clause ∈ outer.pending ++ inner.pending ++ e.clauses, placeClause s first second clause ≠ .rejected

-- The join has turned the clause into a join of its query.
def Places (s : Schema) (log : List LoggedQuery) (e : JoinEntry) (q : LoggedQuery) (clause : String) : Prop :=
  ∃ outer inner first second js, Merges s log e q outer inner first second js ∧
    ∃ j ∈ js, placeClause s first second clause = .join j

-- What is known of a join with a query.
structure JoinsInputs (s : Schema) (onlyInner : Bool) (log : List LoggedQuery) (e : JoinEntry) (q : LoggedQuery) :
    Prop where
  merges   : ∃ outer inner first second js, Merges s log e q outer inner first second js
  resolves : ∀ input ∈ e.inputs, ∃ p, Resolves log input p
  joinType : ∃ info, q.join = some info ∧ joinType? onlyInner e.joinType = .ok (some info.joinType)

theorem joinsInputs_of_ofJoin {e : JoinEntry} (h : ofJoin s onlyInner log k e = .ok q) (hg : q.query = some g) :
    JoinsInputs s onlyInner log e q := by
  unfold ofJoin at h
  dsimp only at h
  have ⟨type, htype, h⟩ := bind_eq_ok.mp h
  split at h
  case h_2 =>
    cases h
    cases hg
  case h_1 joinType =>
    have ⟨inputs, hinputs, h⟩ := bind_eq_ok.mp h
    split at h
    case h_2 =>
      cases h
      cases hg
    case h_1 =>
      split at h
      case h_2 => cases h
      case h_1 outer first inner second =>
        split at h
        case h_1 =>
          cases h
          cases hg
        case h_2 query pending hjoined =>
          cases h
          have hfound := resolves_of_inputs? hinputs
          obtain ⟨a, _, hfirst, hrest, heq⟩ := List.forall₂_cons_right_iff.mp hfound
          obtain ⟨c, _, hsecond, hnone, rfl⟩ := List.forall₂_cons_right_iff.mp hrest
          cases List.forall₂_nil_right_iff.mp hnone
          have ⟨⟨js, _⟩, hplace, hmerge⟩ := Option.map_eq_some_iff.mp hjoined
          cases hmerge
          have ⟨houter, houterId⟩ := of_find? hfirst.found
          have ⟨hinner, hinnerId⟩ := of_find? hsecond.found
          have ⟨horphaned, haccepted⟩ := orphaned_of_placeConditions hplace
          refine ⟨⟨outer, inner, first, second, js, ?_⟩, ?_, _, rfl, htype⟩
          · exact ⟨houter, hinner, ⟨a, c, heq, houterId, hinnerId⟩, hfirst.query, hsecond.query, rfl,
              placedAll_of_placeConditions hplace, horphaned, haccepted⟩
          · rw [heq]
            simp only [List.mem_cons, List.not_mem_nil, or_false, forall_eq_or_imp, forall_eq]
            exact ⟨⟨_, hfirst⟩, ⟨_, hsecond⟩⟩

theorem inner_of_joinType? {name : String} (h : joinType? onlyInner name = .ok (some .inner)) :
    name = JoinType.inner.name := by
  unfold joinType? at h
  split at h
  case isTrue hname => exact beq_iff_eq.mp hname
  case isFalse hname =>
    split at h
    case isTrue => cases h
    case isFalse =>
      split at h
      case h_2 => cases h
      case h_1 type htype =>
        cases h
        have hfound := List.find?_some htype
        exact (beq_iff_eq.mp hfound).symm

theorem Merges.mono {log' : List LoggedQuery} {e : JoinEntry} (h : Merges s log e q outer inner first second js)
    (hlog : log ⊆ log') : Merges s log' e q outer inner first second js :=
  { h with outer_mem := hlog h.outer_mem, inner_mem := hlog h.inner_mem }

end LoggedQuery

namespace Log

open LoggedQuery

variable {tables : List TableEntry} {joins : List JoinEntry} {logged : LoggedQueries} {e : JoinEntry} {id id' : Int}
  {q outer inner : LoggedQuery} {first second g : QueryGraph} {js : List EquivalenceJoin}
  {E F : Label → Label → Prop} {clause : String} {x y : Label}

-- A join on the way from `id'` up to `id` has turned the clause into a join of its query.
def PlacedBetween (s : Schema) (joins : List JoinEntry) (logged : LoggedQueries) (id id' : Int) (clause : String) :
    Prop :=
  ∃ e ∈ joins, Below joins id e.id ∧ Below joins e.id id' ∧
    ∃ q ∈ logged.joins, q.id = e.id ∧ Places s (logged.tables ++ logged.joins) e q clause

-- The query of an entry: its nodes stand for the tables below, and it means what clauses below say, one equality at
-- least for every clause that does not wait.
structure Accounts (s : Schema) (tables : List TableEntry) (joins : List JoinEntry) (logged : LoggedQueries)
    (q : LoggedQuery) (g : QueryGraph) (E : Label → Label → Prop) : Prop where
  means    : Means s g E
  holds    : Holds s tables joins q.id g
  sound    : ∀ x y, E x y → equalities s tables joins q.id x y
  complete : ∀ e ∈ joins, Below joins q.id e.id → ∀ clause ∈ e.clauses, clause ∈ q.pending ∨
    (PlacedBetween s joins logged q.id e.id clause ∧ ∃ x y, E x y ∧ Says s tables clause x y)
  waiting  : ∀ clause, clause ∈ q.pending ↔ Waits tables joins q.id clause

theorem accounts_table {t : TableEntry} (hlog : Definite tables joins) (ht : t ∈ tables) (hid : q.id = t.id)
    (hq : Yields (ofTable s b k t) st q st') (hg : q.query = some g) :
    Accounts s tables joins logged q g fun _ _ => False := by
  have ⟨hpending, hquery⟩ := query_of_ofTable hq
  obtain ⟨o, hstands, rfl⟩ := hquery g hg
  have hleaf : ∀ e ∈ joins, e.id ≠ q.id := fun e he => hid ▸ hlog.ids_ne ht he
  constructor
  case means => exact means_single hstands.real (hlog.names t ht)
  case holds =>
    rw [hid, Holds, occurrences_single hstands.real]
    exact ⟨[t], .table hlog ht, .cons hstands .nil⟩
  case sound => exact fun _ _ => False.elim
  case complete =>
    intro e he hbelow
    exact absurd ((below_leaf hleaf).mp hbelow) (hleaf e he)
  case waiting => simp [hpending, not_waits_leaf hleaf]

section Join

variable (hm : Merges s (logged.tables ++ logged.joins) e q outer inner first second js) (he : e ∈ joins)
  (hid : q.id = e.id)

include hm he hid in
theorem below_of_merges : (∀ id, Below joins outer.id id → Below joins q.id id) ∧
    ∀ id, Below joins inner.id id → Below joins q.id id := by
  obtain ⟨a, b, hinputs, ha, hb⟩ := hm.inputs
  rw [hid, ha, hb]
  exact ⟨fun _ => below_input he (by simp [hinputs]), fun _ => below_input he (by simp [hinputs])⟩

theorem PlacedBetween.mono (h : PlacedBetween s joins logged id id' clause)
    (hbelow : ∀ id', Below joins id id' → Below joins q.id id') : PlacedBetween s joins logged q.id id' clause := by
  have ⟨e, he, habove, hrest⟩ := h
  exact ⟨e, he, hbelow _ habove, hrest⟩

theorem equalities_mono (hbelow : ∀ id', Below joins id id' → Below joins q.id id')
    (h : equalities s tables joins id x y) : equalities s tables joins q.id x y := by
  have ⟨e, he, h, hsays⟩ := h
  exact ⟨e, he, hbelow _ h, hsays⟩

-- What a clause has become, and what it says.
theorem Accounts.says (ho : Accounts s tables joins logged outer first E)
    (hi : Accounts s tables joins logged inner second F) (hs : s.Loaded)
    (hk : ∀ key ∈ s.keys, key.pairs.length = 1) {j : EquivalenceJoin}
    (hplace : placeClause s first second clause = .join j) :
    ∃ c d, j.first ∈ first.realNodes ∧ j.second ∈ second.realNodes ∧ Walk (Steps s) c j.connection d ∧
      Says s tables clause (first.aliasName j.first, c) (second.aliasName j.second, d) := by
  have ⟨c, d, hf, hs', hconnection, hsays⟩ :=
    says_of_placeClause ho.means.tidy.wellFormed hi.means.tidy.wellFormed ho.holds hi.holds hplace
  exact ⟨c, d, hf, hs', walk_of_connection? hs hk hconnection, hsays⟩

include hm he hid

-- The clauses that are tried at a join are logged at it or below.
theorem exists_entry_of_merges (ho : Accounts s tables joins logged outer first E)
    (hi : Accounts s tables joins logged inner second F)
    (hclause : clause ∈ outer.pending ++ inner.pending ++ e.clauses) :
    ∃ e' ∈ joins, Below joins q.id e'.id ∧ clause ∈ e'.clauses := by
  have ⟨hbelowOuter, hbelowInner⟩ := below_of_merges hm he hid
  rw [List.mem_append, List.mem_append] at hclause
  rcases hclause with (hclause | hclause) | hclause
  · have ⟨e', he', h, hmem⟩ := ((ho.waiting _).mp hclause).exists_entry
    exact ⟨e', he', hbelowOuter _ h, hmem⟩
  · have ⟨e', he', h, hmem⟩ := ((hi.waiting _).mp hclause).exists_entry
    exact ⟨e', he', hbelowInner _ h, hmem⟩
  · exact ⟨e, he, hid ▸ .refl, hclause⟩

theorem waiting_of_merges (hlog : Definite tables joins) (ho : Accounts s tables joins logged outer first E)
    (hi : Accounts s tables joins logged inner second F) : clause ∈ q.pending ↔ Waits tables joins q.id clause := by
  obtain ⟨a, b, hinputs, ha, hb⟩ := hm.inputs
  rw [hid, waits_join hlog.joins_nodup he, hm.orphaned, hinputs]
  simp only [List.mem_filter, List.mem_append, ho.waiting, hi.waiting, ha, hb, decide_eq_true_eq, List.mem_cons,
    List.not_mem_nil, or_false, exists_eq_or_imp, exists_eq_left]
  have hsplits : placeClause s first second clause ≠ .rejected → _ :=
    splits_iff hinputs ho.means.tidy.wellFormed hi.means.tidy.wellFormed (ha ▸ ho.holds) (hb ▸ hi.holds)
  have haccepted := hm.accepted clause
  simp only [List.mem_append, ho.waiting, hi.waiting, ha, hb] at haccepted
  grind

theorem accounts_join (hs : s.Loaded) (hk : ∀ key ∈ s.keys, key.pairs.length = 1) (hlog : Definite tables joins)
    (hq : q ∈ logged.joins) (ho : Accounts s tables joins logged outer first E)
    (hi : Accounts s tables joins logged inner second F) :
    Accounts s tables joins logged q (merge s first second js) (Either (Either E F) (JoinedLabels s first second js)) := by
  have ⟨hbelowOuter, hbelowInner⟩ := below_of_merges hm he hid
  obtain ⟨a, b, hinputs, ha, hb⟩ := hm.inputs
  have hholdsOuter : Holds s tables joins a.id first := ha ▸ ho.holds
  have hholdsInner : Holds s tables joins b.id second := hb ▸ hi.holds
  have hjoins : ∀ j ∈ js, j.first ∈ first.realNodes ∧ j.second ∈ second.realNodes ∧
      ∃ c d, Walk (Steps s) c j.connection d := by
    intro j hj
    have ⟨clause, _, hplace⟩ := hm.placed.origin j hj
    have ⟨c, d, hf, hs', hw, _⟩ := ho.says hi hs hk hplace
    exact ⟨hf, hs', c, d, hw⟩
  have hapart : Apart second first := Holds.apart hlog he hinputs hholdsOuter hholdsInner
  have ⟨hmeans, hoccurrences⟩ := means_merge ho.means hi.means hapart hjoins
  constructor
  case means => exact hmeans
  case holds => exact hid ▸ hholdsOuter.join hlog he hinputs hholdsInner hoccurrences
  case sound =>
    rintro x y ((hxy | hxy) | ⟨j, hj, c, d, hw, rfl, rfl⟩)
    · exact equalities_mono hbelowOuter (ho.sound x y hxy)
    · exact equalities_mono hbelowInner (hi.sound x y hxy)
    · have ⟨clause, hclause, hplace⟩ := hm.placed.origin j hj
      have ⟨c', d', _, _, hw', hsays⟩ := ho.says hi hs hk hplace
      -- The connection says between which columns it leads.
      obtain ⟨rfl, rfl⟩ := ends_unique hw hw'
      have ⟨e', he', h, hmem⟩ := exists_entry_of_merges hm he hid ho hi hclause
      exact ⟨e', he', h, clause, hmem, hsays⟩
  case complete =>
    intro e' he' hbelow clause hclause
    -- A clause that has waited below is tried again, together with those of the join itself.
    have retried : clause ∈ outer.pending ++ inner.pending ++ e.clauses → clause ∈ q.pending ∨
        (PlacedBetween s joins logged q.id e'.id clause ∧
          ∃ x y, Either (Either E F) (JoinedLabels s first second js) x y ∧ Says s tables clause x y) := by
      intro hmem
      refine (hm.placed.placed clause hmem).imp_right fun ⟨j, hj, hplace⟩ => ?_
      have ⟨c, d, _, _, hw, hsays⟩ := ho.says hi hs hk hplace
      refine ⟨⟨e, he, hid ▸ .refl, hid ▸ hbelow, q, hq, hid, ?_⟩, _, _, .inr ⟨j, hj, c, d, hw, rfl, rfl⟩, hsays⟩
      exact ⟨outer, inner, first, second, js, hm, j, hj, hplace⟩
    rw [hid, below_join hlog.joins_nodup he, hinputs] at hbelow
    simp only [List.mem_cons, List.not_mem_nil, or_false, exists_eq_or_imp, exists_eq_left, ← ha, ← hb] at hbelow
    rcases hbelow with heq | hbelow | hbelow
    · cases entry_unique hlog.joins_nodup he' he heq
      exact retried (by simp [hclause])
    · rcases ho.complete e' he' hbelow clause hclause with hwait | ⟨hplaced, x, y, hxy, hsays⟩
      · exact retried (by simp [hwait])
      · exact .inr ⟨hplaced.mono hbelowOuter, x, y, .inl (.inl hxy), hsays⟩
    · rcases hi.complete e' he' hbelow clause hclause with hwait | ⟨hplaced, x, y, hxy, hsays⟩
      · exact retried (by simp [hwait])
      · exact .inr ⟨hplaced.mono hbelowInner, x, y, .inl (.inr hxy), hsays⟩
  case waiting => exact fun _ => waiting_of_merges hm he hid hlog ho hi

end Join

theorem before_subset {n : Nat} : logged.tables ++ logged.joins.take n ⊆ logged.tables ++ logged.joins :=
  List.append_subset.mpr ⟨List.subset_append_left _ _,
    List.Subset.trans (List.take_subset _ _) (List.subset_append_right _ _)⟩

section Rebuilt

variable (h : Rebuilt s b onlyInner tables joins logged)

include h

theorem map_id_of_rebuilt : (logged.tables ++ logged.joins).map LoggedQuery.id =
    tables.map TableEntry.id ++ joins.map JoinEntry.id := by
  rw [List.map_append]
  congr 1
  case e_a =>
    refine List.ext_getElem (by simp [h.tables_length]) fun k _ hk => ?_
    have ⟨q, hq, _, _, hyields⟩ := h.tables k _ (List.getElem?_eq_getElem (by simpa using hk))
    have ⟨_, hget⟩ := List.getElem?_eq_some_iff.mp hq
    simp [hget, (of_ofTable hyields).1]
  case e_a =>
    refine List.ext_getElem (by simp [h.joins_length]) fun k _ hk => ?_
    have ⟨q, hq, hjoin⟩ := h.joins k _ (List.getElem?_eq_getElem (by simpa using hk))
    have ⟨_, hget⟩ := List.getElem?_eq_some_iff.mp hq
    simp [hget, (of_ofJoin hjoin).1]

theorem logged_unique {q' : LoggedQuery} (hlog : Definite tables joins) (hq : q ∈ logged.tables ++ logged.joins)
    (hq' : q' ∈ logged.tables ++ logged.joins) (hid : q.id = q'.id) : q = q' :=
  List.inj_on_of_nodup_map (map_id_of_rebuilt h ▸ hlog.ids) hq hq' hid

-- What is known of a join with a query, which only the entries before it matter for.
theorem joinsInputs_of_rebuilt (he : joins[k]? = some e) (hq : logged.joins[k]? = some q) (hg : q.query = some g) :
    JoinsInputs s onlyInner (logged.tables ++ logged.joins.take k) e q := by
  have ⟨q', hq', hjoin⟩ := h.joins k e he
  cases hq.symm.trans hq'
  exact joinsInputs_of_ofJoin hjoin hg

theorem id_of_rebuilt (he : joins[k]? = some e) (hq : logged.joins[k]? = some q) : q.id = e.id := by
  have ⟨q', hq', hjoin⟩ := h.joins k e he
  cases hq.symm.trans hq'
  exact (of_ofJoin hjoin).1

-- An input of a join with a query is in the log, once, and can be joined further.
theorem resolves_of_rebuilt {input : InputEntry} (hlog : Definite tables joins) (he : joins[k]? = some e)
    (hq : logged.joins[k]? = some q) (hg : q.query = some g) (hinput : input ∈ e.inputs) :
    ∃ p, Resolves (logged.tables ++ logged.joins.take k) input p ∧
      ∀ q' ∈ logged.tables ++ logged.joins, q'.id = input.id → q' = p.1 := by
  have ⟨p, hp⟩ := (joinsInputs_of_rebuilt h he hq hg).resolves input hinput
  have ⟨hfound, hid⟩ := of_find? hp.found
  exact ⟨p, hp, fun q' hq' hid' => logged_unique h hlog hq' (before_subset hfound) (hid'.trans hid.symm)⟩

-- A join that can be joined further keeps the rows that match.
theorem inner_of_rebuilt {rows : Float} (he : joins[k]? = some e) (hq : logged.joins[k]? = some q)
    (hg : q.query = some g) (hjoinable : q.isJoinable rows = true) : e.joinType = JoinType.inner.name := by
  have ⟨info, hinfo, htype⟩ := (joinsInputs_of_rebuilt h he hq hg).joinType
  simp only [isJoinable, hinfo, Option.all_some, Bool.and_eq_true, beq_iff_eq] at hjoinable
  exact inner_of_joinType? (hjoinable.2 ▸ htype)

theorem accounts_of_rebuilt (hs : s.Loaded) (hk : ∀ key ∈ s.keys, key.pairs.length = 1)
    (hlog : Definite tables joins) (n : Nat) :
    ∀ q ∈ logged.tables ++ logged.joins.take n, ∀ g, q.query = some g →
      ∃ E, Accounts s tables joins logged q g E := by
  induction n
  case zero =>
    intro q hq g hg
    simp only [List.take_zero, List.append_nil] at hq
    obtain ⟨k, hk⟩ := List.mem_iff_getElem?.mp hq
    have hlt : k < tables.length := h.tables_length ▸ (List.getElem?_eq_some_iff.mp hk).1
    have ⟨q', hq', _, _, hyields⟩ := h.tables k _ (List.getElem?_eq_getElem hlt)
    cases hk.symm.trans hq'
    exact ⟨_, accounts_table hlog (List.getElem_mem hlt) (of_ofTable hyields).1 hyields hg⟩
  case succ n ih =>
    intro q hq g hg
    rw [List.take_add_one, ← List.append_assoc, List.mem_append, Option.mem_toList] at hq
    cases hq
    case inl hq => exact ih q hq g hg
    case inr hq =>
      have hlt : n < joins.length := h.joins_length ▸ (List.getElem?_eq_some_iff.mp hq).1
      have he := List.getElem?_eq_getElem hlt
      have ⟨q', hq', hjoin⟩ := h.joins n _ he
      cases hq.symm.trans hq'
      have ⟨⟨outer, inner, first, second, js, hm⟩, _, _⟩ := joinsInputs_of_ofJoin hjoin hg
      have ⟨E, ho⟩ := ih outer hm.outer_mem first hm.ofOuter
      have ⟨F, hi⟩ := ih inner hm.inner_mem second hm.ofInner
      cases hm.query.symm.trans hg
      exact ⟨_, accounts_join (hm.mono before_subset) (List.getElem_mem hlt) (of_ofJoin hjoin).1 hs hk hlog
        (List.mem_of_getElem? hq) ho hi⟩

end Rebuilt

-- The query says what is logged at `id` and below: every clause has been turned into a join, and the equalities that
-- it forces are those that the clauses say, and what follows from them.
structure Complete (s : Schema) (tables : List TableEntry) (joins : List JoinEntry) (logged : LoggedQueries)
    (id : Int) (g : QueryGraph) : Prop where
  holds  : Holds s tables joins id g
  placed : ∀ e ∈ joins, Below joins id e.id → ∀ clause ∈ e.clauses, PlacedBetween s joins logged id e.id clause
  forces : ∀ u v, g.Real u → g.Real v →
    (g.Forces s u v ↔ EqvGen (equalities s tables joins id) (g.label u) (g.label v))

theorem Accounts.closed (hlog : Definite tables joins) (h : Accounts s tables joins logged q g E)
    (hpending : q.pending = []) : Complete s tables joins logged q.id g := by
  have complete : ∀ e ∈ joins, Below joins q.id e.id → ∀ clause ∈ e.clauses,
      PlacedBetween s joins logged q.id e.id clause ∧ ∃ x y, E x y ∧ Says s tables clause x y := by
    intro e he hbelow clause hclause
    exact (h.complete e he hbelow clause hclause).resolve_left (by simp [hpending])
  refine ⟨h.holds, fun e he hbelow clause hclause => (complete e he hbelow clause hclause).1, fun u v hu hv => ?_⟩
  rw [h.means.forces u v hu hv]
  refine ⟨of_le fun _ _ hxy => .rel _ _ (h.sound _ _ hxy), of_le ?_⟩
  rintro x y ⟨e, he, hbelow, clause, hclause, hsays⟩
  -- What the clause says has been used, and it says nothing else up to direction.
  have ⟨_, x', y', hxy, hsays'⟩ := complete e he hbelow clause hclause
  rcases hsays.unique hlog hsays' with ⟨rfl, rfl⟩ | ⟨rfl, rfl⟩
  · exact .rel _ _ hxy
  · exact .symm _ _ (.rel _ _ hxy)

-- What is reported for a join.
structure Reported (s : Schema) (tables : List TableEntry) (joins : List JoinEntry) (logged : LoggedQueries)
    (e : JoinEntry) (q : LoggedQuery) : Prop where
  -- A query only if no clause is left, and then all that is logged.
  complete   : ∀ g, q.complete? = some g → Complete s tables joins logged e.id g
  -- Nothing, where an input is not in the log or has no query,
  unresolved : ∀ input ∈ e.inputs, (input.id = notLogged ∨
    ∃ q' ∈ logged.tables ++ logged.joins, q'.id = input.id ∧ q'.query = none) → q.complete? = none
  -- where an input is a join that keeps other rows than those that match,
  outer      : ∀ input ∈ e.inputs, ∀ e' ∈ joins, e'.id = input.id → e'.joinType ≠ JoinType.inner.name →
    q.complete? = none
  -- or where a clause has to wait.
  waiting    : ∀ clause, Waits tables joins e.id clause → q.complete? = none
  -- A clause is handed on from join to join until one splits it, and that one places it.
  pending    : ∀ g, q.query = some g → ∀ clause, clause ∈ q.pending ↔ Waits tables joins e.id clause
  retried    : ∀ g, q.query = some g → ∀ e' ∈ joins, Below joins e.id e'.id → ∀ clause ∈ e'.clauses,
    clause ∈ q.pending ∨ PlacedBetween s joins logged e.id e'.id clause

theorem complete?_eq_some : q.complete? = some g ↔ q.query = some g ∧ q.pending = [] := by
  rw [complete?]
  split
  case isTrue h => simp [List.isEmpty_iff.mp h]
  case isFalse h => simp [mt List.isEmpty_iff.mpr h]

theorem complete?_eq_none : q.complete? = none ↔ ∀ g, q.query = some g → q.pending ≠ [] := by
  simp only [Option.eq_none_iff_forall_ne_some, ne_eq, complete?_eq_some, not_and]

-- Whatever a log of joins says, the query that is reported for a join is complete.
theorem reported_of_ofEntries {d : SchemaDescription} (hd : Schema.ofDescription d = .ok s)
    (hk : ∀ key ∈ s.keys, key.pairs.length = 1) (hlog : Definite tables joins)
    (h : Yields (LoggedQueries.ofEntries s b onlyInner tables joins) st logged st') :
    logged.joins.length = joins.length ∧
    ∀ (k : Nat) e q, joins[k]? = some e → logged.joins[k]? = some q → Reported s tables joins logged e q := by
  have hrebuilt := LoggedQueries.rebuilt_ofEntries h
  refine ⟨hrebuilt.joins_length, fun k e q he hq => ?_⟩
  have hid := id_of_rebuilt hrebuilt he hq
  have hlogged : q ∈ logged.tables ++ logged.joins.take logged.joins.length := by
    rw [List.take_length]
    exact List.mem_append_right _ (List.mem_of_getElem? hq)
  have accounts := accounts_of_rebuilt hrebuilt (Schema.loaded_of_ofDescription hd) hk hlog _ q hlogged
  constructor
  case complete =>
    intro g hg
    have ⟨hg, hpending⟩ := complete?_eq_some.mp hg
    have ⟨E, haccounts⟩ := accounts g hg
    exact hid ▸ haccounts.closed hlog hpending
  case unresolved =>
    intro input hinput hunresolved
    refine complete?_eq_none.mpr fun g hg _ => ?_
    have ⟨p, hp, hunique⟩ := resolves_of_rebuilt hrebuilt hlog he hq hg hinput
    rcases hunresolved with hnone | ⟨q', hq', hid', hnone⟩
    · exact hp.logged hnone
    · simp [hunique q' hq' hid', hp.query] at hnone
  case outer =>
    intro input hinput e' he' hid' houter
    refine complete?_eq_none.mpr fun g hg _ => ?_
    have ⟨p, hp, hunique⟩ := resolves_of_rebuilt hrebuilt hlog he hq hg hinput
    obtain ⟨k', hk'⟩ := List.mem_iff_getElem?.mp he'
    have ⟨q', hq', _⟩ := hrebuilt.joins k' e' hk'
    -- The join with the identifier of the input is the one that was found.
    have hfound := (id_of_rebuilt hrebuilt hk' hq').trans hid'
    obtain rfl := hunique q' (List.mem_append_right _ (List.mem_of_getElem? hq')) hfound
    exact houter (inner_of_rebuilt hrebuilt hk' hq' hp.query hp.joinable)
  case waiting =>
    intro clause hwaits
    refine complete?_eq_none.mpr fun g hg hpending => ?_
    have ⟨E, haccounts⟩ := accounts g hg
    have hmem := (haccounts.waiting clause).mpr (hid ▸ hwaits)
    simp [hpending] at hmem
  case pending =>
    intro g hg clause
    have ⟨E, haccounts⟩ := accounts g hg
    rw [haccounts.waiting, hid]
  case retried =>
    intro g hg e' he' hbelow clause hclause
    have ⟨E, haccounts⟩ := accounts g hg
    rw [← hid] at hbelow ⊢
    exact (haccounts.complete e' he' hbelow clause hclause).imp_right And.left

-- The lower of two joins hands a clause on to the upper one.
def handingOn : List JoinEntry := [
  { id := 4
    joinType := "Inner"
    rows := 5
    inputs := [⟨1, 5⟩, ⟨2, 5⟩]
    clauses := ["x.a_id = y.a_id", "z.id = y.a_id"] },
  { id := 5, joinType := "Inner", rows := 5, inputs := [⟨4, 5⟩, ⟨3, 5⟩], clauses := [] }]

def handedTables : List TableEntry :=
  [⟨1, "x", "c", [], 5⟩, ⟨2, "y", "b", [], 5⟩, ⟨3, "z", "a", [], 5⟩]

theorem definite_handingOn : Definite handedTables handingOn where
  ids := by decide
  aliases := by decide
  names t ht k hname := by
    have hfirst : ∀ t ∈ handedTables, t.aliasName.toList.head? ≠ some 'n' := by decide
    apply hfirst t ht
    simp [hname, numbered]
  disjoint := by
    have leaf : ∀ {id id'}, id < 4 → (Below handingOn id id' ↔ id' = id) := fun hid =>
      below_leaf fun e he heq => by
        have hlarge : ∀ e ∈ handingOn, 4 ≤ e.id := by decide
        have := hlarge e he
        omega
    have lower : ∀ {id}, Below handingOn 4 id ↔ id = 4 ∨ id = 1 ∨ id = 2 := by
      intro id
      have hjoin : Below handingOn 4 id ↔ id = 4 ∨ ∃ input ∈ [InputEntry.mk 1 5, ⟨2, 5⟩], Below handingOn input.id id :=
        below_join (e := handingOn[0]) (by decide) (List.getElem_mem _)
      simp [hjoin, leaf]
    intro e he
    simp only [handingOn, List.mem_cons, List.not_mem_nil, or_false] at he
    rcases he with rfl | rfl
    all_goals
      simp only [List.pairwise_cons, List.mem_singleton, forall_eq, List.not_mem_nil, false_imp_iff, implies_true,
        List.Pairwise.nil, and_true]
      intro t _ houter hinner
    case inl => exact absurd ((leaf (by decide)).mp houter ▸ (leaf (by decide)).mp hinner) (by decide)
    case inr => exact absurd ((leaf (by decide)).mp hinner ▸ lower.mp houter) (by decide)

def triangle : Schema :=
  (Schema.ofDescription Schema.triangle).toOption.get rfl

theorem yields_handingOn : ∃ logged st',
    Yields (LoggedQueries.ofEntries triangle (BackendScript.backend {}) false handedTables handingOn) {} logged st' ∧
      (logged.joins.map fun q => (q.complete?.isSome, q.pending)) = [(false, ["z.id = y.a_id"]), (true, [])] := by
  have hjoins : ((LoggedQueries.ofEntries triangle (BackendScript.backend {}) false handedTables handingOn).run.run
      {}).run.1.toOption.map (fun logged => logged.joins.map fun q => (q.complete?.isSome, q.pending)) =
        some [(false, ["z.id = y.a_id"]), (true, [])] := by decide +kernel
  have ⟨logged, st', hrun⟩ := exists_yields (s := {})
    (x := LoggedQueries.ofEntries triangle (BackendScript.backend {}) false handedTables handingOn) (by decide +kernel)
  rw [show _ = _ from hrun] at hjoins
  exact ⟨logged, st', hrun, by simpa [Except.toOption] using hjoins⟩

-- The lower join is not reported, and the upper one is complete.
theorem reported_of_ofEntries_handingOn : Schema.ofDescription Schema.triangle = .ok triangle ∧
    (∀ key ∈ triangle.keys, key.pairs.length = 1) ∧ Definite handedTables handingOn ∧
    ∃ logged st', Yields (LoggedQueries.ofEntries triangle (BackendScript.backend {}) false handedTables handingOn) {}
        logged st' ∧
      (logged.joins.map fun q => (q.complete?.isSome, q.pending)) = [(false, ["z.id = y.a_id"]), (true, [])] ∧
      logged.joins.length = handingOn.length ∧
      ∀ (k : Nat) e q, handingOn[k]? = some e → logged.joins[k]? = some q →
        Reported triangle handedTables handingOn logged e q := by
  have hd : Schema.ofDescription Schema.triangle = .ok triangle := rfl
  have hk : ∀ key ∈ triangle.keys, key.pairs.length = 1 := by decide +kernel
  have ⟨logged, st', hrun, hjoins⟩ := yields_handingOn
  have ⟨hlength, hreported⟩ := reported_of_ofEntries hd hk definite_handingOn hrun
  exact ⟨hd, hk, definite_handingOn, logged, st', hrun, hjoins, hlength, hreported⟩

end Log

end Subplans
