import Mathlib.Data.List.Sort
import Subplans.Execution.RowCounts
import Subplans.Proofs.Recovery.Contents

/-!
The row counts of an executed plan are those of its nodes.

A node counts for the tables that it scans if its rows are known and no condition is applied there but those that the
query has on them (`CountsFor`). What is recorded for some tables is the count of the last node that counts for them,
from the leaves up (`mem_ofPlan`).
-/

namespace Subplans

namespace Text

variable {s : String} {texts texts' : List String}

theorem pairwise_insertDistinct (h : texts.Pairwise (· < ·)) : (insertDistinct s texts).Pairwise (· < ·) := by
  induction texts
  case nil => simp [insertDistinct]
  case cons t rest ih =>
    obtain ⟨hrest, hsorted⟩ := List.pairwise_cons.mp h
    rw [insertDistinct]
    split
    case isTrue => exact h
    case isFalse hne =>
      have hne : s ≠ t := by simpa using hne
      split
      case isTrue hlt =>
        refine List.pairwise_cons.mpr ⟨fun u hu => ?_, h⟩
        cases hu
        case head => exact hlt
        case tail hu => exact String.lt_trans hlt (hrest u hu)
      case isFalse hge =>
        refine List.pairwise_cons.mpr ⟨fun u hu => ?_, ih hsorted⟩
        rcases mem_insertDistinct.mp hu with rfl | hu
        · exact Std.lt_of_le_of_ne (String.not_lt.mp hge) hne.symm
        · exact hrest u hu

theorem pairwise_sortDistinct : (sortDistinct texts).Pairwise (· < ·) := by
  have hall : ∀ sorted : List String, sorted.Pairwise (· < ·) →
      (texts.foldl (fun sorted s => insertDistinct s sorted) sorted).Pairwise (· < ·) := by
    induction texts
    case nil => exact fun _ h => h
    case cons ih => exact fun _ h => ih _ (pairwise_insertDistinct h)
  exact hall [] .nil

-- The same texts make the same list.
theorem sortDistinct_congr (h : ∀ t, t ∈ texts ↔ t ∈ texts') : sortDistinct texts = sortDistinct texts' :=
  pairwise_sortDistinct.eq_of_mem_iff pairwise_sortDistinct fun t => by
    rw [mem_sortDistinct, mem_sortDistinct, h]

theorem sortDistinct_filter_singleton {f : String → Bool} : sortDistinct ([s].filter f) = [s].filter f := by
  cases h : f s <;> simp [h, sortDistinct, insertDistinct]

end Text

namespace Plan

mutual

-- The aliases of what is scanned in a plan: below a node with an alias nothing counts.
def scanned : Plan → List String
  | node o inputs =>
    match o.aliasName with
    | some a => [a]
    | none => scannedAll inputs

def scannedAll : List Plan → List String
  | [] => []
  | p :: rest => p.scanned ++ scannedAll rest

end

mutual

-- The nodes that may count, from the leaves up.
def counted : Plan → List Plan
  | node o inputs => (if o.aliasName.isSome then [] else countedAll inputs) ++ [node o inputs]

def countedAll : List Plan → List Plan
  | [] => []
  | p :: rest => p.counted ++ countedAll rest

end

theorem countedAll_eq {ps : List Plan} : countedAll ps = ps.flatMap counted := by
  induction ps
  case nil => rfl
  case cons p ps ih => rw [countedAll, ih, List.flatMap_cons]

theorem scannedAll_eq {ps : List Plan} : scannedAll ps = ps.flatMap scanned := by
  induction ps
  case nil => rfl
  case cons p ps ih => rw [scannedAll, ih, List.flatMap_cons]

theorem mem_counted {o : Operation} {inputs : List Plan} {q : Plan} :
    q ∈ (node o inputs).counted ↔ q = node o inputs ∨ (o.aliasName = none ∧ ∃ p ∈ inputs, q ∈ p.counted) := by
  rw [counted, List.mem_append, List.mem_singleton, or_comm]
  cases o.aliasName
  case none => simp [countedAll_eq]
  case some => simp

theorem counted_subset_subplans {p : Plan} : p.counted ⊆ p.subplans := by
  induction p using rec_inputs
  case step o inputs ih =>
    intro q hq
    rcases mem_counted.mp hq with rfl | ⟨-, p, hp, hq⟩
    · exact mem_subplans_self _
    · exact mem_subplans_of_input hp (ih p hp hq)

theorem counted_subset {p q : Plan} (h : q ∈ p.counted) : q.counted ⊆ p.counted := by
  induction p using rec_inputs
  case step o inputs ih =>
    rcases mem_counted.mp h with rfl | ⟨ha, p, hp, hq⟩
    · exact List.Subset.refl _
    · exact fun q' hq' => mem_counted.mpr (.inr ⟨ha, p, hp, ih p hp hq hq'⟩)

theorem scanned_subset {p q : Plan} (h : q ∈ p.counted) : q.scanned ⊆ p.scanned := by
  induction p using rec_inputs
  case step o inputs ih =>
    rcases mem_counted.mp h with rfl | ⟨ha, p, hp, hq⟩
    · exact List.Subset.refl _
    · intro a hmem
      rw [scanned, ha, scannedAll_eq]
      exact List.mem_flatMap.mpr ⟨p, hp, ih p hp hq hmem⟩

end Plan

namespace RowCounts

variable {g : QueryGraph} {p q : Plan} {ps : List Plan} {o : Operation} {counts : RowCounts}
  {tables other : List String} {rows count : Float} {a : String}

theorem tables_lt_trans {a b c : List String} (h : a < b) (h' : b < c) : a < c :=
  List.lt_trans h h'

theorem tables_lt_of_not {a b : List String} (h : ¬a < b) (hne : a ≠ b) : b < a := by
  by_contra hge
  exact hne (List.le_antisymm (List.not_lt.mp hge) (List.not_lt.mp h))

-- The tables are in order, so none come up twice.
def Ordered (counts : RowCounts) : Prop :=
  counts.Pairwise (·.1 < ·.1)

theorem mem_set (h : counts.Ordered) : (tables, rows) ∈ set other count counts ↔
    (tables = other ∧ rows = count) ∨ (tables ≠ other ∧ (tables, rows) ∈ counts) := by
  induction counts
  case nil => simp [set]
  case cons entry rest ih =>
    have ⟨hlt, hrest⟩ := List.pairwise_cons.mp h
    obtain ⟨t, r⟩ := entry
    rw [set]
    split
    case isTrue heq =>
      obtain rfl : other = t := by simpa using heq
      have hother : (tables, rows) ∈ rest → tables ≠ other := by
        rintro hmem rfl
        exact List.lt_irrefl _ (hlt (tables, rows) hmem)
      simp only [List.mem_cons, Prod.mk.injEq]
      grind
    case isFalse hother =>
      have hother : other ≠ t := by simpa using hother
      split
      case isTrue hless =>
        have hgreater : (tables, rows) ∈ (t, r) :: rest → tables ≠ other := by
          rintro hmem rfl
          cases hmem
          case head => exact hother rfl
          case tail hmem => exact List.lt_irrefl _ (tables_lt_trans hless (hlt _ hmem))
        simp only [List.mem_cons, Prod.mk.injEq] at hgreater ⊢
        grind
      case isFalse =>
        rw [List.mem_cons, ih hrest, List.mem_cons, Prod.mk.injEq]
        grind

theorem Ordered.set (h : counts.Ordered) : (set other count counts).Ordered := by
  induction counts
  case nil => simp [RowCounts.set, Ordered]
  case cons entry rest ih =>
    have ⟨hlt, hrest⟩ := List.pairwise_cons.mp h
    obtain ⟨t, r⟩ := entry
    rw [RowCounts.set]
    split
    case isTrue heq => exact List.pairwise_cons.mpr ⟨by simpa [beq_iff_eq.mp heq] using hlt, hrest⟩
    case isFalse hother =>
      have hother : other ≠ t := by simpa using hother
      split
      case isTrue hless =>
        refine List.pairwise_cons.mpr ⟨fun entry hmem => ?_, h⟩
        cases hmem
        case head => exact hless
        case tail hmem => exact tables_lt_trans hless (hlt _ hmem)
      case isFalse hge =>
        refine List.pairwise_cons.mpr ⟨fun ⟨t', r'⟩ hmem => ?_, ih hrest⟩
        rcases (mem_set hrest).mp hmem with ⟨rfl, -⟩ | ⟨-, hmem⟩
        · exact tables_lt_of_not hge hother
        · exact hlt _ hmem

-- The tables that a node scans, in order.
def tablesOf (g : QueryGraph) (p : Plan) : List String :=
  Text.sortDistinct (p.scanned.filter g.realAliases.contains)

-- Puts in the count of a node, if it counts.
def record (g : QueryGraph) (counts : RowCounts) (p : Plan) : RowCounts :=
  ((count? g (tablesOf g p) p.operation).map fun rows => set (tablesOf g p) rows counts).getD counts

theorem collectAll_of_inputs (ih : ∀ p ∈ ps, ∀ counts, collect g counts p =
    (tablesOf g p, p.counted.foldl (record g) counts)) : collectAll g counts ps =
      (Text.sortDistinct ((Plan.scannedAll ps).filter g.realAliases.contains),
        (Plan.countedAll ps).foldl (record g) counts) := by
  induction ps generalizing counts
  case nil => rfl
  case cons p rest ih' =>
    rw [collectAll, ih p List.mem_cons_self]
    simp only [ih' fun q hq => ih q (List.mem_cons_of_mem p hq), Plan.scannedAll, Plan.countedAll, List.foldl_append]
    refine congrArg₂ _ (Text.sortDistinct_congr fun t => ?_) rfl
    simp [tablesOf, Text.mem_sortDistinct]

-- Counts are put in from the leaves up.
theorem collect_eq : collect g counts p = (tablesOf g p, p.counted.foldl (record g) counts) := by
  induction p using Plan.rec_inputs generalizing counts
  case step o inputs ih =>
    rw [collect, Plan.counted]
    cases ha : o.aliasName
    case none =>
      have htables : tablesOf g (.node o inputs) =
          Text.sortDistinct ((Plan.scannedAll inputs).filter g.realAliases.contains) := by
        simp [tablesOf, Plan.scanned, ha]
      simp only [collectAll_of_inputs fun p hp counts => ih p hp, ← htables]
      simp [record, Plan.operation]
    case some a =>
      have htables : tablesOf g (.node o inputs) = [a].filter g.realAliases.contains := by
        rw [tablesOf, Plan.scanned, ha, Text.sortDistinct_filter_singleton]
      simp [record, Plan.operation, ← htables]

theorem ofPlan_eq : ofPlan g p = p.counted.foldl (record g) [] :=
  congrArg Prod.snd collect_eq

-- The rows that come out of a node are those of the tables that are scanned there.
structure CountsFor (g : QueryGraph) (p : Plan) (tables : List String) (rows : Float) : Prop where
  sorted     : tables.Pairwise (· < ·)
  mem_tables : ∀ a, a ∈ tables ↔ a ∈ p.scanned ∧ a ∈ g.realAliases
  nonempty   : tables ≠ []
  unfiltered : isUnfiltered g tables p.operation = true
  rows_eq    : ∃ r loops, p.operation.actualRows = some r ∧ p.operation.actualLoops = some loops ∧ rows = r * loops

theorem mem_tablesOf : a ∈ tablesOf g p ↔ a ∈ p.scanned ∧ a ∈ g.realAliases := by
  simp [tablesOf, Text.mem_sortDistinct]

theorem countsFor_iff : CountsFor g p tables rows ↔
    tablesOf g p = tables ∧ count? g (tablesOf g p) p.operation = some rows := by
  constructor
  case mp =>
    intro h
    have htables : tablesOf g p = tables :=
      Text.pairwise_sortDistinct.eq_of_mem_iff h.sorted fun a => by
        rw [h.mem_tables]
        exact mem_tablesOf
    obtain ⟨r, loops, hr, hloops, rfl⟩ := h.rows_eq
    simp [htables, count?, h.nonempty, h.unfiltered, hr, hloops]
  case mpr =>
    rintro ⟨rfl, h⟩
    rw [count?] at h
    split at h
    case isFalse => cases h
    case isTrue hcounts =>
      simp only [Bool.and_eq_true, Bool.not_eq_true', List.isEmpty_eq_false_iff] at hcounts
      obtain ⟨r, hr, h⟩ := Option.bind_eq_some_iff.mp h
      obtain ⟨loops, hloops, h⟩ := Option.bind_eq_some_iff.mp h
      exact ⟨Text.pairwise_sortDistinct, fun _ => mem_tablesOf, hcounts.1, hcounts.2, r, loops, hr, hloops,
        (Option.some.inj h).symm⟩

-- A node counts for one set of tables at most.
theorem record_cases (g : QueryGraph) (p : Plan) (counts : RowCounts) :
    (record g counts p = counts ∧ ∀ tables rows, ¬CountsFor g p tables rows) ∨
    ∃ tables rows, record g counts p = set tables rows counts ∧
      ∀ other count, CountsFor g p other count ↔ other = tables ∧ count = rows := by
  rw [record]
  cases hcount : count? g (tablesOf g p) p.operation
  case none =>
    refine .inl ⟨rfl, fun tables rows h => ?_⟩
    simp [(countsFor_iff.mp h).2] at hcount
  case some rows =>
    refine .inr ⟨tablesOf g p, rows, rfl, fun other count => ?_⟩
    rw [countsFor_iff, hcount, Option.some_inj, eq_comm, eq_comm (a := rows)]

-- The last of some nodes that counts for the tables.
structure LastCount (g : QueryGraph) (ps : List Plan) (tables : List String) (p : Plan) (rows : Float) : Prop where
  counts : CountsFor g p tables rows
  last   : ∃ before after, ps = before ++ p :: after ∧ ∀ q ∈ after, ∀ count, ¬CountsFor g q tables count

theorem LastCount.mem (h : LastCount g ps tables p rows) : p ∈ ps := by
  obtain ⟨before, after, rfl, -⟩ := h.last
  simp

theorem lastCount_concat : LastCount g (ps ++ [q]) tables p rows ↔
    (p = q ∧ CountsFor g q tables rows) ∨
    ((∀ count, ¬CountsFor g q tables count) ∧ LastCount g ps tables p rows) := by
  constructor
  case mp =>
    rintro ⟨hcounts, before, after, heq, hafter⟩
    rcases List.eq_nil_or_concat after with rfl | ⟨after, q', rfl⟩
    · obtain ⟨-, hq⟩ := List.append_inj' heq rfl
      cases hq
      exact .inl ⟨rfl, hcounts⟩
    · have heq : ps ++ [q] = (before ++ p :: after) ++ [q'] := by simpa using heq
      obtain ⟨hps, hq⟩ := List.append_inj' heq rfl
      cases hq
      exact .inr ⟨hafter q (by simp), hcounts, before, after, hps,
        fun q' hq' => hafter q' (by simp [hq'])⟩
  case mpr =>
    rintro (⟨rfl, h⟩ | ⟨hnone, h, before, after, rfl, hafter⟩)
    · exact ⟨h, ps, [], rfl, nofun⟩
    · refine ⟨h, before, after ++ [q], by simp, fun q' hq' => ?_⟩
      rcases List.mem_append.mp hq' with hq' | hq'
      · exact hafter q' hq'
      · cases List.mem_singleton.mp hq'
        exact hnone

-- What is recorded after some nodes are the counts of the last of them for each set of tables.
theorem mem_foldl_record : (ps.foldl (record g) []).Ordered ∧
    ∀ tables rows, (tables, rows) ∈ ps.foldl (record g) [] ↔ ∃ p, LastCount g ps tables p rows := by
  induction ps using List.reverseRec
  case nil =>
    refine ⟨.nil, fun tables rows => ⟨nofun, ?_⟩⟩
    rintro ⟨p, h⟩
    cases h.mem
  case append_singleton ps q ih =>
    obtain ⟨hordered, hmem⟩ := ih
    rw [List.foldl_concat]
    simp only [lastCount_concat, exists_or, exists_and_left, ← hmem, exists_eq_left]
    rcases record_cases g q (ps.foldl (record g) []) with ⟨heq, hnone⟩ | ⟨t, r, heq, hcounts⟩
    case inl =>
      rw [heq]
      exact ⟨hordered, fun tables rows => by simp [hnone]⟩
    case inr =>
      rw [heq]
      refine ⟨hordered.set, fun tables rows => ?_⟩
      have hother : (∀ count, ¬CountsFor g q tables count) ↔ tables ≠ t := by simp [hcounts]
      rw [mem_set hordered, hcounts, hother]

-- What is recorded for some tables is the count of the last node that counts for them.
theorem mem_ofPlan : (tables, rows) ∈ ofPlan g p ↔ ∃ q, LastCount g p.counted tables q rows := by
  rw [ofPlan_eq]
  exact mem_foldl_record.2 tables rows

-- Other rows come out than went in, or fewer of them.
def changesRows (p : Plan) : Bool :=
  p.operation.operator?.any ([Operator.aggregate, .unique, .setOp, .limit].contains ·)

-- Every count is that of a node that scans exactly the tables, the last one that counts. Its rows are those of a join
-- if all nodes that change rows, as on top of the plan, scan further tables.
theorem recorded_counts (g : QueryGraph) (plan : Plan) (tables : List String) (rows : Float) :
    ((tables, rows) ∈ ofPlan g plan ↔ ∃ p, LastCount g plan.counted tables p rows) ∧
    ∀ p, LastCount g plan.counted tables p rows →
      tables ≠ [] ∧ (∀ a ∈ tables, a ∈ g.realAliases) ∧ p ∈ plan.subplans ∧
      ((∀ q ∈ plan.counted, changesRows q = true → ∃ a ∈ q.scanned, a ∈ g.realAliases ∧ a ∉ tables) →
        ∀ q ∈ p.counted, changesRows q = false) := by
  refine ⟨mem_ofPlan, fun p h => ⟨h.counts.nonempty, fun a ha => ((h.counts.mem_tables a).mp ha).2,
    Plan.counted_subset_subplans h.mem, fun hontop q hq => ?_⟩⟩
  by_contra hchanges
  obtain ⟨a, ha, hreal, hnot⟩ := hontop q (Plan.counted_subset h.mem hq) (by simpa using hchanges)
  exact hnot ((h.counts.mem_tables a).mpr ⟨Plan.scanned_subset hq ha, hreal⟩)

def wholeTable (table : Nat) : Occurrence where
  table
  cardinality := 100
  clauses := []
  isVirtual := false

def filmAndInfo : QueryGraph :=
  ((QueryGraph.empty.add (wholeTable 0) "t").2.add (wholeTable 1) "mi").2

def scanOf (aliasName : String) (rows : Float) : Plan :=
  .node { name := "Seq Scan", aliasName := some aliasName, actualRows := some rows, actualLoops := some 1 } []

-- The rows of a join are counted.
def countedJoin : Plan :=
  .node { name := "Aggregate", actualRows := some 1, actualLoops := some 1 } [
    .node { name := "Hash Join", actualRows := some 300, actualLoops := some 1 } [
      scanOf "mi" 250, .node { name := "Hash" } [scanOf "t" 100]]]

theorem lastCount_countedJoin : LastCount filmAndInfo countedJoin.counted ["mi"] (scanOf "mi" 250) 250 := by
  have hscanned : tablesOf filmAndInfo (scanOf "mi" 250) = ["mi"] := by decide +kernel
  have hcount : count? filmAndInfo ["mi"] (scanOf "mi" 250).operation = some 250 := by decide +kernel
  refine ⟨countsFor_iff.mpr ⟨hscanned, hscanned.symm ▸ hcount⟩, [], _, rfl, fun q hq count h => ?_⟩
  -- The nodes above it scan another table, too.
  have hother : ∀ q ∈ countedJoin.counted.tail, tablesOf filmAndInfo q ≠ ["mi"] := by decide +kernel
  exact hother q hq (countsFor_iff.mp h).1

theorem recorded_counts_countedJoin : LastCount filmAndInfo countedJoin.counted ["mi"] (scanOf "mi" 250) 250 ∧
    (∀ q ∈ countedJoin.counted, changesRows q = true →
      ∃ a ∈ q.scanned, a ∈ filmAndInfo.realAliases ∧ a ∉ ["mi"]) ∧
    (["mi"], 250) ∈ ofPlan filmAndInfo countedJoin ∧ ∀ q ∈ (scanOf "mi" 250).counted, changesRows q = false := by
  have hontop : ∀ q ∈ countedJoin.counted, changesRows q = true →
      ∃ a ∈ q.scanned, a ∈ filmAndInfo.realAliases ∧ a ∉ ["mi"] := by decide +kernel
  have hcounts := recorded_counts filmAndInfo countedJoin ["mi"] 250
  exact ⟨lastCount_countedJoin, hontop, hcounts.1.mpr ⟨_, lastCount_countedJoin⟩,
    (hcounts.2 _ lastCount_countedJoin).2.2.2 hontop⟩

-- Of the rows of a table only the first is handed on.
def limitedScan : Plan :=
  .node { name := "Limit", actualRows := some 1, actualLoops := some 1 } [scanOf "t" 100]

theorem not_counts_limitedScan : (["t"], 1) ∈ ofPlan (QueryGraph.empty.add (wholeTable 0) "t").2 limitedScan ∧
    ∀ p ∈ limitedScan.subplans, CountsFor (QueryGraph.empty.add (wholeTable 0) "t").2 p ["t"] 1 →
      changesRows p = true := by
  constructor
  · have hcounts : ofPlan (QueryGraph.empty.add (wholeTable 0) "t").2 limitedScan = [(["t"], 1)] := by decide +kernel
    simp [hcounts]
  · intro p hp hcounts
    have hcases : p = limitedScan ∨ p = scanOf "t" 100 := by
      simpa [limitedScan, scanOf, Plan.subplans, Plan.subplansAll] using hp
    rcases hcases with rfl | rfl
    · decide
    · obtain ⟨r, loops, hr, hloops, hrows⟩ := hcounts.rows_eq
      cases hr
      cases hloops
      exact absurd hrows (by decide)

end RowCounts

end Subplans
