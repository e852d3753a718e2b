import Subplans.Condition.Grammar
import Subplans.Proofs.Execution.RowCounts

/-!
Scans that are repeated for the rows of another table.

The index condition of such a scan compares a column of its table with one of the other (`IsParameterized`), so its rows
are those of a join. They do not count for the table as long as every clause that the query has on the table is shown at
the scan by a condition of its own (`parameterized_not_recorded`): then there are more conditions than clauses.
-/

namespace Subplans.RowCounts

variable {g : QueryGraph} {p plan : Plan} {a : String} {rows : Float}

-- The two columns that are compared, as they are written.
def comparedColumns? (conjunct : List Char) : Option (String × String) := do
  let tokens ← Condition.tokens? (String.ofList (Text.stripParens conjunct))
  match Condition.comparison? tokens with
  | some (.compare ⟨.column left, _⟩ _ ⟨.column right, _⟩, []) => some (left, right)
  | _ => none

def qualifier? (column : String) : Option String :=
  (Text.cut? ['.'] column.toList).map fun (qualifier, _) => String.ofList qualifier

-- A column without a qualifier is one of the table that is scanned.
def isOwn (a column : String) : Bool :=
  (qualifier? column).all (· == a)

-- A column of another table of the query.
def isForeign (g : QueryGraph) (a column : String) : Bool :=
  (qualifier? column).any fun b => b != a && g.realAliases.contains b

-- A column of the table is compared with one of another table of the query.
def comparesTables (g : QueryGraph) (a : String) (conjunct : List Char) : Bool :=
  (comparedColumns? conjunct).any fun (left, right) =>
    (isOwn a left && isForeign g a right) || (isOwn a right && isForeign g a left)

-- Rows of the table are looked up for rows of another one.
def IsParameterized (g : QueryGraph) (a : String) (p : Plan) : Prop :=
  ∃ text, p.operation.indexCondition = some text ∧
    ∃ conjunct ∈ Condition.conjuncts text.toList, comparesTables g a conjunct = true

-- The conditions that a node applies.
def shown (p : Plan) : List (List Char) :=
  (droppingConditions p.operation).flatMap fun text => Condition.conjuncts text.toList

def clausesOn (g : QueryGraph) (a : String) : Clauses :=
  ((g.byAlias? a).map fun n => (g.node n).clauses).getD []

-- There is a condition on the table alone for every clause that the query has on it.
def ShowsClauses (g : QueryGraph) (a : String) (p : Plan) : Prop :=
  (clausesOn g a).length ≤ ((shown p).filter (!comparesTables g a ·)).length

theorem IsParameterized.exists_other (h : IsParameterized g a p) : ∃ b ∈ g.realAliases, b ≠ a := by
  obtain ⟨_, -, conjunct, -, hcompares⟩ := h
  obtain ⟨⟨left, right⟩, -, hsides⟩ := (Option.any_eq_true _ _).mp hcompares
  have hforeign : ∀ column, isForeign g a column = true → ∃ b ∈ g.realAliases, b ≠ a := by
    intro column h
    obtain ⟨b, -, hb⟩ := (Option.any_eq_true _ _).mp h
    simp only [Bool.and_eq_true, bne_iff_ne, List.contains_iff_mem] at hb
    exact ⟨b, hb.2, hb.1⟩
  simp only [Bool.or_eq_true, Bool.and_eq_true] at hsides
  exact hsides.elim (fun h => hforeign _ h.2) fun h => hforeign _ h.2

theorem not_isParameterized (h : p.operation.indexCondition = none) : ¬IsParameterized g a p := by
  rintro ⟨_, htext, -⟩
  cases h.symm.trans htext

theorem IsParameterized.exists_shown (h : IsParameterized g a p) :
    ∃ conjunct ∈ shown p, comparesTables g a conjunct = true := by
  obtain ⟨text, htext, conjunct, hmem, hcompares⟩ := h
  refine ⟨conjunct, List.mem_flatMap.mpr ⟨text, ?_, hmem⟩, hcompares⟩
  simp [droppingConditions, htext]

-- A table counts where its index condition is met if there are as many clauses as conditions.
theorem CountsFor.length_eq (h : CountsFor g p [a] rows) (hp : IsParameterized g a p) :
    (clausesOn g a).length = (shown p).length := by
  obtain ⟨b, hb, hne⟩ := hp.exists_other
  have hsome : [a] ≠ g.realAliases := by
    intro heq
    rw [← heq] at hb
    exact hne (List.mem_singleton.mp hb)
  obtain ⟨text, htext, -⟩ := hp
  have hconditions : (droppingConditions p.operation).isEmpty = false := by simp [droppingConditions, htext]
  have hunfiltered := h.unfiltered
  simp only [isUnfiltered, beq_eq_false_iff_ne.mpr hsome, hconditions, Bool.false_or, Bool.false_eq_true,
    reduceIte] at hunfiltered
  cases hn : g.byAlias? a
  case none => simp [hn] at hunfiltered
  case some n =>
    simp only [hn, beq_iff_eq] at hunfiltered
    simp [clausesOn, hn, shown, hunfiltered]

theorem not_countsFor (hp : IsParameterized g a p) (hshown : ShowsClauses g a p) : ¬CountsFor g p [a] rows := by
  intro h
  -- The condition that looks up the rows is one more.
  obtain ⟨conjunct, hmem, hcompares⟩ := hp.exists_shown
  have hless : ((shown p).filter (!comparesTables g a ·)).length < (shown p).length :=
    List.length_filter_lt_length_iff_exists.mpr ⟨conjunct, hmem, by simp [hcompares]⟩
  have hequal := h.length_eq hp
  unfold ShowsClauses at hshown
  omega

-- Where every clause on the table is shown by a condition of its own, a scan for the rows of another table does not
-- count for its table, and what is recorded for it is the count of another node.
theorem parameterized_not_recorded (g : QueryGraph) (plan : Plan) (a : String)
    (hshown : ∀ p ∈ plan.counted, IsParameterized g a p → ShowsClauses g a p) :
    (∀ p ∈ plan.counted, IsParameterized g a p → ∀ rows, ¬CountsFor g p [a] rows) ∧
    ∀ rows, ([a], rows) ∈ ofPlan g plan → ∃ p, LastCount g plan.counted [a] p rows ∧ ¬IsParameterized g a p := by
  have hnot : ∀ p ∈ plan.counted, IsParameterized g a p → ∀ rows, ¬CountsFor g p [a] rows :=
    fun p hp hparameterized _ => not_countsFor hparameterized (hshown p hp hparameterized)
  refine ⟨hnot, fun rows hmem => ?_⟩
  obtain ⟨p, hlast⟩ := mem_ofPlan.mp hmem
  exact ⟨p, hlast, fun hparameterized => hnot p hlast.mem hparameterized rows hlast.counts⟩

-- Films with some clauses, and information about them.
def filmsWith (clauses : Clauses) : QueryGraph :=
  ((QueryGraph.empty.add { wholeTable 0 with clauses } "t").2.add (wholeTable 1) "mi").2

def filmLookup (filter : String) : Plan :=
  .node {
    name := "Index Scan"
    aliasName := some "t"
    indexCondition := some "(id = mi.movie_id)"
    filter := some filter
    actualRows := some 1
    actualLoops := some 250
  } []

-- A film is looked up for every information.
def lookups (filter : String) : Plan :=
  .node { name := "Nested Loop", actualRows := some 250, actualLoops := some 1 } [scanOf "mi" 250, filmLookup filter]

section Films

variable {clauses : Clauses} {filter : String}

theorem realAliases_filmsWith : (filmsWith clauses).realAliases = ["mi", "t"] := by
  have hnodes : (filmsWith clauses).realNodes.map (filmsWith clauses).aliasName = ["t", "mi"] := rfl
  rw [QueryGraph.realAliases, hnodes]
  decide

theorem comparedColumns?_filmLookup : comparedColumns? "(id = mi.movie_id)".toList = some ("id", "mi.movie_id") := by
  have htokens : Condition.tokens? (String.ofList (Text.stripParens "(id = mi.movie_id)".toList)) =
      some [.word "id", .operator "=", .word "mi.movie_id"] := by decide +kernel
  have hcompare : Condition.comparison? [.word "id", .operator "=", .word "mi.movie_id"] =
      some (.compare ⟨.column "id", none⟩ "=" ⟨.column "mi.movie_id", none⟩, []) := rfl
  rw [comparedColumns?, htokens]
  simp only [Option.bind_eq_bind, Option.bind_some, hcompare]

theorem conjuncts_filmLookup : Condition.conjuncts "(id = mi.movie_id)".toList = ["(id = mi.movie_id)".toList] := by
  decide +kernel

theorem comparesTables_filmLookup : comparesTables (filmsWith clauses) "t" "(id = mi.movie_id)".toList = true := by
  have hown : isOwn "t" "id" = true := by decide
  have hqualifier : qualifier? "mi.movie_id" = some "mi" := by decide
  rw [comparesTables, comparedColumns?_filmLookup]
  simp [hown, isForeign, hqualifier, realAliases_filmsWith]

theorem comparedColumns?_ofKind : comparedColumns? "(kind_id = 1)".toList = none := by
  have htokens : Condition.tokens? (String.ofList (Text.stripParens "(kind_id = 1)".toList)) =
      some [.word "kind_id", .operator "=", .number "1"] := by decide +kernel
  have hcompare : Condition.comparison? [.word "kind_id", .operator "=", .number "1"] =
      some (.compare ⟨.column "kind_id", none⟩ "=" ⟨.literal "1", none⟩, []) := rfl
  rw [comparedColumns?, htokens]
  simp only [Option.bind_eq_bind, Option.bind_some, hcompare]

theorem isParameterized_filmLookup : IsParameterized (filmsWith clauses) "t" (filmLookup filter) := by
  refine ⟨_, rfl, _, ?_, comparesTables_filmLookup⟩
  rw [conjuncts_filmLookup]
  exact List.mem_singleton_self _

theorem mem_counted_lookups : p ∈ (lookups filter).counted ↔
    p = scanOf "mi" 250 ∨ p = filmLookup filter ∨ p = lookups filter := by
  simp [lookups, scanOf, filmLookup, Plan.counted, Plan.countedAll]

end Films

-- Films of one kind.
def oneKind : Clauses :=
  [[.verbatim "t.kind_id = 1" true]]

theorem parameterized_not_recorded_lookups :
    IsParameterized (filmsWith oneKind) "t" (filmLookup "(kind_id = 1)") ∧
    (∀ p ∈ (lookups "(kind_id = 1)").counted, IsParameterized (filmsWith oneKind) "t" p →
      ShowsClauses (filmsWith oneKind) "t" p) ∧
    ∀ rows, ¬CountsFor (filmsWith oneKind) (filmLookup "(kind_id = 1)") ["t"] rows := by
  have hcompares : comparesTables (filmsWith oneKind) "t" "(kind_id = 1)".toList = false := by
    rw [comparesTables, comparedColumns?_ofKind]
    rfl
  have hshown : ∀ p ∈ (lookups "(kind_id = 1)").counted, IsParameterized (filmsWith oneKind) "t" p →
      ShowsClauses (filmsWith oneKind) "t" p := by
    intro p hp hparameterized
    rcases mem_counted_lookups.mp hp with rfl | rfl | rfl
    · exact absurd hparameterized (not_isParameterized rfl)
    · have hconditions : shown (filmLookup "(kind_id = 1)") =
          ["(id = mi.movie_id)".toList, "(kind_id = 1)".toList] := by decide +kernel
      rw [ShowsClauses, hconditions, List.filter_cons, comparesTables_filmLookup, List.filter_cons, hcompares]
      decide
    · exact absurd hparameterized (not_isParameterized rfl)
  have hlookup : filmLookup "(kind_id = 1)" ∈ (lookups "(kind_id = 1)").counted :=
    mem_counted_lookups.mpr (.inr (.inl rfl))
  exact ⟨isParameterized_filmLookup, hshown,
    (parameterized_not_recorded _ _ "t" hshown).1 _ hlookup isParameterized_filmLookup⟩

-- Films of two kinds are left out. This is one condition and two clauses, as many as conditions if the one that looks
-- up the films is counted.
def otherKinds : Clauses :=
  [[.verbatim "t.kind_id <> 1" true], [.verbatim "t.kind_id <> 2" true]]

def otherKindsText : String :=
  "(kind_id <> ALL ('\x7b1,2\x7d'::integer[]))"

theorem recorded_otherKinds : IsParameterized (filmsWith otherKinds) "t" (filmLookup otherKindsText) ∧
    (["t"], 250) ∈ ofPlan (filmsWith otherKinds) (lookups otherKindsText) ∧
    LastCount (filmsWith otherKinds) (lookups otherKindsText).counted ["t"] (filmLookup otherKindsText) 250 := by
  have hcounts : ofPlan (filmsWith otherKinds) (lookups otherKindsText) =
      [(["mi"], 250), (["mi", "t"], 250), (["t"], 250)] := by decide +kernel
  have htables : tablesOf (filmsWith otherKinds) (filmLookup otherKindsText) = ["t"] := by decide +kernel
  have hcount : count? (filmsWith otherKinds) ["t"] (filmLookup otherKindsText).operation = some 250 := by
    decide +kernel
  have hjoin : tablesOf (filmsWith otherKinds) (lookups otherKindsText) ≠ ["t"] := by decide +kernel
  refine ⟨isParameterized_filmLookup, by simp [hcounts], countsFor_iff.mpr ⟨htables, htables.symm ▸ hcount⟩,
    [scanOf "mi" 250], [lookups _], rfl, ?_⟩
  intro q hq count h
  cases List.mem_singleton.mp hq
  exact hjoin (countsFor_iff.mp h).1

end Subplans.RowCounts
