import Subplans.Proofs.Recovery.Contents
import Subplans.Proofs.Schema.Equivalence
import Subplans.Recovery.Join

/-!
Conditions become joins.

Every join that is placed between two queries stands for a condition that can be read as the equality of the
two columns it joins (`reads_of_placeCondition`), and every condition is placed or handed on
(`placedAll_of_placeConditions`).
-/

namespace Subplans

open QueryGraph

variable {s : Schema} {first second : QueryGraph} {left right : String × String} {j : EquivalenceJoin}
  {c d : ColumnRef}

theorem QueryGraph.realNode?_eq_some {g : QueryGraph} {a : String} {n : Nat} (hg : g.WellFormed)
    (h : g.realNode? a = some n) : n ∈ g.realNodes ∧ g.aliasName n = a := by
  have ⟨halias, hv⟩ := Option.filter_eq_some_iff.mp h
  have ⟨hc, ha⟩ := (hg.byAlias a n).mp halias
  exact ⟨hg.mem_realNodes.mpr ⟨hc, by simpa using hv⟩, ha⟩

-- The join leads from the column of the one alias in the first graph to that of the other in the second.
structure Leads (s : Schema) (first second : QueryGraph) (a b : String × String) (j : EquivalenceJoin)
    (c d : ColumnRef) : Prop where
  firstReal    : j.first ∈ first.realNodes
  firstAlias   : first.aliasName j.first = a.1
  firstColumn  : s.column? (first.node j.first).table a.2 = some c
  secondReal   : j.second ∈ second.realNodes
  secondAlias  : second.aliasName j.second = b.1
  secondColumn : s.column? (second.node j.second).table b.2 = some d
  connection   : s.connection? c d = some j.connection

theorem leads_of_joinColumns {a b : String × String} {n m : Nat} (hn : n ∈ first.realNodes)
    (hm : m ∈ second.realNodes) (ha : first.aliasName n = a.1) (hb : second.aliasName m = b.1)
    (h : joinColumns s first second (n, a.2) (m, b.2) = .join j) : ∃ c d, Leads s first second a b j c d := by
  unfold joinColumns at h
  split at h
  case h_2 => cases h
  case h_1 c d hc hd =>
    split at h
    case isTrue => cases h
    case isFalse =>
      split at h
      case h_2 => cases h
      case h_1 hconnection =>
        cases h
        exact ⟨c, d, hn, ha, hc, hm, hb, hd, hconnection⟩

theorem leads_of_resolve (hf : first.WellFormed) (hs : second.WellFormed)
    (h : resolve s first second left right = .join j) :
    ∃ c d, Leads s first second left right j c d ∨ Leads s first second right left j c d := by
  unfold resolve at h
  split at h
  case h_1 a b ha hb =>
    have ⟨ha, hal⟩ := realNode?_eq_some hf ha
    have ⟨hb, hbr⟩ := realNode?_eq_some hs hb
    have ⟨c, d, hleads⟩ := leads_of_joinColumns ha hb hal hbr h
    exact ⟨c, d, .inl hleads⟩
  case h_2 =>
    split at h
    case h_2 => cases h
    case h_1 a b ha hb =>
      have ⟨ha, har⟩ := realNode?_eq_some hf ha
      have ⟨hb, hbl⟩ := realNode?_eq_some hs hb
      have ⟨c, d, hleads⟩ := leads_of_joinColumns ha hb har hbl h
      exact ⟨c, d, .inr hleads⟩

-- The nodes of the graph that are not virtual stand for scans among these.
def DrawnFrom (r : Recovery Id) (scans : List Scan) (g : QueryGraph) : Prop :=
  ∀ n ∈ g.realNodes, ∃ scan ∈ scans, r.Stands scan (g.aliasName n, g.node n)

theorem DrawnFrom.mono {scans scans' : List Scan} (h : DrawnFrom r scans g) (hsub : scans ⊆ scans') :
    DrawnFrom r scans' g := by
  intro n hn
  have ⟨scan, hscan, hstands⟩ := h n hn
  exact ⟨scan, hsub hscan, hstands⟩

theorem names_of_drawnFrom {r : Recovery Id} {g : QueryGraph} {scans : List Scan} {n : Nat}
    {side : Condition.JoinColumn} (h : DrawnFrom r scans g) (hn : n ∈ g.realNodes)
    (hside : ∀ a, side.aliasName = some a → a = g.aliasName n)
    (hc : s.column? (g.node n).table side.column = some c) : Names s scans side (g.aliasName n, c) := by
  have ⟨scan, hscan, hstands⟩ := h n hn
  exact ⟨hside, scan, hscan, hstands.aliasName.symm, hstands.table ▸ hc⟩

theorem reads_of_placeCondition {r : Recovery Id} {scans : List Scan} {preferred : Option Side}
    {condition : String}
    (hf : first.WellFormed) (hs : second.WellFormed) (hwf : DrawnFrom r scans first)
    (hws : DrawnFrom r scans second)
    (h : Recovery.placeCondition s first second preferred condition = .join j) :
    ∃ c d, j.first ∈ first.realNodes ∧ j.second ∈ second.realNodes ∧ s.connection? c d = some j.connection ∧
      Reads s scans condition (first.aliasName j.first, c) (second.aliasName j.second, d) := by
  unfold Recovery.placeCondition at h
  split at h
  case h_1 => split at h <;> cases h
  case h_2 left right hcolumns =>
    dsimp only at h
    split at h
    case h_2 => cases h
    case h_1 a b ha hb =>
      -- A qualifier is never overruled, whatever is known of bare names.
      have located : ∀ {side : Condition.JoinColumn} {a name : String},
          (side.aliasName.orElse fun _ => findAlias? s first second side.column preferred) = some a → a = name →
          ∀ a', side.aliasName = some a' → a' = name := by
        rintro side a _ hside rfl a' ha'
        simpa [ha'] using hside
      have ⟨c, d, hleads⟩ := leads_of_resolve hf hs h
      refine ⟨c, d, ?_⟩
      rcases hleads with hl | hl
      · have hfirst := names_of_drawnFrom hwf hl.firstReal (located ha hl.firstAlias.symm) hl.firstColumn
        have hsecond := names_of_drawnFrom hws hl.secondReal (located hb hl.secondAlias.symm) hl.secondColumn
        exact ⟨hl.firstReal, hl.secondReal, hl.connection, left, right, hcolumns, .inl ⟨hfirst, hsecond⟩⟩
      · have hfirst := names_of_drawnFrom hwf hl.firstReal (located hb hl.firstAlias.symm) hl.firstColumn
        have hsecond := names_of_drawnFrom hws hl.secondReal (located ha hl.secondAlias.symm) hl.secondColumn
        exact ⟨hl.firstReal, hl.secondReal, hl.connection, left, right, hcolumns, .inr ⟨hsecond, hfirst⟩⟩

section Placed

variable {place : String → JoinResolution} {conditions : List String} {joins joins' : List EquivalenceJoin}
  {orphaned orphaned' : List String} {condition : String}

-- What the conditions have become, if none had to be rejected.
structure PlacedAll (place : String → JoinResolution) (conditions : List String) (joins : List EquivalenceJoin)
    (orphaned : List String) : Prop where
  origin : ∀ j ∈ joins, ∃ condition ∈ conditions, place condition = .join j
  placed : ∀ condition ∈ conditions, condition ∈ orphaned ∨ ∃ j ∈ joins, place condition = .join j
  rest   : ∀ condition ∈ orphaned, condition ∈ conditions

-- A join that is there already is not added again.
theorem mem_added {k : EquivalenceJoin} :
    (k ∈ if joins.contains j then joins else joins ++ [j]) ↔ k ∈ joins ∨ k = j := by
  split
  case isTrue hc =>
    rw [List.contains_iff_mem] at hc
    exact ⟨.inl, fun h => h.elim id fun h => h ▸ hc⟩
  case isFalse => simp

namespace PlacedAll

theorem add_join (h : PlacedAll place conditions joins orphaned) (hj : place condition = .join j) :
    PlacedAll place (conditions ++ [condition]) (if joins.contains j then joins else joins ++ [j]) orphaned where
  origin k hk := by
    cases mem_added.mp hk
    case inl hk =>
      have ⟨condition, hmem, hplace⟩ := h.origin k hk
      exact ⟨condition, List.mem_append_left _ hmem, hplace⟩
    case inr hk => exact ⟨condition, by simp, hk ▸ hj⟩
  placed c hc := by
    cases List.mem_append.mp hc
    case inl hc =>
      refine (h.placed c hc).imp_right fun ⟨k, hk, hplace⟩ => ?_
      exact ⟨k, mem_added.mpr (.inl hk), hplace⟩
    case inr hc =>
      cases List.mem_singleton.mp hc
      exact .inr ⟨j, mem_added.mpr (.inr rfl), hj⟩
  rest c hc := List.mem_append_left _ (h.rest c hc)

theorem add_orphan (h : PlacedAll place conditions joins orphaned) :
    PlacedAll place (conditions ++ [condition]) joins (orphaned ++ [condition]) where
  origin k hk := by
    have ⟨condition, hmem, hplace⟩ := h.origin k hk
    exact ⟨condition, List.mem_append_left _ hmem, hplace⟩
  placed c hc := by
    cases List.mem_append.mp hc
    case inl hc => exact (h.placed c hc).imp_left (List.mem_append_left _)
    case inr hc => exact .inl (List.mem_append_right _ hc)
  rest c hc := by
    cases List.mem_append.mp hc
    case inl hc => exact List.mem_append_left _ (h.rest c hc)
    case inr hc => exact List.mem_append_right _ hc

end PlacedAll

theorem placedAll_append {rest : List String} (hdone : PlacedAll place conditions joins orphaned)
    (h : placeConditions place joins orphaned rest = some (joins', orphaned')) :
    PlacedAll place (conditions ++ rest) joins' orphaned' := by
  induction rest generalizing conditions joins orphaned
  case nil =>
    cases h
    simpa using hdone
  case cons condition rest ih =>
    rw [List.append_cons]
    unfold placeConditions at h
    split at h
    case h_1 hj => exact ih (hdone.add_join hj) h
    case h_2 => exact ih hdone.add_orphan h
    case h_3 => cases h

theorem placedAll_of_placeConditions (h : placeConditions place [] [] conditions = some (joins, orphaned)) :
    PlacedAll place conditions joins orphaned := by
  have hnone : PlacedAll place [] [] [] := ⟨nofun, nofun, nofun⟩
  exact placedAll_append hnone h

-- Conditions are handed on as they come up, and none is rejected.
theorem orphaned_append {rest : List String}
    (h : placeConditions place joins orphaned rest = some (joins', orphaned')) :
    orphaned' = orphaned ++ rest.filter (place · = .orphaned) ∧ ∀ condition ∈ rest, place condition ≠ .rejected := by
  induction rest generalizing joins orphaned
  case nil =>
    cases h
    simp
  case cons condition rest ih =>
    unfold placeConditions at h
    split at h
    case h_1 hj => simpa [hj] using ih h
    case h_2 ho => simpa [ho] using ih h
    case h_3 => cases h

theorem orphaned_of_placeConditions (h : placeConditions place [] [] conditions = some (joins, orphaned)) :
    orphaned = conditions.filter (place · = .orphaned) ∧ ∀ condition ∈ conditions, place condition ≠ .rejected :=
  orphaned_append h

end Placed

-- A pair of a key that consists of just one.
theorem steps_of_crosses (hk : ∀ key ∈ s.keys, key.pairs.length = 1) {k : Nat} {natural : Bool}
    (h : s.bonds.Crosses k natural c d ∧ c ≠ d) : Steps s k natural c d := by
  have proper : ∀ {c d}, s.bonds k c d → c ≠ d → IsProper s k c d := by
    rintro c d ⟨key, hkey, hmem⟩ hne
    have ⟨p, hp⟩ := List.length_eq_one_iff.mp (hk key (List.mem_of_getElem? hkey))
    rw [hp] at hmem
    refine ⟨?_, hne⟩
    rw [Schema.key, List.getD_eq_getElem?_getD, hkey, Option.getD_some, hp, List.mem_singleton.mp hmem]
  cases natural
  case false => exact proper h.1 h.2.symm
  case true => exact proper h.1 h.2

theorem walk_of_connection? (hs : s.Loaded) (hk : ∀ key ∈ s.keys, key.pairs.length = 1)
    (h : s.connection? c d = some j.connection) : Walk (Steps s) c j.connection d :=
  (hs.walk_proper h).mono fun _ _ _ _ => steps_of_crosses hk

end Subplans
