import Subplans.Condition.Names
import Subplans.Proofs.Text.Balanced

/-!
Conditions that a planner prints, and the conjuncts they are split into.

A planner puts parentheses around each of several conjuncts and around all of them. Three scans have to agree on such
a text: the parentheses around it are taken off, it is split, and the parts are left as they are because they are in
parentheses. As each of them passes over quotations and matched parentheses, the conjuncts come back as they were,
whatever stands in them (`conjuncts_intercalate`).
-/

namespace Subplans.Condition

open Text

variable {texts : List (List Char)}

theorem conjuncts_intercalate (hne : texts ≠ []) (h : ∀ t ∈ texts, Parenthesized t) :
    conjuncts ('(' :: " AND ".toList.intercalate texts ++ [')']) = texts := by
  have hsep : Balanced " AND ".toList := .of_isPlain rfl
  have hinside : Balanced (" AND ".toList.intercalate texts) := hsep.intercalate fun t ht => (h t ht).balanced
  have hwhole : trim ('(' :: " AND ".toList.intercalate texts ++ [')']) =
      '(' :: " AND ".toList.intercalate texts ++ [')'] :=
    trim_of_parentheses (Parenthesized.ends ⟨_, hinside, rfl⟩)
  have hstrip : stripParens ('(' :: " AND ".toList.intercalate texts ++ [')']) = " AND ".toList.intercalate texts := by
    rw [stripParens_of_balanced hinside, trim_of_parentheses (ends_intercalate hne h)]
  have hsplit : splitTopLevel " AND ".toList (" AND ".toList.intercalate texts) = texts :=
    splitTopLevel_intercalate (by decide) hne h
  -- The parts are neither trimmed nor dropped, and need no parentheses.
  have htrim : ∀ t ∈ texts, trim t = t := fun t ht => trim_of_parentheses (h t ht).ends
  have hfull : ∀ t ∈ texts, (!t.isEmpty) = true := by
    intro t ht
    obtain ⟨inside, -, rfl⟩ := h t ht
    rfl
  have hwrapped : ∀ t ∈ texts, isParenthesized t = true := by
    intro t ht
    rw [isParenthesized_iff, htrim t ht]
    exact h t ht
  have hparts : (splitTopLevel " AND ".toList (" AND ".toList.intercalate texts)).map trim = texts := by
    rw [hsplit]
    exact (List.map_congr_left htrim).trans (List.map_id _)
  rw [conjuncts, hwhole, hstrip, hparts]
  simp only [List.cons_append, List.isEmpty_cons, Bool.false_eq_true, if_false, List.filter_eq_self.mpr hfull]
  exact (List.map_congr_left fun t ht => if_pos (hwrapped t ht)).trans (List.map_id _)

-- Marks, parentheses and the words of conditions stand in these.
def titleConditions : List (List Char) :=
  ["(t.title ~~ '%it''s (a) AND (b%'::text)".toList, "((t.id = 1) OR ((t.id = 2) AND (t.kind = ')')))".toList,
    "( NOT (t.note = '') )".toList]

theorem conjuncts_intercalate_titleConditions : titleConditions ≠ [] ∧ (∀ t ∈ titleConditions, Parenthesized t) ∧
    conjuncts ('(' :: " AND ".toList.intercalate titleConditions ++ [')']) = titleConditions := by
  have hne : titleConditions ≠ [] := List.cons_ne_nil _ _
  have htexts : ∀ t ∈ titleConditions, Parenthesized t := by decide +kernel
  exact ⟨hne, htexts, conjuncts_intercalate hne htexts⟩

end Subplans.Condition
