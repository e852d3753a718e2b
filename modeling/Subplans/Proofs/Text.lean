import Subplans.Text.Scan

/-!
Texts that are trimmed, texts whose marks are doubled, and texts that are cut at a character.
-/

namespace Subplans.Text

variable {c : Char} {x text : List Char} {lines : List (List Char)}

theorem isAlpha_iff_toNat : c.isAlpha = true ↔ 65 ≤ c.toNat ∧ c.toNat ≤ 90 ∨ 97 ≤ c.toNat ∧ c.toNat ≤ 122 := by
  have hranges : c.isAlpha = (decide (65 ≤ c.toNat ∧ c.toNat ≤ 90) ||
      decide (97 ≤ c.toNat) && decide (c.toNat ≤ 122)) := rfl
  simp [hranges]

theorem trimStart_of_head (h : ∀ c ∈ text.head?, isBlank c = false) : trimStart text = text := by
  cases text
  case nil => rfl
  case cons c rest =>
    rw [trimStart, List.dropWhile_cons_of_neg]
    simpa using h c rfl

-- Text that neither starts nor ends with a blank.
theorem trim_of_ends (hhead : ∀ c ∈ text.head?, isBlank c = false) (hlast : ∀ c ∈ text.getLast?, isBlank c = false) :
    trim text = text := by
  have hreverse : trimStart text.reverse = text.reverse := trimStart_of_head (by rwa [List.head?_reverse])
  rw [trim, trimStart_of_head hhead, trimEnd]
  exact (congrArg List.reverse hreverse).trans (List.reverse_reverse text)

theorem trim_of_prefix_suffix {first last : List Char} (hfirst : first <+: text) (hlast : last <:+ text)
    (hne : first ≠ []) (hne' : last ≠ []) (h : ∀ c ∈ first ++ last, isBlank c = false) : trim text = text := by
  apply trim_of_ends
  · obtain ⟨rest, rfl⟩ := hfirst
    intro c hc
    rw [List.head?_append, Option.or_of_isSome (List.isSome_head?.mpr hne)] at hc
    exact h c (List.mem_append_left _ (List.mem_of_mem_head? hc))
  · obtain ⟨rest, rfl⟩ := hlast
    intro c hc
    rw [List.getLast?_append, Option.or_of_isSome (List.getLast?_isSome.mpr hne')] at hc
    exact h c (List.mem_append_right _ (List.mem_of_mem_getLast? hc))

theorem double_cons : double quoteMark (c :: x) =
    (if c == quoteMark then [quoteMark, quoteMark] else [c]) ++ double quoteMark x :=
  List.flatMap_cons

theorem double_append {y : List Char} : double quoteMark (x ++ y) = double quoteMark x ++ double quoteMark y :=
  List.flatMap_append

theorem length_double : (double quoteMark x).length = x.length + x.count quoteMark := by
  induction x
  case nil => rfl
  case cons c x ih =>
    rw [double_cons, List.length_append, ih, List.count_cons]
    cases hc : c == quoteMark
    case true => simp; omega
    case false => simp; omega

theorem double_eq_self : double quoteMark x = x ↔ quoteMark ∉ x := by
  constructor
  case mp =>
    intro h
    have hlength := congrArg List.length h
    rw [length_double] at hlength
    exact List.count_eq_zero.mp (by omega)
  case mpr =>
    intro h
    induction x
    case nil => rfl
    case cons c x ih =>
      rw [List.mem_cons, not_or] at h
      rw [double_cons, ih h.2, if_neg (by simpa using Ne.symm h.1)]
      rfl

theorem cut?_of_notMem {before after : List Char} (h : c ∉ before) :
    cut? [c] (before ++ c :: after) = some (before, after) := by
  induction before
  case nil => simp [cut?]
  case cons d before ih =>
    rw [List.mem_cons, not_or] at h
    simp [cut?, h.1, ih h.2]

theorem eq_of_cut? {before after : List Char} (h : cut? [c] text = some (before, after)) :
    text = before ++ c :: after := by
  induction text generalizing before
  case nil => cases h
  case cons d text ih =>
    rw [cut?] at h
    split at h
    case isTrue hd =>
      have hd : c = d := by simpa using hd
      cases h
      simp [hd]
    case isFalse =>
      obtain ⟨⟨x, y⟩, hcut, heq⟩ := Option.map_eq_some_iff.mp h
      cases heq
      rw [ih hcut, List.cons_append]

theorem cut?_eq_none (h : c ∉ text) : cut? [c] text = none := by
  induction text
  case nil => rfl
  case cons d text ih =>
    rw [List.mem_cons, not_or] at h
    simp [cut?, h.1, ih h.2]

theorem splitOn_eq : splitOn [c] text = text.splitOn c := by
  induction text
  case nil => rfl
  case cons d text ih =>
    have ⟨part, parts, hparts⟩ := List.exists_cons_of_ne_nil (List.splitOn_ne_nil c text)
    have ih : splitOnFrom [c] 0 text = part :: parts := ih.trans hparts
    rw [splitOn, splitOnFrom, List.splitOn_cons_eq_if_modifyHead, hparts]
    by_cases h : d = c
    case pos => simp [h, ih]
    case neg => simp [h, Ne.symm h, ih]

end Subplans.Text
