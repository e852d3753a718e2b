import Mathlib.Data.List.Basic
import Mathlib.Tactic.IntervalCases
import Subplans.Json.Reader
import Subplans.Json.Writer

/-!
Texts in JSON, and arrays of them, are read as they were written.

An escape is read as the character that it stands for (`units?_escape`), so every text is read between its marks
(`value?_quoted`), and several between brackets (`read?_bracketed`).
-/

namespace Subplans.Json

variable {c : Char} {x : String} {xs : List String} {text run rest : List Char}

-- Texts with a comma and a space between one and the next.
def listed (xs : List String) : List Char :=
  [',', ' '].intercalate (xs.map fun x => (quoted x).toList)

def bracketed (xs : List String) : List Char :=
  '[' :: (listed xs ++ [']'])

theorem escape_eq (hcontrol : 0x20 ≤ c.toNat) (hmark : c.toNat ≠ 0x22) (hslash : c.toNat ≠ 0x5C) : escape c = [c] := by
  have hne : ∀ n < 0x20, (c.toNat == n) = false := fun n hn => beq_eq_false_iff_ne.mpr (by omega)
  simp [escape, hmark, hslash, Nat.not_lt.mpr hcontrol, hne]

-- An escape is read as the character for which it stands.
theorem units?_escape : units? (escape c ++ text) =
    (units? text).map fun (units, after) => (c.toNat :: units, after) := by
  rw [Option.map_eq_bind]
  by_cases hescaped : c.toNat < 0x20 ∨ c.toNat = 0x22 ∨ c.toNat = 0x5C
  case pos =>
    rw [← Char.ofNat_toNat c]
    generalize c.toNat = n at hescaped ⊢
    rcases hescaped with hcontrol | rfl | rfl
    case inl => interval_cases n <;> rfl
    all_goals rfl
  case neg =>
    simp only [not_or, not_lt] at hescaped
    obtain ⟨hcontrol, hmark, hslash⟩ := hescaped
    have hmark' : c ≠ '\x22' := by
      rintro rfl
      exact hmark rfl
    have hslash' : c ≠ '\\' := by
      rintro rfl
      exact hslash rfl
    rw [escape_eq hcontrol hmark hslash, List.singleton_append, units?]
    · simp [hmark', hslash', hcontrol]
    all_goals simp [hslash']

theorem units?_escaped :
    units? (run.flatMap escape ++ '\x22' :: rest) = some (run.map Char.toNat, rest) := by
  induction run
  case nil => rfl
  case cons c run ih => rw [List.flatMap_cons, List.append_assoc, units?_escape, ih]; rfl

-- A character is no half of a surrogate pair.
theorem joinUnits?_toNat : joinUnits? (run.map Char.toNat) = some run := by
  induction run
  case nil => rfl
  case cons c run ih =>
    have hchar : c.toNat < 0xD800 ∨ 0xDFFF < c.toNat ∧ c.toNat < 0x110000 := c.valid
    have hhigh : (decide (0xD800 ≤ c.toNat) && decide (c.toNat < 0xDC00)) = false := by grind
    have hlow : (decide (0xDC00 ≤ c.toNat) && decide (c.toNat < 0xE000)) = false := by grind
    rw [List.map_cons, joinUnits?.eq_def]
    simp only [hhigh, hlow, ih]
    simp

theorem text?_escaped : ∃ h, text? (run.flatMap escape ++ '\x22' :: rest) =
    some (some (String.ofList run), ⟨rest, h⟩) := by
  refine ⟨length_units_lt units?_escaped, ?_⟩
  unfold text?
  split
  case h_1 hnone => cases units?_escaped.symm.trans hnone
  case h_2 hsome =>
    cases units?_escaped.symm.trans hsome
    rw [joinUnits?_toNat]
    rfl

theorem toList_quoted : (quoted x).toList = '\x22' :: (x.toList.flatMap escape ++ ['\x22']) :=
  String.toList_ofList

theorem value?_quoted (htext : skip text = (quoted x).toList ++ rest) :
    ∃ h, value? text = some (ofString x, ⟨rest, h⟩) := by
  have hcons : skip text = '\x22' :: (x.toList.flatMap escape ++ '\x22' :: rest) := by simp [htext, toList_quoted]
  obtain ⟨hlt, htext?⟩ : ∃ h, text? (x.toList.flatMap escape ++ '\x22' :: rest) = some (some _, ⟨rest, h⟩) := text?_escaped
  have hle := length_skip_le text
  rw [hcons, List.length_cons] at hle
  refine ⟨by omega, ?_⟩
  unfold value?
  split
  case h_1 hnil => cases hcons.symm.trans hnil
  case h_2 hsome =>
    cases hcons.symm.trans hsome
    simp [htext?, ofString]

theorem listed_singleton : listed [x] = (quoted x).toList :=
  List.append_nil _

theorem listed_cons {y : String} : listed (x :: y :: xs) = (quoted x).toList ++ ',' :: ' ' :: listed (y :: xs) := by
  simp [listed, List.intercalate]

theorem exists_listed : ∃ more, listed (x :: xs) = '\x22' :: more := by
  cases xs
  case nil => exact ⟨_, listed_singleton.trans toList_quoted⟩
  case cons => exact ⟨_, by rw [listed_cons, toList_quoted, List.cons_append]⟩

-- No white space stands before the first text, and so none is passed over.
theorem skip_listed : skip (listed (x :: xs) ++ rest) = listed (x :: xs) ++ rest := by
  obtain ⟨more, hmore⟩ : ∃ more, listed (x :: xs) = '\x22' :: more := exists_listed
  rw [hmore]
  rfl

theorem items?_listed (htext : skip text = listed (x :: xs) ++ ']' :: rest) :
    ∃ h, items? text = some ((x :: xs).map ofString, ⟨rest, h⟩) := by
  induction xs generalizing x text
  case nil =>
    rw [listed_singleton] at htext
    obtain ⟨hlt, hvalue⟩ := value?_quoted htext
    rw [items?, hvalue]
    exact ⟨Nat.lt_of_succ_lt hlt, rfl⟩
  case cons y xs ih =>
    have hspace : skip (' ' :: (listed (y :: xs) ++ ']' :: rest)) = listed (y :: xs) ++ ']' :: rest := skip_listed
    obtain ⟨hlt', hitems⟩ := ih hspace
    rw [listed_cons, List.append_assoc, List.cons_append, List.cons_append] at htext
    obtain ⟨hlt, hvalue⟩ := value?_quoted htext
    rw [List.length_cons] at hlt
    refine ⟨by omega, ?_⟩
    rw [items?, hvalue]
    simp only [Option.bind_eq_bind, Option.bind_some]
    split
    case h_1 hclose => cases hclose
    case h_2 hcomma =>
      cases hcomma
      rw [hitems]
      rfl
    case h_3 _ hcomma => exact absurd rfl (hcomma _)

theorem value?_bracketed (htext : text = bracketed xs) :
    ∃ h, value? text = some (array (xs.map ofString), ⟨[], h⟩) := by
  subst htext
  cases xs
  case nil =>
    refine ⟨by decide, ?_⟩
    unfold value?
    rfl
  case cons x xs =>
    have hskip : skip (listed (x :: xs) ++ [']']) = listed (x :: xs) ++ [']'] := skip_listed
    obtain ⟨hlt, hitems⟩ := items?_listed hskip
    refine ⟨by simp [bracketed], ?_⟩
    unfold value?
    split
    case h_1 hnil => cases hnil
    case h_2 hcons =>
      cases hcons
      rw [if_neg (by decide), if_pos (by decide)]
      split
      case h_1 hempty =>
        obtain ⟨more, hmore⟩ : ∃ more, listed (x :: xs) = '\x22' :: more := exists_listed
        rw [hskip, hmore] at hempty
        cases hempty
      case h_2 =>
        rw [hitems]
        rfl

-- An array is read as the texts that were written.
theorem read?_bracketed : read? (String.ofList (bracketed xs)) = some (array (xs.map ofString)) := by
  obtain ⟨hlt, hvalue⟩ := value?_bracketed String.toList_ofList
  rw [read?, hvalue]
  rfl

end Subplans.Json
