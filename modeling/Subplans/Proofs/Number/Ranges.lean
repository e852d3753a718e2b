import Mathlib.Data.List.Nodup
import Mathlib.Data.List.Sort
import Subplans.Number.Reader
import Subplans.Proofs.Outcome
import Subplans.Proofs.Predicate.Literals

/-!
Lists of numbers and ranges.

A list is read if each piece between its commas is a number of 64 bits or two of them with a hyphen in between
(`Piece.Written`), and each number stands in it as often as there are pieces that cover it (`readRanges_count`). That
is so but for ranges that end with the largest number: there is no number after it to stop at. Where overflows are
checked the list fails, and otherwise such ranges come out empty (`not_covers_largest`).
-/

namespace Subplans.Number

variable {checked : Bool} {n k bound value : Nat} {text : List Char} {ns : List Nat}

-- Decimal digits, with or without a plus sign.
inductive Numeral : List Char → Nat → Prop
  | plain {digits : List Char} : digits ≠ [] → (∀ c ∈ digits, c.isDigit = true) →
    Numeral digits (Nat.ofDigitChars 10 digits 0)
  | signed {digits : List Char} : digits ≠ [] → (∀ c ∈ digits, c.isDigit = true) →
    Numeral ('+' :: digits) (Nat.ofDigitChars 10 digits 0)

theorem Numeral.of_all {digits : List Char} (hne : digits ≠ []) (h : digits.all Char.isDigit = true) :
    Numeral digits (Nat.ofDigitChars 10 digits 0) :=
  .plain hne (List.all_eq_true.mp h)

theorem Numeral.not_mem (h : Numeral text n) : '-' ∉ text := by
  cases h
  case plain hdigits => exact fun hmem => absurd (hdigits _ hmem) (by decide)
  case signed hdigits =>
    rw [List.mem_cons, not_or]
    exact ⟨by decide, fun hmem => absurd (hdigits _ hmem) (by decide)⟩

theorem isDigit_of_digit? {c : Char} {d : Nat} (h : digit? c = some d) :
    c.isDigit = true ∧ d = c.toNat - '0'.toNat := by
  unfold digit? at h
  split at h
  case isTrue hc => exact ⟨hc, (Option.some.inj h).symm⟩
  case isFalse => cases h

theorem readDigits_eq_ok (hvalue : value < bound) : readDigits bound value text = .ok n ↔
    (∀ c ∈ text, c.isDigit = true) ∧ Nat.ofDigitChars 10 text value = n ∧ n < bound where
  mp h := by
    induction text generalizing value
    case nil =>
      cases h
      exact ⟨nofun, rfl, hvalue⟩
    case cons c rest ih =>
      rw [readDigits] at h
      split at h
      case h_1 => cases h
      case h_2 d hd =>
        split at h
        case isFalse => cases h
        case isTrue hlt =>
          obtain ⟨hc, rfl⟩ := isDigit_of_digit? hd
          obtain ⟨hdigits, hn, hbound⟩ := ih hlt h
          exact ⟨List.forall_mem_cons.mpr ⟨hc, hdigits⟩, by rw [Nat.ofDigitChars_cons, hn], hbound⟩
  mpr := by
    rintro ⟨hdigits, rfl, hlt⟩
    exact readDigits_of_isDigit hdigits hlt

theorem readNat_eq_ok (hbound : 0 < bound) : readNat bound text = .ok n ↔ Numeral text n ∧ n < bound where
  mp h := by
    unfold readNat at h
    split at h
    case h_1 => cases h
    case h_2 => cases h
    case h_3 rest hne =>
      obtain ⟨hdigits, rfl, hlt⟩ := (readDigits_eq_ok hbound).mp h
      exact ⟨.signed (by rintro rfl; exact hne rfl) hdigits, hlt⟩
    case h_4 hne _ _ =>
      obtain ⟨hdigits, rfl, hlt⟩ := (readDigits_eq_ok hbound).mp h
      exact ⟨.plain hne hdigits, hlt⟩
  mpr := by
    rintro ⟨hnumeral, hlt⟩
    cases hnumeral
    case plain hne hdigits =>
      unfold readNat
      split
      case h_1 => contradiction
      case h_2 => exact absurd (hdigits '+' List.mem_cons_self) (by decide)
      case h_3 => exact absurd (hdigits '+' List.mem_cons_self) (by decide)
      case h_4 => exact (readDigits_eq_ok hbound).mpr ⟨hdigits, rfl, hlt⟩
    case signed digits hne hdigits =>
      obtain ⟨d, rest, rfl⟩ := List.exists_cons_of_ne_nil hne
      exact (readDigits_eq_ok hbound).mpr ⟨hdigits, rfl, hlt⟩

-- The largest number of 64 bits.
def largest : Nat := 18446744073709551615

-- What stands between two commas.
inductive Piece
  | number (n : Nat)
  | range (first last : Nat)

namespace Piece

-- The text says this piece: its numbers have 64 bits.
inductive Written : List Char → Piece → Prop
  | number {text : List Char} {n : Nat} : Numeral text n → n ≤ largest → Written text (.number n)
  | range {x y : List Char} {first last : Nat} : Numeral x first → first ≤ largest → Numeral y last →
    last ≤ largest → Written (x ++ '-' :: y) (.range first last)

-- The number is that of the piece, or lies between its ends, which belong to the range.
def covers (k : Nat) : Piece → Bool
  | number n => k == n
  | range first last => first ≤ k && k ≤ last

-- The end of the range is the largest number.
def endsLast : Piece → Bool
  | number _ => false
  | range _ last => last == largest

-- The numbers that are put in for the piece.
def numbers (checked : Bool) : Piece → Except RangeError (List Nat)
  | number n => .ok [n]
  | range first last => Number.range checked first last

end Piece

open Piece (Written)

variable {p : Piece} {pieces : List Piece}

theorem wordBound_eq : wordBound = largest + 1 :=
  rfl

theorem readNumber_eq_ok : readNumber text = .ok n ↔ Numeral text n ∧ n ≤ largest := by
  have hpos : 0 < wordBound := wordBound_eq ▸ Nat.succ_pos largest
  rw [← Nat.lt_succ_iff, ← Nat.add_one, ← wordBound_eq, ← readNat_eq_ok hpos, readNumber]
  cases readNat wordBound text <;> simp [Except.mapError]

theorem readNumber_cases : (∃ e, readNumber text = .error (.number e)) ∨ ∃ n, readNumber text = .ok n := by
  rw [readNumber]
  cases readNat wordBound text
  case error e => exact .inl ⟨e, rfl⟩
  case ok n => exact .inr ⟨n, rfl⟩

theorem readRange_of_written (h : Written text p) : readRange checked text = p.numbers checked := by
  cases h
  case number hn htext =>
    rw [readRange, Text.cut?_eq_none htext.not_mem, readNumber_eq_ok.mpr ⟨htext, hn⟩]
    rfl
  case range x y first last hx hfirst hy hlast =>
    have hfirst : readNumber x = .ok first := readNumber_eq_ok.mpr ⟨hx, hfirst⟩
    have hlast : readNumber y = .ok last := readNumber_eq_ok.mpr ⟨hy, hlast⟩
    -- A numeral has no hyphen, so the first one is that between the two.
    rw [readRange, Text.cut?_of_notMem hx.not_mem]
    simp only [hfirst, hlast]
    rfl

-- A piece says something unless one of its numbers is none.
theorem readRange_cases : (∃ e, readRange checked text = .error (.number e)) ∨ ∃ p, Written text p := by
  unfold readRange
  split
  case h_1 x y hcut =>
    rcases @readNumber_cases x with ⟨e, hx⟩ | ⟨first, hx⟩
    case inl => exact .inl ⟨e, by rw [hx]; rfl⟩
    case inr =>
      rcases @readNumber_cases y with ⟨e, hy⟩ | ⟨last, hy⟩
      case inl => exact .inl ⟨e, by rw [hx, hy]; rfl⟩
      case inr =>
        obtain ⟨hx, hfirst⟩ := readNumber_eq_ok.mp hx
        obtain ⟨hy, hlast⟩ := readNumber_eq_ok.mp hy
        rw [Text.eq_of_cut? hcut]
        exact .inr ⟨.range first last, .range hx hfirst hy hlast⟩
  case h_2 =>
    rcases @readNumber_cases text with ⟨e, htext⟩ | ⟨n, htext⟩
    case inl => exact .inl ⟨e, by rw [htext]; rfl⟩
    case inr =>
      obtain ⟨htext, hn⟩ := readNumber_eq_ok.mp htext
      exact .inr ⟨.number n, .number htext hn⟩

namespace Piece

theorem numbers_of_endsLast (h : p.endsLast = true) : p.numbers true = .error .endOverflow := by
  cases p
  case number => cases h
  case range first last =>
    cases beq_iff_eq.mp h
    rfl

theorem exists_numbers : (∃ ns, p.numbers checked = .ok ns) ↔ (checked = true → p.endsLast = false) where
  mp := by
    rintro ⟨ns, h⟩ rfl
    refine Bool.eq_false_iff.mpr fun hends => ?_
    rw [numbers_of_endsLast hends] at h
    cases h
  mpr h := by
    cases p
    case number n => exact ⟨[n], rfl⟩
    case range first last =>
      have hstep : (checked && last + 1 == wordBound) = false := by
        cases checked
        case false => rfl
        case true => simpa [endsLast, wordBound_eq] using h
      rw [numbers, Number.range, next, hstep]
      exact ⟨_, rfl⟩

theorem numbers_eq_endOverflow :
    p.numbers checked = .error .endOverflow ↔ checked = true ∧ p.endsLast = true where
  mp h := by
    by_contra hends
    obtain ⟨ns, hns⟩ := exists_numbers.mpr fun hchecked => Bool.eq_false_iff.mpr fun hlast => hends ⟨hchecked, hlast⟩
    rw [hns] at h
    cases h
  mpr := by
    rintro ⟨rfl, h⟩
    exact numbers_of_endsLast h

theorem numbers_range_eq_ok {first last : Nat} (h : (range first last).numbers checked = .ok ns) :
    ns = List.range' first ((last + 1) % wordBound - first) := by
  simp only [numbers, Number.range, next] at h
  split at h
  case isTrue => cases h
  case isFalse => exact (Outcome.pure_eq_ok.mp h).symm

theorem Written.count_numbers (h : Written text p) (hns : p.numbers checked = .ok ns) :
    ns.count k = if p.covers k && !p.endsLast then 1 else 0 := by
  cases h
  case number n _ _ =>
    cases hns
    rw [List.count_singleton, BEq.comm]
    simp [covers, endsLast]
  case range x y first last _ _ _ hlast =>
    have hmem : k ∈ ns ↔ first ≤ k ∧ k ≤ last ∧ last ≠ largest := by
      rw [numbers_range_eq_ok hns, List.mem_range'_1, wordBound_eq]
      by_cases hends : last = largest
      case pos => rw [hends, Nat.mod_self]; omega
      case neg => rw [Nat.mod_eq_of_lt (by omega)]; omega
    have hnodup : ns.Nodup := numbers_range_eq_ok hns ▸ List.nodup_range'
    rw [hnodup.count]
    simp [hmem, covers, endsLast, and_assoc]

end Piece

theorem exists_readRange : (∃ ns, readRange checked text = .ok ns) ↔
    ∃ p, Written text p ∧ (checked = true → p.endsLast = false) where
  mp := by
    rintro ⟨ns, h⟩
    rcases @readRange_cases checked text with ⟨e, he⟩ | ⟨p, hp⟩
    case inl => rw [he] at h; cases h
    case inr => exact ⟨p, hp, Piece.exists_numbers.mp ⟨ns, (readRange_of_written hp).symm.trans h⟩⟩
  mpr := by
    rintro ⟨p, hp, hends⟩
    rw [readRange_of_written hp]
    exact Piece.exists_numbers.mpr hends

theorem readRange_eq_endOverflow : readRange checked text = .error .endOverflow ↔
    checked = true ∧ ∃ p, Written text p ∧ p.endsLast = true where
  mp h := by
    rcases @readRange_cases checked text with ⟨e, he⟩ | ⟨p, hp⟩
    case inl => rw [he] at h; cases h
    case inr =>
      obtain ⟨hchecked, hends⟩ := Piece.numbers_eq_endOverflow.mp ((readRange_of_written hp).symm.trans h)
      exact ⟨hchecked, p, hp, hends⟩
  mpr := by
    rintro ⟨hchecked, p, hp, hends⟩
    rw [readRange_of_written hp]
    exact Piece.numbers_eq_endOverflow.mpr ⟨hchecked, hends⟩

theorem readRanges_eq_ok : readRanges checked text = .ok ns ↔
    ∃ ranges, List.Forall₂ (fun t r => readRange checked t = .ok r) (text.splitOn ',') ranges ∧
      ranges.flatten.mergeSort = ns := by
  simp only [← Outcome.mapM_eq_ok]
  rw [readRanges, Text.splitOn_eq]
  exact Outcome.bind_eq_ok.trans (exists_congr fun _ => and_congr_right fun _ => Outcome.pure_eq_ok)

theorem exists_readRanges : (∃ ns, readRanges checked text = .ok ns) ↔
    ∀ t ∈ text.splitOn ',', ∃ p, Written t p ∧ (checked = true → p.endsLast = false) where
  mp := by
    rintro ⟨ns, h⟩ t ht
    obtain ⟨ranges, hranges, _⟩ := readRanges_eq_ok.mp h
    obtain ⟨r, _, hr⟩ := Outcome.exists_of_forall₂ hranges.flip t ht
    exact exists_readRange.mp ⟨r, hr⟩
  mpr h := by
    obtain ⟨ranges, hranges⟩ := Outcome.exists_forall₂ fun t ht => exists_readRange.mpr (h t ht)
    exact ⟨_, readRanges_eq_ok.mpr ⟨ranges, hranges, rfl⟩⟩

theorem readRanges_eq_endOverflow : readRanges checked text = .error .endOverflow ↔
    ∃ before t after, text.splitOn ',' = before ++ t :: after ∧
      (∀ u ∈ before, ∃ p, Written u p ∧ (checked = true → p.endsLast = false)) ∧
      checked = true ∧ ∃ p, Written t p ∧ p.endsLast = true := by
  simp only [← exists_readRange, ← readRange_eq_endOverflow]
  rw [← Outcome.mapM_eq_error, readRanges, Text.splitOn_eq, Outcome.bind_eq_error]
  exact or_iff_left nofun

theorem count_flatten {texts : List (List Char)} {ranges : List (List Nat)} (h : List.Forall₂ Written texts pieces)
    (hranges : List.Forall₂ (fun t r => readRange checked t = .ok r) texts ranges) :
    ranges.flatten.count k = pieces.countP fun p => p.covers k && !p.endsLast := by
  induction h generalizing ranges
  case nil => cases hranges; rfl
  case cons hp _ ih =>
    obtain ⟨r, rest, hr, hrest, rfl⟩ := List.forall₂_cons_left_iff.mp hranges
    have hcount := hp.count_numbers (k := k) ((readRange_of_written hp).symm.trans hr)
    rw [List.flatten_cons, List.count_append, hcount, ih hrest, List.countP_cons, Nat.add_comm]

-- A list is read if each of its pieces is, and holds what they cover. Only ranges that end with the largest number are
-- left out of it, as the number after their end is out of bounds: where overflows are checked, the first one of them
-- fails the list, if no piece before it does.
theorem readRanges_count (checked : Bool) (text : List Char) :
    ((∃ ns, readRanges checked text = .ok ns) ↔
      ∀ t ∈ text.splitOn ',', ∃ p, Written t p ∧ (checked = true → p.endsLast = false)) ∧
    (readRanges checked text = .error .endOverflow ↔ ∃ before t after, text.splitOn ',' = before ++ t :: after ∧
      (∀ u ∈ before, ∃ p, Written u p ∧ (checked = true → p.endsLast = false)) ∧
      checked = true ∧ ∃ p, Written t p ∧ p.endsLast = true) ∧
    ∀ ns, readRanges checked text = .ok ns → ns.Pairwise (· ≤ ·) ∧
      ∀ pieces, List.Forall₂ Written (text.splitOn ',') pieces →
        ∀ k, ns.count k = pieces.countP fun p => p.covers k && !p.endsLast := by
  refine ⟨exists_readRanges, readRanges_eq_endOverflow, fun ns h => ?_⟩
  obtain ⟨ranges, hranges, rfl⟩ := readRanges_eq_ok.mp h
  refine ⟨List.pairwise_mergeSort' (· ≤ ·) _, fun pieces hpieces k => ?_⟩
  rw [(List.mergeSort_perm _ _).count_eq, count_flatten hpieces hranges]

-- Two ranges that overlap, and a number.
def overlapping : List Char :=
  "2-4,7,1-3".toList

theorem written_overlapping :
    List.Forall₂ Written (overlapping.splitOn ',') [.range 2 4, .number 7, .range 1 3] := by
  have hfirst : Written "2-4".toList (.range 2 4) :=
    .range (x := ['2']) (.of_all (by decide) rfl) (by decide) (.of_all (by decide) rfl) (by decide)
  have hnumber : Written "7".toList (.number 7) := .number (.of_all (by decide) rfl) (by decide)
  have hlast : Written "1-3".toList (.range 1 3) :=
    .range (x := ['1']) (.of_all (by decide) rfl) (by decide) (.of_all (by decide) rfl) (by decide)
  exact .cons hfirst (.cons hnumber (.cons hlast .nil))

theorem readRanges_count_overlapping :
    List.Forall₂ Written (overlapping.splitOn ',') [.range 2 4, .number 7, .range 1 3] ∧
    readRanges true overlapping = .ok [1, 2, 2, 3, 3, 4, 7] ∧
    [1, 2, 2, 3, 3, 4, 7].count 2 =
      [Piece.range 2 4, .number 7, .range 1 3].countP fun p => p.covers 2 && !p.endsLast := by
  have hranges : (overlapping.splitOn ',').mapM (readRange true) = .ok [[2, 3, 4], [7], [1, 2, 3]] := by decide +kernel
  have hsorted : [[2, 3, 4], [7], [1, 2, 3]].flatten.mergeSort = [1, 2, 2, 3, 3, 4, 7] := by simp [List.mergeSort]
  have hread := readRanges_eq_ok.mpr ⟨_, Outcome.mapM_eq_ok.mp hranges, hsorted⟩
  obtain ⟨_, _, hcounts⟩ := readRanges_count true overlapping
  exact ⟨written_overlapping, hread, (hcounts _ hread).2 _ written_overlapping 2⟩

-- The range from the largest number to itself.
def largestAlone : List Char :=
  "18446744073709551615-18446744073709551615".toList

-- It covers the largest number. With checked arithmetic the list fails, and else it lacks the number.
theorem not_covers_largest :
    List.Forall₂ Written (largestAlone.splitOn ',') [.range 18446744073709551615 18446744073709551615] ∧
    [Piece.range 18446744073709551615 18446744073709551615].countP (·.covers 18446744073709551615) = 1 ∧
    readRanges true largestAlone = .error .endOverflow ∧ readRanges false largestAlone = .ok [] := by
  have hrange : Written largestAlone (.range 18446744073709551615 18446744073709551615) :=
    .range (x := "18446744073709551615".toList) (.of_all (by decide) rfl) (by decide) (.of_all (by decide) rfl)
      (by decide)
  exact ⟨.cons hrange .nil, by decide, by decide +kernel, by decide +kernel⟩

end Subplans.Number
