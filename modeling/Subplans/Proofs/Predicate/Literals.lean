import Mathlib.Data.List.TakeWhile
import Subplans.Condition.Resolve
import Subplans.Proofs.Text

/-!
Literals read back.

Digits denote the number they were written for, whatever zeros stand before them. From this follows that integers,
dates and timestamps are read back from the text they are written as (`readInt_toString`, `Date.ofText?_text`,
`Timestamp.ofText?_text`), and so is every value that fits the type of a column (`literal?_content`).
-/

namespace Subplans

variable {n width value bound : Nat} {c : Char} {text rest : List Char}

namespace Text

theorem isBlank_of_isDigit (h : c.isDigit = true) : isBlank c = false := by
  have hrange := Char.isDigit_iff_toNat.mp h
  have hzero : '0'.toNat = 48 := rfl
  have hnine : '9'.toNat = 57 := rfl
  simp [isBlank]
  omega

theorem utf8Size_of_isDigit (h : c.isDigit = true) : c.utf8Size = 1 := by
  have hnine : c.toNat ≤ 57 := (Char.isDigit_iff_toNat.mp h).2
  rw [Char.utf8Size_eq_one_iff, UInt32.le_iff_toNat_le]
  exact Nat.le_trans hnine (by decide)

end Text

namespace Number

theorem digit?_of_isDigit (h : c.isDigit = true) : digit? c = some (c.toNat - '0'.toNat) :=
  if_pos h

theorem ofDigits_of_isDigit (h : ∀ c ∈ text, c.isDigit = true) :
    ofDigits (text.filterMap digit?) = Nat.ofDigitChars 10 text 0 := by
  have hmap : text.filterMap digit? = text.map fun c => c.toNat - '0'.toNat := by
    induction text
    case nil => rfl
    case cons c rest ih =>
      rw [List.filterMap_cons_some (digit?_of_isDigit (h c List.mem_cons_self)), List.map_cons,
        ih fun d hd => h d (List.mem_cons_of_mem c hd)]
  rw [ofDigits, hmap, List.foldl_map]
  rfl

theorem le_ofDigitChars : value ≤ Nat.ofDigitChars 10 text value := by
  rw [Nat.ofDigitChars_eq_ofDigitChars_zero]
  have hpow := Nat.le_mul_of_pos_left value (Nat.pow_pos (n := text.length) (show 0 < 10 by decide))
  omega

theorem readDigits_of_isDigit (h : ∀ c ∈ text, c.isDigit = true) (hlt : Nat.ofDigitChars 10 text value < bound) :
    readDigits bound value text = .ok (Nat.ofDigitChars 10 text value) := by
  induction text generalizing value
  case nil => rfl
  case cons c rest ih =>
    rw [Nat.ofDigitChars_cons] at hlt ⊢
    have hvalue := Nat.lt_of_le_of_lt le_ofDigitChars hlt
    simp only [readDigits, digit?_of_isDigit (h c List.mem_cons_self), hvalue, if_true]
    exact ih (fun d hd => h d (List.mem_cons_of_mem c hd)) hlt

theorem isDigit_of_mem_repr (h : c ∈ n.repr.toList) : c.isDigit = true := by
  rw [Nat.toList_repr] at h
  exact Nat.isDigit_of_mem_toDigits (by decide) (by decide) h

theorem readDigits_repr (h : n < bound) : readDigits bound 0 n.repr.toList = .ok n := by
  have hdigits : Nat.ofDigitChars 10 n.repr.toList 0 = n := by simp
  have hread := readDigits_of_isDigit (fun _ => isDigit_of_mem_repr) (hdigits.symm ▸ h)
  rwa [hdigits] at hread

-- The digits of a number start with a digit.
theorem repr_eq_cons : ∃ d ds, n.repr.toList = d :: ds ∧ d.isDigit = true := by
  cases h : n.repr.toList
  case nil => simp at h
  case cons d ds => exact ⟨d, ds, rfl, isDigit_of_mem_repr (h ▸ List.mem_cons_self)⟩

theorem readInt_of_isDigit (h : c.isDigit = true) :
    readInt (c :: rest) = (readDigits (Nat.pow 2 63) 0 (c :: rest)).map Int.ofNat := by
  unfold readInt
  split
  case h_6 => rfl
  case h_1 heq => cases heq
  all_goals
    rename_i heq
    cases heq
    cases h

theorem readInt_minus (h : text ≠ []) :
    readInt ('-' :: text) = (readDigits (Nat.pow 2 63 + 1) 0 text).map fun n => -(n : Int) := by
  cases text
  case nil => contradiction
  case cons => simp [readInt]

-- The integers of 64 signed bits.
def isWord (n : Int) : Bool :=
  -9223372036854775808 ≤ n && n ≤ 9223372036854775807

theorem readInt_toString {n : Int} (h : isWord n = true) : readInt (toString n).toList = .ok n := by
  simp only [isWord, Bool.and_eq_true, decide_eq_true_eq] at h
  have hpow : Nat.pow 2 63 = 9223372036854775808 := rfl
  cases n
  case ofNat m =>
    have ⟨d, ds, heq, hd⟩ := repr_eq_cons (n := m)
    have hread : readDigits (Nat.pow 2 63) 0 m.repr.toList = .ok m := readDigits_repr (by simp at h; omega)
    have htext : (toString (Int.ofNat m)).toList = m.repr.toList := rfl
    rw [htext, heq, readInt_of_isDigit hd, ← heq, hread]
    rfl
  case negSucc m =>
    have hread : readDigits (Nat.pow 2 63 + 1) 0 m.succ.repr.toList = .ok m.succ := readDigits_repr (by omega)
    have htext : (toString (Int.negSucc m)).toList = '-' :: m.succ.repr.toList := String.toList_append
    rw [htext, readInt_minus (by simp), hread]
    rfl

theorem trim_toString {n : Int} : Text.trim (toString n).toList = (toString n).toList := by
  have hblank : ∀ c ∈ (toString n).toList, Text.isBlank c = false := by
    intro c hc
    cases n
    case ofNat m => exact Text.isBlank_of_isDigit (isDigit_of_mem_repr (n := m) hc)
    case negSucc m =>
      have htext : (toString (Int.negSucc m)).toList = '-' :: m.succ.repr.toList := String.toList_append
      rw [htext] at hc
      rcases List.mem_cons.mp hc with rfl | hc
      case inl => rfl
      case inr => exact Text.isBlank_of_isDigit (isDigit_of_mem_repr hc)
  exact Text.trim_of_ends (fun c hc => hblank c (List.mem_of_mem_head? hc))
    fun c hc => hblank c (List.mem_of_mem_getLast? hc)

end Number

namespace Calendar

theorem toList_pushn {s : String} : (s.pushn c n).toList = s.toList ++ List.replicate n c := by
  induction n
  case zero => simp [String.pushn_eq_repeat_push, Nat.repeat]
  case succ n ih =>
    rw [String.pushn_eq_repeat_push] at ih ⊢
    rw [Nat.repeat, String.toList_push, ih, List.append_assoc, ← List.replicate_succ']

theorem toList_padded : (padded width n).toList =
    List.replicate (width - (Nat.toDigits 10 n).length) '0' ++ Nat.toDigits 10 n := by
  simp [padded, toList_pushn, ← String.length_toList]

theorem isDigit_of_mem_padded (h : c ∈ (padded width n).toList) : c.isDigit = true := by
  rw [toList_padded] at h
  rcases List.mem_append.mp h with h | h
  case inl => rw [List.eq_of_mem_replicate h]; rfl
  case inr => exact Nat.isDigit_of_mem_toDigits (by decide) (by decide) h

theorem length_padded (hwidth : 0 < width) (h : n < Nat.pow 10 width) : (padded width n).toList.length = width := by
  have hle := (Nat.length_toDigits_le_iff (by decide) hwidth).mpr h
  rw [toList_padded, List.length_append, List.length_replicate]
  omega

variable (rest) in
theorem number?_padded (hwidth : 0 < width) (h : n < Nat.pow 10 width) :
    number? width ((padded width n).toList ++ rest) = some (n, rest) := by
  have hlength := length_padded hwidth h
  have hdigits : ∀ c ∈ (padded width n).toList, c.isDigit = true := fun _ => isDigit_of_mem_padded
  have hne : (padded width n).toList ≠ [] := List.ne_nil_of_length_pos (by rwa [hlength])
  have hstart : Text.trimStart ((padded width n).toList ++ rest) = (padded width n).toList ++ rest := by
    apply Text.trimStart_of_head
    intro c hc
    rw [List.head?_append, Option.or_of_isSome (List.isSome_head?.mpr hne)] at hc
    exact Text.isBlank_of_isDigit (hdigits c (List.mem_of_mem_head? hc))
  have htake : (((padded width n).toList ++ rest).take width).takeWhile Char.isDigit = (padded width n).toList := by
    rw [List.take_left' hlength]
    exact List.takeWhile_eq_self_iff.mpr hdigits
  have hempty : (padded width n).toList.isEmpty = false := List.isEmpty_eq_false_iff.mpr hne
  have hvalue : Number.ofDigits ((padded width n).toList.filterMap Number.digit?) = n := by
    rw [Number.ofDigits_of_isDigit hdigits, toList_padded, Nat.ofDigitChars_append]
    simp
  simp only [number?, hstart, htake, hempty, hvalue, List.drop_left]
  rfl

end Calendar

namespace Date

variable {d : Date}

-- The year is written in four digits without a sign.
def isCommon (d : Date) : Bool :=
  0 ≤ d.year && d.year ≤ 9999

theorem natAbs_year_lt (h : d.isCommon = true) : d.year.natAbs < Nat.pow 10 4 := by
  have hpow : Nat.pow 10 4 = 10000 := rfl
  simp only [isCommon, Bool.and_eq_true, decide_eq_true_eq] at h
  omega

theorem text_of_isCommon (h : d.isCommon = true) : d.text = Calendar.padded 4 d.year.natAbs ++ "-" ++
    Calendar.padded 2 d.month ++ "-" ++ Calendar.padded 2 d.day := by
  simp only [isCommon, Bool.and_eq_true, decide_eq_true_eq] at h
  have hsign : (if d.year < 0 then "-" else if 9999 < d.year then "+" else "") = "" := by
    rw [if_neg (by omega), if_neg (by omega)]
  simp only [text, hsign, String.empty_append]

theorem month_lt : d.month < Nat.pow 10 2 := by
  have hpow : Nat.pow 10 2 = 100 := rfl
  have h := d.isDay
  simp only [Calendar.isDay, Bool.and_eq_true, decide_eq_true_eq] at h
  omega

theorem day_lt : d.day < Nat.pow 10 2 := by
  have hpow : Nat.pow 10 2 = 100 := rfl
  have h := d.isDay
  have hdays : Calendar.daysIn d.year d.month ≤ 31 := by
    unfold Calendar.daysIn
    split
    case isTrue => split <;> decide
    case isFalse => split <;> decide
  simp only [Calendar.isDay, Bool.and_eq_true, decide_eq_true_eq] at h
  omega

theorem length_text (h : d.isCommon = true) : d.text.toList.length = 10 := by
  have hlt := natAbs_year_lt h
  rw [text_of_isCommon h]
  simp only [String.toList_append, List.length_append, Calendar.length_padded (by decide) hlt,
    Calendar.length_padded (by decide) (month_lt (d := d)), Calendar.length_padded (by decide) (day_lt (d := d))]
  rfl

theorem utf8Size_text : ∀ c ∈ d.text.toList, c.utf8Size = 1 := by
  have hpadded : ∀ {width n}, ∀ c ∈ (Calendar.padded width n).toList, c.utf8Size = 1 := fun c hc =>
    Text.utf8Size_of_isDigit (Calendar.isDigit_of_mem_padded hc)
  have hascii : ∀ {s : String}, s.toList.all (fun c => c.utf8Size == 1) = true → ∀ c ∈ s.toList, c.utf8Size = 1 := by
    simp
  have hsign : ∀ c ∈ (if d.year < 0 then "-" else if 9999 < d.year then "+" else "").toList, c.utf8Size = 1 := by
    split
    case isTrue => exact hascii rfl
    case isFalse => split <;> exact hascii rfl
  have hhyphen : ∀ c ∈ "-".toList, c.utf8Size = 1 := hascii rfl
  simp only [text, String.toList_append, List.forall_mem_append]
  exact ⟨⟨⟨⟨⟨hsign, hpadded⟩, hhyphen⟩, hpadded⟩, hhyphen⟩, hpadded⟩

theorem year?_padded (h : n < Nat.pow 10 4) :
    Calendar.year? ((Calendar.padded 4 n).toList ++ rest) = some ((n : Int), rest) := by
  obtain ⟨c, cs, heq⟩ := List.exists_cons_of_length_pos (l := (Calendar.padded 4 n).toList)
    (by rw [Calendar.length_padded (by decide) h]; decide)
  have hc : c.isDigit = true := Calendar.isDigit_of_mem_padded (heq ▸ List.mem_cons_self)
  have hnumber := Calendar.number?_padded rest (by decide) h
  have hstart : Text.trimStart ((Calendar.padded 4 n).toList ++ rest) = (Calendar.padded 4 n).toList ++ rest :=
    Text.trimStart_of_head (by rw [heq]; simpa using Text.isBlank_of_isDigit hc)
  rw [heq] at hnumber hstart ⊢
  unfold Calendar.year?
  rw [hstart]
  split
  case h_1 h => cases h; cases hc
  case h_2 h => cases h; cases hc
  case h_3 => rw [hnumber]; rfl

variable (rest) in
theorem date?_text (h : d.isCommon = true) : Calendar.date? (d.text.toList ++ rest) = some (d, rest) := by
  have hyear : (d.year.natAbs : Int) = d.year := by simp [isCommon] at h; omega
  have hlt := natAbs_year_lt h
  have hmonth := fun rest => Calendar.number?_padded rest (by decide) (month_lt (d := d))
  have hday := fun rest => Calendar.number?_padded rest (by decide) (day_lt (d := d))
  rw [text_of_isCommon h]
  simp only [String.toList_append, List.append_assoc, Calendar.date?, year?_padded hlt]
  simp [Calendar.literal?, hmonth, hday, hyear, d.isDay]

theorem ofText?_text (h : d.isCommon = true) : ofText? d.text.toList = some d := by
  have hdate := date?_text [] h
  rw [List.append_nil] at hdate
  rw [ofText?, hdate]

end Date

namespace Timestamp

variable {t : Timestamp}

theorem time_lt : t.hour < Nat.pow 10 2 ∧ t.minute < Nat.pow 10 2 ∧ t.second < Nat.pow 10 2 := by
  have hpow : Nat.pow 10 2 = 100 := rfl
  have h := t.isTime
  simp only [Calendar.isTime, Bool.and_eq_true, decide_eq_true_eq] at h
  omega

theorem number?_blank : Calendar.number? width (' ' :: text) = Calendar.number? width text :=
  rfl

theorem ofText?_text (h : t.date.isCommon = true) : ofText? t.text.toList = some t := by
  have hhour := fun rest => Calendar.number?_padded rest (by decide) (time_lt (t := t)).1
  have hminute := fun rest => Calendar.number?_padded rest (by decide) (time_lt (t := t)).2.1
  have hsecond := Calendar.number?_padded [] (by decide) (time_lt (t := t)).2.2
  rw [List.append_nil] at hsecond
  simp only [text, String.toList_append, List.append_assoc, ofText?, Date.date?_text _ h]
  simp [number?_blank, Calendar.literal?, hhour, hminute, hsecond, t.isTime]

theorem trim_text (h : t.date.isCommon = true) : Text.trim t.text.toList = t.text.toList := by
  have hlt := Date.natAbs_year_lt h
  have hfirst : (Calendar.padded 4 t.date.year.natAbs).toList <+: t.text.toList := by
    rw [text, Date.text_of_isCommon h]
    simp only [String.toList_append, List.append_assoc]
    exact List.prefix_append _ _
  have hlast : (Calendar.padded 2 t.second).toList <:+ t.text.toList := by
    rw [text, String.toList_append]
    exact List.suffix_append _ _
  apply Text.trim_of_prefix_suffix hfirst hlast
  · exact List.ne_nil_of_length_pos (by rw [Calendar.length_padded (by decide) hlt]; decide)
  · exact List.ne_nil_of_length_pos (by rw [Calendar.length_padded (by decide) time_lt.2.2]; decide)
  · intro c hc
    rcases List.mem_append.mp hc with hc | hc
    case inl => exact Text.isBlank_of_isDigit (Calendar.isDigit_of_mem_padded hc)
    case inr => exact Text.isBlank_of_isDigit (Calendar.isDigit_of_mem_padded hc)

end Timestamp

-- What is read to get the value: its digits, or the text between the marks.
def Value.content : Value → String
  | .integer n => toString n
  | .text s => s
  | .date d => d.text
  | .timestamp t => t.text
  | .null | .number _ => ""

-- A column of this type can hold the value and have it written in a way that it is read back.
def Value.fits : DataType → Value → Bool
  | .integer, .integer n => Number.isWord n
  | .text, .text _ => true
  | .date, .date d => d.isCommon
  | .dateTime, .timestamp t => t.date.isCommon
  | _, _ => false

namespace Scope

variable {type : DataType} {x : Value}

theorem takeBytes?_of_ascii (h : ∀ c ∈ text, c.utf8Size = 1) : takeBytes? text.length text = some text := by
  induction text
  case nil => rfl
  case cons c rest ih =>
    have hrest := ih fun d hd => h d (List.mem_cons_of_mem c hd)
    simp [takeBytes?, h c List.mem_cons_self, hrest]

theorem literal?_content (h : x.fits type = true) : literal? type x.content none = some x := by
  unfold Value.fits at h
  split at h
  case h_1 n =>
    change (Number.readInt (Text.trim (toString n).toList)).toOption.map Value.integer = _
    rw [Number.trim_toString, Number.readInt_toString h]
    rfl
  case h_2 s => simp [literal?, DataType.value?, Value.content]
  case h_3 d =>
    have hbytes : takeBytes? 10 d.text.toList = some d.text.toList := by
      rw [← Date.length_text h]
      exact takeBytes?_of_ascii Date.utf8Size_text
    simp [literal?, Value.content, hbytes, Date.ofText?_text h]
  case h_4 t => simp [literal?, DataType.value?, Value.content, Timestamp.trim_text h, Timestamp.ofText?_text h]
  case h_5 => cases h

end Scope

end Subplans
