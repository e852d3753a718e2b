import Mathlib.Data.List.Basic
import Subplans.Proofs.Text.Balanced

/-!
Texts that are split at the separators outside of parentheses and quotations.

What the scan does is a relation of its own (`Cuts`): between two separators it goes character by character, and it goes
on until a separator stands where nothing is open. So nothing but the separators is lost (`Cuts.intercalate`), before
each of them nothing is open (`Cuts.foldl_step`), and in what stands between them there is no other one
(`Cuts.uncut`). The UTF-8 bytes of a text are split in the same places (`Cuts.octets`): every cut lies between two
characters.
-/

namespace Subplans.Text

variable {c : Char} {x y text part rest sep : List Char} {parts before after : List (List Char)} {n : Nesting}
  {level : Int} {quoted : Bool}

-- The characters outside of quotations, without the marks. The text starts in a quotation if `quoted` says so.
def unquoted : (quoted : Bool) → List Char → List Char
  | _, [] => []
  | quoted, c :: rest =>
    if c = quoteMark then unquoted (!quoted) rest
    else if quoted then unquoted quoted rest
    else c :: unquoted quoted rest

-- Behind the text no quotation is open, and outside of quotations as many parentheses were closed as opened.
def AtTopLevel (text : List Char) : Prop :=
  text.count quoteMark % 2 = 0 ∧ (unquoted false text).count '(' = (unquoted false text).count ')'

theorem foldl_step : text.foldl Nesting.step ⟨level, quoted⟩ =
    ⟨level + (unquoted quoted text).count '(' - (unquoted quoted text).count ')',
      quoted ^^ text.count quoteMark % 2 == 1⟩ := by
  induction text generalizing level quoted
  case nil => simp [unquoted]
  case cons c text ih =>
    by_cases hmark : c = quoteMark
    case pos =>
      have hcount : ((text.count quoteMark + 1) % 2 == 1) = !(text.count quoteMark % 2 == 1) := by
        rcases Nat.mod_two_eq_zero_or_one (text.count quoteMark) with h | h <;> simp [Nat.add_mod, h]
      simp [hmark, Nesting.step, unquoted, ih, hcount]
    case neg =>
      cases quoted
      case true => simp [hmark, Nesting.step, unquoted, ih]
      case false =>
        by_cases hopen : c = '('
        case pos => simp [hopen, Nesting.step, unquoted, ih, quoteMark]; omega
        case neg =>
          by_cases hclose : c = ')'
          case pos => simp [hclose, Nesting.step, unquoted, ih, quoteMark]; omega
          case neg => simp [hmark, hopen, hclose, Nesting.step, unquoted, ih]

theorem foldl_step_eq_outer_iff : text.foldl Nesting.step .outer = .outer ↔ AtTopLevel text := by
  rw [Nesting.outer, foldl_step, Nesting.mk.injEq, AtTopLevel, and_comm]
  refine and_congr ?_ (by omega)
  simp

theorem foldl_step_of_isPlain (h : ∀ c ∈ text, isPlain c = true) : text.foldl Nesting.step n = n := by
  induction text
  case nil => rfl
  case cons c text ih =>
    have ⟨hc, htext⟩ := List.forall_mem_cons.mp h
    rw [List.foldl_cons, step_of_isPlain hc, ih htext]

-- From `n` on the scan makes the parts of the text.
inductive Cuts (sep : List Char) : Nesting → List Char → List (List Char) → Prop
  | done {n : Nesting} : Cuts sep n [] [[]]
  | separator {rest : List Char} {parts : List (List Char)} : Cuts sep .outer rest parts →
      Cuts sep .outer (sep ++ rest) ([] :: parts)
  | step {n : Nesting} {c : Char} {rest part : List Char} {parts : List (List Char)} :
      ¬(n = .outer ∧ sep <+: c :: rest) → Cuts sep (n.step c) rest (part :: parts) →
      Cuts sep n (c :: rest) ((c :: part) :: parts)

-- A separator is seen exactly where nothing is open.
theorem cut_iff (hne : sep ≠ []) (hsep : ∀ c ∈ sep, isPlain c = true) :
    (n.allowsCut c && !sep.isEmpty && sep.isPrefixOf (c :: rest)) = true ↔ n = .outer ∧ sep <+: c :: rest := by
  simp only [Nesting.allowsCut, Bool.and_eq_true, List.isPrefixOf_iff_prefix, beq_iff_eq]
  constructor
  case mp => exact fun h => ⟨h.1.1.1.1.1, h.2⟩
  case mpr =>
    rintro ⟨hn, hstart⟩
    obtain rfl | ⟨x, rfl, -⟩ := List.prefix_cons_iff.mp hstart
    case inl => contradiction
    case inr =>
      obtain ⟨hmark, hopen, hclose⟩ := ne_of_isPlain (hsep c List.mem_cons_self)
      simp [hn, hmark, hopen, hclose, hstart]

theorem splitTopFrom_cons (hne : sep ≠ []) (hsep : ∀ c ∈ sep, isPlain c = true)
    (h : ¬(n = .outer ∧ sep <+: c :: rest)) :
    splitTopFrom sep n 0 (c :: rest) = (splitTopFrom sep (n.step c) 0 rest).modifyHead (c :: ·) := by
  obtain ⟨part, parts, hparts⟩ := exists_splitTopFrom sep (n.step c) 0 rest
  rw [splitTopFrom, if_neg (mt (cut_iff hne hsep).mp h), hparts, List.modifyHead_cons]

theorem cuts_splitTopFrom (hne : sep ≠ []) (hsep : ∀ c ∈ sep, isPlain c = true) (skip : Nat) :
    Cuts sep n (text.drop skip) (splitTopFrom sep n skip text) := by
  fun_induction splitTopFrom sep n skip text
  case case1 => simpa using Cuts.done
  case case2 ih => exact ih
  case case3 n c rest hcut ih =>
    obtain ⟨rfl, after, hafter⟩ := (cut_iff hne hsep).mp hcut
    obtain ⟨d, x, rfl⟩ := List.exists_cons_of_ne_nil hne
    obtain ⟨rfl, rfl⟩ := List.cons.inj hafter
    simpa using Cuts.separator ih
  case case4 hcut part parts hparts ih =>
    rw [hparts] at ih
    exact .step (mt (cut_iff hne hsep).mpr hcut) ih
  case case5 n c rest _ hnil _ =>
    obtain ⟨part, parts, hparts⟩ := exists_splitTopFrom sep (n.step c) 0 rest
    cases hnil.symm.trans hparts

namespace Cuts

theorem exists_cons (h : Cuts sep n text parts) : ∃ part rest, parts = part :: rest := by
  cases h
  case done => exact ⟨[], [], rfl⟩
  case separator rest parts _ => exact ⟨[], parts, rfl⟩
  case step c _ part parts _ _ => exact ⟨c :: part, parts, rfl⟩

theorem intercalate (h : Cuts sep n text parts) : sep.intercalate parts = text := by
  induction h
  case done => exact List.intercalate_singleton
  case separator h ih =>
    obtain ⟨part, rest, rfl⟩ := h.exists_cons
    rw [List.intercalate_cons_cons, ih, List.nil_append]
  case step part parts _ _ ih =>
    subst ih
    cases parts
    case nil => simp
    case cons => simp [List.intercalate_cons_cons]

-- Before a separator nothing is open.
theorem foldl_step (hsep : ∀ c ∈ sep, isPlain c = true) (h : Cuts sep n text (before ++ after)) (hbefore : before ≠ [])
    (hafter : after ≠ []) : (sep.intercalate before).foldl Nesting.step n = .outer := by
  generalize hparts : before ++ after = parts at h
  obtain ⟨first, before, rfl⟩ := List.exists_cons_of_ne_nil hbefore
  rw [List.cons_append] at hparts
  induction h generalizing first before
  case done =>
    have hnil : before ++ after = [] := (List.cons.inj hparts).2
    exact absurd (List.append_eq_nil_iff.mp hnil).2 hafter
  case separator h ih =>
    obtain ⟨rfl, rfl⟩ := List.cons.inj hparts
    cases before
    case nil => rfl
    case cons second before =>
      rw [List.intercalate_cons_cons, List.nil_append, List.foldl_append, foldl_step_of_isPlain hsep]
      exact ih second before (List.cons_ne_nil _ _) rfl
  case step c _ part _ _ _ ih =>
    obtain ⟨rfl, rfl⟩ := List.cons.inj hparts
    have ih := ih part before (List.cons_ne_nil _ _) rfl
    cases before
    case nil => simpa using ih
    case cons => simpa [List.intercalate_cons_cons] using ih

end Cuts

-- Wherever a separator stands, something is open.
def Uncut (sep : List Char) (n : Nesting) (text : List Char) : Prop :=
  ∀ x y, text = x ++ sep ++ y → x.foldl Nesting.step n ≠ .outer

theorem uncut_nil (hne : sep ≠ []) : Uncut sep n [] := by
  rintro x y hnil
  simp [hne] at hnil

theorem uncut_cons : Uncut sep n (c :: rest) ↔ ¬(n = .outer ∧ sep <+: c :: rest) ∧ Uncut sep (n.step c) rest where
  mp h := by
    constructor
    case left =>
      rintro ⟨hn, y, hy⟩
      exact h [] y hy.symm hn
    case right =>
      rintro x y rfl
      exact h (c :: x) y rfl
  mpr h x y hxy := by
    cases x
    case nil => exact fun hn => h.1 ⟨hn, y, hxy.symm⟩
    case cons d x =>
      obtain ⟨rfl, hrest⟩ := List.cons.inj hxy
      exact h.2 x y hrest

theorem splitTopFrom_of_uncut (hne : sep ≠ []) (hsep : ∀ c ∈ sep, isPlain c = true) (h : Uncut sep n text) :
    splitTopFrom sep n 0 text = [text] := by
  induction text generalizing n
  case nil => simp [splitTopFrom]
  case cons c rest ih =>
    obtain ⟨hnot, hrest⟩ := uncut_cons.mp h
    rw [splitTopFrom_cons hne hsep hnot, ih hrest, List.modifyHead_cons]

-- The first part goes on with what was open before.
theorem Cuts.uncut (hne : sep ≠ []) (h : Cuts sep n text (part :: parts)) :
    part <+: text ∧ Uncut sep n part ∧ ∀ p ∈ parts, Uncut sep .outer p := by
  generalize hparts : part :: parts = all at h
  induction h generalizing part parts
  case done =>
    cases hparts
    exact ⟨List.prefix_rfl, uncut_nil hne, nofun⟩
  case separator h ih =>
    cases hparts
    obtain ⟨first, rest, rfl⟩ := h.exists_cons
    have ⟨_, hfirst, hrest⟩ := ih rfl
    exact ⟨List.nil_prefix, uncut_nil hne, List.forall_mem_cons.mpr ⟨hfirst, hrest⟩⟩
  case step c text part parts hnot _ ih =>
    cases hparts
    have ⟨hstart, hpart, hparts⟩ := ih rfl
    have hstart : c :: part <+: c :: text := List.cons_prefix_cons.mpr ⟨rfl, hstart⟩
    exact ⟨hstart, uncut_cons.mpr ⟨fun h => hnot ⟨h.1, h.2.trans hstart⟩, hpart⟩, hparts⟩

-- The UTF-8 bytes of a text, each as the character with its number.
def octets (text : List Char) : List Char :=
  text.flatMap fun c => (String.utf8EncodeChar c).map Char.ofUInt8

theorem octets_cons : octets (c :: text) = (String.utf8EncodeChar c).map Char.ofUInt8 ++ octets text :=
  List.flatMap_cons

theorem octets_append : octets (x ++ y) = octets x ++ octets y :=
  List.flatMap_append

theorem encode_ascii (h : c.toNat < 128) : (String.utf8EncodeChar c).map Char.ofUInt8 = [c] := by
  have hle : c.val.toNat ≤ 127 := Nat.le_of_lt_succ h
  have hbyte : Char.ofUInt8 (.ofNat c.val.toNat) = c := by
    apply Char.toNat_inj.mp
    change (UInt8.ofNat c.val.toNat).toUInt32.toNat = c.val.toNat
    rw [UInt8.toNat_toUInt32, UInt8.toNat_ofNat', Nat.mod_eq_of_lt (by omega)]
  simp only [String.utf8EncodeChar, if_pos hle, List.map_cons, List.map_nil, hbyte]

theorem not_ascii_of_mem_encode {b : Char} (h : ¬c.toNat < 128)
    (hb : b ∈ (String.utf8EncodeChar c).map Char.ofUInt8) : ¬b.toNat < 128 := by
  obtain ⟨byte, hbyte, rfl⟩ := List.mem_map.mp hb
  have hle : ¬c.val.toNat ≤ 127 := fun hle => h (Nat.lt_succ_of_le hle)
  have hnat : (Char.ofUInt8 byte).toNat = byte.toNat := UInt8.toNat_toUInt32 byte
  rw [hnat]
  simp only [String.utf8EncodeChar, if_neg hle] at hbyte
  split at hbyte
  · simp only [List.mem_cons, List.not_mem_nil, or_false] at hbyte
    rcases hbyte with rfl | rfl <;> rw [UInt8.toNat_ofNat'] <;> omega
  split at hbyte
  · simp only [List.mem_cons, List.not_mem_nil, or_false] at hbyte
    rcases hbyte with rfl | rfl | rfl <;> rw [UInt8.toNat_ofNat'] <;> omega
  · simp only [List.mem_cons, List.not_mem_nil, or_false] at hbyte
    rcases hbyte with rfl | rfl | rfl | rfl <;> rw [UInt8.toNat_ofNat'] <;> omega

theorem octets_of_ascii (h : ∀ c ∈ text, c.toNat < 128) : octets text = text := by
  induction text
  case nil => rfl
  case cons c text ih =>
    have ⟨hc, htext⟩ := List.forall_mem_cons.mp h
    rw [octets_cons, encode_ascii hc, ih htext, List.singleton_append]

theorem exists_encode (c : Char) : ∃ b bytes, (String.utf8EncodeChar c).map Char.ofUInt8 = b :: bytes := by
  apply List.exists_cons_of_ne_nil
  apply List.ne_nil_of_length_pos
  rw [List.length_map, String.length_utf8EncodeChar]
  exact Char.utf8Size_pos c

-- No other character has the byte of an ASCII character among its bytes.
theorem prefix_octets_iff (h : ∀ c ∈ sep, c.toNat < 128) : sep <+: octets text ↔ sep <+: text := by
  induction sep generalizing text
  case nil => simp
  case cons c sep ih =>
    have ⟨hc, hsep⟩ := List.forall_mem_cons.mp h
    cases text
    case nil => rfl
    case cons d text =>
      rw [octets_cons]
      by_cases hd : d.toNat < 128
      case pos => rw [encode_ascii hd, List.singleton_append, List.cons_prefix_cons, List.cons_prefix_cons, ih hsep]
      case neg =>
        obtain ⟨b, bytes, hbytes⟩ := exists_encode d
        have hb : ¬b.toNat < 128 := not_ascii_of_mem_encode hd (hbytes ▸ List.mem_cons_self)
        have hcb : c ≠ b := by rintro rfl; exact hb hc
        have hcd : c ≠ d := by rintro rfl; exact hd hc
        simp [hbytes, List.cons_prefix_cons, hcb, hcd]

theorem isPlain_of_not_ascii (h : ¬c.toNat < 128) : isPlain c = true := by
  obtain rfl | rfl | rfl | hc := char_cases c
  · exact absurd (by decide) h
  · exact absurd (by decide) h
  · exact absurd (by decide) h
  · exact hc

theorem passes_of_not_ascii (hne : sep ≠ []) (hsep : ∀ c ∈ sep, isPlain c = true ∧ c.toNat < 128)
    (h : ∀ b ∈ text, ¬b.toNat < 128) : Passes sep n text n := by
  induction text
  case nil => exact .nil
  case cons b text ih =>
    have ⟨hb, htext⟩ := List.forall_mem_cons.mp h
    intro rest
    have hnot : ¬(n = .outer ∧ sep <+: b :: (text ++ rest)) := by
      rintro ⟨-, hstart⟩
      obtain rfl | ⟨x, rfl, -⟩ := List.prefix_cons_iff.mp hstart
      case inl => contradiction
      case inr => exact hb (hsep b List.mem_cons_self).2
    rw [List.cons_append, splitTopFrom_cons hne (fun c hc => (hsep c hc).1) hnot, step_of_isPlain
      (isPlain_of_not_ascii hb), ih htext, List.modifyHead_modifyHead]
    rfl

theorem Cuts.octets (hne : sep ≠ []) (hsep : ∀ c ∈ sep, isPlain c = true ∧ c.toNat < 128)
    (h : Cuts sep n text parts) : splitTopFrom sep n 0 (octets text) = parts.map octets := by
  have hascii : ∀ c ∈ sep, c.toNat < 128 := fun c hc => (hsep c hc).2
  induction h
  case done => simp [Text.octets, splitTopFrom]
  case separator ih =>
    obtain ⟨c, x, rfl⟩ := List.exists_cons_of_ne_nil hne
    rw [octets_append, octets_of_ascii hascii, splitTopFrom_separator (hsep c List.mem_cons_self).1, ih]
    rfl
  case step m c rest part parts hnot _ ih =>
    by_cases hc : c.toNat < 128
    case pos =>
      have hbytes (text : List Char) : Text.octets (c :: text) = c :: Text.octets text := by
        rw [octets_cons, encode_ascii hc, List.singleton_append]
      rw [← prefix_octets_iff hascii, hbytes] at hnot
      rw [hbytes, splitTopFrom_cons hne (fun c hc => (hsep c hc).1) hnot, ih]
      simp [hbytes]
    case neg =>
      have hbytes : Passes sep m ((String.utf8EncodeChar c).map Char.ofUInt8) m :=
        passes_of_not_ascii hne hsep fun b hb => not_ascii_of_mem_encode hc hb
      rw [step_of_isPlain (isPlain_of_not_ascii hc)] at ih
      rw [octets_cons, hbytes, ih]
      simp [octets_cons]

end Subplans.Text
