import Subplans.Condition.Resolve
import Subplans.Proofs.Condition.Requalified
import Subplans.Proofs.Text.Bytewise

/-!
Conditions that are scanned byte by byte.

The scans for tokens, for names and for the values of lists go through bytes, and cut the text at positions that they
count in bytes. No test tells characters beyond ASCII apart (`Uniform`), so the first byte of a character stands for it
where a scan looks ahead, and its last byte where a scan looks back. Each step reads what is read character by character
and ends between two characters behind it (`Agrees`). So all of the scans end without a fault, and find what is found
character by character (`scans_never_fault`).
-/

namespace Subplans.Condition.Bytewise

open Text Text.Bytewise

variable {b c : Char} {before read after rest text : List Char} {last : Option Token} {p : Char → Bool}

theorem uniform_isDigit : Uniform Char.isDigit := by
  refine ⟨false, fun c hc => Bool.eq_false_iff.mpr fun hdigit => hc ?_⟩
  have hrange : c.isDigit = (decide (48 ≤ c.toNat) && decide (c.toNat ≤ 57)) := rfl
  simp only [hrange, Bool.and_eq_true, decide_eq_true_eq] at hdigit
  omega

theorem uniform_isAlpha : Uniform Char.isAlpha := by
  refine ⟨false, fun c hc => Bool.eq_false_iff.mpr fun halpha => hc ?_⟩
  rw [isAlpha_iff_toNat] at halpha
  omega

theorem uniform_isNameStart : Uniform isNameStart :=
  uniform_isAlpha.or (uniform_beq (by decide))

theorem uniform_isNameChar : Uniform isNameChar :=
  (uniform_isAlpha.or uniform_isDigit).or (uniform_beq (by decide))

theorem uniform_isWordChar : Uniform isWordChar := by
  refine ⟨true, fun c hc => ?_⟩
  have hbeyond : 0x80 ≤ c.toNat := by omega
  simp [isWordChar, hbeyond]

theorem uniform_isOperatorChar : Uniform isOperatorChar := by
  unfold isOperatorChar
  refine ((((Uniform.or ?_ ?_).or ?_).or ?_).or ?_).or ?_
  all_goals exact uniform_beq (by decide)

theorem takeWhile_ne_nil (hc : p c = true) : (c :: rest).takeWhile p ≠ [] := by
  rw [List.takeWhile_cons_of_pos hc]
  exact List.cons_ne_nil _ _

-- Where the words end that go on with the name of a type.
def typeWordsEnd (text : List Char) (position : Nat) : Except ScanFault Nat :=
  if h : (octets text)[position]?.any (· == ' ') = true then
    let next := runEnd isNameChar (octets text) (position + 1)
    if _h : position + 1 < next then do
      let word ← slice text (position + 1) next
      if typeContinuations.contains (String.ofList word) then typeWordsEnd text next else pure position
    else pure position
  else pure position
termination_by (octets text).length - position
decreasing_by
  have hlt : position < (octets text).length := by
    by_contra hle
    rw [List.getElem?_eq_none (Nat.le_of_not_lt hle)] at h
    cases h
  omega

-- Where the name of a type ends that starts at the position.
def castEnd (text : List Char) (position : Nat) : Except ScanFault Nat := do
  let stop ← typeWordsEnd text (runEnd isNameChar (octets text) position)
  let rest ← slice text stop (octets text).length
  pure (if ['[', ']'].isPrefixOf rest then stop + 2 else stop)

theorem typeWordsEnd_of_head (h : rest.head? ≠ some ' ') :
    typeWordsEnd (before ++ rest) (byteSize before) = .ok (byteSize before) := by
  have hspace : ¬(octets (before ++ rest))[byteSize before]?.any (· == ' ') = true := by
    rw [octets_getElem?, (uniform_beq (by decide)).head?]
    simpa [Option.any_eq_true] using h
  rw [typeWordsEnd, dif_neg hspace]
  rfl

theorem typeWordsEnd_space : typeWordsEnd (before ++ ' ' :: rest) (byteSize before) =
    if (rest.takeWhile isNameChar).isEmpty ||
      !typeContinuations.contains (String.ofList (rest.takeWhile isNameChar)) then .ok (byteSize before)
    else typeWordsEnd (before ++ ' ' :: rest) (byteSize (before ++ ' ' :: rest.takeWhile isNameChar)) := by
  have hspace : (octets (before ++ ' ' :: rest))[byteSize before]?.any (· == ' ') = true := by
    rw [octets_getElem?, (uniform_beq (by decide)).head?]
    rfl
  have hstart : byteSize before + 1 = byteSize (before ++ [' ']) := (byteSize_concat_of_ascii (by decide)).symm
  have hnext : runEnd isNameChar (octets (before ++ ' ' :: rest)) (byteSize before + 1) =
      byteSize (before ++ ' ' :: rest.takeWhile isNameChar) := by
    rw [hstart, List.append_cons before ' ' rest, uniform_isNameChar.runEnd_eq, ← List.append_cons]
  have hword : slice (before ++ ' ' :: rest) (byteSize before + 1)
      (byteSize (before ++ ' ' :: rest.takeWhile isNameChar)) = .ok (rest.takeWhile isNameChar) := by
    refine slice_eq_ok_iff.mpr ⟨before ++ [' '], rest.dropWhile isNameChar, ?_, hstart, ?_⟩
    · rw [List.takeWhile_append_dropWhile, ← List.append_cons]
    · rw [← List.append_cons]
  rw [typeWordsEnd, dif_pos hspace]
  simp only [hnext, hword]
  cases hrun : rest.takeWhile isNameChar
  case nil => rw [dif_neg (by rw [hstart]; exact Nat.lt_irrefl _)]; rfl
  case cons c word =>
    have hlt : byteSize before + 1 < byteSize (before ++ ' ' :: c :: word) := by
      rw [hstart, List.append_cons before ' ' (c :: word), byteSize_append (x := before ++ [' '])]
      exact Nat.lt_add_of_pos_right byteSize_pos
    rw [dif_pos hlt]
    change (if typeContinuations.contains (String.ofList (c :: word)) then _ else _) = _
    cases typeContinuations.contains (String.ofList (c :: word)) <;> rfl

theorem typeWordsEnd_eq : typeWordsEnd (before ++ text) (byteSize before) =
    .ok (byteSize (before ++ (typeWords text).1)) := by
  fun_induction typeWords text generalizing before
  case case1 rest word hstop => rw [typeWordsEnd_space, if_pos hstop, List.append_nil]
  case case2 rest word hgoes more after heq ih =>
    have htext : before ++ ' ' :: rest = before ++ ' ' :: word ++ rest.dropWhile isNameChar := by
      rw [List.append_assoc, List.cons_append, List.takeWhile_append_dropWhile]
    rw [heq] at ih
    rw [typeWordsEnd_space, if_neg hgoes, htext, ih, List.append_assoc]
  case case3 hspace =>
    rw [typeWordsEnd_of_head, List.append_nil]
    intro hhead
    obtain ⟨rest, rfl⟩ := List.head?_eq_some_iff.mp hhead
    exact hspace rest rfl

theorem castEnd_eq : castEnd (before ++ text) (byteSize before) = .ok (byteSize (before ++ (typeName text).1)) := by
  have hwords := @typeWordsEnd_eq (before ++ text.takeWhile isNameChar) (text.dropWhile isNameChar)
  have happend := typeWords_append (text.dropWhile isNameChar)
  rw [List.append_assoc before, List.takeWhile_append_dropWhile, List.append_assoc before,
    ← uniform_isNameChar.runEnd_eq] at hwords
  unfold typeName
  generalize typeWords (text.dropWhile isNameChar) = found at hwords happend
  obtain ⟨more, after⟩ := found
  have htext : before ++ text = before ++ (text.takeWhile isNameChar ++ more) ++ after := by simp [happend]
  have hrest : slice (before ++ text) (byteSize (before ++ (text.takeWhile isNameChar ++ more)))
      (octets (before ++ text)).length = .ok after := by
    rw [htext]
    exact slice_to_end
  refine Outcome.bind_eq_ok.mpr ⟨_, hwords, Outcome.bind_eq_ok.mpr ⟨after, hrest, ?_⟩⟩
  by_cases hbrackets : ['[', ']'] <+: after
  case pos =>
    obtain ⟨rest, rfl⟩ := hbrackets
    have hsize : byteSize (before ++ (text.takeWhile isNameChar ++ more ++ ['[', ']'])) =
        byteSize (before ++ (text.takeWhile isNameChar ++ more)) + 2 := by
      rw [← List.append_assoc before, byteSize_append]
      rfl
    exact congrArg Except.ok hsize.symm
  case neg =>
    rw [if_neg (mt List.isPrefixOf_iff_prefix.mp hbrackets)]
    dsimp only
    split
    case h_1 rest => exact absurd ⟨rest, rfl⟩ hbrackets
    case h_2 => rfl

theorem quotation_append : c :: rest = c :: (quotedRun c rest).1 ++ (quotedRun c rest).2 := by
  rw [List.cons_append, quotedRun_append]

theorem cast_append : ':' :: ':' :: rest = ':' :: ':' :: (typeName rest).1 ++ (typeName rest).2 := by
  rw [List.cons_append, List.cons_append, typeName_append]

-- The text between two positions, and the second of them.
def upTo (text : List Char) (position stop : Nat) : Except ScanFault (List Char × Nat) :=
  return (← slice text position stop, stop)

theorem upTo_eq {stop : Nat} (hread : text = read ++ after) (hstop : stop = byteSize (before ++ read)) :
    upTo (before ++ text) (byteSize before) stop = .ok (read, stop) :=
  Outcome.bind_eq_ok.mpr ⟨read, slice_eq_ok_iff.mpr ⟨before, after, by rw [hread], rfl, hstop⟩, rfl⟩

-- The scan of bytes behind `before` finds what the scan of characters finds, and goes on in the same place behind it.
inductive Agrees (before text : List Char) {α : Type} :
    Option (α × List Char) → Except ScanFault (Option (α × Nat)) → Prop
  | none : Agrees before text none (.ok none)
  | some {found : α} {read after : List Char} : text = read ++ after → read ≠ [] →
    Agrees before text (some (found, after)) (.ok (some (found, byteSize (before ++ read))))

theorem Agrees.eq_none {α : Type} {scanned : Except ScanFault (Option (α × Nat))}
    (h : Agrees before text Option.none scanned) : scanned = .ok Option.none := by
  cases h
  rfl

theorem Agrees.exists_read {α : Type} {found : α} {scanned : Except ScanFault (Option (α × Nat))}
    (h : Agrees before text (Option.some (found, after)) scanned) :
    ∃ read, text = read ++ after ∧ read ≠ [] ∧ scanned = .ok (Option.some (found, byteSize (before ++ read))) := by
  cases h
  case some read hne hread => exact ⟨read, hread, hne, rfl⟩

theorem byteSize_lt (hne : read ≠ []) : byteSize before < byteSize (before ++ read) := by
  obtain ⟨c, x, rfl⟩ := List.exists_cons_of_ne_nil hne
  rw [byteSize_append]
  exact Nat.lt_add_of_pos_right byteSize_pos

-- What the parenthesis at the position encloses.
def rawAt (text : List Char) (position : Nat) : Except ScanFault (Option (Token × Nat)) := do
  match ← matchingParen text position with
  | none => return none
  | some close =>
    let inside ← slice text (position + 1) close
    return some (.raw (String.ofList (trim inside)), close + 1)

-- The literal or quoted name that the mark at the position starts.
def quotationAt (text : List Char) (position : Nat) (mark : Char) : Except ScanFault (Option (Token × Nat)) := do
  let stop ← quotedEnd text position
  if stop < position + 2 then return none
  else if (← octetAt text (stop - 1)) != mark then return none
  else
    let content := String.ofList (undouble mark (← slice text (position + 1) (stop - 1)))
    return some (if mark == quoteMark then .text content else .word content, stop)

-- The cast whose colons stand at the position.
def castAt (text : List Char) (position : Nat) : Except ScanFault (Option (Token × Nat)) := do
  let stop ← castEnd text (position + 2)
  if stop == position + 2 then return none
  else return some (.cast (String.ofList (← slice text (position + 2) stop)), stop)

-- The token at the position, where the byte `b` is, and the position behind it.
def tokenAt (text : List Char) (last : Option Token) (position : Nat) (b : Char) :
    Except ScanFault (Option (Token × Nat)) :=
  let bs := octets text
  let read (stop : Nat) (token : String → Token) : Except ScanFault (Option (Token × Nat)) :=
    (upTo text position stop).map fun (x, next) => some (token (String.ofList x), next)
  if b == '(' then
    if last.any Token.isQuantifier then rawAt text position else return some (.lparen, position + 1)
  else if b == ')' then return some (.rparen, position + 1)
  else if b == ',' then return some (.comma, position + 1)
  else if b == quoteMark || b == nameMark then quotationAt text position b
  else if b == ':' && bs[position + 1]?.any (· == ':') then castAt text position
  else if b.isDigit || (b == '-' && bs[position + 1]?.any Char.isDigit && allowsSign last) then
    read (runEnd (fun d => d.isDigit || d == '.') bs (position + 1)) .number
  else if isWordStart b then read (runEnd isWordChar bs position) .word
  else if isOperatorChar b then read (runEnd isOperatorChar bs position) .operator
  else if isSingleOperator b then return some (.operator (String.singleton b), position + 1)
  else return none

def tokensFrom (text : List Char) (last : Option Token) (position : Nat) : Except ScanFault (Option (List Token)) :=
  if h : position < (octets text).length then
    if isSeparator (octets text)[position] then tokensFrom text last (position + 1)
    else do
      match ← tokenAt text last position (octets text)[position] with
      | none => return none
      | some (t, next) =>
        if _h : position < next then return (← tokensFrom text (some t) next).map (t :: ·) else throw .stuck
  else return some []
termination_by (octets text).length - position

def tokens (text : List Char) : Except ScanFault (Option (List Token)) :=
  tokensFrom text none 0

theorem agrees_rawAt : Agrees before ('(' :: rest)
    ((enclosed? ('(' :: rest)).map fun (inside, after) => (Token.raw (String.ofList (trim inside)), after))
    (rawAt (before ++ '(' :: rest) (byteSize before)) := by
  rw [rawAt, matchingParen_eq, matchingParen?_append]
  cases hinside : enclosed? ('(' :: rest)
  case none => exact .none
  case some found =>
    obtain ⟨inside, after⟩ := found
    obtain rfl : rest = inside ++ ')' :: after := closing?_eq_some hinside
    have hstart : byteSize before + 1 = byteSize (before ++ ['(']) := (byteSize_concat_of_ascii (by decide)).symm
    have hslice : slice (before ++ '(' :: (inside ++ ')' :: after)) (byteSize before + 1)
        (byteSize before + 1 + byteSize inside) = .ok inside :=
      slice_eq_ok_iff.mpr ⟨before ++ ['('], ')' :: after, by simp, hstart, by rw [hstart, ← byteSize_append]⟩
    have hstop : byteSize before + 1 + byteSize inside + 1 = byteSize (before ++ ('(' :: inside ++ [')'])) := by
      calc byteSize before + 1 + byteSize inside + 1
        _ = byteSize (before ++ ['('] ++ inside) + byteSize [')'] := by rw [hstart, ← byteSize_append]; rfl
        _ = byteSize (before ++ ('(' :: inside ++ [')'])) := by
          rw [← byteSize_append, ← List.append_cons, List.append_assoc]
    change Agrees _ _ (some _) (slice _ _ _ >>= _)
    rw [hslice]
    change Agrees _ _ (some _) (.ok (some (_, byteSize before + 1 + byteSize inside + 1)))
    rw [hstop]
    exact .some (by simp) (List.cons_ne_nil _ _)

-- A quotation that nothing follows is not closed.
theorem quotationAt_nil {mark : Char} (hmark : mark.toNat < 128) (hrun : (quotedRun mark rest).1 = []) :
    quotationAt (before ++ mark :: rest) (byteSize before) mark = .ok none := by
  refine Outcome.bind_eq_ok.mpr ⟨_, quotedEnd_eq hmark, if_pos ?_⟩
  rw [hrun, byteSize_concat_of_ascii hmark]
  exact Nat.lt_succ_self _

theorem quotationAt_concat {mark d : Char} {x : List Char} (hmark : mark.toNat < 128)
    (hrun : (quotedRun mark rest).1 = x ++ [d]) : quotationAt (before ++ mark :: rest) (byteSize before) mark =
      .ok (if d == mark then
        some (if mark == quoteMark then Token.text (String.ofList (undouble mark x))
          else .word (String.ofList (undouble mark x)), byteSize (before ++ mark :: (x ++ [d])))
      else none) := by
  have hrest : rest = x ++ d :: (quotedRun mark rest).2 := by
    rw [List.append_cons, ← hrun, quotedRun_append]
  have hread : before ++ mark :: (x ++ [d]) = before ++ mark :: x ++ [d] := by simp
  have hstart : byteSize before + 1 = byteSize (before ++ [mark]) := (byteSize_concat_of_ascii hmark).symm
  have hstop : byteSize (before ++ mark :: (x ++ [d])) = byteSize (before ++ mark :: x) + byteSize [d] := by
    rw [hread, byteSize_append]
  have hlong : ¬byteSize (before ++ mark :: (x ++ [d])) < byteSize before + 2 := by
    have hpos : 0 < byteSize [d] := byteSize_pos
    rw [hstop, byteSize_append, byteSize_cons_of_ascii hmark]
    omega
  obtain ⟨b, hb, hoctet⟩ : ∃ b ∈ octets [d],
      octetAt (before ++ mark :: rest) (byteSize (before ++ mark :: (x ++ [d])) - 1) = .ok b := by
    have htext : before ++ mark :: rest = before ++ mark :: x ++ d :: (quotedRun mark rest).2 := by
      rw [List.append_assoc, List.cons_append, ← hrest]
    rw [htext, hread]
    exact exists_octetAt_last
  have hbd : (b == mark) = (d == mark) := (uniform_beq hmark).octets hb
  refine Outcome.bind_eq_ok.mpr ⟨_, quotedEnd_eq hmark, ?_⟩
  rw [hrun, if_neg hlong]
  refine Outcome.bind_eq_ok.mpr ⟨b, hoctet, ?_⟩
  rw [bne, hbd]
  cases hd : d == mark
  case false => rfl
  case true =>
    cases eq_of_beq hd
    have hslice : slice (before ++ mark :: rest) (byteSize before + 1) (byteSize (before ++ mark :: (x ++ [mark])) - 1) =
        .ok x := by
      refine slice_eq_ok_iff.mpr ⟨before ++ [mark], mark :: (quotedRun mark rest).2, ?_, hstart, ?_⟩
      · rw [← hrest, ← List.append_cons]
      · rw [hstop, byteSize_of_ascii hmark, ← List.append_cons]
        rfl
    exact Outcome.bind_eq_ok.mpr ⟨x, hslice, rfl⟩

theorem agrees_quotationAt {mark : Char} (hmark : mark.toNat < 128) : Agrees before (mark :: rest)
    (if (quotedRun mark rest).1.getLast? == some mark then
      some (if mark == quoteMark then Token.text (String.ofList (undouble mark (quotedRun mark rest).1.dropLast))
        else .word (String.ofList (undouble mark (quotedRun mark rest).1.dropLast)), (quotedRun mark rest).2)
    else none) (quotationAt (before ++ mark :: rest) (byteSize before) mark) := by
  obtain hrun | ⟨x, d, hrun⟩ := List.eq_nil_or_concat (quotedRun mark rest).1
  case inl =>
    rw [quotationAt_nil hmark hrun, hrun]
    exact .none
  case inr =>
    rw [List.concat_eq_append] at hrun
    have hread : mark :: rest = mark :: (x ++ [d]) ++ (quotedRun mark rest).2 := hrun ▸ quotation_append
    rw [quotationAt_concat hmark hrun, hrun, List.getLast?_concat, List.dropLast_concat, Option.some_beq_some]
    cases d == mark
    case false => exact .none
    case true => exact .some hread (List.cons_ne_nil _ _)

theorem byteSize_colons : byteSize (before ++ [':', ':']) = byteSize before + 2 := by
  rw [byteSize_append]
  rfl

theorem castEnd_colons : castEnd (before ++ ':' :: ':' :: rest) (byteSize before + 2) =
    .ok (byteSize (before ++ ':' :: ':' :: (typeName rest).1)) := by
  have hcast := @castEnd_eq (before ++ [':', ':']) rest
  rwa [byteSize_colons, List.append_assoc, List.append_assoc] at hcast

theorem agrees_castAt : Agrees before (':' :: ':' :: rest)
    (if (typeName rest).1.isEmpty then none
    else some (Token.cast (String.ofList (typeName rest).1), (typeName rest).2))
    (castAt (before ++ ':' :: ':' :: rest) (byteSize before)) := by
  have hread : ':' :: ':' :: rest = ':' :: ':' :: (typeName rest).1 ++ (typeName rest).2 := cast_append
  have hslice : slice (before ++ ':' :: ':' :: rest) (byteSize before + 2)
      (byteSize (before ++ ':' :: ':' :: (typeName rest).1)) = .ok (typeName rest).1 :=
    slice_eq_ok_iff.mpr ⟨before ++ [':', ':'], (typeName rest).2, by simp [typeName_append], byteSize_colons.symm,
      by simp⟩
  have hend := @castEnd_colons before rest
  cases htype : (typeName rest).1
  case nil =>
    rw [htype] at hend
    have hnone : castAt (before ++ ':' :: ':' :: rest) (byteSize before) = .ok none :=
      Outcome.bind_eq_ok.mpr ⟨_, hend, if_pos (by rw [byteSize_colons]; exact beq_self_eq_true _)⟩
    rw [hnone]
    exact .none
  case cons d type =>
    rw [htype] at hend hread hslice
    have hlong : ¬(byteSize (before ++ ':' :: ':' :: d :: type) == byteSize before + 2) = true := by
      have hpos : 0 < byteSize (d :: type) := byteSize_pos
      have hsize : byteSize (before ++ ':' :: ':' :: d :: type) = byteSize before + 2 + byteSize (d :: type) := by
        rw [← byteSize_colons, ← byteSize_append, List.append_assoc]
        rfl
      rw [beq_iff_eq, hsize]
      omega
    have hsome : castAt (before ++ ':' :: ':' :: rest) (byteSize before) =
        .ok (some (.cast (String.ofList (d :: type)), byteSize (before ++ ':' :: ':' :: d :: type))) := by
      refine Outcome.bind_eq_ok.mpr ⟨_, hend, ?_⟩
      rw [if_neg hlong]
      exact Outcome.bind_eq_ok.mpr ⟨_, hslice, rfl⟩
    rw [hsome]
    exact .some hread (List.cons_ne_nil _ _)

theorem any_beq_eq {o : Option Char} : o.any (· == c) = (o == some c) := by
  cases o <;> rfl

theorem agrees_upTo {token : String → Token} {stop : Nat} (hread : text = read ++ after) (hne : read ≠ [])
    (hstop : stop = byteSize (before ++ read)) : Agrees before text (some (token (String.ofList read), after))
      ((upTo (before ++ text) (byteSize before) stop).map fun (x, next) => some (token (String.ofList x), next)) := by
  rw [upTo_eq hread hstop, hstop]
  exact .some hread hne

theorem agrees_run {token : String → Token} (hp : Uniform p) (hc : p c = true) :
    Agrees before (c :: rest) (some (token (String.ofList ((c :: rest).takeWhile p)), (c :: rest).dropWhile p))
      ((upTo (before ++ c :: rest) (byteSize before) (runEnd p (octets (before ++ c :: rest)) (byteSize before))).map
        fun (x, next) => some (token (String.ofList x), next)) := by
  exact agrees_upTo List.takeWhile_append_dropWhile.symm (takeWhile_ne_nil hc) hp.runEnd_eq

theorem agrees_tokenAt_of_ascii (hascii : c.toNat < 128) :
    Agrees before (c :: rest) (token? last (c :: rest)) (tokenAt (before ++ c :: rest) last (byteSize before) c) := by
  have hnext : byteSize before + 1 = byteSize (before ++ [c]) := (byteSize_concat_of_ascii hascii).symm
  have hsecond {p : Char → Bool} (hp : Uniform p) :
      (octets (before ++ c :: rest))[byteSize before + 1]?.any p = rest.head?.any p := by
    rw [hnext, List.append_cons, octets_getElem?, hp.head?]
  have hone {t : Token} : Agrees before (c :: rest) (some (t, rest)) (.ok (some (t, byteSize before + 1))) := by
    rw [hnext]
    exact .some rfl (List.cons_ne_nil _ _)
  unfold tokenAt token?
  dsimp only
  rw [hsecond (uniform_beq (by decide)), hsecond uniform_isDigit, any_beq_eq]
  split
  · cases eq_of_beq ‹_›
    split
    · exact agrees_rawAt
    · exact hone
  split
  · exact hone
  split
  · exact hone
  split
  · exact agrees_quotationAt hascii
  split
  case isTrue hcast =>
    rw [Bool.and_eq_true, beq_iff_eq, beq_iff_eq] at hcast
    obtain ⟨rest, rfl⟩ := List.head?_eq_some_iff.mp hcast.2
    cases hcast.1
    exact agrees_castAt
  split
  case isTrue =>
    have hnumber : Uniform fun d => d.isDigit || d == '.' := uniform_isDigit.or (uniform_beq (by decide))
    refine agrees_upTo ?_ (List.cons_ne_nil _ _) ?_
    · rw [List.cons_append, List.takeWhile_append_dropWhile]
    · rw [hnext, List.append_cons before c rest, hnumber.runEnd_eq, ← List.append_cons]
  split
  case isTrue hstart => exact agrees_run uniform_isWordChar (isWordChar_of_isWordStart hstart)
  split
  case isTrue hoperator => exact agrees_run uniform_isOperatorChar hoperator
  split
  · exact hone
  · exact .none

theorem beq_of_not_ascii (hc : ¬c.toNat < 128) : (c == '(') = false ∧ (c == ')') = false ∧ (c == ',') = false ∧
    (c == quoteMark) = false ∧ (c == nameMark) = false ∧ (c == ':') = false ∧ (c == '-') = false := by
  have hne {d : Char} (hd : d.toNat < 128) : (c == d) = false := by
    rw [beq_eq_false_iff_ne]
    rintro rfl
    exact hc hd
  refine ⟨?_, ?_, ?_, ?_, ?_, ?_, ?_⟩
  all_goals exact hne (by decide)

theorem isWordStart_of_not_ascii (hc : ¬c.toNat < 128) : isWordStart c = true := by
  have hbeyond : 0x80 ≤ c.toNat := by omega
  simp [isWordStart, hbeyond]

-- What lies beyond ASCII belongs to words.
theorem agrees_tokenAt_of_not_ascii (hc : ¬c.toNat < 128) (hb : ¬b.toNat < 128) :
    Agrees before (c :: rest) (token? last (c :: rest)) (tokenAt (before ++ c :: rest) last (byteSize before) b) := by
  have hcstart : isWordStart c = true := isWordStart_of_not_ascii hc
  have hbstart : isWordStart b = true := isWordStart_of_not_ascii hb
  have hread : token? last (c :: rest) =
      some (.word (String.ofList ((c :: rest).takeWhile isWordChar)), (c :: rest).dropWhile isWordChar) := by
    simp only [token?, beq_of_not_ascii hc, isDigit_of_isWordStart hcstart, hcstart]
    rfl
  have hscan : tokenAt (before ++ c :: rest) last (byteSize before) b =
      (upTo (before ++ c :: rest) (byteSize before)
        (runEnd isWordChar (octets (before ++ c :: rest)) (byteSize before))).map
        fun (x, next) => some (.word (String.ofList x), next) := by
    simp only [tokenAt, beq_of_not_ascii hb, isDigit_of_isWordStart hbstart, hbstart]
    rfl
  rw [hread, hscan]
  exact agrees_run uniform_isWordChar (isWordChar_of_isWordStart hcstart)

theorem agrees_tokenAt (hb : b ∈ octets [c]) :
    Agrees before (c :: rest) (token? last (c :: rest)) (tokenAt (before ++ c :: rest) last (byteSize before) b) := by
  by_cases hc : c.toNat < 128
  case pos =>
    rw [eq_of_mem_octets hc hb]
    exact agrees_tokenAt_of_ascii hc
  case neg => exact agrees_tokenAt_of_not_ascii hc (not_ascii_of_mem_octets hc hb)

theorem exists_octets_getElem : ∃ h : byteSize before < (octets (before ++ c :: rest)).length,
    (octets (before ++ c :: rest))[byteSize before] ∈ octets [c] := by
  obtain ⟨b, bs, hbs⟩ := exists_octets c
  have hget : (octets (before ++ c :: rest))[byteSize before]? = some b := by
    rw [octets_getElem?, octets_cons_eq_append, hbs]
    rfl
  obtain ⟨hlt, rfl⟩ := List.getElem?_eq_some_iff.mp hget
  exact ⟨hlt, hbs ▸ List.mem_cons_self⟩

theorem ascii_of_isSeparator (h : isSeparator c = true) : c.toNat < 128 := by
  simp only [isSeparator, Bool.or_eq_true, beq_iff_eq] at h
  omega

theorem uniform_isSeparator : Uniform isSeparator :=
  ⟨false, fun _ hc => Bool.eq_false_iff.mpr fun h => hc (ascii_of_isSeparator h)⟩

theorem tokensFrom_nil : tokensFrom before last (byteSize before) = .ok (some []) := by
  rw [tokensFrom, dif_neg (by rw [length_octets]; exact Nat.lt_irrefl _)]
  rfl

theorem tokensFrom_separator (hc : isSeparator c = true) : tokensFrom (before ++ c :: rest) last (byteSize before) =
    tokensFrom (before ++ c :: rest) last (byteSize (before ++ [c])) := by
  obtain ⟨hlt, hmem⟩ := @exists_octets_getElem c before rest
  rw [tokensFrom, dif_pos hlt, if_pos ((uniform_isSeparator.octets hmem).trans hc),
    byteSize_concat_of_ascii (ascii_of_isSeparator hc)]

theorem tokensFrom_none (hc : isSeparator c = false) (h : token? last (c :: rest) = none) :
    tokensFrom (before ++ c :: rest) last (byteSize before) = .ok none := by
  obtain ⟨hlt, hmem⟩ := @exists_octets_getElem c before rest
  have hscanned := (h ▸ agrees_tokenAt hmem : Agrees before _ none (tokenAt _ last _ _)).eq_none
  rw [tokensFrom, dif_pos hlt, if_neg (by rw [uniform_isSeparator.octets hmem, hc]; exact Bool.false_ne_true), hscanned]
  rfl

theorem tokensFrom_some {t : Token} (hc : isSeparator c = false) (h : token? last (c :: rest) = some (t, after)) :
    ∃ read, c :: rest = read ++ after ∧ read ≠ [] ∧ tokensFrom (before ++ c :: rest) last (byteSize before) =
      (tokensFrom (before ++ c :: rest) (some t) (byteSize (before ++ read))).map (Option.map (t :: ·)) := by
  obtain ⟨hlt, hmem⟩ := @exists_octets_getElem c before rest
  obtain ⟨read, hread, hne, hscanned⟩ :=
    (h ▸ agrees_tokenAt hmem : Agrees before _ (some (t, after)) (tokenAt _ last _ _)).exists_read
  refine ⟨read, hread, hne, ?_⟩
  rw [tokensFrom, dif_pos hlt, if_neg (by rw [uniform_isSeparator.octets hmem, hc]; exact Bool.false_ne_true), hscanned]
  change (if _h : byteSize before < byteSize (before ++ read) then _ else _) = _
  rw [dif_pos (byteSize_lt hne)]
  rfl

theorem tokensFrom_eq : tokensFrom (before ++ text) last (byteSize before) = .ok (tokensAfter? last text) := by
  fun_induction tokensAfter? last text generalizing before
  case case1 => rw [List.append_nil, tokensFrom_nil]
  case case2 last c rest hsep ih => rw [tokensFrom_separator hsep, List.append_cons, ih]
  case case3 hsep hnone => rw [hnone, tokensFrom_none (by simpa using hsep) hnone]
  case case4 hsep t after hlt hsome ih =>
    obtain ⟨read, hread, -, htokens⟩ := @tokensFrom_some _ before _ _ _ _ (by simpa using hsep) hsome
    rw [htokens, hsome]
    rw [hread, ← List.append_assoc, ih, ← hread]
    dsimp only
    rw [dif_pos hlt]
    rfl
  case case5 hsep t after hlong hsome =>
    obtain ⟨read, hread, hne, -⟩ := @tokensFrom_some _ [] _ _ _ _ (by simpa using hsep) hsome
    refine absurd ?_ hlong
    rw [hread, List.length_append]
    exact Nat.lt_add_of_pos_left (List.length_pos_of_ne_nil hne)

theorem tokens_eq : tokens text = .ok (tokens? (String.ofList text)) := by
  rw [Condition.tokens?, String.toList_ofList]
  exact @tokensFrom_eq [] text none

def joins (c : Char) : Bool :=
  isNameChar c || c == '.'

-- A name or a point stands right before the position.
def joinedAt (text : List Char) (position : Nat) : Except ScanFault Bool :=
  if position = 0 then pure false else return joins (← octetAt text (position - 1))

-- What is written for the text at the position, where the byte `b` is, and the position behind that text. For a name
-- `rename` gives what to write instead and the number of bytes that it stands for.
def rewriteAt (rename : List Char → Except ScanFault (Option (List Char × Nat))) (text : List Char) (position : Nat)
    (b : Char) : Except ScanFault (List Char × Nat) := do
  if isMark b then
    return ← upTo text position (← quotedEnd text position)
  let rest ← slice text position (octets text).length
  if [':', ':'].isPrefixOf rest then
    return ← upTo text position (← castEnd text (position + 2))
  if isNameStart b && !(← joinedAt text position) then
    match ← rename rest with
    | some (replacement, length) => return (replacement, position + length)
    | none => return ← upTo text position (runEnd isNameChar (octets text) position)
  let c := rest.head?.getD ' '
  return ([c], position + c.utf8Size)

def rewriteFrom (rename : List Char → Except ScanFault (Option (List Char × Nat))) (text : List Char)
    (position : Nat) : Except ScanFault (List Char) :=
  if h : position < (octets text).length then do
    let (written, next) ← rewriteAt rename text position (octets text)[position]
    if _h : position < next then return written ++ (← rewriteFrom rename text next) else throw .stuck
  else return []
termination_by (octets text).length - position

-- The alias before the name at the start of a text, if it is a column without a qualifier.
def qualifierAt (a : String) (t : Table) (text : List Char) : Except ScanFault (Option (List Char × Nat)) := do
  let stop := byteSize (text.takeWhile isNameChar)
  let word ← slice text 0 stop
  let after ← slice text stop (octets text).length
  if after.head? == some '.' || !t.hasColumn (String.ofList word) then return none
  else return some (a.toList ++ '.' :: word, stop)

-- One qualifier instead of another at the start of a text.
def requalifierAt (source target : String) (text : List Char) : Except ScanFault (Option (List Char × Nat)) :=
  return do
    let after ← text.dropPrefix? (source.toList ++ ['.'])
    if after.head?.any isNameChar then some (target.toList ++ ['.'], byteSize source.toList + 1) else none

def qualify (text : List Char) (a : String) (t : Table) : Except ScanFault (List Char) :=
  rewriteFrom (qualifierAt a t) text 0

def requalify (text : List Char) (source target : String) : Except ScanFault (List Char) :=
  rewriteFrom (requalifierAt source target) text 0

theorem uniform_joins : Uniform joins :=
  uniform_isNameChar.or (uniform_beq (by decide))

theorem joinedAt_eq : joinedAt (before ++ rest) (byteSize before) = .ok (before.getLast?.any joins) := by
  obtain rfl | ⟨x, d, rfl⟩ := List.eq_nil_or_concat before
  case inl => rfl
  case inr =>
    rw [List.concat_eq_append]
    obtain ⟨b, hb, hoctet⟩ := @exists_octetAt_last d x rest
    have hpos : byteSize (x ++ [d]) ≠ 0 := by
      have hd : 0 < byteSize [d] := byteSize_pos
      rw [byteSize_append]
      omega
    have hread : octetAt (x ++ [d] ++ rest) (byteSize (x ++ [d]) - 1) = .ok b := by rw [← List.append_cons, hoctet]
    rw [joinedAt, if_neg hpos, hread, List.getLast?_concat, Option.any_some, ← uniform_joins.octets hb]
    rfl

theorem ascii_of_isNameStart (h : isNameStart c = true) : c.toNat < 128 := by
  rw [isNameStart, Bool.or_eq_true, isAlpha_iff_toNat, beq_iff_eq] at h
  rcases h with h | rfl
  · omega
  · decide

section Rewriting

variable {renameAt : List Char → Except ScanFault (Option (List Char × Nat))}
  {rename : List Char → Option (List Char × List Char)} {joined : Bool}

theorem ascii_of_isMark (h : isMark c = true) : c.toNat < 128 := by
  rw [isMark, Bool.or_eq_true, beq_iff_eq, beq_iff_eq] at h
  rcases h with rfl | rfl <;> decide

theorem uniform_isMark : Uniform isMark :=
  (uniform_beq (by decide)).or (uniform_beq (by decide))

theorem rewriteAt_mark (h : isMark c = true) : rewriteAt renameAt (before ++ c :: rest) (byteSize before) c =
    .ok (c :: (quotedRun c rest).1, byteSize (before ++ c :: (quotedRun c rest).1)) := by
  unfold rewriteAt
  rw [if_pos h]
  exact Outcome.bind_eq_ok.mpr ⟨_, quotedEnd_eq (ascii_of_isMark h), upTo_eq quotation_append rfl⟩

theorem rewriteAt_cast : rewriteAt renameAt (before ++ ':' :: ':' :: rest) (byteSize before) ':' =
    .ok (':' :: ':' :: (typeName rest).1, byteSize (before ++ ':' :: ':' :: (typeName rest).1)) := by
  have hcast : [':', ':'].isPrefixOf (':' :: ':' :: rest) = true := List.isPrefixOf_iff_prefix.mpr ⟨rest, rfl⟩
  unfold rewriteAt
  rw [if_neg (by decide)]
  refine Outcome.bind_eq_ok.mpr ⟨_, slice_to_end, ?_⟩
  rw [if_pos hcast]
  exact Outcome.bind_eq_ok.mpr ⟨_, castEnd_colons, upTo_eq cast_append rfl⟩

-- Neither a quotation nor a cast nor a name starts here.
theorem rewriteAt_other (hmark : isMark b = false) (hcast : ¬[':', ':'] <+: c :: rest)
    (hname : (isNameStart b && !before.getLast?.any joins) = false) :
    rewriteAt renameAt (before ++ c :: rest) (byteSize before) b = .ok ([c], byteSize (before ++ [c])) := by
  have hsize : byteSize (before ++ [c]) = byteSize before + c.utf8Size := byteSize_append
  unfold rewriteAt
  rw [if_neg (by rw [hmark]; exact Bool.false_ne_true), hsize]
  refine Outcome.bind_eq_ok.mpr ⟨_, slice_to_end, ?_⟩
  rw [if_neg (mt List.isPrefixOf_iff_prefix.mp hcast)]
  refine Outcome.bind_eq_ok.mpr ⟨_, joinedAt_eq, ?_⟩
  rw [if_neg (by rw [hname]; exact Bool.false_ne_true)]
  rfl

theorem rewriteAt_name (hname : isNameStart c = true) (hjoined : before.getLast?.any joins = false) :
    rewriteAt renameAt (before ++ c :: rest) (byteSize before) c = (do
      match ← renameAt (c :: rest) with
      | some (replacement, length) => return (replacement, byteSize before + length)
      | none => return ((c :: rest).takeWhile isNameChar, byteSize (before ++ (c :: rest).takeWhile isNameChar))) := by
  have hchar : isNameChar c = true := isNameChar_of_isNameStart hname
  have hword : upTo (before ++ c :: rest) (byteSize before)
      (runEnd isNameChar (octets (before ++ c :: rest)) (byteSize before)) =
      .ok ((c :: rest).takeWhile isNameChar, byteSize (before ++ (c :: rest).takeWhile isNameChar)) := by
    rw [uniform_isNameChar.runEnd_eq]
    exact upTo_eq List.takeWhile_append_dropWhile.symm rfl
  unfold rewriteAt
  rw [if_neg (by rw [isMark_of_isNameChar hchar]; exact Bool.false_ne_true), slice_to_end, joinedAt_eq, hword]
  change (if [':', ':'].isPrefixOf (c :: rest) then _ else if isNameStart c && !_ then _ else _) = _
  rw [if_neg (mt List.isPrefixOf_iff_prefix.mp (not_cast_of_isNameChar hchar)), hname, hjoined]
  rfl

theorem rewriteFrom_at {written : List Char} (hread : c :: rest = read ++ after) (hne : read ≠ [])
    (h : ∀ b ∈ octets [c], rewriteAt renameAt (before ++ c :: rest) (byteSize before) b =
      .ok (written, byteSize (before ++ read))) : rewriteFrom renameAt (before ++ c :: rest) (byteSize before) =
      (rewriteFrom renameAt (before ++ read ++ after) (byteSize (before ++ read))).map (written ++ ·) := by
  obtain ⟨hlt, hmem⟩ := @exists_octets_getElem c before rest
  rw [rewriteFrom, dif_pos hlt, h _ hmem]
  change (if _h : byteSize before < byteSize (before ++ read) then _ else _) = _
  rw [dif_pos (byteSize_lt hne), List.append_assoc, ← hread]
  rfl

theorem rewriteFrom_of_ascii {written : List Char} (hc : c.toNat < 128) (hread : c :: rest = read ++ after)
    (hne : read ≠ []) (h : rewriteAt renameAt (before ++ c :: rest) (byteSize before) c =
      .ok (written, byteSize (before ++ read))) : rewriteFrom renameAt (before ++ c :: rest) (byteSize before) =
      (rewriteFrom renameAt (before ++ read ++ after) (byteSize (before ++ read))).map (written ++ ·) := by
  refine rewriteFrom_at hread hne fun b hb => ?_
  rw [eq_of_mem_octets hc hb, h]

-- What is found for the names at the start of texts is found by their bytes, and ends with a name or a point.
def RenamesAlike (rename : List Char → Option (List Char × List Char))
    (renameAt : List Char → Except ScanFault (Option (List Char × Nat))) : Prop :=
  ∀ c rest, isNameStart c = true → Agrees [] (c :: rest) (rename (c :: rest)) (renameAt (c :: rest)) ∧
    ∀ replacement read after, rename (c :: rest) = some (replacement, after) → c :: rest = read ++ after →
      read.getLast?.any joins = true

theorem nameEnds_nil : NameEnds [] := by
  intro c hc
  cases hc

-- Behind a quotation or the type of a cast no name goes on that started before.
theorem joins_quotedRun (hmark : isMark c = true) :
    (before ++ c :: (quotedRun c rest).1).getLast?.any joins = false ∨ NameEnds (quotedRun c rest).2 := by
  have hc : joins c = false := by
    rw [isMark, Bool.or_eq_true, beq_iff_eq, beq_iff_eq] at hmark
    rcases hmark with rfl | rfl <;> decide
  have hquotation := quotation_quotedRun c rest
  generalize quotedRun c rest = found at hquotation ⊢
  obtain ⟨run, after⟩ := found
  cases hquotation
  case closed x _ =>
    left
    change (before ++ c :: (double c x ++ [c])).getLast?.any joins = false
    rw [← List.cons_append, ← List.append_assoc, List.getLast?_concat, Option.any_some, hc]
  case unclosed => exact .inr nameEnds_nil

theorem joins_typeName :
    (before ++ (typeName rest).1).getLast?.any joins = false ∨ NameEnds (typeName rest).2 := by
  have htype := typeName_typeName rest
  generalize typeName rest = found at htype ⊢
  obtain ⟨type, after⟩ := found
  cases htype
  case plain _ _ hends _ _ => exact .inr hends
  case array word words _ _ =>
    left
    change (before ++ (word ++ words ++ (['['] ++ [']']))).getLast?.any joins = false
    rw [← List.append_assoc, ← List.append_assoc, List.getLast?_concat]
    rfl

theorem joins_takeWhile (hc : isNameChar c = true) :
    (before ++ (c :: rest).takeWhile isNameChar).getLast?.any joins = true := by
  have hne : (c :: rest).takeWhile isNameChar ≠ [] := takeWhile_ne_nil hc
  have hlast := List.mem_takeWhile_imp (List.getLast_mem hne)
  rw [List.getLast?_append_of_ne_nil _ hne, List.getLast?_eq_some_getLast hne, Option.any_some, joins, hlast,
    Bool.true_or]

-- A name that is found is written anew, and any other one as it stands.
theorem rewriteFrom_renamed {replacement : List Char} (hname : isNameStart c = true)
    (hjoined : before.getLast?.any joins = false) (hread : c :: rest = read ++ after) (hne : read ≠ [])
    (hrenamed : renameAt (c :: rest) = .ok (some (replacement, byteSize read))) :
    rewriteFrom renameAt (before ++ c :: rest) (byteSize before) =
      (rewriteFrom renameAt (before ++ read ++ after) (byteSize (before ++ read))).map (replacement ++ ·) := by
  refine rewriteFrom_of_ascii (ascii_of_isNameStart hname) hread hne ?_
  rw [rewriteAt_name hname hjoined, hrenamed, @byteSize_append before read]
  rfl

theorem rewriteFrom_kept (hname : isNameStart c = true) (hjoined : before.getLast?.any joins = false)
    (hrenamed : renameAt (c :: rest) = .ok none) : rewriteFrom renameAt (before ++ c :: rest) (byteSize before) =
      (rewriteFrom renameAt (before ++ (c :: rest).takeWhile isNameChar ++ (c :: rest).dropWhile isNameChar)
        (byteSize (before ++ (c :: rest).takeWhile isNameChar))).map ((c :: rest).takeWhile isNameChar ++ ·) := by
  have hne : (c :: rest).takeWhile isNameChar ≠ [] := takeWhile_ne_nil (isNameChar_of_isNameStart hname)
  refine rewriteFrom_of_ascii (ascii_of_isNameStart hname) List.takeWhile_append_dropWhile.symm hne ?_
  rw [rewriteAt_name hname hjoined, hrenamed]
  rfl

-- The byte before the position tells whether a name goes on, except where none could start anyway.
theorem rewriteFrom_eq (hrename : RenamesAlike rename renameAt)
    (hjoined : joined = before.getLast?.any joins ∨ NameEnds text) :
    rewriteFrom renameAt (before ++ text) (byteSize before) = .ok (replaceNames rename joined text) := by
  have hbefore {c : Char} {rest before : List Char} {joined : Bool} (hname : (isNameStart c && !joined) = true)
      (h : joined = before.getLast?.any joins ∨ NameEnds (c :: rest)) :
      isNameStart c = true ∧ before.getLast?.any joins = false := by
    rw [Bool.and_eq_true, Bool.not_eq_true'] at hname
    rcases h with h | h
    · exact ⟨hname.1, by rw [← h, hname.2]⟩
    · cases (h c rfl).symm.trans (isNameChar_of_isNameStart hname.1)
  fun_induction replaceNames rename joined text generalizing before
  case case1 =>
    rw [rewriteFrom, dif_neg (by rw [List.append_nil, length_octets]; exact Nat.lt_irrefl _)]
    rfl
  case case2 joined c rest hmark ih =>
    rw [rewriteFrom_of_ascii (ascii_of_isMark hmark) quotation_append (List.cons_ne_nil _ _) (rewriteAt_mark hmark),
      ih ((joins_quotedRun hmark).imp_left Eq.symm)]
    rfl
  case case3 joined c rest hmark hcast type ih =>
    obtain ⟨more, hmore⟩ := cast_prefix_iff.mp hcast
    obtain ⟨rfl, rfl⟩ := List.cons.inj hmore
    have hjoined : false = (before ++ ':' :: ':' :: (typeName more).1).getLast?.any joins ∨
        NameEnds (typeName more).2 := by
      rw [List.append_cons, List.append_cons]
      exact joins_typeName.imp_left Eq.symm
    exact (rewriteFrom_of_ascii (by decide) cast_append (List.cons_ne_nil _ _) rewriteAt_cast).trans
      (congrArg _ (ih hjoined))
  case case4 joined c rest hmark hcast hname replacement after hlt hsome ih =>
    obtain ⟨hstart, hlast⟩ := hbefore hname hjoined
    obtain ⟨hagrees, hends⟩ := hrename c rest hstart
    rw [hsome] at hagrees
    obtain ⟨read, hread, hne, hrenamed⟩ := hagrees.exists_read
    have hjoined : true = (before ++ read).getLast?.any joins := by
      rw [List.getLast?_append_of_ne_nil _ hne, hends _ _ _ hsome hread]
    rw [rewriteFrom_renamed hstart hlast hread hne hrenamed, ih (.inl hjoined), hsome]
    dsimp only
    rw [dif_pos hlt]
    rfl
  case case5 joined c rest hmark hcast hname replacement after hlong hsome =>
    obtain ⟨hstart, -⟩ := hbefore hname hjoined
    have hagrees := (hrename c rest hstart).1
    rw [hsome] at hagrees
    obtain ⟨read, hread, hne, -⟩ := hagrees.exists_read
    refine absurd ?_ hlong
    rw [hread, List.length_append]
    exact Nat.lt_add_of_pos_left (List.length_pos_of_ne_nil hne)
  case case6 joined c rest hmark hcast hname hnone ih =>
    obtain ⟨hstart, hlast⟩ := hbefore hname hjoined
    have hchar : isNameChar c = true := isNameChar_of_isNameStart hstart
    have hrenamed := (hnone ▸ (hrename c rest hstart).1 : Agrees [] _ none _).eq_none
    rw [rewriteFrom_kept hstart hlast hrenamed, List.dropWhile_cons_of_pos hchar, ih (.inl (joins_takeWhile hchar).symm),
      hnone, List.takeWhile_cons_of_pos hchar]
    rfl
  case case7 joined c rest hmark hcast hname ih =>
    have hnext : (isNameChar c || c == '.') = (before ++ [c]).getLast?.any joins := by
      rw [List.getLast?_concat]
      rfl
    have hother : (isNameStart c && !before.getLast?.any joins) = false := by
      rcases hjoined with hjoined | hends
      · rw [← hjoined, Bool.eq_false_iff.mpr hname]
      · cases hstart : isNameStart c
        case false => rfl
        case true => cases (hends c rfl).symm.trans (isNameChar_of_isNameStart hstart)
    have hwritten : ∀ b ∈ octets [c], rewriteAt renameAt (before ++ c :: rest) (byteSize before) b =
        .ok ([c], byteSize (before ++ [c])) := by
      intro b hb
      refine rewriteAt_other ?_ (mt cast_prefix_iff.mpr hcast) ?_
      · rw [uniform_isMark.octets hb, isMark, Bool.eq_false_iff.mpr hmark]
      · rw [uniform_isNameStart.octets hb, hother]
    rw [rewriteFrom_at rfl (List.cons_ne_nil _ _) hwritten, ih (.inl hnext)]
    rfl

end Rewriting

section Callbacks

variable {a source target : String} {t : Table}

theorem renamesAlike_qualifier : RenamesAlike (qualifier? a t) (qualifierAt a t) := by
  intro c rest hname
  have hchar : isNameChar c = true := isNameChar_of_isNameStart hname
  have hread : c :: rest = (c :: rest).takeWhile isNameChar ++ (c :: rest).dropWhile isNameChar :=
    List.takeWhile_append_dropWhile.symm
  have hne : (c :: rest).takeWhile isNameChar ≠ [] := takeWhile_ne_nil hchar
  have hlast : ((c :: rest).takeWhile isNameChar).getLast?.any joins = true := @joins_takeWhile c [] rest hchar
  unfold qualifier? qualifierAt
  generalize (c :: rest).takeWhile isNameChar = word at hread hne hlast
  generalize (c :: rest).dropWhile isNameChar = after at hread
  have hword : slice (c :: rest) 0 (byteSize word) = .ok word :=
    slice_eq_ok_iff.mpr ⟨[], after, hread, rfl, rfl⟩
  have hafter : slice (c :: rest) (byteSize word) (octets (c :: rest)).length = .ok after := by
    rw [hread]
    exact slice_to_end
  constructor
  case left =>
    dsimp only
    rw [hword, hafter]
    change Agrees _ _ (if _ then none else some _) (if _ then .ok none else .ok (some _))
    split
    · exact .none
    · exact .some hread hne
  case right =>
    intro replacement read after hsome hends
    dsimp only at hsome
    split at hsome
    case isTrue => cases hsome
    case isFalse =>
      cases hsome
      rwa [← List.append_cancel_right (hread.symm.trans hends)]

theorem requalifier?_eq_bind : requalifier? source target text =
    (text.dropPrefix? (source.toList ++ ['.'])).bind fun after =>
      if after.head?.any isNameChar then some (target.toList ++ ['.'], after) else none := by
  refine Option.ext fun found => ?_
  rw [Option.bind_eq_some_iff]
  constructor
  case mp =>
    intro h
    obtain ⟨after, rfl, hafter⟩ := exists_of_requalifier? h
    rw [requalifier?_eq_some hafter] at h
    refine ⟨after, ?_, by rw [if_pos (by simpa [Option.any_eq_true] using hafter), h]⟩
    rw [List.append_cons, List.dropPrefix?_append_of_beq _ (beq_self_eq_true _)]
  case mpr =>
    rintro ⟨after, hafter, h⟩
    obtain ⟨_, rfl, hsource⟩ := List.dropPrefix?_eq_some_iff.mp hafter
    cases eq_of_beq hsource
    split at h
    case isFalse => cases h
    case isTrue hhead => rw [← List.append_cons, requalifier?_eq_some (by simpa [Option.any_eq_true] using hhead), h]

theorem requalifierAt_eq : requalifierAt source target text =
    .ok ((requalifier? source target text).map fun (replacement, _) =>
      (replacement, byteSize (source.toList ++ ['.']))) := by
  rw [requalifierAt, requalifier?_eq_bind, byteSize_append]
  cases text.dropPrefix? (source.toList ++ ['.'])
  case none => rfl
  case some after =>
    change Except.ok (if after.head?.any isNameChar then _ else none) = .ok (Option.map _ (if _ then _ else none))
    cases after.head?.any isNameChar <;> rfl

theorem renamesAlike_requalifier : RenamesAlike (requalifier? source target) (requalifierAt source target) := by
  intro c rest _
  constructor
  case left =>
    rw [requalifierAt_eq]
    cases hfound : requalifier? source target (c :: rest)
    case none => exact .none
    case some found =>
      obtain ⟨after, htext, hafter⟩ := exists_of_requalifier? hfound
      rw [htext, requalifier?_eq_some hafter] at hfound
      cases hfound
      exact .some (htext.trans (List.append_cons _ _ _)) (List.append_ne_nil_of_right_ne_nil _ (List.cons_ne_nil _ _))
  case right =>
    intro replacement read after hsome hends
    obtain ⟨more, htext, hmore⟩ := exists_of_requalifier? hsome
    rw [htext, requalifier?_eq_some hmore] at hsome
    cases hsome
    rw [htext, List.append_cons] at hends
    rw [← List.append_cancel_right hends, List.getLast?_concat]
    rfl

theorem qualify_eq : qualify text a t = .ok (Condition.qualify text a t) :=
  @rewriteFrom_eq [] _ _ _ _ renamesAlike_qualifier (.inl rfl)

theorem requalify_eq : requalify text source target = .ok (Condition.requalify text source target) :=
  @rewriteFrom_eq [] _ _ _ _ renamesAlike_requalifier (.inl rfl)

end Callbacks

-- A quotation mark stands on each side of the text.
def isQuoted (text : List Char) : Bool :=
  decide (2 ≤ byteSize text) && text.head? == some quoteMark && text.getLast? == some quoteMark

-- The values between commas without their quotation marks, which all of them have or none.
def bareTexts (checked : Bool) (list : List Char) : Except ScanFault (Option (List (List Char))) := do
  let options := (← splitTopLevel checked [','] list).map trim
  if options.all isQuoted then
    return some (← options.mapM fun text => do
      let inside ← slice text 1 (byteSize text - 1)
      return undouble quoteMark inside)
  else if options.any isQuoted then return none
  else return some options

-- The values of a list as `Scope.listValues?` reads them, with the scan for commas byte by byte.
def listValues? (checked : Bool) (s : Scope) (column : ColumnRef) (list : String) :
    Except ScanFault (Option (List Value)) :=
  let type := s.schema.dataType column
  let read := if type == .date then fun text => (Date.ofText? text).map .date else type.value?
  if (cutLast? "::".toList list.toList).isSome || !s.bareLists then return s.listValues? column list
  else return (← bareTexts checked list.toList).bind fun texts => texts.mapM read

section Lists

variable {checked : Bool} {inside : List Char} {parts options : List (List Char)}

theorem isQuoted_iff : isQuoted text = true ↔ ∃ inside, text = quoteMark :: (inside ++ [quoteMark]) := by
  unfold isQuoted
  constructor
  case mp =>
    rw [Bool.and_eq_true, Bool.and_eq_true, decide_eq_true_eq, beq_iff_eq, beq_iff_eq]
    rintro ⟨⟨hsize, hhead⟩, hlast⟩
    obtain ⟨x, rfl⟩ := List.head?_eq_some_iff.mp hhead
    obtain rfl | ⟨inside, d, rfl⟩ := List.eq_nil_or_concat x
    case inl => cases Nat.not_le.mpr (by decide) hsize
    case inr =>
      rw [List.concat_eq_append, ← List.cons_append, List.getLast?_concat] at hlast
      cases hlast
      exact ⟨inside, by rw [List.concat_eq_append]⟩
  case mpr =>
    rintro ⟨inside, rfl⟩
    have hsize : 2 ≤ byteSize (quoteMark :: (inside ++ [quoteMark])) := by
      rw [byteSize_cons_of_ascii (by decide), byteSize_append, byteSize_of_ascii (by decide)]
      omega
    rw [← List.cons_append] at hsize ⊢
    rw [List.getLast?_concat, decide_eq_true hsize]
    rfl

theorem quotedText?_eq_some_iff :
    Scope.quotedText? text = some inside ↔ text = quoteMark :: (inside ++ [quoteMark]) := by
  constructor
  case mp =>
    intro h
    unfold Scope.quotedText? at h
    split at h
    case h_2 => cases h
    case h_1 c rest =>
      split at h
      case isFalse => cases h
      case isTrue hmarks =>
        rw [Bool.and_eq_true, beq_iff_eq, beq_iff_eq] at hmarks
        obtain ⟨rfl, hlast⟩ := hmarks
        cases h
        rw [List.dropLast_append_getLast? _ hlast]
  case mpr =>
    rintro rfl
    rw [Scope.quotedText?, List.getLast?_concat, List.dropLast_concat]
    rfl

theorem isSome_quotedText? : (Scope.quotedText? text).isSome = isQuoted text := by
  rw [Bool.eq_iff_iff, Option.isSome_iff_exists, isQuoted_iff]
  exact exists_congr fun _ => quotedText?_eq_some_iff

-- What stands between the marks is cut out of the text.
theorem slice_quoted (h : Scope.quotedText? text = some inside) :
    slice text 1 (byteSize text - 1) = .ok inside := by
  obtain rfl := quotedText?_eq_some_iff.mp h
  refine slice_eq_ok_iff.mpr ⟨[quoteMark], [quoteMark], rfl, rfl, ?_⟩
  rw [← List.cons_append, byteSize_append, byteSize_of_ascii (by decide), Nat.add_sub_cancel]
  rfl

theorem isSome_mapM_quotedText? : (options.mapM Scope.quotedText?).isSome = options.all isQuoted := by
  induction options
  case nil => rfl
  case cons text options ih =>
    rw [List.mapM_cons, List.all_cons, ← isSome_quotedText?, ← ih]
    cases Scope.quotedText? text <;> cases options.mapM Scope.quotedText? <;> rfl

-- The values between commas, if all of them have quotation marks or none.
def bareTexts? (options : List (List Char)) : Option (List (List Char)) :=
  match options.mapM Scope.quotedText? with
  | some texts => some (texts.map (undouble quoteMark))
  | none => if options.any isQuoted then none else some options

theorem isPlain_comma : ∀ c ∈ [','], isPlain c = true ∧ c.toNat < 128 := by
  intro c hc
  cases List.mem_singleton.mp hc
  exact ⟨rfl, by decide⟩

theorem bareTexts_eq {list : List Char} (h : splitTopLevel checked [','] list = .ok parts) :
    bareTexts checked list = .ok (bareTexts? (parts.map trim)) := by
  refine Outcome.bind_eq_ok.mpr ⟨parts, h, ?_⟩
  generalize parts.map trim = options
  have hall := @isSome_mapM_quotedText? options
  unfold bareTexts?
  cases htexts : options.mapM Scope.quotedText?
  case none =>
    rw [htexts] at hall
    dsimp only
    rw [← hall]
    cases options.any isQuoted <;> rfl
  case some texts =>
    rw [htexts] at hall
    dsimp only
    rw [← hall]
    have hslices : (options.mapM fun text => do
        let inside ← slice text 1 (byteSize text - 1)
        return undouble quoteMark inside) = .ok (texts.map (undouble quoteMark)) := by
      rw [Outcome.mapM_eq_ok, List.forall₂_map_right_iff]
      refine (Outcome.mapM_eq_some.mp htexts).imp fun _ _ hquoted => ?_
      rw [slice_quoted hquoted]
      rfl
    exact Outcome.bind_eq_ok.mpr ⟨_, hslices, rfl⟩

variable {s : Scope} {column : ColumnRef} {list : String}

theorem listValues?_bare (hcut : cutLast? "::".toList list.toList = none) (hbare : s.bareLists = true) :
    s.listValues? column list = (bareTexts? ((Text.splitTopLevel [','] list.toList).map trim)).bind fun texts =>
      texts.mapM (if s.schema.dataType column == .date then fun text => (Date.ofText? text).map .date
        else (s.schema.dataType column).value?) := by
  unfold Scope.listValues?
  rw [hcut, hbare]
  dsimp only
  generalize (Text.splitTopLevel [','] list.toList).map trim = options
  simp only [isSome_quotedText?, bareTexts?]
  cases options.mapM Scope.quotedText?
  case none => cases options.any isQuoted <;> rfl
  case some texts => exact List.mapM_map.symm

-- The scan for commas ends, and finds the values that are found character by character where the count is exact.
theorem exists_listValues? (hchecked : checked = true → byteSize list.toList < countBound) :
    ∃ values, listValues? checked s column list = .ok values ∧
      (byteSize list.toList < countBound → values = s.listValues? column list) := by
  unfold listValues?
  dsimp only
  split
  case isTrue => exact ⟨_, rfl, fun _ => rfl⟩
  case isFalse hbare =>
    obtain ⟨hcut, hbare⟩ : cutLast? "::".toList list.toList = none ∧ s.bareLists = true := by simpa using hbare
    obtain ⟨parts, hparts, -, hfound⟩ := @exists_splitTopLevel list.toList [','] checked
      (List.cons_ne_nil _ _) isPlain_comma hchecked
    rw [bareTexts_eq hparts]
    refine ⟨_, rfl, fun hsmall => ?_⟩
    rw [listValues?_bare hcut hbare, hfound hsmall]

end Lists

-- Whatever the text, no scan reads or cuts where it must not, closes a parenthesis that is not open, or stays where it
-- is. Only the count of `splitTopLevel` may be negative, and has a range. It takes more than two gibibytes of text to
-- leave the range, and even then the scan ends if the arithmetic is not checked.
theorem scans_never_fault (text : List Char) :
    (∀ position, matchingParen text position = .ok (matchingParen? text position)) ∧
    (∀ before mark rest, text = before ++ mark :: rest → mark.toNat < 128 →
      quotedEnd text (byteSize before) = .ok (byteSize (before ++ mark :: (quotedRun mark rest).1))) ∧
    (∀ before rest, text = before ++ rest →
      castEnd text (byteSize before) = .ok (byteSize (before ++ (typeName rest).1))) ∧
    tokens text = .ok (tokens? (String.ofList text)) ∧
    (∀ a t, qualify text a t = .ok (Condition.qualify text a t)) ∧
    (∀ source target, requalify text source target = .ok (Condition.requalify text source target)) ∧
    ∀ checked, (checked = true → byteSize text < countBound) →
      (∃ parts, Text.Bytewise.splitTopLevel checked [','] text = .ok parts ∧ [','].intercalate parts = text ∧
        (byteSize text < countBound → parts = Text.splitTopLevel [','] text)) ∧
      ∀ s column, ∃ values, listValues? checked s column (String.ofList text) = .ok values ∧
        (byteSize text < countBound → values = s.listValues? column (String.ofList text)) := by
  refine ⟨fun _ => matchingParen_eq, ?quoted, ?cast, tokens_eq, fun _ _ => qualify_eq, fun _ _ => requalify_eq, ?lists⟩
  case quoted =>
    rintro before mark rest rfl hmark
    exact quotedEnd_eq hmark
  case cast =>
    rintro before rest rfl
    exact castEnd_eq
  case lists =>
    intro checked hchecked
    refine ⟨exists_splitTopLevel (List.cons_ne_nil _ _) isPlain_comma hchecked, fun s column => ?_⟩
    rw [← @String.toList_ofList text] at hchecked
    have hvalues := @exists_listValues? checked s column _ hchecked
    rwa [String.toList_ofList] at hvalues

-- A parenthesis and a quotation that are not closed, with a character of two bytes and a cast without a type; and a
-- list with a comma in a quotation.
theorem scans_never_fault_unclosed :
    matchingParen "(o'é) ::".toList 0 = .ok none ∧
    quotedEnd "(o'é) ::".toList 2 = .ok 9 ∧
    castEnd "(o'é) ::".toList 9 = .ok 9 ∧
    tokens "(o'é) ::".toList = .ok none ∧
    byteSize "'é,',o".toList < countBound ∧
    Text.Bytewise.splitTopLevel true [','] "'é,',o".toList = .ok ["'é,'".toList, ['o']] := by
  have ⟨hparen, hquoted, hcast, htokens, _⟩ := scans_never_fault "(o'é) ::".toList
  have ⟨_, _, _, _, _, _, hlists⟩ := scans_never_fault "'é,',o".toList
  have hnone : tokens? (String.ofList "(o'é) ::".toList) = none := by decide +kernel
  have hstop : byteSize ("(o'é) ::".toList ++ (typeName []).1) = 9 := by decide +kernel
  have hsmall : byteSize "'é,',o".toList < countBound := by decide +kernel
  have hcut : Text.splitTopLevel [','] "'é,',o".toList = ["'é,'".toList, ['o']] := by decide +kernel
  obtain ⟨⟨parts, hparts, -, hfound⟩, -⟩ := hlists true fun _ => hsmall
  refine ⟨by rw [hparen]; rfl, ?_, ?_, by rw [htokens, hnone], hsmall, by rw [hparts, hfound hsmall, hcut]⟩
  · exact hquoted ['(', 'o'] quoteMark "é) ::".toList rfl (by decide)
  · exact (hcast "(o'é) ::".toList [] rfl).trans (congrArg Except.ok hstop)

end Subplans.Condition.Bytewise
