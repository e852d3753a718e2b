import Subplans.Proofs.Text.Split

/-!
Scans that go through the bytes of a text.

A position is a number of bytes. Bytes are read by `octetAt` and texts are cut by `slice`, and both fail where there is
nothing to read or to cut; so do a count of open parentheses that leaves its range and a scan that stays where it is.
Marks and parentheses are one byte each, and no other character has a byte in common with them. So a scan that starts
between two characters fails nowhere, stops between two characters, and finds what is found character by character
(`quotedEnd_eq`, `matchingParen_eq`, `exists_splitFrom`).

Splitting a text loses nothing and finds every place to split at, also with a count of 32 bits
(`splitTopLevel_lossless`).
-/

namespace Subplans.Text

inductive ScanFault
  -- There is no byte at the position.
  | noByte
  -- The ends of a part are not in order, behind the text or inside of a character.
  | badCut
  -- A count of open parentheses leaves the range of its numbers.
  | depth
  -- The scan does not go on.
  | stuck
deriving DecidableEq, Repr

namespace Bytewise

variable {b c mark : Char} {bs x y text before part after rest sep pending : List Char} {p q : Char → Bool}
  {n start stop position : Nat} {depth : Int32} {quoted checked : Bool}

theorem octets_singleton : octets [c] = (String.utf8EncodeChar c).map Char.ofUInt8 := by
  simp [octets]

theorem octets_cons_eq_append : octets (c :: rest) = octets [c] ++ octets rest := by
  rw [octets_cons, octets_singleton]

theorem octets_singleton_of_ascii (hc : c.toNat < 128) : octets [c] = [c] :=
  octets_of_ascii (by simpa using hc)

theorem eq_of_mem_octets (hc : c.toNat < 128) (hb : b ∈ octets [c]) : b = c := by
  rwa [octets_singleton_of_ascii hc, List.mem_singleton] at hb

theorem exists_octets (c : Char) : ∃ b bs, octets [c] = b :: bs := by
  rw [octets_singleton]
  exact exists_encode c

theorem not_ascii_of_mem_octets (hc : ¬c.toNat < 128) (hb : b ∈ octets [c]) : ¬b.toNat < 128 := by
  rw [octets_singleton] at hb
  exact not_ascii_of_mem_encode hc hb

theorem length_octets : (octets text).length = byteSize text := by
  induction text
  case nil => rfl
  case cons c text ih =>
    rw [octets_cons, List.length_append, List.length_map, String.length_utf8EncodeChar, ih, byteSize]

@[simp] theorem byteSize_append : byteSize (x ++ y) = byteSize x + byteSize y := by
  simp only [← length_octets, octets_append, List.length_append]

theorem byteSize_of_ascii (hc : c.toNat < 128) : byteSize [c] = 1 := by
  rw [← length_octets, octets_singleton_of_ascii hc, List.length_singleton]

theorem byteSize_cons_of_ascii (hc : c.toNat < 128) : byteSize (c :: rest) = byteSize rest + 1 := by
  rw [← List.singleton_append, byteSize_append, byteSize_of_ascii hc, Nat.add_comm]

theorem byteSize_concat_of_ascii (hc : c.toNat < 128) : byteSize (before ++ [c]) = byteSize before + 1 := by
  rw [byteSize_append, byteSize_of_ascii hc]

theorem byteSize_pos : 0 < byteSize (c :: rest) := by
  rw [byteSize]
  exact Nat.add_pos_left c.utf8Size_pos _

theorem octets_getElem? : (octets (before ++ rest))[byteSize before]? = (octets rest).head? := by
  rw [octets_append, ← length_octets, List.getElem?_append_right (Nat.le_refl _), Nat.sub_self,
    List.head?_eq_getElem?]

theorem octets_getElem?_of_ascii (hc : c.toNat < 128) : (octets (before ++ c :: rest))[byteSize before]? = some c := by
  rw [octets_getElem?, octets_cons_eq_append, octets_singleton_of_ascii hc]
  rfl

theorem octets_drop : (octets (before ++ rest)).drop (byteSize before) = octets rest := by
  rw [octets_append, ← length_octets, List.drop_left]

-- A test with the same result for all characters beyond ASCII.
def Uniform (p : Char → Bool) : Prop :=
  ∃ v, ∀ c : Char, ¬c.toNat < 128 → p c = v

theorem uniform_beq (hc : c.toNat < 128) : Uniform (· == c) := by
  refine ⟨false, fun d hd => ?_⟩
  rw [beq_eq_false_iff_ne]
  rintro rfl
  exact hd hc

theorem uniform_isPlain : Uniform isPlain :=
  ⟨true, fun _ hc => isPlain_of_not_ascii hc⟩

theorem Uniform.or (hp : Uniform p) (hq : Uniform q) : Uniform fun c => p c || q c := by
  obtain ⟨v, hv⟩ := hp
  obtain ⟨w, hw⟩ := hq
  exact ⟨v || w, fun c hc => by simp only [hv c hc, hw c hc]⟩

-- Such a test may be made of any byte of a character.
theorem Uniform.octets (h : Uniform p) (hb : b ∈ octets [c]) : p b = p c := by
  by_cases hc : c.toNat < 128
  case pos => rw [eq_of_mem_octets hc hb]
  case neg =>
    obtain ⟨v, hv⟩ := h
    rw [hv b (not_ascii_of_mem_octets hc hb), hv c hc]

theorem Uniform.head? (h : Uniform p) : (Text.octets rest).head?.any p = rest.head?.any p := by
  cases rest
  case nil => rfl
  case cons c rest =>
    obtain ⟨b, bs, hbs⟩ := exists_octets c
    have hb : p b = p c := h.octets (hbs ▸ List.mem_cons_self)
    simpa [octets_cons_eq_append, hbs] using hb

theorem Uniform.takeWhile (h : Uniform p) : (Text.octets text).takeWhile p = Text.octets (text.takeWhile p) := by
  induction text
  case nil => rfl
  case cons c text ih =>
    have hbytes : ∀ b ∈ Text.octets [c], p b = p c := fun b hb => h.octets hb
    rw [octets_cons_eq_append]
    cases hc : p c
    case true =>
      rw [List.takeWhile_append_of_pos fun b hb => (hbytes b hb).trans hc, ih, List.takeWhile_cons_of_pos hc,
        @octets_cons_eq_append c (text.takeWhile p)]
    case false =>
      obtain ⟨b, bs, hbs⟩ := exists_octets c
      have hb : p b = false := (hbytes b (hbs ▸ List.mem_cons_self)).trans hc
      rw [hbs, List.cons_append, List.takeWhile_cons_of_neg (by simp [hb]), List.takeWhile_cons_of_neg (by simp [hc])]
      rfl

def octetAt (text : List Char) (position : Nat) : Except ScanFault Char :=
  match (octets text)[position]? with
  | some b => pure b
  | none => throw .noByte

def slice (text : List Char) (start stop : Nat) : Except ScanFault (List Char) :=
  if start ≤ stop then
    match dropBytes? start text, dropBytes? stop text with
    | some rest, some after => pure (rest.take (rest.length - after.length))
    | _, _ => throw .badCut
  else throw .badCut

-- The text goes on at the positions where a character starts, and at its end.
theorem dropBytes?_eq_some_iff :
    dropBytes? n text = some rest ↔ ∃ before, text = before ++ rest ∧ n = byteSize before := by
  constructor
  case mp =>
    intro h
    induction text generalizing n
    case nil =>
      cases n
      case zero => exact ⟨[], by simpa [dropBytes?] using h, rfl⟩
      case succ => cases h
    case cons c text ih =>
      cases n
      case zero => exact ⟨[], by simpa [dropBytes?] using h, rfl⟩
      case succ n =>
        rw [dropBytes?] at h
        split at h
        case isTrue hle =>
          obtain ⟨before, rfl, hn⟩ := ih h
          exact ⟨c :: before, rfl, by rw [byteSize]; omega⟩
        case isFalse => cases h
  case mpr =>
    rintro ⟨before, rfl, rfl⟩
    induction before
    case nil => simp [byteSize, dropBytes?]
    case cons c before ih =>
      obtain ⟨m, hm⟩ : ∃ m, byteSize (c :: before) = m + 1 := Nat.exists_eq_add_one.mpr byteSize_pos
      have hsize : m + 1 = c.utf8Size + byteSize before := hm.symm
      rw [hm, List.cons_append, dropBytes?, if_pos (by omega)]
      rwa [show m + 1 - c.utf8Size = byteSize before by omega]

theorem slice_eq_ok_iff : slice text start stop = .ok part ↔
    ∃ before after, text = before ++ (part ++ after) ∧ start = byteSize before ∧ stop = byteSize (before ++ part) := by
  constructor
  case mp =>
    intro h
    unfold slice at h
    split at h
    case isFalse => cases h
    case isTrue hle =>
      split at h
      case h_2 => cases h
      case h_1 rest after hrest hafter =>
        cases h
        obtain ⟨x, rfl, rfl⟩ := dropBytes?_eq_some_iff.mp hrest
        obtain ⟨y, hy, rfl⟩ := dropBytes?_eq_some_iff.mp hafter
        obtain ⟨part, rfl, rfl⟩ | ⟨part, rfl, rfl⟩ := List.append_eq_append_iff.mp hy
        case inl => exact ⟨x, after, by simp, rfl, by simp⟩
        case inr =>
          cases part
          case nil => exact ⟨y, rest, by simp, by simp, by simp⟩
          case cons c part =>
            have hpos : 0 < byteSize (c :: part) := byteSize_pos
            rw [byteSize_append] at hle
            omega
  case mpr =>
    rintro ⟨before, after, rfl, rfl, rfl⟩
    have hrest : dropBytes? (byteSize before) (before ++ (part ++ after)) = some (part ++ after) :=
      dropBytes?_eq_some_iff.mpr ⟨before, rfl, rfl⟩
    have hafter : dropBytes? (byteSize (before ++ part)) (before ++ (part ++ after)) = some after :=
      dropBytes?_eq_some_iff.mpr ⟨before ++ part, by rw [List.append_assoc], rfl⟩
    rw [slice, if_pos (by simp), hrest, hafter]
    simp [pure, Except.pure]

theorem slice_append : slice (before ++ (part ++ after)) (byteSize before) (byteSize (before ++ part)) = .ok part :=
  slice_eq_ok_iff.mpr ⟨before, after, rfl, rfl, rfl⟩

theorem slice_to_end : slice (before ++ rest) (byteSize before) (octets (before ++ rest)).length = .ok rest := by
  rw [length_octets]
  exact slice_eq_ok_iff.mpr ⟨before, [], by simp, rfl, rfl⟩

-- An ASCII character starts wherever its byte is.
theorem exists_of_octets_getElem? (hb : b.toNat < 128) (h : (octets text)[position]? = some b) :
    ∃ before rest, text = before ++ b :: rest ∧ position = byteSize before := by
  induction text generalizing position
  case nil => simp [octets] at h
  case cons c text ih =>
    rw [octets_cons_eq_append] at h
    by_cases hlt : position < (octets [c]).length
    case pos =>
      rw [List.getElem?_append_left hlt] at h
      have hmem : b ∈ octets [c] := List.mem_of_getElem? h
      have hc : c.toNat < 128 := by
        by_contra hc
        exact not_ascii_of_mem_octets hc hmem hb
      rw [octets_singleton_of_ascii hc] at hlt hmem
      cases List.mem_singleton.mp hmem
      exact ⟨[], text, rfl, by simpa [byteSize] using hlt⟩
    case neg =>
      rw [List.getElem?_append_right (Nat.le_of_not_lt hlt)] at h
      obtain ⟨before, rest, rfl, hposition⟩ := ih h
      rw [length_octets] at hlt hposition
      refine ⟨c :: before, rest, rfl, ?_⟩
      rw [← List.singleton_append, byteSize_append]
      omega

-- Behind a character its last byte can be read.
theorem exists_octetAt_last :
    ∃ b ∈ octets [c], octetAt (before ++ c :: rest) (byteSize (before ++ [c]) - 1) = .ok b := by
  have hlength : 0 < (octets [c]).length := by
    rw [length_octets]
    exact byteSize_pos
  have hposition : byteSize (before ++ [c]) - 1 = (octets before).length + ((octets [c]).length - 1) := by
    rw [byteSize_append, ← length_octets, ← length_octets]
    omega
  have hlt : (octets [c]).length - 1 < (octets [c]).length := by omega
  have hget : (octets (before ++ c :: rest))[byteSize (before ++ [c]) - 1]? =
      some (octets [c])[(octets [c]).length - 1] := by
    rw [hposition, octets_append, List.getElem?_append_right (Nat.le_add_right _ _), Nat.add_sub_cancel_left,
      octets_cons_eq_append, List.getElem?_append_left hlt, List.getElem?_eq_getElem hlt]
  refine ⟨_, List.getElem_mem hlt, ?_⟩
  rw [octetAt, hget]
  rfl

def runEnd (p : Char → Bool) (bs : List Char) (position : Nat) : Nat :=
  if h : position < bs.length then
    if p bs[position] then runEnd p bs (position + 1) else position
  else position
termination_by bs.length - position

theorem runEnd_eq : runEnd p bs position = position + ((bs.drop position).takeWhile p).length := by
  fun_induction runEnd p bs position
  case case1 h hp ih =>
    rw [ih, List.drop_eq_getElem_cons h, List.takeWhile_cons_of_pos hp, List.length_cons]
    omega
  case case2 h hp => rw [List.drop_eq_getElem_cons h, List.takeWhile_cons_of_neg hp, List.length_nil, Nat.add_zero]
  case case3 h => rw [List.drop_eq_nil_of_le (Nat.le_of_not_lt h), List.takeWhile_nil, List.length_nil, Nat.add_zero]

theorem Uniform.runEnd_eq (h : Uniform p) :
    runEnd p (Text.octets (before ++ rest)) (byteSize before) = byteSize (before ++ rest.takeWhile p) := by
  rw [Bytewise.runEnd_eq, octets_drop, h.takeWhile, length_octets, byteSize_append]

def markEnd (mark : Char) (bs : List Char) (position : Nat) : Nat :=
  if h : position < bs.length then
    if bs[position] == mark then
      if bs[position + 1]?.any (· == mark) then markEnd mark bs (position + 2) else position + 1
    else markEnd mark bs (position + 1)
  else bs.length
termination_by bs.length - position

-- Where the quotation ends that the mark at the position starts.
def quotedEnd (text : List Char) (position : Nat) : Except ScanFault Nat := do
  let mark ← octetAt text position
  pure (markEnd mark (octets text) (position + 1))

theorem markEnd_pass (h : ∀ b ∈ y, b ≠ mark) :
    markEnd mark (x ++ (y ++ bs)) x.length = markEnd mark (x ++ (y ++ bs)) (x ++ y).length := by
  induction y generalizing x
  case nil => simp
  case cons b y ih =>
    have ⟨hb, hys⟩ := List.forall_mem_cons.mp h
    rw [markEnd, dif_pos (by simp), if_neg (by simpa using hb)]
    simpa using ih (x := x ++ [b]) hys

theorem markEnd_cons (hmark : mark.toNat < 128) (hc : c ≠ mark) :
    markEnd mark (octets (before ++ c :: rest)) (byteSize before) =
      markEnd mark (octets (before ++ c :: rest)) (byteSize (before ++ [c])) := by
  have hbytes : ∀ b ∈ octets [c], b ≠ mark := by
    intro b hb
    have hbc : (b == mark) = (c == mark) := (uniform_beq hmark).octets hb
    simpa [hc] using hbc
  simpa only [octets_append, @octets_cons_eq_append c rest, ← length_octets] using markEnd_pass hbytes

theorem markEnd_mark (hmark : mark.toNat < 128) : markEnd mark (octets (before ++ mark :: rest)) (byteSize before) =
    if rest.head?.any (· == mark) then
      markEnd mark (octets (before ++ mark :: rest)) (byteSize (before ++ [mark, mark]))
    else byteSize (before ++ [mark]) := by
  have hbefore : byteSize (before ++ [mark]) = byteSize before + 1 := byteSize_concat_of_ascii hmark
  have hnext : (octets (before ++ mark :: rest))[byteSize before + 1]? = (octets rest).head? := by
    rw [← hbefore, List.append_cons, octets_getElem?]
  have htwo : byteSize (before ++ [mark, mark]) = byteSize before + 2 := by
    rw [byteSize_append, byteSize_cons_of_ascii hmark, byteSize_of_ascii hmark]
  obtain ⟨hlt, hget⟩ := List.getElem?_eq_some_iff.mp (@octets_getElem?_of_ascii mark before rest hmark)
  rw [markEnd, dif_pos hlt, hget, if_pos (beq_self_eq_true mark), hnext, (uniform_beq hmark).head?, htwo, hbefore]

theorem markEnd_quotedRun (hmark : mark.toNat < 128) :
    markEnd mark (octets (before ++ text)) (byteSize before) = byteSize (before ++ (quotedRun mark text).1) := by
  have hnil (before : List Char) :
      markEnd mark (octets (before ++ [])) (byteSize before) = byteSize (before ++ []) := by
    rw [List.append_nil, markEnd, dif_neg (by rw [length_octets]; omega), length_octets]
  fun_induction quotedRun mark text generalizing before
  case case1 => exact hnil before
  case case2 c =>
    by_cases hc : c = mark
    case pos =>
      rw [hc, markEnd_mark hmark]
      rfl
    case neg =>
      rw [markEnd_cons hmark hc]
      simpa using hnil (before ++ [c])
  case case3 hc hd _ _ heq ih =>
    cases eq_of_beq hc
    cases eq_of_beq hd
    rw [heq] at ih
    rw [markEnd_mark hmark, List.head?_cons, Option.any_some, if_pos (beq_self_eq_true mark)]
    simpa using @ih (before ++ [mark, mark])
  case case4 hc hd =>
    cases eq_of_beq hc
    rw [markEnd_mark hmark, List.head?_cons, Option.any_some, if_neg hd]
  case case5 c d _ hc _ _ heq ih =>
    rw [heq] at ih
    rw [markEnd_cons hmark (by simpa using hc)]
    simpa using @ih (before ++ [c])

theorem octetAt_of_ascii (hc : c.toNat < 128) : octetAt (before ++ c :: rest) (byteSize before) = .ok c := by
  rw [octetAt, octets_getElem?_of_ascii hc]
  rfl

theorem quotedEnd_eq (hmark : mark.toNat < 128) : quotedEnd (before ++ mark :: rest) (byteSize before) =
    .ok (byteSize (before ++ mark :: (quotedRun mark rest).1)) := by
  have hend : markEnd mark (octets (before ++ [mark] ++ rest)) _ = _ := markEnd_quotedRun hmark
  rw [← List.append_cons, ← List.append_cons, byteSize_concat_of_ascii hmark] at hend
  rw [quotedEnd, octetAt_of_ascii hmark, ← hend]
  rfl

def closingFrom (position depth : Nat) (quoted : Bool) : List Char → Except ScanFault (Option Nat)
  | [] => pure none
  | b :: bs =>
    if b == quoteMark then closingFrom (position + 1) depth (!quoted) bs
    else if b == '(' && !quoted then closingFrom (position + 1) (depth + 1) quoted bs
    else if b == ')' && !quoted then
      if depth = 0 then throw .depth
      else if depth - 1 = 0 then pure (some position)
      else closingFrom (position + 1) (depth - 1) quoted bs
    else closingFrom (position + 1) depth quoted bs

-- The position of the parenthesis that closes the one at this position.
def matchingParen (text : List Char) (position : Nat) : Except ScanFault (Option Nat) :=
  if (octets text)[position]? = some '(' then closingFrom position 0 false ((octets text).drop position)
  else pure none

theorem closingFrom_pass (h : ∀ b ∈ y, b ≠ quoteMark ∧ (quoted = true ∨ isPlain b = true)) :
    closingFrom position n quoted (y ++ bs) = closingFrom (position + y.length) n quoted bs := by
  induction y generalizing position
  case nil => rfl
  case cons b y ih =>
    have ⟨⟨hmark, hb⟩, hys⟩ := List.forall_mem_cons.mp h
    have hopen : (b == '(' && !quoted) = false := by
      rcases hb with rfl | hb
      · simp
      · simp [(ne_of_isPlain hb).2.1]
    have hclose : (b == ')' && !quoted) = false := by
      rcases hb with rfl | hb
      · simp
      · simp [(ne_of_isPlain hb).2.2]
    simp [closingFrom, hmark, hopen, hclose, ih hys, Nat.add_assoc, Nat.add_comm 1]

theorem found_cons {o : Option (List Char × List Char)} :
    ((o.map fun (inside, after) => (c :: inside, after)).map fun (inside, _) => position + byteSize inside) =
      o.map fun (inside, _) => position + byteSize [c] + byteSize inside := by
  rw [Option.map_map]
  congr 1
  funext x
  calc position + byteSize ([c] ++ x.1)
    _ = position + byteSize [c] + byteSize x.1 := by rw [byteSize_append, Nat.add_assoc]

-- The count is one more than the number of parentheses that `closing?` leaves open.
theorem closingFrom_eq : closingFrom position (n + 1) quoted (octets text) =
    .ok ((closing? n quoted text).map fun (inside, _) => position + byteSize inside) := by
  induction text generalizing position n quoted
  case nil => rfl
  case cons c text ih =>
    rw [octets_cons_eq_append]
    by_cases hmark : c = quoteMark
    case pos =>
      rw [hmark, octets_singleton_of_ascii (by decide), closing?_mark, found_cons, byteSize_of_ascii (by decide), ← ih]
      rfl
    case neg =>
      cases quoted
      case true =>
        have hbytes : ∀ b ∈ octets [c], b ≠ quoteMark ∧ (true = true ∨ isPlain b = true) := by
          intro b hb
          have hbc : (b == quoteMark) = (c == quoteMark) := (uniform_beq (by decide)).octets hb
          exact ⟨by simpa [hmark] using hbc, .inl rfl⟩
        rw [closingFrom_pass hbytes, closing?_quoted hmark, found_cons, length_octets, ih]
      case false =>
        obtain rfl | rfl | rfl | hc := char_cases c
        · contradiction
        · rw [octets_singleton_of_ascii (by decide), closing?_open, found_cons, byteSize_of_ascii (by decide), ← ih]
          rfl
        · rw [octets_singleton_of_ascii (by decide)]
          cases n
          case zero => rfl
          case succ n =>
            rw [closing?_close, found_cons, byteSize_of_ascii (by decide), ← ih]
            rfl
        · have hbytes : ∀ b ∈ octets [c], b ≠ quoteMark ∧ (false = true ∨ isPlain b = true) := by
            intro b hb
            have hplain : isPlain b = true := (uniform_isPlain.octets hb).trans hc
            exact ⟨(ne_of_isPlain hplain).1, .inr hplain⟩
          rw [closingFrom_pass hbytes, closing?_plain hc, found_cons, length_octets, ih]

theorem matchingParen?_append : matchingParen? (before ++ rest) (byteSize before) =
    (enclosed? rest).map fun (inside, _) => byteSize before + 1 + byteSize inside := by
  have hdrop : dropBytes? (byteSize before) (before ++ rest) = some rest :=
    dropBytes?_eq_some_iff.mpr ⟨before, rfl, rfl⟩
  rw [matchingParen?, hdrop]
  cases hinside : enclosed? rest <;> simp [hinside]

theorem matchingParen_eq : matchingParen text position = .ok (matchingParen? text position) := by
  unfold matchingParen
  split
  case isTrue h =>
    obtain ⟨before, rest, rfl, rfl⟩ := exists_of_octets_getElem? (by decide) h
    have hclosing : closingFrom (byteSize before) 0 false (octets ('(' :: rest)) =
        closingFrom (byteSize before + 1) 1 false (octets rest) := by
      rw [octets_cons_eq_append, octets_singleton_of_ascii (by decide)]
      rfl
    rw [octets_drop, hclosing, closingFrom_eq, matchingParen?_append]
    rfl
  case isFalse h =>
    cases hdrop : dropBytes? position text
    case none =>
      rw [matchingParen?, hdrop]
      rfl
    case some rest =>
      obtain ⟨before, rfl, rfl⟩ := dropBytes?_eq_some_iff.mp hdrop
      have hnone : enclosed? rest = none := by
        unfold enclosed?
        split
        case h_1 rest => exact absurd (octets_getElem?_of_ascii (by decide)) h
        case h_2 => rfl
      rw [matchingParen?_append, hnone]
      rfl

-- One more or one less parenthesis that is open, as a signed number of 32 bits. Arithmetic that is not checked goes on at
-- the other end of the range.
def count (checked : Bool) (depth step : Int32) : Except ScanFault Int32 :=
  if checked && (depth + step).toInt != depth.toInt + step.toInt then throw .depth else pure (depth + step)

-- The parts of the text from `start` on, of which the first reaches to the position at least.
def splitFrom (checked : Bool) (sep text : List Char) (start position : Nat) (depth : Int32) (quoted : Bool) :
    Except ScanFault (List (List Char)) :=
  if h : position < (octets text).length then
    let b := (octets text)[position]
    if b == quoteMark then splitFrom checked sep text start (position + 1) depth (!quoted)
    else if b == '(' && !quoted then do
      splitFrom checked sep text start (position + 1) (← count checked depth 1) quoted
    else if b == ')' && !quoted then do
      splitFrom checked sep text start (position + 1) (← count checked depth (-1)) quoted
    else if !quoted && depth == 0 && (octets sep).isPrefixOf ((octets text).drop position) then do
      let part ← slice text start position
      let next := position + (octets sep).length
      if position < next then return part :: (← splitFrom checked sep text next next depth quoted) else throw .stuck
    else splitFrom checked sep text start (position + 1) depth quoted
  else return [← slice text start (octets text).length]
termination_by (octets text).length - position

def splitTopLevel (checked : Bool) (sep text : List Char) : Except ScanFault (List (List Char)) :=
  splitFrom checked sep text 0 0 0 false

-- Two gibibytes. In a shorter text no count of parentheses leaves its range.
def countBound : Nat := Nat.pow 2 31

theorem countBound_eq : countBound = 2147483648 :=
  rfl

-- The count holds what it stands for in a text that is short enough.
def Holds (text before : List Char) (depth : Int32) (level : Int) : Prop :=
  byteSize text < countBound → depth.toInt = level ∧ level.natAbs ≤ byteSize before

theorem exists_count {level : Int} (step : Int32) (hc : c.toNat < 128) (hstep : step.toInt.natAbs = 1)
    (hchecked : checked = true → byteSize (before ++ c :: rest) < countBound)
    (h : Holds (before ++ c :: rest) before depth level) : ∃ depth', count checked depth step = .ok depth' ∧
      Holds (before ++ c :: rest) (before ++ [c]) depth' (level + step.toInt) := by
  have hadd (hsmall : byteSize (before ++ c :: rest) < countBound) :
      (depth + step).toInt = depth.toInt + step.toInt := by
    have ⟨hdepth, hlevel⟩ := h hsmall
    rw [byteSize_append, byteSize_cons_of_ascii hc, countBound_eq] at hsmall
    rw [Int32.toInt_add]
    exact Int.bmod_eq_of_le (by omega) (by omega)
  refine ⟨depth + step, ?count, fun hsmall => ?holds⟩
  case count =>
    cases checked
    case false => rfl
    case true =>
      rw [count, hadd (hchecked rfl), bne_self_eq_false]
      rfl
  case holds =>
    have ⟨hdepth, hlevel⟩ := h hsmall
    rw [byteSize_concat_of_ascii hc]
    exact ⟨by rw [hadd hsmall, hdepth], by omega⟩

theorem splitFrom_at (h : (octets text)[position]? = some b) :
    splitFrom checked sep text start position depth quoted =
    if b == quoteMark then splitFrom checked sep text start (position + 1) depth (!quoted)
    else if b == '(' && !quoted then
      (count checked depth 1).bind fun depth => splitFrom checked sep text start (position + 1) depth quoted
    else if b == ')' && !quoted then
      (count checked depth (-1)).bind fun depth => splitFrom checked sep text start (position + 1) depth quoted
    else if !quoted && depth == 0 && (octets sep).isPrefixOf ((octets text).drop position) then do
      let part ← slice text start position
      let next := position + (octets sep).length
      if position < next then return part :: (← splitFrom checked sep text next next depth quoted) else throw .stuck
    else splitFrom checked sep text start (position + 1) depth quoted := by
  obtain ⟨hlt, rfl⟩ := List.getElem?_eq_some_iff.mp h
  rw [splitFrom, dif_pos hlt]
  rfl

theorem prefix_drop_iff (hsep : ∀ c ∈ sep, c.toNat < 128) :
    octets sep <+: (octets (before ++ rest)).drop (byteSize before) ↔ sep <+: rest := by
  rw [octets_drop, octets_of_ascii hsep, prefix_octets_iff hsep]

-- At this byte the text is neither cut nor does the count change.
theorem splitFrom_next (h : (octets text)[position]? = some b)
    (hb : b ≠ quoteMark ∧ (quoted = true ∨ isPlain b = true))
    (hcut : ¬(quoted = false ∧ depth = 0 ∧ octets sep <+: (octets text).drop position)) :
    splitFrom checked sep text start position depth quoted =
      splitFrom checked sep text start (position + 1) depth quoted := by
  have hopen : (b == '(' && !quoted) = false := by
    rcases hb.2 with rfl | hb
    · simp
    · simp [(ne_of_isPlain hb).2.1]
  have hclose : (b == ')' && !quoted) = false := by
    rcases hb.2 with rfl | hb
    · simp
    · simp [(ne_of_isPlain hb).2.2]
  rw [splitFrom_at h, if_neg (by simpa using hb.1), hopen, hclose, if_neg Bool.false_ne_true, if_neg Bool.false_ne_true,
    if_neg (by simpa [and_assoc] using hcut)]

theorem splitFrom_pass (hne : sep ≠ []) (hsep : ∀ c ∈ sep, c.toNat < 128) (htext : octets text = x ++ (y ++ bs))
    (h : ∀ b ∈ y, ¬b.toNat < 128) : splitFrom checked sep text start x.length depth quoted =
      splitFrom checked sep text start (x ++ y).length depth quoted := by
  induction y generalizing x
  case nil => simp
  case cons b y ih =>
    have ⟨hb, hys⟩ := List.forall_mem_cons.mp h
    have hget : (octets text)[x.length]? = some b := by simp [htext]
    have hplain : isPlain b = true := isPlain_of_not_ascii hb
    have hcut : ¬octets sep <+: (octets text).drop x.length := by
      rw [htext, List.drop_left, octets_of_ascii hsep]
      intro hstart
      obtain rfl | ⟨x, rfl, -⟩ := List.prefix_cons_iff.mp hstart
      case inl => contradiction
      case inr => exact hb (hsep b List.mem_cons_self)
    rw [splitFrom_next hget ⟨(ne_of_isPlain hplain).1, .inr hplain⟩ fun h => hcut h.2.2]
    simpa using ih (x := x ++ [b]) (by simp [htext]) hys

theorem Holds.next {level : Int} (h : Holds text before depth level) : Holds text (before ++ [c]) depth level :=
  fun hsmall => ⟨(h hsmall).1, by have := (h hsmall).2; rw [byteSize_append]; omega⟩

theorem exists_splitFrom_step {n : Nesting} (start : Nat) (hne : sep ≠ [])
    (hsep : ∀ c ∈ sep, isPlain c = true ∧ c.toNat < 128)
    (hchecked : checked = true → byteSize (before ++ c :: rest) < countBound)
    (hdepth : Holds (before ++ c :: rest) before depth n.level)
    (hcut : ¬(n.quoted = false ∧ depth = 0 ∧ sep <+: c :: rest)) :
    ∃ depth', splitFrom checked sep (before ++ c :: rest) start (byteSize before) depth n.quoted =
        splitFrom checked sep (before ++ c :: rest) start (byteSize (before ++ [c])) depth' (n.step c).quoted ∧
      Holds (before ++ c :: rest) (before ++ [c]) depth' (n.step c).level := by
  have hascii : ∀ c ∈ sep, c.toNat < 128 := fun c hc => (hsep c hc).2
  by_cases hc : c.toNat < 128
  case neg =>
    rw [step_of_isPlain (isPlain_of_not_ascii hc)]
    refine ⟨depth, ?_, hdepth.next⟩
    have hbytes : octets (before ++ c :: rest) = octets before ++ (octets [c] ++ octets rest) := by
      rw [octets_append, octets_cons_eq_append]
    simpa only [← length_octets, octets_append] using
      splitFrom_pass hne hascii hbytes fun b hb => not_ascii_of_mem_octets hc hb
  case pos =>
    have hget : (octets (before ++ c :: rest))[byteSize before]? = some c := octets_getElem?_of_ascii hc
    rw [← prefix_drop_iff hascii] at hcut
    rw [byteSize_concat_of_ascii hc]
    rcases n with ⟨level, quoted⟩
    by_cases hmark : c = quoteMark
    case pos =>
      have hstep : Nesting.step ⟨level, quoted⟩ c = ⟨level, !quoted⟩ := by simp [Nesting.step, hmark]
      rw [hstep]
      exact ⟨depth, by rw [splitFrom_at hget, if_pos (by simpa using hmark)], hdepth.next⟩
    case neg =>
      cases quoted
      case true =>
        have hstep : Nesting.step ⟨level, true⟩ c = ⟨level, true⟩ := by simp [Nesting.step, hmark]
        rw [hstep]
        exact ⟨depth, splitFrom_next hget ⟨hmark, .inl rfl⟩ hcut, hdepth.next⟩
      case false =>
        obtain rfl | rfl | rfl | hplain := char_cases c
        · contradiction
        · obtain ⟨depth', hcount, hholds⟩ := exists_count 1 hc (by decide) hchecked hdepth
          exact ⟨depth', by rw [splitFrom_at hget, hcount]; rfl, hholds⟩
        · obtain ⟨depth', hcount, hholds⟩ := exists_count (-1) hc (by decide) hchecked hdepth
          exact ⟨depth', by rw [splitFrom_at hget, hcount]; rfl, hholds⟩
        · rw [step_of_isPlain hplain]
          exact ⟨depth, splitFrom_next hget ⟨hmark, .inr hplain⟩ hcut, hdepth.next⟩

-- At a separator outside of everything the part before it is cut off, and the next one starts behind it.
theorem splitFrom_separator (hne : sep ≠ []) (hsep : ∀ c ∈ sep, isPlain c = true ∧ c.toNat < 128) :
    splitFrom checked sep (before ++ (pending ++ (sep ++ rest))) (byteSize before) (byteSize (before ++ pending)) 0
        false =
      (splitFrom checked sep (before ++ (pending ++ (sep ++ rest))) (byteSize (before ++ pending ++ sep))
        (byteSize (before ++ pending ++ sep)) 0 false).map (pending :: ·) := by
  have hascii : ∀ c ∈ sep, c.toNat < 128 := fun c hc => (hsep c hc).2
  have hcut : (octets sep).isPrefixOf
      ((octets (before ++ (pending ++ (sep ++ rest)))).drop (byteSize (before ++ pending))) = true := by
    rw [List.isPrefixOf_iff_prefix, ← List.append_assoc, prefix_drop_iff hascii]
    exact List.prefix_append _ _
  have hnext : byteSize (before ++ pending) + (octets sep).length = byteSize (before ++ pending ++ sep) := by
    rw [length_octets, ← byteSize_append]
  obtain ⟨c, y, rfl⟩ := List.exists_cons_of_ne_nil hne
  obtain ⟨hplain, hc⟩ := hsep c List.mem_cons_self
  obtain ⟨hmark, hopen, hclose⟩ := ne_of_isPlain hplain
  have hget : (octets (before ++ (pending ++ (c :: y ++ rest))))[byteSize (before ++ pending)]? = some c := by
    rw [← List.append_assoc, List.cons_append, octets_getElem?_of_ascii hc]
  have hlt : byteSize (before ++ pending) < byteSize (before ++ pending ++ c :: y) := by
    rw [← hnext, length_octets]
    exact Nat.lt_add_of_pos_right byteSize_pos
  rw [splitFrom_at hget, hcut, slice_append, if_neg (by simpa using hmark), if_neg (by simp [hopen]),
    if_neg (by simp [hclose]), if_pos (by decide)]
  simp only [hnext, if_pos hlt]
  rfl

theorem splitTopFrom_modifyHead_separator (hne : sep ≠ []) (hsep : ∀ c ∈ sep, isPlain c = true ∧ c.toNat < 128) :
    (splitTopFrom sep .outer 0 (sep ++ rest)).modifyHead (pending ++ ·) =
      pending :: (splitTopFrom sep .outer 0 rest).modifyHead ([] ++ ·) := by
  obtain ⟨c, y, rfl⟩ := List.exists_cons_of_ne_nil hne
  obtain ⟨first, more, hsplit⟩ := exists_splitTopFrom (c :: y) .outer 0 rest
  have hcons : splitTopFrom (c :: y) .outer 0 (c :: y ++ rest) = [] :: first :: more := by
    rw [splitTopFrom_separator (hsep c List.mem_cons_self).1, hsplit]
  rw [hsplit, hcons, List.modifyHead_cons, List.append_nil]
  rfl

-- The parts are those of the text, and those that are found character by character where the count is exact.
theorem exists_splitFrom {n : Nesting} (hne : sep ≠ []) (hsep : ∀ c ∈ sep, isPlain c = true ∧ c.toNat < 128)
    (hchecked : checked = true → byteSize text < countBound) (htext : text = before ++ (pending ++ rest))
    (hdepth : Holds text (before ++ pending) depth n.level) :
    ∃ part parts, splitFrom checked sep text (byteSize before) (byteSize (before ++ pending)) depth n.quoted =
        .ok (part :: parts) ∧ sep.intercalate (part :: parts) = pending ++ rest ∧
      (byteSize text < countBound → part :: parts = (splitTopFrom sep n 0 rest).modifyHead (pending ++ ·)) := by
  induction hlength : rest.length using Nat.strongRecOn generalizing before pending rest depth n
  case ind length ih =>
  subst hlength htext
  by_cases hcut : n.quoted = false ∧ depth = 0 ∧ sep <+: rest
  case pos =>
    rcases n with ⟨level, quoted⟩
    obtain ⟨rfl, rfl, after, rfl⟩ := hcut
    have hlt : after.length < (sep ++ after).length := by
      rw [List.length_append]
      exact Nat.lt_add_of_pos_left (List.length_pos_of_ne_nil hne)
    have hpending : Holds (before ++ (pending ++ (sep ++ after))) (before ++ pending ++ sep ++ []) 0
        (Nesting.mk level false).level := by
      intro hsmall
      have ⟨hlevel, hle⟩ := hdepth hsmall
      exact ⟨hlevel, by simp only [byteSize_append] at hle ⊢; omega⟩
    have htext : before ++ (pending ++ (sep ++ after)) = before ++ pending ++ sep ++ ([] ++ after) := by simp
    obtain ⟨part, parts, hparts, htext, hfound⟩ := ih after.length hlt htext hpending rfl
    rw [List.append_nil] at hparts
    refine ⟨pending, part :: parts, ?_, ?_, fun hsmall => ?_⟩
    · rw [splitFrom_separator hne hsep, hparts]
      rfl
    · rw [List.intercalate_cons_cons, htext, List.append_assoc]
      rfl
    · cases ((hdepth hsmall).1 : 0 = level)
      rw [hfound hsmall]
      exact (splitTopFrom_modifyHead_separator hne hsep).symm
  case neg =>
    cases rest
    case nil =>
      refine ⟨pending, [], ?_, ?_, fun _ => ?_⟩
      · rw [List.append_nil, splitFrom, dif_neg (by rw [length_octets]; omega), slice_to_end]
        rfl
      · simp
      · simp [splitTopFrom]
    case cons c rest =>
      have hassoc : before ++ (pending ++ c :: rest) = before ++ pending ++ c :: rest := by simp
      rw [hassoc] at hchecked hdepth ih ⊢
      obtain ⟨depth', hstep, hholds⟩ := exists_splitFrom_step (byteSize before) hne hsep hchecked hdepth hcut
      have htext : before ++ pending ++ c :: rest = before ++ (pending ++ [c] ++ rest) := by simp
      rw [List.append_assoc before pending [c]] at hstep hholds
      obtain ⟨part, parts, hparts, hjoined, hfound⟩ := ih rest.length (Nat.lt_succ_self _) htext hholds rfl
      refine ⟨part, parts, ?_, ?_, fun hsmall => ?_⟩
      · rw [hstep, hparts]
      · rw [hjoined, List.append_assoc]
        rfl
      · have hlevel : depth.toInt = n.level := (hdepth hsmall).1
        have hnot : ¬(n = .outer ∧ sep <+: c :: rest) := by
          rintro ⟨rfl, hstart⟩
          exact hcut ⟨rfl, Int32.toInt_inj.mp hlevel, hstart⟩
        rw [hfound hsmall, splitTopFrom_cons hne (fun c hc => (hsep c hc).1) hnot, List.modifyHead_modifyHead]
        simp [Function.comp_def]

theorem exists_splitTopLevel (hne : sep ≠ []) (hsep : ∀ c ∈ sep, isPlain c = true ∧ c.toNat < 128)
    (hchecked : checked = true → byteSize text < countBound) : ∃ parts, splitTopLevel checked sep text = .ok parts ∧
      sep.intercalate parts = text ∧ (byteSize text < countBound → parts = Text.splitTopLevel sep text) := by
  have hdepth : Holds text ([] ++ []) 0 Nesting.outer.level := fun _ => ⟨rfl, Nat.zero_le _⟩
  obtain ⟨part, parts, hparts, hjoined, hfound⟩ := exists_splitFrom hne hsep hchecked (List.nil_append _).symm hdepth
  refine ⟨part :: parts, hparts, hjoined, fun hsmall => ?_⟩
  rw [hfound hsmall]
  cases hsplit : splitTopFrom sep .outer 0 text <;> simp [Text.splitTopLevel, hsplit]

end Bytewise

variable {text sep : List Char}

-- Splitting loses nothing but the separators outside of everything, and finds all of them; it is the same for the bytes
-- of the text. Open parentheses may be counted with 32 bits.
theorem splitTopLevel_lossless (hne : sep ≠ []) (hsep : ∀ c ∈ sep, isPlain c = true ∧ c.toNat < 128) :
    sep.intercalate (splitTopLevel sep text) = text ∧
    (∀ before after, splitTopLevel sep text = before ++ after → before ≠ [] → after ≠ [] →
      AtTopLevel (sep.intercalate before)) ∧
    (∀ part ∈ splitTopLevel sep text, splitTopLevel sep part = [part] ∧
      ∀ x y, part = x ++ sep ++ y → ¬AtTopLevel x) ∧
    splitTopLevel (octets sep) (octets text) = (splitTopLevel sep text).map octets ∧
    ∀ checked, (checked = true → byteSize text < Bytewise.countBound) → ∃ parts,
      Bytewise.splitTopLevel checked sep text = .ok parts ∧ sep.intercalate parts = text ∧
      (byteSize text < Bytewise.countBound → parts = splitTopLevel sep text) := by
  have hplain : ∀ c ∈ sep, isPlain c = true := fun c hc => (hsep c hc).1
  have hcuts : Cuts sep .outer text (splitTopLevel sep text) := cuts_splitTopFrom hne hplain 0
  refine ⟨hcuts.intercalate, ?level, ?uncut, ?bytes, fun checked => Bytewise.exists_splitTopLevel hne hsep⟩
  case level =>
    intro before after hparts hbefore hafter
    exact foldl_step_eq_outer_iff.mp ((hparts ▸ hcuts).foldl_step hplain hbefore hafter)
  case uncut =>
    intro part hpart
    obtain ⟨first, rest, hparts⟩ := hcuts.exists_cons
    rw [hparts] at hcuts hpart
    have ⟨_, hfirst, hrest⟩ := hcuts.uncut hne
    have huncut : Uncut sep .outer part := List.forall_mem_cons.mpr ⟨hfirst, hrest⟩ part hpart
    exact ⟨splitTopFrom_of_uncut hne hplain huncut, fun x y hxy => mt foldl_step_eq_outer_iff.mpr (huncut x y hxy)⟩
  case bytes =>
    rw [octets_of_ascii fun c hc => (hsep c hc).2]
    exact hcuts.octets hne hsep

-- One separator between parentheses, one in a quotation with a character of two bytes, and one outside.
theorem splitTopLevel_lossless_conditions :
    (" AND ".toList ≠ [] ∧ ∀ c ∈ " AND ".toList, isPlain c = true ∧ c.toNat < 128) ∧
    splitTopLevel " AND ".toList "(a AND b) AND c = 'é AND '".toList = ["(a AND b)".toList, "c = 'é AND '".toList] ∧
    AtTopLevel "(a AND b)".toList ∧
    splitTopLevel " AND ".toList "c = 'é AND '".toList = ["c = 'é AND '".toList] ∧
    splitTopLevel (octets " AND ".toList) (octets "(a AND b) AND c = 'é AND '".toList) =
      [octets "(a AND b)".toList, octets "c = 'é AND '".toList] ∧
    Bytewise.splitTopLevel true " AND ".toList "(a AND b) AND c = 'é AND '".toList =
      .ok ["(a AND b)".toList, "c = 'é AND '".toList] := by
  have hne : " AND ".toList ≠ [] := by decide
  have hplain : ∀ c ∈ " AND ".toList, isPlain c = true := List.all_eq_true.mp rfl
  have hascii : ∀ c ∈ " AND ".toList, decide (c.toNat < 128) = true := List.all_eq_true.mp rfl
  have hsep : ∀ c ∈ " AND ".toList, isPlain c = true ∧ c.toNat < 128 :=
    fun c hc => ⟨hplain c hc, of_decide_eq_true (hascii c hc)⟩
  have hparts : splitTopLevel " AND ".toList "(a AND b) AND c = 'é AND '".toList =
      ["(a AND b)".toList, "c = 'é AND '".toList] := by decide +kernel
  have ⟨_, hlevel, huncut, hbytes, hcount⟩ := @splitTopLevel_lossless "(a AND b) AND c = 'é AND '".toList _ hne hsep
  have hsmall : byteSize "(a AND b) AND c = 'é AND '".toList < Bytewise.countBound := by decide +kernel
  have ⟨parts, hrun, _, hsame⟩ := hcount true fun _ => hsmall
  refine ⟨⟨hne, hsep⟩, hparts, ?_, ?_, ?_, ?_⟩
  · exact hlevel ["(a AND b)".toList] ["c = 'é AND '".toList] hparts (List.cons_ne_nil _ _) (List.cons_ne_nil _ _)
  · exact (huncut _ (hparts ▸ List.mem_cons_of_mem _ List.mem_cons_self)).1
  · rw [hbytes, hparts]
    rfl
  · rw [hrun, hsame hsmall, hparts]

end Subplans.Text
