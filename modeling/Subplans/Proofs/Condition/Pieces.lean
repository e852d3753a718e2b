import Subplans.Condition.Names
import Subplans.Proofs.Condition.Tokens

/-!
The pieces of a condition, as the scan for names sees them.

`Pieces text ps` says, without the scan, which quotations, types of casts, words and other characters a text consists
of. Every text has exactly one list of pieces
(`pieces_pieces`, `Pieces.unique`). Exchanging names leaves all pieces but words as they are, and exchanges a
word only where a name starts (`replaceNames_eq`).
-/

namespace Subplans.Condition

open Text

inductive Piece
  -- A literal or a quoted name, with its marks.
  | quotation (mark : Char) (run : List Char)
  -- A cast to a type.
  | cast (type : List Char)
  -- Characters of names.
  | word (run : List Char)
  -- Any other character.
  | sign (c : Char)
deriving DecidableEq

namespace Piece

def text : Piece → List Char
  | quotation mark run => mark :: run
  | cast type => ':' :: ':' :: type
  | word run => run
  | sign c => [c]

def texts (ps : List Piece) : List Char :=
  ps.flatMap text

@[simp] theorem texts_nil : texts [] = [] :=
  rfl

@[simp] theorem texts_cons {p : Piece} {ps : List Piece} : texts (p :: ps) = p.text ++ texts ps :=
  List.flatMap_cons

@[simp] theorem texts_append {ps qs : List Piece} : texts (ps ++ qs) = texts ps ++ texts qs :=
  List.flatMap_append

end Piece

variable {c mark : Char} {run rest after type words text : List Char}

namespace Quotation

-- One more character that does not end it.
theorem cons (h : Quotation mark run rest) (hc : c ≠ mark) : Quotation mark (c :: run) rest := by
  cases h
  case closed x hrest => simpa [double, hc] using Quotation.closed (x := c :: x) hrest
  case unclosed x => simpa [double, hc] using (.unclosed (x := c :: x) : Quotation mark _ _)

theorem pair (h : Quotation mark run rest) : Quotation mark (mark :: mark :: run) rest := by
  cases h
  case closed x hrest => simpa [double] using Quotation.closed (x := mark :: x) hrest
  case unclosed x => simpa [double] using (.unclosed (x := mark :: x) : Quotation mark _ _)

end Quotation

theorem quotation_quotedRun (mark : Char) (text : List Char) :
    Quotation mark (quotedRun mark text).1 (quotedRun mark text).2 := by
  have hnil : Quotation mark [] [] := .unclosed (x := [])
  fun_induction quotedRun mark text
  case case1 => exact hnil
  case case2 c =>
    by_cases hc : c = mark
    case pos => exact hc ▸ .closed (x := []) (by simp)
    case neg => exact hnil.cons hc
  case case3 hc hd _ _ heq ih =>
    cases eq_of_beq hc
    cases eq_of_beq hd
    rw [heq] at ih
    exact ih.pair
  case case4 hc hd =>
    cases eq_of_beq hc
    exact .closed (x := []) (by simpa using hd)
  case case5 hc _ _ heq ih =>
    rw [heq] at ih
    exact ih.cons (by simpa using hc)

-- No name goes on here.
def NameEnds (rest : List Char) : Prop :=
  ∀ c ∈ rest.head?, isNameChar c = false

theorem nameEnds_dropWhile : NameEnds (text.dropWhile isNameChar) := by
  intro c hc
  have h := List.head?_dropWhile_not isNameChar text
  rwa [Option.mem_def.mp hc] at h

theorem nameEnds_cons (hc : isNameChar c = false) : NameEnds (c :: rest) := by
  intro d hd
  cases hd
  exact hc

theorem not_nameEnds_word (hne : run ≠ []) (hrun : ∀ c ∈ run, isNameChar c = true) : ¬NameEnds (run ++ rest) := by
  obtain ⟨c, run, rfl⟩ := List.exists_cons_of_ne_nil hne
  intro hends
  have hc := hrun c List.mem_cons_self
  rw [hends c rfl] at hc
  cases hc

-- A word is as long as it can be.
theorem word_unique {run' rest' : List Char} (hrun : ∀ c ∈ run, isNameChar c = true) (hrest : NameEnds rest)
    (hrun' : ∀ c ∈ run', isNameChar c = true) (hrest' : NameEnds rest') (h : run ++ rest = run' ++ rest') :
    run = run' ∧ rest = rest' := by
  have ⟨htake, hdrop⟩ := takeWhile_of_ends hrun hrest
  have ⟨htake', hdrop'⟩ := takeWhile_of_ends hrun' hrest'
  exact ⟨by rw [← htake, ← htake', h], by rw [← hdrop, ← hdrop', h]⟩

-- Words that go on with the name of a type, each after a space.
inductive TypeWords : List Char → Prop
  | nil : TypeWords []
  | cons {word : String} {more : List Char} : word ∈ typeContinuations → TypeWords more →
    TypeWords (' ' :: word.toList ++ more)

-- The name of a type goes on here.
def TypeGoesOn (rest : List Char) : Prop :=
  ∃ word ∈ typeContinuations, ∃ after, rest = ' ' :: word.toList ++ after ∧ NameEnds after

-- The name of a type is a word, possibly an empty one, all that goes on with it, and brackets if there are any.
inductive TypeName : (type rest : List Char) → Prop
  | plain {word words rest : List Char} : (∀ c ∈ word, isNameChar c = true) → TypeWords words → NameEnds rest →
    ¬TypeGoesOn rest → ¬['[', ']'] <+: rest → TypeName (word ++ words) rest
  | array {word words rest : List Char} : (∀ c ∈ word, isNameChar c = true) → TypeWords words →
    TypeName (word ++ words ++ ['[', ']']) rest

theorem typeContinuations_plain : ∀ w ∈ typeContinuations, w.toList ≠ [] ∧ ∀ c ∈ w.toList, isNameChar c = true := by
  have hplain : (typeContinuations.all fun w => !w.toList.isEmpty && w.toList.all isNameChar) = true := by decide
  simpa using hplain

theorem not_typeGoesOn_cons (hc : c ≠ ' ') : ¬TypeGoesOn (c :: rest) := by
  rintro ⟨_, -, _, heq, -⟩
  cases heq
  exact hc rfl

namespace TypeWords

theorem nameEnds (h : TypeWords words) (hrest : NameEnds rest) : NameEnds (words ++ rest) := by
  cases h
  case nil => exact hrest
  case cons => exact nameEnds_cons rfl

theorem typeWords_eq (h : TypeWords words) (hrest : NameEnds rest) (hstop : ¬TypeGoesOn rest) :
    typeWords (words ++ rest) = (words, rest) := by
  induction h
  case nil =>
    rw [List.nil_append]
    unfold typeWords
    split
    case h_1 more =>
      dsimp only
      split
      case isTrue => rfl
      case isFalse hgoes =>
        simp only [Bool.or_eq_true, Bool.not_eq_true', not_or, Bool.not_eq_false, List.contains_iff_mem] at hgoes
        refine absurd ⟨_, hgoes.2, more.dropWhile isNameChar, ?_, nameEnds_dropWhile⟩ hstop
        simp
    case h_2 => rfl
  case cons w more hw hmore ih =>
    obtain ⟨hne, hall⟩ := typeContinuations_plain w hw
    obtain ⟨htake, hdrop⟩ := takeWhile_of_ends hall (hmore.nameEnds hrest)
    have hgoes : (w.toList.isEmpty || !typeContinuations.contains (String.ofList w.toList)) = false := by
      simp [hne, hw]
    have htext : ' ' :: w.toList ++ more ++ rest = ' ' :: (w.toList ++ (more ++ rest)) := by simp
    rw [htext, typeWords, htake, hdrop, hgoes, ih]
    rfl

theorem concat {w : String} (h : TypeWords words) (hw : w ∈ typeContinuations) :
    TypeWords (words ++ ' ' :: w.toList) := by
  induction h
  case nil => simpa using TypeWords.cons hw .nil
  case cons hword _ ih => simpa using TypeWords.cons hword ih

end TypeWords

theorem typeWords_typeWords (h : NameEnds text) :
    TypeWords (typeWords text).1 ∧ NameEnds (typeWords text).2 ∧ ¬TypeGoesOn (typeWords text).2 := by
  fun_induction typeWords text
  case case1 rest word hstop =>
    refine ⟨.nil, h, ?_⟩
    rintro ⟨w, hw, after, heq, hafter⟩
    cases heq
    obtain ⟨hne, hall⟩ := typeContinuations_plain w hw
    have htake : word = w.toList := (takeWhile_of_ends hall hafter).1
    simp [htake, hne, hw] at hstop
  case case2 rest word hgoes more after heq ih =>
    rw [heq] at ih
    obtain ⟨hmore, hafter, hstop⟩ := ih nameEnds_dropWhile
    simp only [Bool.or_eq_true, Bool.not_eq_true', not_or, Bool.not_eq_false, List.contains_iff_mem] at hgoes
    refine ⟨?_, hafter, hstop⟩
    have hcons := TypeWords.cons hgoes.2 hmore
    rwa [String.toList_ofList] at hcons
  case case3 hspace =>
    refine ⟨.nil, h, ?_⟩
    rintro ⟨w, hw, after, heq, -⟩
    exact hspace _ heq

theorem TypeName.typeName_eq (h : TypeName type rest) : typeName (type ++ rest) = (type, rest) := by
  cases h
  case plain word words hword hwords hrest hstop hbrackets =>
    have ⟨htake, hdrop⟩ := takeWhile_of_ends hword (hwords.nameEnds hrest)
    rw [typeName, List.append_assoc, htake, hdrop, hwords.typeWords_eq hrest hstop]
    dsimp only
    split
    case h_1 => exact absurd ⟨_, rfl⟩ hbrackets
    case h_2 => rfl
  case array word words hword hwords =>
    have hbrackets : NameEnds ('[' :: ']' :: rest) := nameEnds_cons rfl
    have ⟨htake, hdrop⟩ := takeWhile_of_ends hword (hwords.nameEnds hbrackets)
    have hrun := hwords.typeWords_eq hbrackets (not_typeGoesOn_cons (by decide))
    have htext : word ++ words ++ ['[', ']'] ++ rest = word ++ (words ++ '[' :: ']' :: rest) := by simp
    rw [htext, typeName, htake, hdrop, hrun]
    rfl

theorem typeName_typeName (text : List Char) : TypeName (typeName text).1 (typeName text).2 := by
  have hword : ∀ c ∈ text.takeWhile isNameChar, isNameChar c = true := fun c hc => List.mem_takeWhile_imp hc
  have hends : NameEnds (text.dropWhile isNameChar) := nameEnds_dropWhile
  have ⟨hwords, hrest, hstop⟩ := typeWords_typeWords hends
  unfold typeName
  dsimp only
  split
  case h_1 rest heq => exact .array hword hwords
  case h_2 hbrackets =>
    refine .plain hword hwords hrest hstop ?_
    rintro ⟨rest, heq⟩
    exact hbrackets rest heq.symm

def isMark (c : Char) : Bool :=
  c == quoteMark || c == nameMark

theorem isMark_of_isNameChar (h : isNameChar c = true) : isMark c = false := by
  have hquote : isNameChar quoteMark = false := by decide
  have hname : isNameChar nameMark = false := by decide
  rw [isMark, ne_of_holds h hquote, ne_of_holds h hname, Bool.false_or]

-- The pieces of a text. Quotations, types and words are as long as they can be.
inductive Pieces : List Char → List Piece → Prop
  | nil : Pieces [] []
  | quotation {mark : Char} {run rest : List Char} {ps : List Piece} : isMark mark = true → Quotation mark run rest →
    Pieces rest ps → Pieces (mark :: run ++ rest) (.quotation mark run :: ps)
  | cast {type rest : List Char} {ps : List Piece} : TypeName type rest →
    Pieces rest ps → Pieces (':' :: ':' :: type ++ rest) (.cast type :: ps)
  | word {run rest : List Char} {ps : List Piece} : run ≠ [] → (∀ c ∈ run, isNameChar c = true) → NameEnds rest →
    Pieces rest ps → Pieces (run ++ rest) (.word run :: ps)
  | sign {c : Char} {rest : List Char} {ps : List Piece} : isMark c = false → isNameChar c = false →
    ¬[':', ':'] <+: c :: rest → Pieces rest ps → Pieces (c :: rest) (.sign c :: ps)

variable {ps qs : List Piece}

theorem Pieces.text_eq (h : Pieces text ps) : text = Piece.texts ps := by
  induction h
  case nil => rfl
  all_goals simp_all [Piece.text]

-- The pieces of a text, computed.
def pieces (text : List Char) : List Piece :=
  match text with
  | [] => []
  | c :: rest =>
    if isMark c then .quotation c (quotedRun c rest).1 :: pieces (quotedRun c rest).2
    else if c == ':' && rest.head? == some ':' then
      .cast (typeName (rest.drop 1)).1 :: pieces (typeName (rest.drop 1)).2
    else if isNameChar c then .word (c :: rest.takeWhile isNameChar) :: pieces (rest.dropWhile isNameChar)
    else .sign c :: pieces rest
termination_by text.length
decreasing_by
  · have := length_quotedRun_le c rest
    simp only [List.length_cons]
    omega
  · have := length_typeName_le (rest.drop 1)
    simp only [List.length_drop, List.length_cons] at this ⊢
    omega
  · have := (List.dropWhile_suffix (l := rest) isNameChar).length_le
    simp only [List.length_cons]
    omega
  · simp

theorem cast_prefix_iff : (c == ':' && rest.head? == some ':') = true ↔ [':', ':'] <+: c :: rest := by
  rw [Bool.and_eq_true, beq_iff_eq, beq_iff_eq]
  constructor
  case mp =>
    rintro ⟨rfl, hhead⟩
    obtain ⟨more, rfl⟩ := List.head?_eq_some_iff.mp hhead
    exact ⟨more, rfl⟩
  case mpr =>
    rintro ⟨more, heq⟩
    cases heq
    exact ⟨rfl, rfl⟩

theorem pieces_pieces (text : List Char) : Pieces text (pieces text) := by
  fun_induction pieces text
  case case1 => exact .nil
  case case2 c rest hmark ih =>
    have h := Pieces.quotation hmark (quotation_quotedRun c rest) ih
    rwa [List.cons_append, quotedRun_append] at h
  case case3 c rest hmark hcast ih =>
    obtain ⟨type, hcast⟩ := cast_prefix_iff.mp hcast
    cases hcast
    have h := Pieces.cast (typeName_typeName type) ih
    rwa [List.cons_append, List.cons_append, typeName_append] at h
  case case4 c rest hmark hcast hname ih =>
    have hrun : ∀ d ∈ c :: rest.takeWhile isNameChar, isNameChar d = true :=
      List.forall_mem_cons.mpr ⟨hname, fun d hd => List.mem_takeWhile_imp hd⟩
    have h := Pieces.word (List.cons_ne_nil _ _) hrun nameEnds_dropWhile ih
    rwa [List.cons_append, List.takeWhile_append_dropWhile] at h
  case case5 c rest hmark hcast hname ih =>
    exact .sign (by simpa using hmark) (by simpa using hname) (mt cast_prefix_iff.mpr hcast) ih

-- There is only one way to cut a text into pieces.
theorem Pieces.unique (h : Pieces text ps) : pieces text = ps := by
  induction h
  case nil => rw [pieces]
  case quotation hmark hquotation _ ih => rw [List.cons_append, pieces, if_pos hmark, hquotation.quotedRun_eq, ih]
  case cast type rest ps htype _ ih =>
    have hcolon : isMark ':' = false := rfl
    rw [List.cons_append, List.cons_append, pieces, hcolon]
    simp [htype.typeName_eq, ih]
  case word run rest ps hne hrun hrest _ ih =>
    obtain ⟨c, run, rfl⟩ := List.exists_cons_of_ne_nil hne
    have ⟨hc, hrun⟩ := List.forall_mem_cons.mp hrun
    have ⟨htake, hdrop⟩ := takeWhile_of_ends hrun hrest
    rw [List.cons_append, pieces, isMark_of_isNameChar hc, ne_of_holds hc (d := ':') rfl, hc, htake, hdrop, ih]
    rfl
  case sign c rest ps hmark hname hcast _ ih =>
    have hcolons : (c == ':' && rest.head? == some ':') = false := by
      rw [← Bool.not_eq_true, cast_prefix_iff]
      exact hcast
    rw [pieces, hmark, hcolons, hname, ih]
    rfl

namespace Pieces

theorem nil_iff (h : Pieces text ps) : text = [] ↔ ps = [] := by
  cases h <;> simp_all

-- A text that starts with a character of names starts with a word.
theorem exists_word (h : Pieces text ps) (hhead : c ∈ text.head?) (hc : isNameChar c = true) :
    ∃ run rest qs, text = run ++ rest ∧ ps = .word run :: qs ∧ run ≠ [] ∧ (∀ d ∈ run, isNameChar d = true) ∧
      NameEnds rest ∧ Pieces rest qs := by
  cases h
  case nil => cases hhead
  case quotation mark run rest qs hmark _ _ =>
    cases hhead
    rw [isMark_of_isNameChar hc] at hmark
    cases hmark
  case cast =>
    cases hhead
    cases hc
  case word run rest qs hne hrun hrest hqs => exact ⟨run, rest, qs, rfl, rfl, hne, hrun, hrest, hqs⟩
  case sign hname _ _ =>
    cases hhead
    rw [hname] at hc
    cases hc

-- A text that starts with another character, which is neither a mark nor a colon, starts with a sign.
theorem exists_sign (h : Pieces text ps) (hhead : c ∈ text.head?) (hmark : isMark c = false)
    (hc : isNameChar c = false) (hcolon : c ≠ ':') : ∃ rest qs, text = c :: rest ∧ ps = .sign c :: qs ∧ Pieces rest qs := by
  cases h
  case nil => cases hhead
  case quotation hquote _ _ =>
    cases hhead
    rw [hmark] at hquote
    cases hquote
  case cast =>
    cases hhead
    exact absurd rfl hcolon
  case word run rest qs hne hrun _ _ =>
    obtain ⟨d, run, rfl⟩ := List.exists_cons_of_ne_nil hne
    cases hhead
    rw [hrun c List.mem_cons_self] at hc
    cases hc
  case sign _ rest qs _ _ _ hqs =>
    cases hhead
    exact ⟨rest, qs, rfl, rfl, hqs⟩

theorem point_iff (h : Pieces text ps) : text.head? = some '.' ↔ ps.head? = some (.sign '.') := by
  constructor
  case mp =>
    intro hhead
    obtain ⟨rest, qs, -, rfl, -⟩ := h.exists_sign hhead rfl rfl (by decide)
    rfl
  case mpr =>
    intro hhead
    cases h <;> cases hhead
    rfl

end Pieces

-- A name starts with this word, unless a point stands before it.
def startsName (run : List Char) : Bool :=
  run.head?.any isNameStart

-- The pieces with other ones in the place of each word at which a name starts.
def renamed (f : List Char → List Piece → List Piece) : (afterPoint : Bool) → List Piece → List Piece
  | _, [] => []
  | afterPoint, .word run :: ps =>
    (if startsName run && !afterPoint then f run ps else [.word run]) ++ renamed f false ps
  | _, .sign c :: ps => .sign c :: renamed f (c == '.') ps
  | _, .quotation mark run :: ps => .quotation mark run :: renamed f false ps
  | _, .cast type :: ps => .cast type :: renamed f false ps

-- What is written in the place of a name is what is put in the place of the word with which the name starts. If the scan
-- goes on behind a point, this is copied.
def Renames (rename : List Char → Option (List Char × List Char)) (f : List Char → List Piece → List Piece) : Prop :=
  ∀ run rest ps, startsName run = true → (∀ c ∈ run, isNameChar c = true) → NameEnds rest → Pieces rest ps →
    (rename (run ++ rest) = none ∧ f run ps = [.word run]) ∨
    ∃ passed after, (passed = [] ∨ passed = ['.']) ∧ rest = passed ++ after ∧
      rename (run ++ rest) = some (Piece.texts (f run ps) ++ passed, after)

section

variable {rename : List Char → Option (List Char × List Char)} {f : List Char → List Piece → List Piece}
  {joined afterPoint : Bool}

theorem isNameChar_of_isNameStart (h : isNameStart c = true) : isNameChar c = true := by
  simp only [isNameStart, Bool.or_eq_true] at h
  rcases h with h | h <;> simp [isNameChar, Char.isAlphanum, h]

theorem replaceNames_mark (hmark : isMark mark = true) (h : Quotation mark run rest) :
    replaceNames rename joined (mark :: run ++ rest) = mark :: run ++ replaceNames rename false rest := by
  rw [isMark] at hmark
  rw [List.cons_append, replaceNames, if_pos hmark, h.quotedRun_eq]

theorem replaceNames_cast (h : TypeName type rest) : replaceNames rename joined (':' :: ':' :: type ++ rest) =
    ':' :: ':' :: type ++ replaceNames rename false rest := by
  rw [List.cons_append, List.cons_append, replaceNames]
  simp [quoteMark, nameMark, h.typeName_eq]

-- Where no name starts the character is copied.
theorem replaceNames_cons (hmark : isMark c = false) (hcast : ¬[':', ':'] <+: c :: rest)
    (hstart : (isNameStart c && !joined) = false) : replaceNames rename joined (c :: rest) =
      c :: replaceNames rename (isNameChar c || c == '.') rest := by
  have hcolons : (c == ':' && rest.head? == some ':') = false := by
    rw [← Bool.not_eq_true, cast_prefix_iff]
    exact hcast
  rw [isMark] at hmark
  rw [replaceNames]
  simp only [hmark, hcolons, hstart]
  rfl

theorem replaceNames_sign (hmark : isMark c = false) (hname : isNameChar c = false)
    (hcast : ¬[':', ':'] <+: c :: rest) : replaceNames rename joined (c :: rest) =
      c :: replaceNames rename (c == '.') rest := by
  have hstart : isNameStart c = false := by
    cases h : isNameStart c
    case true => rw [isNameChar_of_isNameStart h] at hname; cases hname
    case false => rfl
  rw [replaceNames_cons hmark hcast (by rw [hstart, Bool.false_and]), hname, Bool.false_or]

theorem not_cast_of_isNameChar (h : isNameChar c = true) : ¬[':', ':'] <+: c :: rest := by
  rintro ⟨more, heq⟩
  cases heq
  cases h

-- Inside of a word no name starts.
theorem replaceNames_joined (hrun : ∀ c ∈ run, isNameChar c = true) :
    replaceNames rename true (run ++ rest) = run ++ replaceNames rename true rest := by
  induction run
  case nil => rfl
  case cons c run ih =>
    have ⟨hc, hrun⟩ := List.forall_mem_cons.mp hrun
    rw [List.cons_append, replaceNames_cons (isMark_of_isNameChar hc) (not_cast_of_isNameChar hc) (Bool.and_false _),
      hc, Bool.true_or, ih hrun, List.cons_append]

-- Nor does one at a word that starts with a digit.
theorem replaceNames_digits (hne : run ≠ []) (hrun : ∀ c ∈ run, isNameChar c = true)
    (hstart : startsName run = false) : replaceNames rename joined (run ++ rest) =
      run ++ replaceNames rename true rest := by
  obtain ⟨c, run, rfl⟩ := List.exists_cons_of_ne_nil hne
  have ⟨hc, hrun⟩ := List.forall_mem_cons.mp hrun
  have hstart : isNameStart c = false := by simpa [startsName] using hstart
  rw [List.cons_append, replaceNames_cons (isMark_of_isNameChar hc) (not_cast_of_isNameChar hc)
    (by rw [hstart, Bool.false_and]), hc, Bool.true_or, replaceNames_joined hrun, List.cons_append]

theorem replaceNames_none (hrun : ∀ c ∈ run, isNameChar c = true) (hrest : NameEnds rest)
    (hstart : startsName run = true) (h : rename (run ++ rest) = none) :
    replaceNames rename false (run ++ rest) = run ++ replaceNames rename true rest := by
  cases run
  case nil => cases hstart
  case cons c run =>
    have ⟨hc, hrun⟩ := List.forall_mem_cons.mp hrun
    have hmark := isMark_of_isNameChar hc
    have hcolon := ne_of_holds (d := ':') hc rfl
    have hstart : isNameStart c = true := hstart
    have ⟨htake, hdrop⟩ := takeWhile_of_ends hrun hrest
    rw [isMark] at hmark
    rw [List.cons_append] at h ⊢
    rw [replaceNames]
    simp [hmark, hcolon, hstart, h, htake, hdrop]

theorem replaceNames_some {replacement : List Char} (hrun : ∀ c ∈ run, isNameChar c = true)
    (hstart : startsName run = true) (hlt : after.length < (run ++ rest).length)
    (h : rename (run ++ rest) = some (replacement, after)) :
    replaceNames rename false (run ++ rest) = replacement ++ replaceNames rename true after := by
  cases run
  case nil => cases hstart
  case cons c run =>
    have ⟨hc, _⟩ := List.forall_mem_cons.mp hrun
    have hmark := isMark_of_isNameChar hc
    have hcolon := ne_of_holds (d := ':') hc rfl
    have hstart : isNameStart c = true := hstart
    rw [isMark] at hmark
    rw [List.cons_append] at h hlt ⊢
    rw [replaceNames]
    simp only [hmark, hcolon, hstart, h, dif_pos hlt]
    rfl

theorem replaceNames_point : replaceNames rename joined ('.' :: rest) = '.' :: replaceNames rename true rest :=
  replaceNames_sign rfl rfl (by rintro ⟨_, heq⟩; cases heq)

-- The scan exchanges words at which names start, and leaves all else as it is.
theorem replaceNames_eq (hf : Renames rename f) (h : Pieces text ps) (hjoined : joined = afterPoint ∨ NameEnds text) :
    replaceNames rename joined text = Piece.texts (renamed f afterPoint ps) := by
  induction h generalizing joined afterPoint
  case nil => rw [replaceNames, renamed, Piece.texts_nil]
  case quotation hmark hquotation _ ih =>
    rw [replaceNames_mark hmark hquotation, ih (.inl rfl), renamed, Piece.texts_cons, Piece.text]
  case cast htype _ ih => rw [replaceNames_cast htype, ih (.inl rfl), renamed, Piece.texts_cons, Piece.text]
  case sign hmark hname hcast _ ih =>
    rw [replaceNames_sign hmark hname hcast, ih (.inl rfl), renamed, Piece.texts_cons, Piece.text]
    rfl
  case word run rest ps hne hrun hrest hps ih =>
    have hrest' : replaceNames rename true rest = Piece.texts (renamed f false ps) := ih (.inr hrest)
    have hjoined : joined = afterPoint := hjoined.resolve_right (not_nameEnds_word hne hrun)
    subst hjoined
    rw [renamed, Piece.texts_append, ← hrest']
    cases hstart : startsName run
    case false =>
      rw [replaceNames_digits hne hrun hstart]
      simp [Piece.text]
    case true =>
    cases joined
    case true =>
      rw [replaceNames_joined hrun]
      simp [Piece.text]
    case false =>
      rw [Bool.not_false, Bool.and_true, if_pos rfl]
      rcases hf run rest ps hstart hrun hrest hps with ⟨hnone, hsame⟩ | ⟨passed, after, hpassed, rfl, hsome⟩
      case inl =>
        rw [replaceNames_none hrun hrest hstart hnone, hsame]
        simp [Piece.text]
      case inr =>
        have hlt : after.length < (run ++ (passed ++ after)).length := by
          have := List.length_pos_iff.mpr hne
          simp only [List.length_append]
          omega
        rw [replaceNames_some hrun hstart hlt hsome, List.append_assoc]
        rcases hpassed with rfl | rfl
        case inl => rfl
        case inr => rw [List.singleton_append, List.singleton_append, replaceNames_point]

end

end Subplans.Condition
