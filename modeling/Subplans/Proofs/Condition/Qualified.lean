import Subplans.Proofs.Condition.Pieces

/-!
Conditions with qualified names of columns.

The alias of a table is put before the words that are bare names of its columns, and before nothing else: not in
quotations, not in the types of casts, and not next to points. So the names that were qualified are not qualified
again (`qualify_inserts`).
-/

namespace Subplans.Condition

open Text

variable {t : Table} {a : String} {c d mark : Char} {run rest type text : List Char} {ps : List Piece}
  {joined afterPoint : Bool}

-- A letter or an underscore, and then letters, digits and underscores.
def IsName (run : List Char) : Prop :=
  startsName run = true ∧ ∀ c ∈ run, isNameChar c = true

instance (run : List Char) : Decidable (IsName run) :=
  decidable_of_iff (startsName run = true ∧ run.all isNameChar = true) (and_congr_right' List.all_eq_true)

theorem IsName.ne_nil (h : IsName run) : run ≠ [] := by
  rintro rfl
  cases h.1

-- A word at which a name starts is the bare name of a column if there is such a column and no point behind the word.
def isBare (t : Table) (run : List Char) (ps : List Piece) : Bool :=
  t.hasColumn (String.ofList run) && ps.head? != some (.sign '.')

-- A word with the alias and a point before it, if it is the bare name of a column.
def prefixed (a : String) (t : Table) (run : List Char) (ps : List Piece) : List Piece :=
  if isBare t run ps then [.word a.toList, .sign '.', .word run] else [.word run]

-- The pieces with the alias before each bare name of a column.
def qualified (a : String) (t : Table) : (afterPoint : Bool) → List Piece → List Piece :=
  renamed (prefixed a t)

-- What is written for a name, and the text after it.
def qualifier? (a : String) (t : Table) (text : List Char) : Option (List Char × List Char) :=
  let word := text.takeWhile isNameChar
  let after := text.dropWhile isNameChar
  if after.head? == some '.' || !t.hasColumn (String.ofList word) then none
  else some (a.toList ++ '.' :: word, after)

theorem qualify_eq_replaceNames : qualify text a t = replaceNames (qualifier? a t) false text :=
  rfl

theorem qualifier?_eq_none (hrun : ∀ c ∈ run, isNameChar c = true) (hrest : NameEnds rest)
    (h : t.hasColumn (String.ofList run) = true → rest.head? = some '.') : qualifier? a t (run ++ rest) = none := by
  have ⟨htake, hdrop⟩ := takeWhile_of_ends hrun hrest
  rw [qualifier?, htake, hdrop]
  cases hcolumn : t.hasColumn (String.ofList run)
  case false => simp
  case true => simp [h hcolumn]

theorem qualifier?_eq_some (hrun : ∀ c ∈ run, isNameChar c = true) (hrest : NameEnds rest)
    (hcolumn : t.hasColumn (String.ofList run) = true) (hpoint : rest.head? ≠ some '.') :
    qualifier? a t (run ++ rest) = some (a.toList ++ '.' :: run, rest) := by
  have ⟨htake, hdrop⟩ := takeWhile_of_ends hrun hrest
  rw [qualifier?, htake, hdrop]
  simp [hcolumn, hpoint]

theorem isBare_iff (h : Pieces rest ps) :
    isBare t run ps = true ↔ t.hasColumn (String.ofList run) = true ∧ rest.head? ≠ some '.' := by
  rw [isBare, Bool.and_eq_true, bne_iff_ne, Ne, Ne, h.point_iff]

theorem renames_qualifier : Renames (qualifier? a t) (prefixed a t) := by
  intro run rest ps _ hrun hrest hps
  unfold prefixed
  split
  case isTrue hbare =>
    have ⟨hcolumn, hpoint⟩ := (isBare_iff hps).mp hbare
    refine .inr ⟨[], rest, .inl rfl, rfl, ?_⟩
    rw [qualifier?_eq_some hrun hrest hcolumn hpoint]
    simp [Piece.text]
  case isFalse hbare =>
    refine .inl ⟨qualifier?_eq_none hrun hrest fun hcolumn => ?_, rfl⟩
    by_contra hpoint
    exact hbare ((isBare_iff hps).mpr ⟨hcolumn, hpoint⟩)

theorem qualify_eq (h : Pieces text ps) : qualify text a t = Piece.texts (qualified a t false ps) := by
  rw [qualify_eq_replaceNames]
  exact replaceNames_eq renames_qualifier h (.inl rfl)

theorem exists_head?_word (hne : run ≠ []) (hrun : ∀ c ∈ run, isNameChar c = true) :
    ∃ c ∈ (run ++ rest).head?, isNameChar c = true := by
  obtain ⟨c, run, rfl⟩ := List.exists_cons_of_ne_nil hne
  exact ⟨c, rfl, hrun c List.mem_cons_self⟩

theorem qualified_word : qualified a t afterPoint (.word run :: ps) =
    if startsName run && !afterPoint && isBare t run ps then
      .word a.toList :: .sign '.' :: .word run :: qualified a t false ps
    else .word run :: qualified a t false ps := by
  rw [qualified, renamed, prefixed]
  cases startsName run && !afterPoint <;> cases isBare t run ps <;> rfl

theorem texts_qualified_word : Piece.texts (qualified a t afterPoint (.word run :: ps)) =
    if startsName run && !afterPoint && isBare t run ps then
      a.toList ++ '.' :: (run ++ Piece.texts (qualified a t false ps))
    else run ++ Piece.texts (qualified a t false ps) := by
  rw [qualified_word]
  split <;> simp [Piece.text]

-- In the place of a word there is still one.
theorem exists_head?_qualified (ha : IsName a.toList) (hne : run ≠ []) (hrun : ∀ c ∈ run, isNameChar c = true) :
    ∃ c ∈ (Piece.texts (qualified a t afterPoint (.word run :: ps))).head?, isNameChar c = true := by
  rw [texts_qualified_word]
  split
  case isTrue => exact exists_head?_word ha.ne_nil ha.2
  case isFalse => exact exists_head?_word hne hrun

-- What follows starts with the same character as before, unless a word follows.
theorem mem_head?_qualified (ha : IsName a.toList) (h : Pieces rest ps) (hc : isNameChar c = false) :
    c ∈ (Piece.texts (qualified a t afterPoint ps)).head? ↔ c ∈ rest.head? := by
  cases h
  case word run rest ps hne hrun _ _ =>
    obtain ⟨d, hd, hname⟩ : ∃ d ∈ (Piece.texts (qualified a t afterPoint (.word run :: ps))).head?, isNameChar d = true :=
      exists_head?_qualified ha hne hrun
    obtain ⟨e, he, hname'⟩ : ∃ e ∈ (run ++ rest).head?, isNameChar e = true := exists_head?_word hne hrun
    rw [hd, he]
    grind
  all_goals rfl

theorem nameEnds_qualified (h : Pieces rest ps) (hrest : NameEnds rest) :
    NameEnds (Piece.texts (qualified a t afterPoint ps)) := by
  cases h
  case word hne hrun _ _ => exact absurd hrest (not_nameEnds_word hne hrun)
  all_goals exact hrest

theorem exists_word_of_qualified {word after : List Char} (h : Pieces text ps)
    (heq : Piece.texts (qualified a t afterPoint ps) = word ++ after) (hne : word ≠ [])
    (hword : ∀ c ∈ word, isNameChar c = true) : ∃ run rest qs, text = run ++ rest ∧ ps = .word run :: qs ∧ run ≠ [] ∧
      (∀ d ∈ run, isNameChar d = true) ∧ NameEnds rest ∧ Pieces rest qs := by
  have hstarts : ¬NameEnds text := by
    intro hends
    have hends : NameEnds (word ++ after) := heq ▸ nameEnds_qualified h hends
    exact not_nameEnds_word hne hword hends
  simp only [NameEnds, not_forall, Bool.not_eq_false] at hstarts
  obtain ⟨d, hd, hname⟩ := hstarts
  exact h.exists_word hd hname

theorem Quotation.before_qualified (ha : IsName a.toList) (hmark : isMark mark = true) (h : Quotation mark run rest)
    (hps : Pieces rest ps) : Quotation mark run (Piece.texts (qualified a t afterPoint ps)) := by
  have hname : isNameChar mark = false := by
    cases hname : isNameChar mark
    case true => rw [isMark_of_isNameChar hname] at hmark; cases hmark
    case false => rfl
  cases h
  case closed hrest =>
    refine .closed fun c hc heq => ?_
    subst heq
    exact hrest c ((mem_head?_qualified ha hps hname).mp hc) rfl
  case unclosed =>
    obtain rfl := hps.nil_iff.mp rfl
    exact .unclosed

-- Two signs that follow each other did so before.
theorem prefix_qualified {e : Char} (ha : IsName a.toList) (hd : isNameChar d = false) (hps : Pieces rest ps)
    (h : [e, d] <+: c :: Piece.texts (qualified a t afterPoint ps)) : [e, d] <+: c :: rest := by
  obtain ⟨more, hmore⟩ := h
  have ⟨hfirst, hsecond⟩ := List.cons.inj hmore
  have hhead : d ∈ (Piece.texts (qualified a t afterPoint ps)).head? := by
    rw [← hsecond]
    rfl
  obtain ⟨rest, rfl⟩ := List.head?_eq_some_iff.mp ((mem_head?_qualified ha hps hd).mp hhead)
  exact ⟨rest, by rw [hfirst]; rfl⟩

-- The name of a type ends where it did, unless the alias is put behind it and is a word that goes on with the name.
theorem TypeName.before_qualified (ha : IsName a.toList) (h : TypeName type rest) (hps : Pieces rest ps) :
    TypeName type (Piece.texts (qualified a t false ps)) ∨ a ∈ typeContinuations ∧ ∃ more,
      Piece.texts (qualified a t false ps) = ' ' :: a.toList ++ '.' :: more ∧
      TypeName (type ++ ' ' :: a.toList) ('.' :: more) := by
  cases h
  case array hword hwords => exact .inl (.array hword hwords)
  case plain word words hword hwords hrest hstop hbrackets =>
    have hends : NameEnds (Piece.texts (qualified a t false ps)) := nameEnds_qualified hps hrest
    have hbrackets' : ¬['[', ']'] <+: Piece.texts (qualified a t false ps) := by
      rintro ⟨more, hmore⟩
      have hhead : '[' ∈ (Piece.texts (qualified a t false ps)).head? := by rw [← hmore]; rfl
      obtain ⟨rest, qs, rfl, rfl, hqs⟩ :=
        hps.exists_sign ((mem_head?_qualified ha hps rfl).mp hhead) rfl rfl (by decide)
      exact hbrackets (prefix_qualified ha rfl hqs ⟨more, hmore⟩)
    by_cases hgoes : TypeGoesOn (Piece.texts (qualified a t false ps))
    case neg => exact .inl (.plain hword hwords hends hgoes hbrackets')
    case pos =>
      obtain ⟨w, hw, after, heq, hafter⟩ := hgoes
      have ⟨hne, hall⟩ := typeContinuations_plain w hw
      have hhead : ' ' ∈ (Piece.texts (qualified a t false ps)).head? := by rw [heq]; rfl
      obtain ⟨rest, ps, rfl, rfl, hqs⟩ :=
        hps.exists_sign ((mem_head?_qualified ha hps rfl).mp hhead) rfl rfl (by decide)
      have heq : Piece.texts (qualified a t false ps) = w.toList ++ after := (List.cons.inj heq).2
      obtain ⟨run, rest, ps, rfl, rfl, hrunne, hrun, hrest, hqs⟩ := exists_word_of_qualified hqs heq hne hall
      have hends : NameEnds (Piece.texts (qualified a t false ps)) := nameEnds_qualified hqs hrest
      have hspace : Piece.texts (qualified a t false (.sign ' ' :: .word run :: ps)) =
        ' ' :: Piece.texts (qualified a t false (.word run :: ps)) := rfl
      rw [texts_qualified_word] at heq hspace
      split at heq
      case isTrue hbare =>
        have hpoint : NameEnds ('.' :: (run ++ Piece.texts (qualified a t false ps))) := nameEnds_cons rfl
        have ⟨hw', _⟩ := word_unique ha.2 hpoint hall hafter heq
        obtain rfl := String.toList_inj.mp hw'
        rw [if_pos hbare] at hspace
        refine .inr ⟨hw, _, hspace, ?_⟩
        rw [List.append_assoc]
        refine .plain hword (hwords.concat hw) hpoint (not_typeGoesOn_cons (by decide)) ?_
        rintro ⟨_, heq⟩
        cases heq
      case isFalse =>
        have ⟨hw', _⟩ := word_unique hrun hends hall hafter heq
        exact absurd ⟨w, hw, rest, by rw [hw', List.cons_append], hrest⟩ hstop

theorem replaceNames_alias (ha : IsName a.toList) : replaceNames (qualifier? a t) false (a.toList ++ '.' :: rest) =
    a.toList ++ '.' :: replaceNames (qualifier? a t) true rest := by
  have hpoint : NameEnds ('.' :: rest) := nameEnds_cons rfl
  rw [replaceNames_none ha.2 hpoint ha.1 (qualifier?_eq_none ha.2 hpoint fun _ => rfl), replaceNames_point]

-- Names that are qualified are left as they are.
theorem replaceNames_qualified (ha : IsName a.toList) (h : Pieces text ps) (hjoined : joined = afterPoint ∨ NameEnds text) :
    replaceNames (qualifier? a t) joined (Piece.texts (qualified a t afterPoint ps)) =
      Piece.texts (qualified a t afterPoint ps) := by
  induction h generalizing joined afterPoint
  case nil => rw [qualified, renamed, Piece.texts_nil, replaceNames]
  case quotation mark run rest ps hmark hquotation hps ih =>
    have hcons : Piece.texts (qualified a t afterPoint (.quotation mark run :: ps)) =
      mark :: run ++ Piece.texts (qualified a t false ps) := rfl
    rw [hcons, replaceNames_mark hmark (hquotation.before_qualified ha hmark hps), ih (.inl rfl)]
  case sign c rest ps hmark hname hcast hps ih =>
    have hcons : Piece.texts (qualified a t afterPoint (.sign c :: ps)) =
      c :: Piece.texts (qualified a t (c == '.') ps) := rfl
    rw [hcons, replaceNames_sign hmark hname (fun h => hcast (prefix_qualified ha rfl hps h)), ih (.inl rfl)]
  case cast type rest ps htype hps ih =>
    have hcons : Piece.texts (qualified a t afterPoint (.cast type :: ps)) =
      ':' :: ':' :: type ++ Piece.texts (qualified a t false ps) := rfl
    rw [hcons]
    rcases htype.before_qualified (t := t) ha hps with htype | ⟨_, more, hmore, htype⟩
    case inl => rw [replaceNames_cast htype, ih (.inl rfl)]
    case inr =>
      -- The alias is now taken for a part of the type, and what stands behind it is left as it is in any case.
      have hrest : replaceNames (qualifier? a t) false (Piece.texts (qualified a t false ps)) =
        Piece.texts (qualified a t false ps) := ih (.inl rfl)
      rw [hmore, List.cons_append, replaceNames_sign rfl rfl (by rintro ⟨_, heq⟩; cases heq)] at hrest
      have hrest : replaceNames (qualifier? a t) false (a.toList ++ '.' :: more) = a.toList ++ '.' :: more :=
        (List.cons.inj hrest).2
      rw [replaceNames_alias ha, List.append_cancel_left_eq] at hrest
      have htext : ':' :: ':' :: type ++ Piece.texts (qualified a t false ps) =
          ':' :: ':' :: (type ++ ' ' :: a.toList) ++ '.' :: more := by simp [hmore]
      rw [htext, replaceNames_cast htype, replaceNames_point, hrest]
  case word run rest ps hne hrun hrest hps ih =>
    have hends : NameEnds (Piece.texts (qualified a t false ps)) := nameEnds_qualified hps hrest
    have hmore : replaceNames (qualifier? a t) true (Piece.texts (qualified a t false ps)) =
      Piece.texts (qualified a t false ps) := ih (.inr hrest)
    have hjoined : joined = afterPoint := hjoined.resolve_right (not_nameEnds_word hne hrun)
    subst hjoined
    rw [texts_qualified_word]
    split
    case isTrue hbare =>
      simp only [Bool.and_eq_true, Bool.not_eq_true'] at hbare
      obtain ⟨⟨-, rfl⟩, -⟩ := hbare
      rw [replaceNames_alias ha, replaceNames_joined hrun, hmore]
    case isFalse hbare =>
      cases joined
      case true => rw [replaceNames_joined hrun, hmore]
      case false =>
      cases hstart : startsName run
      case false => rw [replaceNames_digits hne hrun hstart, hmore]
      case true =>
        have hnone : qualifier? a t (run ++ Piece.texts (qualified a t false ps)) = none := by
          refine qualifier?_eq_none hrun hends fun hcolumn => ?_
          rw [hstart, Bool.not_false, Bool.true_and, Bool.true_and, isBare_iff hps, not_and_not_right] at hbare
          exact (mem_head?_qualified ha hps rfl).mpr (hbare hcolumn)
        rw [replaceNames_none hrun hends hstart hnone, hmore]

-- The alias is put before the words that are bare names of columns and nothing else is changed, whatever the text; and
-- where this has been done there is nothing left to do.
theorem qualify_inserts (text : List Char) (a : String) (t : Table) (ha : IsName a.toList) :
    (∃! ps, Pieces text ps) ∧
    (∀ ps, Pieces text ps → text = Piece.texts ps ∧ qualify text a t = Piece.texts (qualified a t false ps)) ∧
    qualify (qualify text a t) a t = qualify text a t := by
  have hps := pieces_pieces text
  refine ⟨⟨_, hps, fun ps h => h.unique.symm⟩, fun ps h => ⟨h.text_eq, qualify_eq h⟩, ?_⟩
  rw [qualify_eq hps, qualify_eq_replaceNames, replaceNames_qualified ha hps (.inl rfl)]

def films : Table where
  name := "film"
  cardinality := 100
  isLeaf := true
  columns := ["id", "title", "film"].map fun name =>
    { name, dataType := .text, indexed := false, nullable := true, nullRatio := 0, least := none, greatest := none }
  keys := []
  indexes := []

-- Names of columns stand in quotations, behind points and before one, behind a digit and a letter beyond ASCII. The last
-- quotation is not closed.
def filmCondition : List Char :=
  "id = 'it''s id' AND éid ~~ title::text id OR f.id < 1id AND id.x > \"id\"::double precision AND film = 'id".toList

-- The alias is a word that goes on with the name of a type.
theorem qualify_inserts_filmCondition : IsName "with".toList ∧ (∃! ps, Pieces filmCondition ps) ∧
    qualify filmCondition "with" films = Piece.texts (qualified "with" films false (pieces filmCondition)) ∧
    qualify filmCondition "with" films = ("with.id = 'it''s id' AND éwith.id ~~ with.title::text with.id OR f.id < 1id " ++
      "AND id.x > \"id\"::double precision AND with.film = 'id").toList ∧
    qualify (qualify filmCondition "with" films) "with" films = qualify filmCondition "with" films := by
  have ha : IsName "with".toList := by decide
  obtain ⟨hunique, hqualify, hagain⟩ := qualify_inserts filmCondition "with" films ha
  exact ⟨ha, hunique, (hqualify _ (pieces_pieces _)).2, by decide +kernel, hagain⟩

end Subplans.Condition
