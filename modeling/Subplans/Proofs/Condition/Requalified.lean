import Subplans.Proofs.Condition.Qualified
import Subplans.Proofs.Outcome
import Subplans.Recovery.Scan

/-!
Conditions that are qualified with the name of a table before they are qualified with its alias.

The conditions of an index scan below a heap scan are qualified with the name of the table, in whose place the alias of
the heap scan is put. Unless the name of the table qualifies something in the condition already, this comes to the same
as to qualify the condition with the alias (`requalify_qualify`).
-/

namespace Subplans.Condition

open Text

variable {t : Table} {a source target : String} {c : Char} {name run rest text : List Char} {ps qs : List Piece}
  {afterPoint : Bool}

-- Behind the name there are a point and a word, be it one that starts with a digit.
def isQualifier (ps : List Piece) : Bool :=
  match ps with
  | .sign c :: .word _ :: _ => c == '.'
  | _ => false

-- A word, or the target in the place of the source if this qualifies another word.
def exchanged (source target : String) (run : List Char) (ps : List Piece) : List Piece :=
  if isQualifier ps && run == source.toList then [.word target.toList] else [.word run]

-- The pieces with the target in the place of the source wherever this qualifies another word.
def requalified (source target : String) : (afterPoint : Bool) → List Piece → List Piece :=
  renamed (exchanged source target)

-- Among the pieces there is a word that is qualified with the name.
inductive Qualifies (name : List Char) : (afterPoint : Bool) → List Piece → Prop
  | here {ps : List Piece} : isQualifier ps = true → Qualifies name false (.word name :: ps)
  | later {afterPoint : Bool} {p : Piece} {ps : List Piece} : Qualifies name (p == .sign '.') ps →
    Qualifies name afterPoint (p :: ps)

-- No word in the text is qualified with the name.
def Unqualified (name : String) (text : List Char) : Prop :=
  ∀ ps, Pieces text ps → ¬Qualifies name.toList false ps

theorem qualifies_cons {p : Piece} : Qualifies name afterPoint (p :: ps) ↔
    (isQualifier ps = true ∧ afterPoint = false ∧ p = .word name) ∨ Qualifies name (p == .sign '.') ps where
  mp h := by
    cases h
    case here h => exact .inl ⟨h, rfl, rfl⟩
    case later h => exact .inr h
  mpr := by
    rintro (⟨h, rfl, rfl⟩ | h)
    case inl => exact .here h
    case inr => exact .later h

def decideQualifies (name : List Char) : (afterPoint : Bool) → (ps : List Piece) → Decidable (Qualifies name afterPoint ps)
  | _, [] => isFalse nofun
  | _, p :: ps =>
    have := decideQualifies name (p == .sign '.') ps
    decidable_of_iff _ qualifies_cons.symm

instance : Decidable (Qualifies name afterPoint ps) :=
  decideQualifies name afterPoint ps

instance (name : String) (text : List Char) : Decidable (Unqualified name text) :=
  decidable_of_iff (¬Qualifies name.toList false (pieces text))
    ⟨fun h _ hps => hps.unique ▸ h, fun h => h _ (pieces_pieces text)⟩

-- What is written for a name, and the text after it.
def requalifier? (source target : String) (text : List Char) : Option (List Char × List Char) :=
  match source.toList.isPrefixOf text, text.drop source.length with
  | true, '.' :: after => if after.head?.any isNameChar then some (target.toList ++ ['.'], after) else none
  | _, _ => none

theorem requalify_eq_replaceNames :
    requalify text source target = replaceNames (requalifier? source target) false text :=
  rfl

theorem requalifier?_eq_some {after : List Char} (h : ∃ c ∈ after.head?, isNameChar c = true) :
    requalifier? source target (source.toList ++ '.' :: after) = some (target.toList ++ ['.'], after) := by
  have hdrop : (source.toList ++ '.' :: after).drop source.length = '.' :: after := by
    rw [← String.length_toList, List.drop_left]
  have hhead : after.head?.any isNameChar = true := by simpa [Option.any_eq_true] using h
  have hprefix : source.toList.isPrefixOf (source.toList ++ '.' :: after) = true :=
    List.isPrefixOf_iff_prefix.mpr (List.prefix_append _ _)
  rw [requalifier?, hprefix, hdrop]
  exact if_pos hhead

theorem exists_of_requalifier? {found : List Char × List Char} (h : requalifier? source target text = some found) :
    ∃ after, text = source.toList ++ '.' :: after ∧ ∃ c ∈ after.head?, isNameChar c = true := by
  unfold requalifier? at h
  split at h
  case h_2 => cases h
  case h_1 after hprefix hdrop =>
    split at h
    case isFalse => cases h
    case isTrue hhead =>
      obtain ⟨more, rfl⟩ := List.isPrefixOf_iff_prefix.mp hprefix
      rw [← String.length_toList, List.drop_left] at hdrop
      exact ⟨after, by rw [hdrop], by simpa [Option.any_eq_true] using hhead⟩

theorem isQualifier_iff (h : Pieces rest ps) : isQualifier ps = true ↔
    ∃ after, rest = '.' :: after ∧ ∃ c ∈ after.head?, isNameChar c = true := by
  constructor
  case mp =>
    intro hps
    unfold isQualifier at hps
    split at hps
    case h_2 => cases hps
    case h_1 =>
      cases eq_of_beq hps
      cases h
      case sign hps =>
        cases hps
        case word hne hrun _ _ => exact ⟨_, rfl, exists_head?_word hne hrun⟩
  case mpr =>
    rintro ⟨after, rfl, c, hc, hname⟩
    obtain ⟨rest, ps, hrest, rfl, hps⟩ := h.exists_sign rfl rfl rfl (by decide)
    cases hrest
    obtain ⟨run, _, _, _, rfl, _⟩ := hps.exists_word hc hname
    rfl

theorem renames_requalifier (hsource : ∀ c ∈ source.toList, isNameChar c = true) :
    Renames (requalifier? source target) (exchanged source target) := by
  intro run rest ps _ hrun hrest hps
  unfold exchanged
  split
  case isTrue h =>
    simp only [Bool.and_eq_true, beq_iff_eq, isQualifier_iff hps] at h
    obtain ⟨⟨after, rfl, hafter⟩, rfl⟩ := h
    refine .inr ⟨['.'], after, .inr rfl, rfl, ?_⟩
    rw [requalifier?_eq_some hafter]
    simp [Piece.text]
  case isFalse h =>
    refine .inl ⟨?_, rfl⟩
    rw [Option.eq_none_iff_forall_not_mem]
    intro found hfound
    obtain ⟨after, htext, hafter⟩ := exists_of_requalifier? hfound
    obtain ⟨rfl, rfl⟩ := word_unique hrun hrest hsource (nameEnds_cons rfl) htext
    refine h ?_
    rw [(isQualifier_iff hps).mpr ⟨after, rfl, hafter⟩, Bool.true_and, beq_self_eq_true]

theorem requalify_eq (hsource : ∀ c ∈ source.toList, isNameChar c = true) (h : Pieces text ps) :
    requalify text source target = Piece.texts (requalified source target false ps) := by
  rw [requalify_eq_replaceNames]
  exact replaceNames_eq (renames_requalifier hsource) h (.inl rfl)

-- The pieces of a text once names are qualified, unless the alias is a word that goes on with the name of a type.
theorem Pieces.qualified (ha : IsName a.toList) (hplain : a ∉ typeContinuations) (h : Pieces text ps) :
    Pieces (Piece.texts (qualified a t afterPoint ps)) (qualified a t afterPoint ps) := by
  induction h generalizing afterPoint
  case nil => exact .nil
  case quotation hmark hquotation hps ih => exact .quotation hmark (hquotation.before_qualified ha hmark hps) ih
  case sign hmark hname hcast hps ih => exact .sign hmark hname (fun h => hcast (prefix_qualified ha rfl hps h)) ih
  case cast htype hps ih =>
    exact .cast ((htype.before_qualified ha hps).resolve_right fun h => hplain h.1) ih
  case word run rest ps hne hrun hrest hps ih =>
    have hends : NameEnds (Piece.texts (qualified a t false ps)) := nameEnds_qualified hps hrest
    have hword := Pieces.word hne hrun hends ih
    have hpoint : Pieces ('.' :: (run ++ Piece.texts (qualified a t false ps)))
        (.sign '.' :: .word run :: qualified a t false ps) :=
      .sign rfl rfl (by rintro ⟨_, heq⟩; cases heq) hword
    rw [texts_qualified_word, qualified_word]
    split
    case isTrue => exact .word ha.ne_nil ha.2 (nameEnds_cons rfl) hpoint
    case isFalse => exact hword

-- Behind a point nothing is put before a word.
theorem isQualifier_qualified : isQualifier (qualified a t afterPoint ps) = isQualifier ps := by
  cases ps
  case nil => rfl
  case cons p ps =>
    cases p
    case word run =>
      rw [qualified_word]
      split <;> rfl
    case sign c =>
      have hsign : qualified a t afterPoint (.sign c :: ps) = .sign c :: qualified a t (c == '.') ps := rfl
      rw [hsign]
      cases ps
      case nil => rfl
      case cons p ps =>
        cases p
        case word run =>
          rw [qualified_word]
          split <;> rfl
        all_goals rfl
    all_goals rfl

theorem requalified_word : requalified source target afterPoint (.word run :: ps) =
    (if startsName run && !afterPoint then exchanged source target run ps else [.word run]) ++
      requalified source target false ps :=
  rfl

theorem requalified_qualified (hname : IsName source.toList) (h : ¬Qualifies source.toList afterPoint ps) :
    requalified source target afterPoint (qualified source t afterPoint ps) = qualified target t afterPoint ps := by
  induction ps generalizing afterPoint
  case nil => rfl
  case cons p ps ih =>
    have ih : requalified source target (p == .sign '.') (qualified source t (p == .sign '.') ps) =
      qualified target t (p == .sign '.') ps := ih fun hlater => h (.later hlater)
    cases p
    case quotation mark run => exact congrArg _ ih
    case cast type => exact congrArg _ ih
    case sign c =>
      have hpoint : (Piece.sign c == .sign '.') = (c == '.') := by simp [beq_eq_decide]
      rw [hpoint] at ih
      exact congrArg _ ih
    case word run =>
      have ih : requalified source target false (qualified source t false ps) = qualified target t false ps := ih
      rw [qualified_word, qualified_word]
      split
      case isTrue hbare =>
        obtain rfl : afterPoint = false := by
          simp only [Bool.and_eq_true, Bool.not_eq_true'] at hbare
          exact hbare.1.2
        have hexchanged : exchanged source target source.toList (.sign '.' :: .word run :: qualified source t false ps) =
          [.word target.toList] := if_pos (by rw [beq_self_eq_true]; rfl)
        have hcopied : requalified source target true (.word run :: qualified source t false ps) =
            .word run :: requalified source target false (qualified source t false ps) := by
          rw [requalified_word, Bool.not_true, Bool.and_false]
          rfl
        have hpoint : requalified source target false (.sign '.' :: .word run :: qualified source t false ps) =
          .sign '.' :: requalified source target true (.word run :: qualified source t false ps) := rfl
        rw [requalified_word, hname.1, Bool.not_false, Bool.and_true, if_pos rfl, hexchanged, hpoint, hcopied, ih]
        rfl
      case isFalse =>
        rw [requalified_word, ih]
        split
        case isTrue hstart =>
          obtain rfl : afterPoint = false := by
            simp only [Bool.and_eq_true, Bool.not_eq_true'] at hstart
            exact hstart.2
          have hkept : exchanged source target run (qualified source t false ps) = [.word run] := by
            refine if_neg fun hexchanged => ?_
            rw [isQualifier_qualified, Bool.and_eq_true, beq_iff_eq] at hexchanged
            obtain ⟨hqualifier, rfl⟩ := hexchanged
            exact h (.here hqualifier)
          rw [hkept]
          rfl
        case isFalse => rfl

theorem requalify_of_unqualified (hname : IsName t.name.toList) (hplain : t.name ∉ typeContinuations)
    (h : Unqualified t.name text) : requalify (qualify text t.name t) t.name a = qualify text a t := by
  have hps := pieces_pieces text
  have hqualified : Pieces _ (qualified t.name t false (pieces text)) := hps.qualified hname hplain
  rw [qualify_eq hps, qualify_eq hps, requalify_eq hname.2 hqualified, requalified_qualified hname (h _ hps)]

open Recovery

variable {s : Schema} {table : Nat} {o : Operation} {scans : List Operation}

-- No word in the conditions of a scan is qualified with the name.
def UnqualifiedIn (name : String) (o : Operation) : Prop :=
  ∀ text ∈ o.filter.toList ++ o.indexCondition.toList, ∀ part ∈ conjuncts text.toList, Unqualified name part

theorem scanConditions_eq : scanConditions s o table a = (o.filter.toList ++ o.indexCondition.toList).flatMap fun text =>
    (conjuncts text.toList).map fun part => String.ofList (qualify part a (s.table table)) := by
  simp [scanConditions, filterConjuncts]

theorem requalify_scanConditions (hname : IsName (s.table table).name.toList)
    (hplain : (s.table table).name ∉ typeContinuations) (h : UnqualifiedIn (s.table table).name o) :
    (scanConditions s o table (s.table table).name).map
      (fun condition => String.ofList (requalify condition.toList (s.table table).name a)) =
    scanConditions s o table a := by
  rw [scanConditions_eq, scanConditions_eq, List.map_flatMap, List.flatMap_def, List.flatMap_def]
  refine congrArg List.flatten (List.map_congr_left fun text htext => ?_)
  rw [List.map_map]
  refine List.map_congr_left fun part hpart => congrArg String.ofList ?_
  rw [String.toList_ofList, requalify_of_unqualified hname hplain (h text htext part hpart)]

theorem indexConditions_of_unqualified {index : String} (hindex : o.index = some index)
    (htable : s.tableOfIndex? index = some table) (hname : IsName (s.table table).name.toList)
    (hplain : (s.table table).name ∉ typeContinuations) (h : UnqualifiedIn (s.table table).name o) :
    indexConditions s table a o = .ok (scanConditions s o table a) := by
  have htarget : scanTarget s .bitmapIndexScan o = .ok (table, (s.table table).name) := by
    rw [scanTarget, hindex]
    simp [htable]
  refine Outcome.bind_eq_ok.mpr ⟨_, htarget, ?_⟩
  rw [← requalify_scanConditions hname hplain h]
  simp only [bne_self_eq_false]
  rfl

instance (name : String) (o : Operation) : Decidable (UnqualifiedIn name o) :=
  inferInstanceAs (Decidable (∀ _ ∈ _, _))

-- To qualify with the name of the table and to put the alias in its place is to qualify with the alias. So the heap scan
-- gets the conditions of the index scans below it just like its own.
theorem requalify_qualify (t : Table) (hname : IsName t.name.toList) (hplain : t.name ∉ typeContinuations) :
    (∀ text a, Unqualified t.name text → requalify (qualify text t.name t) t.name a = qualify text a t) ∧
    ∀ (s : Schema) (table : Nat) (a : String) (o : Operation) (scans : List Operation), s.table table = t →
      scanTarget s .bitmapHeapScan o = .ok (table, a) →
      (∀ scan ∈ scans, (∃ index, scan.index = some index ∧ s.tableOfIndex? index = some table) ∧
        UnqualifiedIn t.name scan) →
      heapTarget s o scans = .ok (table, a,
        scans.flatMap (fun scan => scanConditions s scan table a) ++ scanConditions s o table a) := by
  refine ⟨fun _ _ h => requalify_of_unqualified hname hplain h, ?_⟩
  rintro s table a o scans rfl htarget hscans
  have hconditions : scans.mapM (indexConditions s table a) = .ok (scans.map fun scan => scanConditions s scan table a) := by
    rw [Outcome.mapM_eq_ok, List.forall₂_map_right_iff, List.forall₂_same]
    intro scan hscan
    have ⟨⟨index, hindex, htable⟩, hunqualified⟩ := hscans scan hscan
    exact indexConditions_of_unqualified hindex htable hname hplain hunqualified
  refine Outcome.bind_eq_ok.mpr ⟨_, htarget, Outcome.bind_eq_ok.mpr ⟨_, hconditions, ?_⟩⟩
  rw [List.flatMap_def]
  rfl

def indexedFilms : Schema :=
  .ofTables "films" [{ films with indexes := ["film_id"] }] []

def filmHeapScan : Operation where
  name := "Bitmap Heap Scan"
  relation := some "film"
  aliasName := some "f"
  filter := some "(title ~~ 'film.id'::text)"

-- Names of columns are also the name of the table and a part of it, and this stands in quotations, types and behind points.
def filmIndexScan : Operation where
  name := "Bitmap Index Scan"
  index := some "film_id"
  indexCondition := some "((id > 3) AND (film = 'film.id'::film) AND (x.film.id = films.id))"

theorem requalify_qualify_filmIndexScan : IsName films.name.toList ∧ films.name ∉ typeContinuations ∧
    Unqualified "film" "film = 'film.id'::film AND film > 1film.id".toList ∧
    UnqualifiedIn "film" filmIndexScan ∧ scanTarget indexedFilms .bitmapHeapScan filmHeapScan = .ok (0, "f") ∧
    requalify (qualify "film = 'film.id'::film AND film > 1film.id".toList "film" films) "film" "f" =
      "f.film = 'film.id'::film AND f.film > 1film.id".toList ∧
    heapTarget indexedFilms filmHeapScan [filmIndexScan] = .ok (0, "f",
      ["(f.id > 3)", "(f.film = 'film.id'::film)", "(x.film.id = films.id)", "(f.title ~~ 'film.id'::text)"]) := by
  have hname : IsName films.name.toList := by decide
  have hplain : films.name ∉ typeContinuations := by decide
  have htext : Unqualified "film" "film = 'film.id'::film AND film > 1film.id".toList := by decide +kernel
  have hscan : UnqualifiedIn "film" filmIndexScan := by decide +kernel
  have htarget : scanTarget indexedFilms .bitmapHeapScan filmHeapScan = .ok (0, "f") := rfl
  have htable : indexedFilms.tableOfIndex? "film_id" = some 0 := by decide +kernel
  have hqualify := (requalify_qualify films hname hplain).1 _ "f" htext
  have hheap := (requalify_qualify (indexedFilms.table 0) hname hplain).2 indexedFilms 0 "f" filmHeapScan [filmIndexScan]
    rfl htarget (List.forall_mem_singleton.mpr ⟨⟨_, rfl, htable⟩, hscan⟩)
  refine ⟨hname, hplain, htext, hscan, htarget, hqualify.trans (by decide +kernel), hheap.trans ?_⟩
  refine congrArg (fun conditions => Except.ok (0, "f", conditions)) ?_
  decide +kernel

end Subplans.Condition
