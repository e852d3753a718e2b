import Mathlib.Data.List.Forall2
import Subplans.Proofs.Graph.WellFormed
import Subplans.Proofs.Injection.Faults
import Subplans.Proofs.Json
import Subplans.Proofs.Text

/-!
Logs of aliases are read as they are written.

`Tells line told` says what is written on a line, without the scan of the line: one alias, several, or nothing that
matters. From a log of such lines the nodes are found that have the aliases, in the order of the log, unless an alias is
not that of a node (`nodes_log`).
-/

namespace Subplans.OrderLog

open Outcome Text

variable {g : QueryGraph} {a : String} {n : Nat} {aliases : List String} {told : Option (List String)}
  {c first last : Char} {line indent ending mark written inner : List Char}

-- Letters, digits and underscores.
def IsIdentifier (a : String) : Prop :=
  ∀ c ∈ a.toList, isNameChar c = true

instance (a : String) : Decidable (IsIdentifier a) :=
  decidable_of_iff (a.toList.all isNameChar = true) List.all_eq_true

-- What may stand before a record on its line, and behind it.
structure Around (indent ending : List Char) : Prop where
  indent : ∀ c ∈ indent, isBlank c = true ∧ c ≠ '\n'
  ending : ending = [] ∨ ending = [',']

def marked (a : String) : List Char :=
  nameMark :: a.toList ++ [nameMark]

def bracketed (aliases : List String) : List Char :=
  '[' :: [',', ' '].intercalate (aliases.map marked) ++ [']']

def record (mark written : List Char) : List Char :=
  mark ++ ':' :: ' ' :: written

-- The aliases that are written on a line, if any are.
inductive Tells : (line : List Char) → Option (List String) → Prop
  | table {indent ending : List Char} {a : String} : Around indent ending → IsIdentifier a →
    Tells (indent ++ record tableMark (marked a) ++ ending) (some [a])
  | tables {indent ending : List Char} {aliases : List String} : Around indent ending →
    (∀ a ∈ aliases, IsIdentifier a) → Tells (indent ++ record tablesMark (bracketed aliases) ++ ending) (some aliases)
  | other {line : List Char} : '\n' ∉ line → ¬tableMark <+: trimStart line → ¬tablesMark <+: trimStart line →
    Tells line none

-- The alias is that of the node, and the node is a real one.
structure Names (g : QueryGraph) (a : String) (n : Nat) : Prop where
  contains  : g.contains n = true
  real      : g.isVirtual n = false
  aliasName : g.aliasName n = a

theorem plain_of_isNameChar (h : isNameChar c = true) : 0x20 ≤ c.toNat ∧ c.toNat ≠ 0x22 ∧ c.toNat ≠ 0x5C := by
  have hzero : '0'.toNat = 48 := rfl
  have hnine : '9'.toNat = 57 := rfl
  simp only [isNameChar, Char.isAlphanum, Bool.or_eq_true, isAlpha_iff_toNat, Char.isDigit_iff_toNat, beq_iff_eq] at h
  rcases h with h | rfl
  case inl => omega
  case inr => decide

theorem marked_eq (h : IsIdentifier a) : marked a = (Json.quoted a).toList := by
  have hescape : ∀ c ∈ a.toList, Json.escape c = [c] := by
    intro c hc
    have ⟨hcontrol, hmark, hslash⟩ := plain_of_isNameChar (h c hc)
    exact Json.escape_eq hcontrol hmark hslash
  rw [marked, Json.toList_quoted, List.flatMap_congr hescape, List.flatMap_singleton']
  rfl

theorem not_mem_marked (h : IsIdentifier a) (hname : isNameChar c = false) (hmark : c ≠ nameMark) : c ∉ marked a := by
  have hc : c ∉ a.toList := by
    intro hc
    rw [h c hc] at hname
    cases hname
  simp [marked, hc, hmark]

theorem not_mem_bracketed (h : ∀ a ∈ aliases, IsIdentifier a) (hname : isNameChar c = false) (hmark : c ≠ nameMark)
    (hsign : c ∉ ['[', ',', ' ', ']']) : c ∉ bracketed aliases := by
  have hbetween : c ∉ [',', ' '].intercalate (aliases.map marked) := by
    induction aliases
    case nil => simp
    case cons a aliases ih =>
      have ⟨ha, haliases⟩ := List.forall_mem_cons.mp h
      cases aliases
      case nil => simpa using not_mem_marked ha hname hmark
      case cons =>
        rw [List.map_cons, List.map_cons, List.intercalate_cons_cons, List.mem_append, List.mem_append, not_or, not_or]
        refine ⟨⟨not_mem_marked ha hname hmark, ?_⟩, ih haliases⟩
        simp_all
  simp_all [bracketed]

theorem bracketed_eq (h : ∀ a ∈ aliases, IsIdentifier a) : bracketed aliases = Json.bracketed aliases := by
  rw [bracketed, List.map_congr_left fun a ha => marked_eq (h a ha)]
  rfl

theorem dropEnd_of_last (h : ∀ d ∈ written.getLast?, d ≠ c) : dropEnd c written = written := by
  rw [← List.head?_reverse] at h
  have hkept : written.reverse.dropWhile (· == c) = written.reverse := by
    cases hlast : written.reverse
    case nil => rfl
    case cons d rest =>
      rw [hlast] at h
      rw [List.dropWhile_cons_of_neg]
      simpa using h d rfl
  rw [dropEnd, hkept, List.reverse_reverse]

theorem dropEnd_concat : dropEnd c (written ++ [c]) = dropEnd c written := by
  simp [dropEnd]

theorem value_record (hmark : ':' ∉ mark) (hcolon : ':' ∉ first :: inner ++ [last]) (hfirst : isBlank first = false)
    (hlast : isBlank last = false) (hcomma : last ≠ ',') (hending : ending = [] ∨ ending = [',']) :
    value (record mark (first :: inner ++ [last]) ++ ending) = first :: inner ++ [last] := by
  have hrest : ':' ∉ ' ' :: (first :: inner ++ [last] ++ ending) := by
    rcases hending with rfl | rfl <;> simp_all
  have hsplit : splitOn [':'] (record mark (first :: inner ++ [last]) ++ ending) =
      [mark, ' ' :: (first :: inner ++ [last] ++ ending)] := by
    rw [splitOn_eq, record, List.append_assoc, List.cons_append, List.cons_append,
      List.splitOn_append_cons_self_of_not_mem hmark, List.splitOn_eq_singleton hrest]
  have htrim : trim (' ' :: (first :: inner ++ [last] ++ ending)) = first :: inner ++ [last] ++ ending := by
    change trim (first :: inner ++ [last] ++ ending) = first :: inner ++ [last] ++ ending
    refine trim_of_ends ?_ ?_
    · rintro _ ⟨⟩
      exact hfirst
    · intro c hc
      rcases hending with rfl | rfl
      · rw [List.append_nil, List.getLast?_concat] at hc
        cases hc
        exact hlast
      · rw [List.getLast?_concat] at hc
        cases hc
        rfl
  have hdrop : dropEnd ',' (first :: inner ++ [last]) = first :: inner ++ [last] := by
    refine dropEnd_of_last fun d hd => ?_
    rw [List.getLast?_concat] at hd
    cases hd
    exact hcomma
  rw [value, hsplit]
  dsimp only
  rw [htrim]
  rcases hending with rfl | rfl
  case inl => rw [List.append_nil, hdrop]
  case inr => rw [dropEnd_concat, hdrop]

-- The marks of an alias are taken off.
theorem dropEnd_marked (h : IsIdentifier a) : dropEnd nameMark ((marked a).dropWhile (· == nameMark)) = a.toList := by
  have hne : ∀ c ∈ a.toList, c ≠ nameMark := by
    rintro _ hc rfl
    cases h _ hc
  have hdrop : (marked a).dropWhile (· == nameMark) = (a.toList ++ [nameMark]).dropWhile (· == nameMark) := rfl
  rw [hdrop]
  cases ha : a.toList
  case nil => rfl
  case cons c rest =>
    rw [ha] at hne
    rw [List.cons_append, List.dropWhile_cons_of_neg (by simpa using hne c List.mem_cons_self), ← List.cons_append,
      dropEnd_concat, dropEnd_of_last fun d hd => hne d (List.mem_of_getLast? hd)]

-- Without its indentation a line with a record starts with the mark of the record.
theorem trimStart_record (h : Around indent ending) (hmark : ∀ c ∈ mark.head?, isBlank c = false) :
    trimStart (indent ++ record mark written ++ ending) = record mark written ++ ending := by
  rw [List.append_assoc, trimStart, List.dropWhile_append_of_pos fun c hc => (h.indent c hc).1]
  refine trimStart_of_head ?_
  cases mark
  case nil =>
    rintro _ ⟨⟩
    rfl
  case cons => exact hmark

theorem isPrefixOf_record : mark.isPrefixOf (record mark written ++ ending) = true := by
  rw [record, List.append_assoc]
  exact List.isPrefixOf_iff_prefix.mpr (List.prefix_append _ _)

theorem value_marked (h : IsIdentifier a) (hmark : ':' ∉ mark) (hending : ending = [] ∨ ending = [',']) :
    value (record mark (marked a) ++ ending) = marked a :=
  value_record hmark (not_mem_marked h rfl (by decide)) rfl rfl (by decide) hending

theorem value_bracketed (h : ∀ a ∈ aliases, IsIdentifier a) (hmark : ':' ∉ mark) (hending : ending = [] ∨ ending = [',']) :
    value (record mark (bracketed aliases) ++ ending) = bracketed aliases :=
  value_record hmark (not_mem_bracketed h rfl (by decide) (by decide)) rfl rfl (by decide) hending

theorem read?_bracketed (h : ∀ a ∈ aliases, IsIdentifier a) :
    (Json.read? (String.ofList (bracketed aliases))).bind (Json.list? Json.string?) = some aliases := by
  rw [bracketed_eq h, Json.read?_bracketed]
  refine mapM_eq_some.mpr ?_
  rw [List.forall₂_map_left_iff, List.forall₂_same]
  exact fun _ _ => rfl

theorem lineNodes_of_tells (h : Tells line told) : lineNodes g line = told.mapM (List.mapM (node g)) := by
  cases h
  case table indent ending a haround ha =>
    have hline : trimStart (indent ++ record tableMark (marked a) ++ ending) = record tableMark (marked a) ++ ending :=
      trimStart_record haround (by rintro _ ⟨⟩; rfl)
    have hother : tablesMark.isPrefixOf (record tableMark (marked a) ++ ending) = false := rfl
    rw [lineNodes, hline]
    simp only [hother, isPrefixOf_record, value_marked ha (show ':' ∉ tableMark by decide) haround.ending,
      dropEnd_marked ha, String.ofList_toList]
    cases hnode : node g a <;> simp [hnode, List.mapM_cons] <;> rfl
  case tables indent ending aliases haround haliases =>
    have hline : trimStart (indent ++ record tablesMark (bracketed aliases) ++ ending) =
      record tablesMark (bracketed aliases) ++ ending := trimStart_record haround (by rintro _ ⟨⟩; rfl)
    rw [lineNodes, hline]
    simp only [isPrefixOf_record, value_bracketed haliases (show ':' ∉ tablesMark by decide) haround.ending,
      read?_bracketed haliases]
    rfl
  case other hend htable htables =>
    rw [← List.isPrefixOf_iff_prefix] at htable htables
    rw [lineNodes]
    simp [htable, htables]
    rfl

-- A record stands on one line.
theorem not_mem_record (haround : Around indent ending) (hmark : '\n' ∉ mark) (hwritten : '\n' ∉ written) :
    '\n' ∉ indent ++ record mark written ++ ending := by
  have hindent : '\n' ∉ indent := fun h => (haround.indent _ h).2 rfl
  have hending : '\n' ∉ ending := by rcases haround.ending with rfl | rfl <;> decide
  simp [record, hindent, hending, hmark, hwritten]

theorem Tells.not_mem (h : Tells line told) : '\n' ∉ line := by
  cases h
  case table haround ha => exact not_mem_record haround (by decide) (not_mem_marked ha rfl (by decide))
  case tables haround haliases =>
    exact not_mem_record haround (by decide) (not_mem_bracketed haliases rfl (by decide) (by decide))
  case other hend _ _ => exact hend

theorem realNode?_iff (hg : g.WellFormed) : g.realNode? a = some n ↔ Names g a n := by
  rw [QueryGraph.realNode?, Option.filter_eq_some_iff, hg.byAlias]
  simp only [Bool.not_eq_true']
  constructor
  case mp =>
    rintro ⟨⟨hcontains, halias⟩, hreal⟩
    exact ⟨hcontains, hreal, halias⟩
  case mpr =>
    rintro ⟨hcontains, hreal, halias⟩
    exact ⟨⟨hcontains, halias⟩, hreal⟩

theorem node_eq_ok (hg : g.WellFormed) : node g a = .ok n ↔ Names g a n := by
  rw [← realNode?_iff hg, node]
  cases g.realNode? a <;> simp

theorem node_eq_error_iff {e : InjectionError} (hg : g.WellFormed) :
    node g a = .error e ↔ (¬∃ n, Names g a n) ∧ e = .unknownAlias a := by
  simp only [← realNode?_iff hg, ← Option.isSome_iff_exists, Option.not_isSome_iff_eq_none]
  rw [node_eq_error, @eq_comm _ e]

-- A text with these lines.
def log (lines : List (List Char)) : String :=
  String.ofList (['\n'].intercalate lines)

theorem filterMap_lineNodes {lines : List (List Char)} {tolds : List (Option (List String))}
    (h : List.Forall₂ Tells lines tolds) : (lines.mapM (lineNodes g)).map (List.filterMap id) =
      (tolds.filterMap id).mapM (List.mapM (node g)) := by
  induction h
  case nil => rfl
  case cons line told lines tolds hline _ ih =>
    rw [List.mapM_cons, lineNodes_of_tells hline]
    cases told
    case none =>
      have hnone : (none :: tolds).filterMap id = tolds.filterMap id := rfl
      rw [hnone, ← ih]
      cases lines.mapM (lineNodes g) <;> rfl
    case some aliases =>
      have hsome : (some aliases :: tolds).filterMap id = aliases :: tolds.filterMap id := rfl
      have hmapM : (some aliases).mapM (List.mapM (node g)) = some <$> aliases.mapM (node g) := rfl
      rw [hsome, hmapM, List.mapM_cons, ← ih]
      cases aliases.mapM (node g)
      case error => rfl
      case ok => cases lines.mapM (lineNodes g) <;> rfl

theorem nodes_eq {lines : List (List Char)} {tolds : List (Option (List String))} (h : List.Forall₂ Tells lines tolds) :
    nodes g (log lines) = (tolds.filterMap id).mapM (List.mapM (node g)) := by
  have hnodes : nodes g (log lines) =
      ((splitOn ['\n'] (['\n'].intercalate lines)).mapM (lineNodes g)).map (List.filterMap id) := by
    rw [nodes, log, String.toList_ofList]
    cases (splitOn ['\n'] (['\n'].intercalate lines)).mapM (lineNodes g) <;> rfl
  rw [hnodes, splitOn_eq]
  cases h
  case nil => rfl
  case cons hline hlines =>
    have h := List.Forall₂.cons hline hlines
    have hends : ∀ line ∈ _, '\n' ∉ line := fun line hline =>
      have ⟨_, _, htells⟩ := exists_of_forall₂ h.flip line hline
      htells.not_mem
    rw [List.splitOn_intercalate _ hends (List.cons_ne_nil _ _), filterMap_lineNodes h]

-- The records tell of the nodes that have the aliases, in their order; or else of the first alias that no node has.
theorem nodes_log {lines : List (List Char)} {tolds : List (Option (List String))} (hg : g.WellFormed)
    (h : List.Forall₂ Tells lines tolds) :
    (∀ found, nodes g (log lines) = .ok found ↔ List.Forall₂ (List.Forall₂ (Names g)) (tolds.filterMap id) found) ∧
    ∀ e, nodes g (log lines) = .error e ↔ ∃ before a after, (tolds.filterMap id).flatten = before ++ a :: after ∧
      (∀ b ∈ before, ∃ n, Names g b n) ∧ (¬∃ n, Names g a n) ∧ e = .unknownAlias a := by
  rw [nodes_eq h]
  constructor
  case left =>
    intro found
    simp only [mapM_eq_ok, node_eq_ok hg]
  case right =>
    intro e
    rw [mapM_mapM_eq_error, mapM_eq_error]
    simp only [node_eq_ok hg, node_eq_error_iff hg]

-- Two real nodes, and one that only completes a chain of joins.
def orderGraph : QueryGraph :=
  let films : Occurrence := { table := 0, cardinality := 1, clauses := [], isVirtual := false }
  let companies : Occurrence := { table := 1, cardinality := 1, clauses := [], isVirtual := false }
  let links : Occurrence := { table := 2, cardinality := 1, clauses := [], isVirtual := true }
  (((QueryGraph.empty.add films "t").2.add companies "mc").2.add links "n1").2

def orderLines : List (List Char) :=
  ["\x7b", "\"table_aliases\": [\"mc\", \"t\"],", "  \"rows\": 5", "\t\"table_alias\": \"t\"", "\"table_aliases\": []",
    ""].map String.toList

def orderTold : List (Option (List String)) :=
  [none, some ["mc", "t"], none, some ["t"], some [], none]

theorem tells_orderLines : List.Forall₂ Tells orderLines orderTold := by
  have htables : "\"table_aliases\": [\"mc\", \"t\"],".toList =
    [] ++ record tablesMark (bracketed ["mc", "t"]) ++ [','] := by decide
  have htable : "\t\"table_alias\": \"t\"".toList = ['\t'] ++ record tableMark (marked "t") ++ [] := by decide
  have hnone : "\"table_aliases\": []".toList = [] ++ record tablesMark (bracketed []) ++ [] := by decide
  have hother : ∀ line ∈ ["\x7b", "  \"rows\": 5", ""].map String.toList, Tells line none := by
    have : ∀ line ∈ ["\x7b", "  \"rows\": 5", ""].map String.toList,
      '\n' ∉ line ∧ ¬tableMark <+: trimStart line ∧ ¬tablesMark <+: trimStart line := by decide +kernel
    intro line hline
    have ⟨hend, htable, htables⟩ := this line hline
    exact .other hend htable htables
  have htab : Around ['\t'] [] := ⟨List.forall_mem_singleton.mpr (by decide), .inl rfl⟩
  refine .cons (hother _ (by simp)) (.cons ?_ (.cons (hother _ (by simp)) (.cons ?_ (.cons ?_ ?_))))
  · exact htables ▸ .tables ⟨nofun, .inr rfl⟩ (by decide)
  · exact htable ▸ .table htab (by decide)
  · exact hnone ▸ .tables ⟨nofun, .inl rfl⟩ nofun
  · exact .cons (hother _ (by simp)) .nil

-- The alias of the virtual node is as good as unknown.
theorem nodes_log_orderLines : orderGraph.WellFormed ∧ List.Forall₂ Tells orderLines orderTold ∧
    nodes orderGraph (log orderLines) = .ok [[1, 0], [0], []] ∧
    nodes orderGraph (log (orderLines ++ ["\"table_alias\": \"n1\"".toList])) = .error (.unknownAlias "n1") := by
  have hg : orderGraph.WellFormed := ((QueryGraph.WellFormed.empty.add rfl).add rfl).add rfl
  have hvirtual : "\"table_alias\": \"n1\"".toList = [] ++ record tableMark (marked "n1") ++ [] := by decide
  have hmore : List.Forall₂ Tells (orderLines ++ ["\"table_alias\": \"n1\"".toList]) (orderTold ++ [some ["n1"]]) :=
    List.rel_append tells_orderLines (.cons (hvirtual ▸ .table ⟨nofun, .inl rfl⟩ (by decide)) .nil)
  have hmc : Names orderGraph "mc" 1 := ⟨rfl, rfl, rfl⟩
  have ht : Names orderGraph "t" 0 := ⟨rfl, rfl, rfl⟩
  have hnobody : ¬∃ n, Names orderGraph "n1" n := by
    rintro ⟨n, hn⟩
    cases (realNode?_iff hg).mpr hn
  refine ⟨hg, tells_orderLines, ((nodes_log hg tells_orderLines).1 _).mpr ?_, ((nodes_log hg hmore).2 _).mpr ?_⟩
  · exact .cons (.cons hmc (.cons ht .nil)) (.cons (.cons ht .nil) (.cons .nil .nil))
  · refine ⟨["mc", "t", "t"], "n1", [], rfl, ?_, hnobody, rfl⟩
    simpa using ⟨⟨1, hmc⟩, ⟨0, ht⟩⟩

end Subplans.OrderLog
