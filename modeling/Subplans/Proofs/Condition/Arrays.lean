import Subplans.Proofs.Condition.Tokens
import Subplans.Proofs.Outcome
import Subplans.Proofs.Text.Balanced

/-!
Arrays of texts, as they are printed and as they are read.

An array is printed with braces around its elements and commas between them, and with double marks around elements that
could be taken for something else (`printedElement`). The elements are read back (`elements?_printed`), but a literal
that holds the array has its quotation marks doubled, and nothing reads these as one again. So what a list in a
condition is read as are the texts with doubled marks (`listValues?_printed`).
-/

namespace Subplans

open Text

variable {c : Char} {x rest text : List Char} {xs : List (List Char)}

namespace Scope

-- What an element must not hold if no marks are around it.
def isSpecial (c : Char) : Bool :=
  c == ',' || c == '\x7b' || c == '\x7d' || c == nameMark || c == '\\' || (0x09 ≤ c.toNat && c.toNat ≤ 0x0D) || c == ' '

-- The element needs no marks around it. NULL without marks would be no text.
def isBare (x : List Char) : Bool :=
  !x.isEmpty && !x.any isSpecial && !equalsIgnoringCase (String.ofList x) "NULL"

def escape (x : List Char) : List Char :=
  x.flatMap fun c => if c == nameMark || c == '\\' then ['\\', c] else [c]

def printedElement (x : List Char) : List Char :=
  if isBare x then x else nameMark :: escape x ++ [nameMark]

-- The elements with commas between them.
def printedElements (xs : List (List Char)) : List Char :=
  [','].intercalate (xs.map printedElement)

-- The literal of an array, cast to its type.
def printedArray (xs : List (List Char)) : String :=
  Value.quoted (String.ofList ('\x7b' :: printedElements xs ++ ['\x7d'])) ++ "::text[]"

-- The array has one element and nothing but white space beyond ASCII in it, which stands there without marks.
def isLost (xs : List (List Char)) : Bool :=
  match xs with
  | [x] => isBare x && x.all isBlank
  | _ => false

theorem printedElements_cons {y : List Char} :
    printedElements (x :: y :: xs) = printedElement x ++ ',' :: printedElements (y :: xs) := by
  simp [printedElements, List.intercalate_cons_cons]

theorem quotedElement?_escape : quotedElement? (escape x ++ nameMark :: rest) = some (x, rest) := by
  induction x
  case nil => rfl
  case cons c x ih =>
    have hcons : escape (c :: x) = (if c == nameMark || c == '\\' then ['\\', c] else [c]) ++ escape x :=
      List.flatMap_cons
    rw [hcons]
    cases hc : c == nameMark || c == '\\'
    case true => simp [quotedElement?, ih]
    case false =>
      rw [Bool.or_eq_false_iff, beq_eq_false_iff_ne, beq_eq_false_iff_ne] at hc
      simp [quotedElement?, hc.1, hc.2, ih]

theorem isBare_iff : isBare x = true ↔
    x ≠ [] ∧ (∀ c ∈ x, isSpecial c = false) ∧ equalsIgnoringCase (String.ofList x) "NULL" = false := by
  simp [isBare, and_assoc]

theorem element?_printed (x : List Char) (hrest : ∀ c ∈ rest.head?, c = ',') :
    element? (printedElement x ++ rest) = some (x, rest) := by
  rw [printedElement]
  by_cases hbare : isBare x = true
  case pos =>
    have ⟨hne, hplain, _⟩ := isBare_iff.mp hbare
    obtain ⟨c, y, rfl⟩ := List.exists_cons_of_ne_nil hne
    have hmark : (c == nameMark) = false := Condition.ne_of_holds (p := fun c => !isSpecial c)
      (by simp [hplain c List.mem_cons_self]) (by decide)
    have hcomma : ∀ d ∈ c :: y, (d != ',') = true := by
      intro d hd
      rw [bne_iff_ne]
      rintro rfl
      exact absurd (hplain _ hd) (by decide)
    have hends : ∀ d ∈ rest.head?, (d != ',') = false := fun d hd => by simp [hrest d hd]
    have ⟨htake, hdrop⟩ := Condition.takeWhile_of_ends hcomma hends
    rw [if_pos hbare, List.cons_append, element?, hmark, ← List.cons_append, htake, hdrop]
    rfl
  case neg =>
    rw [if_neg hbare, List.append_assoc, List.cons_append]
    exact quotedElement?_escape

theorem elements?_printed (hne : xs ≠ []) : elements? (printedElements xs) = some xs := by
  obtain ⟨x, xs, rfl⟩ := List.exists_cons_of_ne_nil hne
  clear hne
  induction xs generalizing x
  case nil =>
    have hread : element? (printedElement x ++ []) = some (x, []) := element?_printed x nofun
    rw [List.append_nil] at hread
    have hsingle : printedElements [x] = printedElement x := by simp [printedElements]
    rw [hsingle, elements?, hread]
  case cons y xs ih =>
    have hread : element? (printedElement x ++ ',' :: printedElements (y :: xs)) =
        some (x, ',' :: printedElements (y :: xs)) := element?_printed x (by simp)
    have hlt : (printedElements (y :: xs)).length <
        (printedElement x ++ ',' :: printedElements (y :: xs)).length := by
      simp only [List.length_append, List.length_cons]
      omega
    rw [printedElements_cons, elements?, hread]
    simp only [beq_self_eq_true, if_true, dif_pos hlt, ih, Option.map_some]

theorem trim_eq_nil : trim text = [] ↔ ∀ c ∈ text, isBlank c = true := by
  constructor
  case mp =>
    intro h
    have hstart : ∀ c ∈ trimStart text, isBlank c = true := by
      simpa [trim, trimEnd, List.dropWhile_eq_nil_iff] using h
    have hnil : trimStart text = [] := by
      by_contra hne
      have hhead : isBlank ((trimStart text).head hne) = false := List.head_dropWhile_not isBlank hne
      rw [hstart _ (List.head_mem hne)] at hhead
      cases hhead
    exact List.dropWhile_eq_nil_iff.mp hnil
  case mpr =>
    intro h
    rw [trim, trimStart, List.dropWhile_eq_nil_iff.mpr h]
    rfl

-- A mark or a comma is no white space.
theorem blank_printed (hne : xs ≠ []) : (trim (printedElements xs)).isEmpty = isLost xs := by
  have hseen : ∀ {text c}, c ∈ text → isBlank c = false → (trim text).isEmpty = false := by
    intro text c hc hblank
    rw [List.isEmpty_eq_false_iff, ne_eq, trim_eq_nil]
    intro hall
    rw [hall c hc] at hblank
    cases hblank
  unfold isLost
  split
  case h_1 x =>
    have hsingle : printedElements [x] = printedElement x := by simp [printedElements]
    rw [hsingle, printedElement]
    cases hbare : isBare x
    case true =>
      rw [if_pos rfl, Bool.true_and, Bool.eq_iff_iff, List.isEmpty_iff, trim_eq_nil, List.all_eq_true]
    case false => exact hseen List.mem_cons_self (by decide)
  case h_2 hmany =>
    cases xs
    case nil => contradiction
    case cons x xs =>
      cases xs
      case nil => exact absurd rfl (hmany x)
      case cons y xs =>
        rw [printedElements_cons]
        exact hseen (List.mem_append_right _ List.mem_cons_self) (by decide : isBlank ',' = false)

theorem arrayElements?_printed (hne : xs ≠ []) :
    arrayElements? (printedElements xs) = some (if isLost xs then [] else xs) := by
  rw [arrayElements?, blank_printed hne, elements?_printed hne]
  cases isLost xs <;> rfl

-- No character is both doubled and escaped.
theorem escape_double : escape (double quoteMark x) = double quoteMark (escape x) := by
  rw [escape, double, escape, double, List.flatMap_assoc, List.flatMap_assoc]
  refine congrArg (fun f => x.flatMap f) (funext fun c => ?_)
  by_cases hspecial : c = quoteMark ∨ c = nameMark ∨ c = '\\'
  case pos => rcases hspecial with rfl | rfl | rfl <;> rfl
  case neg =>
    simp only [not_or] at hspecial
    simp [hspecial]

theorem any_double {p : Char → Bool} : (double quoteMark x).any p = x.any p := by
  induction x
  case nil => rfl
  case cons c x ih =>
    rw [double_cons, List.any_append, ih, List.any_cons]
    by_cases hmark : c = quoteMark
    case pos => simp [hmark]
    case neg => simp [hmark]

theorem isBare_double : isBare (double quoteMark x) = isBare x := by
  have hempty : (double quoteMark x).isEmpty = x.isEmpty := by
    cases x
    case nil => rfl
    case cons c x =>
      rw [double_cons]
      split <;> rfl
  have hnull : equalsIgnoringCase (String.ofList (double quoteMark x)) "NULL" =
      equalsIgnoringCase (String.ofList x) "NULL" := by
    by_cases hmark : quoteMark ∈ x
    case neg => rw [double_eq_self.mpr hmark]
    case pos =>
      have hother : ∀ y : List Char, quoteMark ∈ y → equalsIgnoringCase (String.ofList y) "NULL" = false := by
        intro y hy
        rw [equalsIgnoringCase, beq_eq_false_iff_ne, String.toList_ofList]
        intro heq
        have hmem : quoteMark ∈ y.map Char.toLower := List.mem_map.mpr ⟨quoteMark, hy, rfl⟩
        rw [heq] at hmem
        revert hmem
        decide
      have hdouble : quoteMark ∈ double quoteMark x := List.mem_flatMap.mpr ⟨quoteMark, hmark, by simp⟩
      rw [hother x hmark, hother _ hdouble]
  rw [isBare, isBare, hempty, any_double, hnull]

theorem printedElement_double : printedElement (double quoteMark x) = double quoteMark (printedElement x) := by
  have hmarks : ∀ y, double quoteMark (nameMark :: y ++ [nameMark]) = nameMark :: double quoteMark y ++ [nameMark] := by
    intro y
    rw [double_append, double_cons]
    rfl
  rw [printedElement, printedElement, isBare_double, escape_double, ← hmarks]
  cases isBare x <;> rfl

theorem printedElements_double :
    printedElements (xs.map (double quoteMark)) = double quoteMark (printedElements xs) := by
  cases xs
  case nil => rfl
  case cons x xs =>
    induction xs generalizing x
    case nil => simp [printedElements, printedElement_double]
    case cons y xs ih =>
      have hcomma : ∀ z, double quoteMark (',' :: z) = ',' :: double quoteMark z := fun z => double_cons
      rw [printedElements_cons, double_append, hcomma, ← ih, ← printedElement_double]
      exact printedElements_cons

theorem isLost_double : isLost (xs.map (double quoteMark)) = isLost xs := by
  have hblank : ∀ x, (double quoteMark x).all isBlank = x.all isBlank := by
    intro x
    rw [List.all_eq_not_any_not, List.all_eq_not_any_not, any_double]
  unfold isLost
  cases xs
  case nil => rfl
  case cons x xs =>
    cases xs
    case cons => rfl
    case nil =>
      change (isBare (double quoteMark x) && (double quoteMark x).all isBlank) = (isBare x && x.all isBlank)
      rw [isBare_double, hblank]

theorem toList_printedArray : (printedArray xs).toList =
    quoteMark :: (double quoteMark ('\x7b' :: printedElements xs ++ ['\x7d']) ++ quoteMark :: "::text[]".toList) := by
  simp [printedArray, Value.quoted]

theorem double_braces {body : List Char} :
    double quoteMark ('\x7b' :: body ++ ['\x7d']) = '\x7b' :: double quoteMark body ++ ['\x7d'] := by
  rw [double_append, double_cons]
  rfl

theorem arrayBody?_literal {body : List Char} :
    arrayBody? (quoteMark :: '\x7b' :: body ++ ['\x7d', quoteMark]) = some body := by
  have hlast : (body ++ ['\x7d', quoteMark]).getLast? = some quoteMark := by simp
  have hdrop : (body ++ ['\x7d', quoteMark]).dropLast = body ++ ['\x7d'] := by simp
  rw [List.cons_append, List.cons_append, arrayBody?, hlast, hdrop]
  simp

theorem trim_literal {body : List Char} :
    trim (quoteMark :: '\x7b' :: body ++ ['\x7d', quoteMark]) = quoteMark :: '\x7b' :: body ++ ['\x7d', quoteMark] := by
  have hfirst : [quoteMark] <+: quoteMark :: '\x7b' :: body ++ ['\x7d', quoteMark] := ⟨_, rfl⟩
  have hlast : [quoteMark] <:+ quoteMark :: '\x7b' :: body ++ ['\x7d', quoteMark] :=
    ⟨quoteMark :: '\x7b' :: body ++ ['\x7d'], by simp⟩
  exact trim_of_prefix_suffix hfirst hlast (by simp) (by simp) (by simp [quoteMark, isBlank])

theorem cutLast?_cast : cutLast? "::".toList (text ++ "::text[]".toList) = some (text, "text[]".toList) := by
  have hcut : cut? "::".toList.reverse ("::text[]".toList.reverse ++ text.reverse) =
      some ("text[]".toList.reverse, text.reverse) := rfl
  rw [cutLast?, List.reverse_append, hcut]
  simp

theorem listValues?_printed {s : Scope} {column : ColumnRef} (htype : s.schema.dataType column = .text)
    (hne : xs ≠ []) : s.listValues? column (printedArray xs) =
      some (if isLost xs then [] else xs.map fun x => .text (String.ofList (double quoteMark x))) := by
  have hlist : (printedArray xs).toList =
      (quoteMark :: '\x7b' :: printedElements (xs.map (double quoteMark)) ++ ['\x7d', quoteMark]) ++
        "::text[]".toList := by
    rw [toList_printedArray, double_braces, printedElements_double]
    simp
  have helements : arrayElements? (printedElements (xs.map (double quoteMark))) =
      some (if isLost xs then [] else xs.map (double quoteMark)) := by
    rw [arrayElements?_printed (by simpa using hne), isLost_double]
  have hcast : plainArrayCasts.contains (String.ofList (trim "text[]".toList)) = true := by decide
  have hvalues : ∀ ys : List (List Char),
      ys.mapM (DataType.value? .text) = some (ys.map fun y => .text (String.ofList y)) := by
    intro ys
    rw [Outcome.mapM_eq_some, List.forall₂_map_right_iff, List.forall₂_same]
    exact fun _ _ => rfl
  unfold listValues?
  rw [hlist, cutLast?_cast, htype]
  simp only [trim_literal, arrayBody?_literal, Option.bind_eq_bind, Option.bind_some, helements, hcast, if_true,
    hvalues]
  cases isLost xs <;> simp

-- The marks of the literal are paired, so that no parenthesis in it counts.
theorem enclosed?_printed : enclosed? ('(' :: ((printedArray xs).toList ++ ')' :: rest)) =
    some ((printedArray xs).toList, rest) := by
  apply enclosed?_of_balanced
  have hcast : Balanced "::text[]".toList := .of_isPlain rfl
  rw [toList_printedArray]
  exact .quoted hcast

end Scope

end Subplans
