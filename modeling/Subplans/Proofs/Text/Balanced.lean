import Subplans.Proofs.Text

/-!
Texts whose quotations are closed and whose parentheses are matched.

Whatever stands in such a text, the scan for a closing parenthesis and that for separators pass over it as a whole
(`closing?_append`, `Balanced.passes`). So it is exactly the parenthesized texts with such an inside that are
enclosed by a single pair of parentheses (`isParenthesized_iff`), and parenthesized texts with separators between them
are split into these texts (`splitTopLevel_intercalate`).
-/

namespace Subplans.Text

-- Neither a mark nor a parenthesis.
def isPlain (c : Char) : Bool :=
  c != quoteMark && c != '(' && c != ')'

-- Quotations are closed, with the marks in them doubled, and parentheses outside of them are matched.
inductive Balanced : List Char → Prop
  | nil : Balanced []
  | plain {c : Char} {rest : List Char} : isPlain c = true → Balanced rest → Balanced (c :: rest)
  | quoted {x rest : List Char} : Balanced rest → Balanced (quoteMark :: double quoteMark x ++ quoteMark :: rest)
  | nested {inside rest : List Char} : Balanced inside → Balanced rest → Balanced ('(' :: inside ++ ')' :: rest)

-- A pair of parentheses around a balanced text.
def Parenthesized (text : List Char) : Prop :=
  ∃ inside, Balanced inside ∧ text = '(' :: inside ++ [')']

variable {c : Char} {x y text inside after rest sep : List Char} {texts : List (List Char)} {depth : Nat} {level : Int}
  {n m k : Nesting} {quoted : Bool}

theorem ne_of_isPlain (h : isPlain c = true) : c ≠ quoteMark ∧ c ≠ '(' ∧ c ≠ ')' := by
  simpa [isPlain, and_assoc] using h

theorem char_cases (c : Char) : c = quoteMark ∨ c = '(' ∨ c = ')' ∨ isPlain c = true := by
  simp only [isPlain, Bool.and_eq_true, bne_iff_ne]
  grind

namespace Balanced

theorem append (hx : Balanced x) (hy : Balanced y) : Balanced (x ++ y) := by
  induction hx
  case nil => exact hy
  case plain hc _ ih => exact .plain hc ih
  case quoted _ ih => simpa using Balanced.quoted ih
  case nested hinside _ _ ih => simpa using Balanced.nested hinside ih

theorem of_isPlain (h : x.all isPlain = true) : Balanced x := by
  induction x
  case nil => exact .nil
  case cons c x ih =>
    rw [List.all_cons, Bool.and_eq_true] at h
    exact .plain h.1 (ih h.2)

theorem intercalate (hsep : Balanced sep) (h : ∀ t ∈ texts, Balanced t) : Balanced (sep.intercalate texts) := by
  induction texts
  case nil => exact .nil
  case cons t ts ih =>
    have ih := ih fun u hu => h u (List.mem_cons_of_mem _ hu)
    cases ts
    case nil => simpa using h t List.mem_cons_self
    case cons u us =>
      rw [List.intercalate_cons_cons]
      exact ((h t List.mem_cons_self).append hsep).append ih

end Balanced

theorem Parenthesized.balanced (h : Parenthesized text) : Balanced text := by
  obtain ⟨inside, hinside, rfl⟩ := h
  exact .nested hinside .nil

theorem Parenthesized.ends (h : Parenthesized text) : ['('] <+: text ∧ [')'] <:+ text := by
  obtain ⟨inside, -, rfl⟩ := h
  exact ⟨List.prefix_append _ _, List.suffix_append _ _⟩

theorem ends_intercalate (hne : texts ≠ []) (h : ∀ t ∈ texts, Parenthesized t) :
    ['('] <+: sep.intercalate texts ∧ [')'] <:+ sep.intercalate texts := by
  induction texts
  case nil => contradiction
  case cons t ts ih =>
    have ht := (h t List.mem_cons_self).ends
    cases ts
    case nil => simpa using ht
    case cons u us =>
      have ih := ih (List.cons_ne_nil u us) fun v hv => h v (List.mem_cons_of_mem _ hv)
      rw [List.intercalate_cons_cons, List.append_assoc]
      exact ⟨ht.1.trans (List.prefix_append _ _), (ih.2.trans (List.suffix_append _ _)).trans (List.suffix_append _ _)⟩

theorem trim_of_parentheses (h : ['('] <+: text ∧ [')'] <:+ text) : trim text = text :=
  trim_of_prefix_suffix h.1 h.2 (by simp) (by simp) (by simp [isBlank])

theorem closing?_mark : closing? depth quoted (quoteMark :: rest) =
    (closing? depth (!quoted) rest).map fun (inside, after) => (quoteMark :: inside, after) := by
  simp [closing?]

theorem closing?_quoted (hmark : c ≠ quoteMark) : closing? depth true (c :: rest) =
    (closing? depth true rest).map fun (inside, after) => (c :: inside, after) := by
  simp [closing?, hmark]

theorem closing?_open : closing? depth false ('(' :: rest) =
    (closing? (depth + 1) false rest).map fun (inside, after) => ('(' :: inside, after) :=
  rfl

theorem closing?_close : closing? (depth + 1) false (')' :: rest) =
    (closing? depth false rest).map fun (inside, after) => (')' :: inside, after) :=
  rfl

theorem closing?_plain (hc : isPlain c = true) : closing? depth false (c :: rest) =
    (closing? depth false rest).map fun (inside, after) => (c :: inside, after) := by
  have ⟨hmark, hopen, hclose⟩ := ne_of_isPlain hc
  simp [closing?, hmark, hopen, hclose]

theorem closing?_double : closing? depth true (double quoteMark x ++ rest) =
    (closing? depth true rest).map fun (inside, after) => (double quoteMark x ++ inside, after) := by
  induction x
  case nil => simp [double]
  case cons c x ih =>
    rw [double_cons]
    by_cases hmark : c = quoteMark
    case pos => simp [hmark, closing?_mark, ih, Function.comp_def]
    case neg => simp [hmark, closing?_quoted hmark, ih, Function.comp_def]

theorem closing?_append (h : Balanced text) : closing? depth false (text ++ rest) =
    (closing? depth false rest).map fun (inside, after) => (text ++ inside, after) := by
  induction h generalizing depth rest
  case nil => simp
  case plain hc _ ih => simp [closing?_plain hc, ih, Function.comp_def]
  case quoted _ ih => simp [closing?_mark, closing?_double, ih, Function.comp_def]
  case nested hinside ih => simp [closing?_open, hinside, closing?_close, ih, Function.comp_def]

-- What stands before the last one of some parentheses, each of which closes one that was opened before.
inductive Closes : Nat → List Char → Prop
  | last {inside : List Char} : Balanced inside → Closes 0 inside
  | next {depth : Nat} {x inside : List Char} : Balanced x → Closes depth inside →
      Closes (depth + 1) (x ++ ')' :: inside)

theorem Closes.append (hx : Balanced x) (h : Closes depth inside) : Closes depth (x ++ inside) := by
  cases h
  case last h => exact .last (hx.append h)
  case next hy h =>
    rw [← List.append_assoc]
    exact .next (hx.append hy) h

theorem exists_of_map_cons {o : Option (List Char × List Char)}
    (h : (o.map fun (inside, after) => (c :: inside, after)) = some (inside, after)) :
    ∃ x, o = some (x, after) ∧ inside = c :: x := by
  obtain ⟨⟨x, a⟩, hx, he⟩ := Option.map_eq_some_iff.mp h
  obtain ⟨rfl, rfl⟩ := Prod.mk.inj he
  exact ⟨x, hx, rfl⟩

-- A quotation that is open is closed first.
theorem closes_of_closing? (h : closing? depth quoted text = some (inside, after)) :
    if quoted then ∃ x rest, quoteMark ∉ x ∧ inside = x ++ quoteMark :: rest ∧ Closes depth rest
    else Closes depth inside := by
  induction text generalizing depth quoted inside
  case nil => cases h
  case cons c text ih =>
    cases quoted
    case true =>
      by_cases hmark : c = quoteMark
      case pos =>
        rw [hmark, closing?_mark] at h
        obtain ⟨rest, hrest, rfl⟩ := exists_of_map_cons h
        exact ⟨[], rest, List.not_mem_nil, rfl, ih hrest⟩
      case neg =>
        rw [closing?_quoted hmark] at h
        obtain ⟨inside, hinside, rfl⟩ := exists_of_map_cons h
        obtain ⟨x, rest, hx, rfl, hrest⟩ := ih hinside
        exact ⟨c :: x, rest, by simp [Ne.symm hmark, hx], rfl, hrest⟩
    case false =>
      obtain rfl | rfl | rfl | hc := char_cases c
      · rw [closing?_mark] at h
        obtain ⟨inside, hinside, rfl⟩ := exists_of_map_cons h
        obtain ⟨x, rest, hx, rfl, hrest⟩ := ih hinside
        have hquoted : Balanced (quoteMark :: x ++ [quoteMark]) := by
          simpa [double_eq_self.mpr hx] using Balanced.quoted (x := x) .nil
        simpa using hrest.append hquoted
      · rw [closing?_open] at h
        obtain ⟨inside, hinside, rfl⟩ := exists_of_map_cons h
        -- What is opened here is closed by the first of the parentheses to come.
        cases ih hinside
        case next hx hrest => simpa using hrest.append (Balanced.nested hx .nil)
      · cases depth
        case zero =>
          obtain ⟨rfl, rfl⟩ := Prod.mk.inj (Option.some.inj h)
          exact .last .nil
        case succ depth =>
          rw [closing?_close] at h
          obtain ⟨inside, hinside, rfl⟩ := exists_of_map_cons h
          exact .next .nil (ih hinside)
      · rw [closing?_plain hc] at h
        obtain ⟨inside, hinside, rfl⟩ := exists_of_map_cons h
        exact Closes.append (.plain hc .nil) (ih hinside)

theorem enclosed?_of_balanced (h : Balanced inside) :
    enclosed? ('(' :: (inside ++ ')' :: rest)) = some (inside, rest) := by
  have hclose : closing? 0 false (')' :: rest) = some ([], rest) := rfl
  rw [enclosed?, closing?_append h, hclose]
  simp

theorem enclosed?_eq_iff : enclosed? text = some (inside, []) ↔ Balanced inside ∧ text = '(' :: inside ++ [')'] where
  mp h := by
    unfold enclosed? at h
    split at h
    case h_1 rest =>
      have hcloses : Closes 0 inside := closes_of_closing? h
      cases hcloses
      case last hinside => exact ⟨hinside, by rw [closing?_eq_some h, List.cons_append]⟩
    case h_2 => cases h
  mpr := by
    rintro ⟨hinside, rfl⟩
    exact enclosed?_of_balanced hinside

theorem parenthesized?_eq_some_iff : parenthesized? text = some inside ↔
    Balanced inside ∧ trim text = '(' :: inside ++ [')'] := by
  rw [← enclosed?_eq_iff, parenthesized?]
  split
  case h_1 i heq => simp [heq]
  case h_2 hnone =>
    simp only [reduceCtorEq, false_iff]
    exact fun heq => hnone _ heq

-- One pair of parentheses encloses exactly the texts with a balanced inside.
theorem isParenthesized_iff : isParenthesized text = true ↔ Parenthesized (trim text) := by
  simp only [isParenthesized, Option.isSome_iff_exists, parenthesized?_eq_some_iff, Parenthesized]

theorem stripParens_of_balanced (h : Balanced inside) : stripParens ('(' :: inside ++ [')']) = trim inside := by
  have htrim := trim_of_parentheses (Parenthesized.ends ⟨inside, h, rfl⟩)
  rw [stripParens, parenthesized?_eq_some_iff.mpr ⟨h, htrim⟩]

instance : Decidable (Parenthesized text) :=
  decidable_of_iff ((enclosed? text).any (·.2.isEmpty) = true) (by
    simp only [Parenthesized, ← enclosed?_eq_iff]
    simp [Option.any_eq_true])

theorem exists_splitTopFrom (sep : List Char) (n : Nesting) (skip : Nat) (text : List Char) :
    ∃ part parts, splitTopFrom sep n skip text = part :: parts := by
  apply List.exists_cons_of_ne_nil
  fun_induction splitTopFrom sep n skip text <;> simp_all

-- Nothing of the text is cut, and behind it the scan stands at `m`.
def Passes (sep : List Char) (n : Nesting) (text : List Char) (m : Nesting) : Prop :=
  ∀ rest, splitTopFrom sep n 0 (text ++ rest) = (splitTopFrom sep m 0 rest).modifyHead (text ++ ·)

namespace Passes

theorem nil : Passes sep n [] n := by
  intro rest
  cases h : splitTopFrom sep n 0 rest <;> simp [h]

theorem cons (hc : n.allowsCut c = false) (h : Passes sep (n.step c) text m) : Passes sep n (c :: text) m := by
  intro rest
  obtain ⟨part, parts, hparts⟩ := exists_splitTopFrom sep m 0 rest
  simp [splitTopFrom, hc, h rest, hparts]

theorem append (hx : Passes sep n x m) (hy : Passes sep m y k) : Passes sep n (x ++ y) k := by
  intro rest
  rw [List.append_assoc, hx, hy, List.modifyHead_modifyHead]
  simp [Function.comp_def]

theorem mark (h : Passes sep ⟨level, !quoted⟩ text m) : Passes sep ⟨level, quoted⟩ (quoteMark :: text) m :=
  cons (by simp [Nesting.allowsCut]) (by simpa [Nesting.step] using h)

-- Inside of a quotation.
theorem double : Passes sep ⟨level, true⟩ (double quoteMark x) ⟨level, true⟩ := by
  induction x
  case nil => exact nil
  case cons c x ih =>
    rw [double_cons]
    split
    case isTrue => exact mark (mark ih)
    case isFalse hmark =>
      have hstep : Nesting.step ⟨level, true⟩ c = ⟨level, true⟩ := by simp [Nesting.step, hmark]
      exact cons (by simp [Nesting.allowsCut, Nesting.outer]) (hstep.symm ▸ ih)

theorem nested (h : Passes sep ⟨level + 1, false⟩ inside ⟨level + 1, false⟩) :
    Passes sep ⟨level, false⟩ ('(' :: inside ++ [')']) ⟨level, false⟩ := by
  have hopen : Nesting.step ⟨level, false⟩ '(' = ⟨level + 1, false⟩ := by simp [Nesting.step, quoteMark]
  have hclose : Nesting.step ⟨level + 1, false⟩ ')' = ⟨level, false⟩ := by simp [Nesting.step, quoteMark]
  have hafter : Passes sep ⟨level + 1, false⟩ [')'] ⟨level, false⟩ :=
    cons (by simp [Nesting.allowsCut]) (hclose.symm ▸ nil)
  exact cons (by simp [Nesting.allowsCut]) (hopen.symm ▸ h.append hafter)

end Passes

theorem step_of_isPlain (h : isPlain c = true) : n.step c = n := by
  have ⟨hmark, hopen, hclose⟩ := ne_of_isPlain h
  simp [Nesting.step, hmark, hopen, hclose]

-- Between parentheses nothing is cut.
theorem Balanced.passes (h : Balanced text) (hlevel : 0 < level) :
    Passes sep ⟨level, false⟩ text ⟨level, false⟩ := by
  induction h generalizing level
  case nil => exact .nil
  case plain c _ hc _ ih =>
    have hcut : Nesting.allowsCut ⟨level, false⟩ c = false := by
      simp [Nesting.allowsCut, Nesting.outer, Int.ne_of_gt hlevel]
    exact .cons hcut ((step_of_isPlain hc).symm ▸ ih hlevel)
  case quoted _ ih => exact .append (.mark .double) (.mark (ih hlevel))
  case nested hinside ih =>
    rw [List.append_cons]
    exact .append (.nested (hinside (by omega))) (ih hlevel)

theorem Parenthesized.passes (h : Parenthesized text) : Passes sep .outer text .outer := by
  obtain ⟨inside, hinside, rfl⟩ := h
  exact .nested (hinside.passes (by decide))

theorem splitTopFrom_skip : splitTopFrom sep n x.length (x ++ rest) = splitTopFrom sep n 0 rest := by
  induction x
  case nil => rfl
  case cons c x ih => rw [List.length_cons, List.cons_append, splitTopFrom, ih]

theorem splitTopFrom_separator (hc : isPlain c = true) :
    splitTopFrom (c :: x) .outer 0 (c :: x ++ rest) = [] :: splitTopFrom (c :: x) .outer 0 rest := by
  have hcut : Nesting.allowsCut .outer c = true := by simpa [Nesting.allowsCut, and_assoc] using ne_of_isPlain hc
  simp [splitTopFrom, hcut, splitTopFrom_skip]

-- Texts in parentheses are split where they were joined.
theorem splitTopLevel_intercalate (hc : isPlain c = true) (hne : texts ≠ []) (h : ∀ t ∈ texts, Parenthesized t) :
    splitTopLevel (c :: x) ((c :: x).intercalate texts) = texts := by
  rw [splitTopLevel]
  induction texts
  case nil => contradiction
  case cons t ts ih =>
    have ht : Passes (c :: x) .outer t .outer := (h t List.mem_cons_self).passes
    cases ts
    case nil => simpa [splitTopFrom] using ht []
    case cons u us =>
      have ih := ih (List.cons_ne_nil u us) fun v hv => h v (List.mem_cons_of_mem _ hv)
      rw [List.intercalate_cons_cons, List.append_assoc, ht, splitTopFrom_separator hc, ih]
      simp

end Subplans.Text
