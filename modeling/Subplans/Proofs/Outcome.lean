import Mathlib.Data.List.Forall2

/-!
Steps that can fail, seen from a run that did not.
-/

namespace Subplans.Outcome

variable {α β ε : Type}

-- A run that has an answer got one from its first step.
theorem bind_eq_ok {x : Except ε α} {f : α → Except ε β} {b : β} :
    x >>= f = .ok b ↔ ∃ a, x = .ok a ∧ f a = .ok b where
  mp h := by
    cases x
    case error => cases h
    case ok a => exact ⟨a, rfl, h⟩
  mpr := by
    rintro ⟨a, rfl, h⟩
    exact h

-- A run that fails does so in its first step or after it.
theorem bind_eq_error {x : Except ε α} {f : α → Except ε β} {e : ε} :
    x >>= f = .error e ↔ x = .error e ∨ ∃ a, x = .ok a ∧ f a = .error e where
  mp h := by
    cases x
    case error e' =>
      cases h
      exact .inl rfl
    case ok a => exact .inr ⟨a, rfl, h⟩
  mpr := by
    rintro (rfl | ⟨a, rfl, h⟩)
    case inl => rfl
    case inr => exact h

theorem pure_eq_ok {a b : α} : (pure a : Except ε α) = .ok b ↔ a = b where
  mp h := by cases h; rfl
  mpr h := h ▸ rfl

-- All of the steps together fail where one of them does after those before it have succeeded.
theorem mapM_eq_error {f : α → Except ε β} {xs : List α} {e : ε} : xs.mapM f = .error e ↔
    ∃ before x after, xs = before ++ x :: after ∧ (∀ z ∈ before, ∃ b, f z = .ok b) ∧ f x = .error e := by
  constructor
  case mp =>
    intro h
    induction xs
    case nil => cases h
    case cons x xs ih =>
      rw [List.mapM_cons] at h
      rcases bind_eq_error.mp h with h | ⟨y, hy, h⟩
      case inl => exact ⟨[], x, xs, rfl, nofun, h⟩
      case inr =>
        rcases bind_eq_error.mp h with h | ⟨_, _, h⟩
        case inl =>
          obtain ⟨before, z, after, rfl, hbefore, hz⟩ := ih h
          exact ⟨x :: before, z, after, rfl, List.forall_mem_cons.mpr ⟨⟨y, hy⟩, hbefore⟩, hz⟩
        case inr => cases h
  case mpr =>
    rintro ⟨before, x, after, rfl, hbefore, hx⟩
    induction before
    case nil =>
      rw [List.nil_append, List.mapM_cons]
      exact bind_eq_error.mpr (.inl hx)
    case cons z before ih =>
      have ⟨⟨b, hz⟩, hbefore⟩ := List.forall_mem_cons.mp hbefore
      rw [List.cons_append, List.mapM_cons]
      exact bind_eq_error.mpr (.inr ⟨b, hz, bind_eq_error.mpr (.inl (ih hbefore))⟩)

theorem mapM_error {f : α → Except ε β} {xs : List α} {e : ε} (h : xs.mapM f = .error e) :
    ∃ x ∈ xs, f x = .error e := by
  obtain ⟨before, x, after, rfl, -, hx⟩ := mapM_eq_error.mp h
  exact ⟨x, by simp, hx⟩

-- What a run has answered for some elements it has answered for one of them.
theorem exists_of_forall₂ {R : α → β → Prop} {xs : List α} {ys : List β} (h : List.Forall₂ R xs ys) :
    ∀ y ∈ ys, ∃ x ∈ xs, R x y := by
  induction h
  case nil => exact nofun
  case cons x _ _ _ hxy _ ih =>
    intro z hz
    cases hz
    case head => exact ⟨x, List.mem_cons_self, hxy⟩
    case tail hz =>
      have ⟨x', hx', hR⟩ := ih z hz
      exact ⟨x', List.mem_cons_of_mem _ hx', hR⟩

theorem exists_forall₂ {R : α → β → Prop} {xs : List α} (h : ∀ x ∈ xs, ∃ y, R x y) : ∃ ys, List.Forall₂ R xs ys := by
  induction xs
  case nil => exact ⟨[], .nil⟩
  case cons x xs ih =>
    have ⟨y, hy⟩ := h x List.mem_cons_self
    have ⟨ys, hys⟩ := ih fun z hz => h z (List.mem_cons_of_mem x hz)
    exact ⟨y :: ys, .cons hy hys⟩

-- The elements of a list and their answers.
theorem mapM_eq_ok {f : α → Except ε β} {xs : List α} {ys : List β} :
    xs.mapM f = .ok ys ↔ List.Forall₂ (fun x y => f x = .ok y) xs ys := by
  induction xs generalizing ys
  case nil =>
    rw [List.forall₂_nil_left_iff]
    exact pure_eq_ok.trans eq_comm
  case cons x xs ih =>
    rw [List.mapM_cons, bind_eq_ok, List.forall₂_cons_left_iff]
    constructor
    · rintro ⟨y, hy, h⟩
      have ⟨rest, hrest, h⟩ := bind_eq_ok.mp h
      exact ⟨y, rest, hy, ih.mp hrest, (pure_eq_ok.mp h).symm⟩
    · rintro ⟨y, rest, hy, hrest, rfl⟩
      exact ⟨y, hy, bind_eq_ok.mpr ⟨rest, ih.mpr hrest, rfl⟩⟩

-- Every answer of the whole is the answer for some element.
theorem exists_of_mapM_eq_ok {f : α → Except ε β} {xs : List α} {ys : List β} (h : xs.mapM f = .ok ys) :
    ∀ y ∈ ys, ∃ x ∈ xs, f x = .ok y :=
  exists_of_forall₂ (mapM_eq_ok.mp h)

theorem mapM_flatten {f : α → Except ε β} {xss : List (List α)} :
    xss.flatten.mapM f = (xss.mapM (List.mapM f)).map List.flatten := by
  induction xss
  case nil => rfl
  case cons xs xss ih =>
    rw [List.mapM_cons, List.flatten_cons, List.mapM_append, ih]
    cases xs.mapM f
    case error => rfl
    case ok => cases xss.mapM (List.mapM f) <;> rfl

-- Lists of steps fail where the steps of all of them fail.
theorem mapM_mapM_eq_error {f : α → Except ε β} {xss : List (List α)} {e : ε} :
    xss.mapM (List.mapM f) = .error e ↔ xss.flatten.mapM f = .error e := by
  rw [mapM_flatten]
  cases xss.mapM (List.mapM f) <;> simp [Except.map]

-- What every step preserves holds in the end.
theorem foldlM_ok {P : β → Prop} {f : β → α → Except ε β} {xs : List α} {b b' : β}
    (hstep : ∀ x ∈ xs, ∀ b b', P b → f b x = .ok b' → P b') (hb : P b) (h : xs.foldlM f b = .ok b') : P b' := by
  induction xs generalizing b
  case nil =>
    cases pure_eq_ok.mp h
    exact hb
  case cons x xs ih =>
    have ⟨next, hnext, h⟩ := bind_eq_ok.mp h
    have hP : P next := hstep x List.mem_cons_self b next hb hnext
    exact ih (fun y hy => hstep y (List.mem_cons_of_mem x hy)) hP h

-- No step fails where an invariant holds that every step preserves.
theorem foldlM_eq_ok {P : β → Prop} {f : β → α → Except ε β} {step : β → α → β} {xs : List α} {b : β}
    (hstep : ∀ x ∈ xs, ∀ b, P b → f b x = .ok (step b x) ∧ P (step b x)) (hb : P b) :
    xs.foldlM f b = .ok (xs.foldl step b) := by
  induction xs generalizing b
  case nil => rfl
  case cons x xs ih =>
    obtain ⟨hok, hnext⟩ := hstep x List.mem_cons_self b hb
    rw [List.foldlM_cons, hok]
    exact ih (fun y hy => hstep y (List.mem_cons_of_mem x hy)) hnext

-- Where the steps of one run are answered like those of another, so are all of them.
theorem foldlM_simulates {α' β' : Type} {f : β → α → Except ε β} {f' : β' → α' → Except ε β'} {R : α → α' → Prop}
    {S : β → β' → Prop}
    (hstep : ∀ {x x' b b' c}, R x x' → S b b' → f b x = .ok c → ∃ c', f' b' x' = .ok c' ∧ S c c')
    {xs : List α} {xs' : List α'} (hxs : List.Forall₂ R xs xs') {b c : β} {b' : β'} (hb : S b b')
    (h : xs.foldlM f b = .ok c) : ∃ c', xs'.foldlM f' b' = .ok c' ∧ S c c' := by
  induction hxs generalizing b b'
  case nil =>
    cases pure_eq_ok.mp h
    exact ⟨b', rfl, hb⟩
  case cons hx _ ih =>
    have ⟨next, hnext, h⟩ := bind_eq_ok.mp h
    have ⟨next', hnext', hS⟩ := hstep hx hb hnext
    have ⟨c', hc', hS⟩ := ih hS h
    exact ⟨c', bind_eq_ok.mpr ⟨next', hnext', hc'⟩, hS⟩

-- A map of the states along which the steps of one run become those of another is one of the whole runs.
theorem foldlM_map {f : β → α → Except ε β} {φ : β → β} (hφ : ∀ b x, f (φ b) x = (f b x).map φ) (xs : List α) (b : β) :
    xs.foldlM f (φ b) = (xs.foldlM f b).map φ := by
  induction xs generalizing b
  case nil => rfl
  case cons x xs ih =>
    rw [List.foldlM_cons, List.foldlM_cons, hφ]
    cases f b x
    case error => rfl
    case ok next => exact ih next

theorem foldlM_error {f : β → α → Except ε β} {xs : List α} {b : β} {e : ε} (h : xs.foldlM f b = .error e) :
    ∃ x ∈ xs, ∃ b, f b x = .error e := by
  induction xs generalizing b
  case nil => cases h
  case cons x xs ih =>
    rcases bind_eq_error.mp h with h | ⟨next, _, h⟩
    case inl => exact ⟨x, List.mem_cons_self, b, h⟩
    case inr =>
      have ⟨y, hy, hfails⟩ := ih h
      exact ⟨y, List.mem_cons_of_mem x hy, hfails⟩

-- The elements of a list and their answers.
theorem mapM_eq_some {f : α → Option β} {xs : List α} {ys : List β} :
    xs.mapM f = some ys ↔ List.Forall₂ (fun x y => f x = some y) xs ys := by
  induction xs generalizing ys
  case nil => simp [eq_comm]
  case cons x xs ih =>
    cases ys <;> simp [List.mapM_cons, Option.bind_eq_some_iff, ← ih]

section Pure

variable {x : ExceptT ε Id α} {f : α → ExceptT ε Id β} {a b : α} {c : β} {e : ε}

theorem pure_inj : (pure a : ExceptT ε Id α) = pure b ↔ a = b where
  mp h := by
    have h : Except.ok (ε := ε) a = Except.ok b := h
    cases h
    rfl
  mpr h := h ▸ rfl

theorem bind_eq_pure : x >>= f = pure c ↔ ∃ a, x = pure a ∧ f a = pure c where
  mp h := by
    cases hx : x.run
    case error e =>
      have hx : x = throw e := hx
      rw [hx] at h
      cases h
    case ok a =>
      have hx : x = pure a := hx
      rw [hx] at h
      exact ⟨a, hx, h⟩
  mpr := by
    rintro ⟨a, rfl, h⟩
    exact h

theorem map_eq_pure {f : α → β} {b : β} : f <$> x = pure b ↔ ∃ a, x = pure a ∧ f a = b := by
  rw [map_eq_pure_bind, bind_eq_pure]
  simp only [pure_inj]

theorem lift_eq_pure {x : Except ε α} : (liftM x : ExceptT ε Id α) = pure a ↔ x = .ok a := by
  cases x
  case error e => exact ⟨nofun, nofun⟩
  case ok b =>
    change (pure b : ExceptT ε Id α) = pure a ↔ _
    simp [pure_inj]

theorem adapt_eq_pure {ε' : Type} {f : ε → ε'} : x.adapt f = pure a ↔ x = pure a := by
  cases hx : x.run
  case error e =>
    have hx : x = throw e := hx
    rw [hx]
    exact ⟨nofun, nofun⟩
  case ok b =>
    have hx : x = pure b := hx
    rw [hx]
    change (pure b : ExceptT ε' Id α) = pure a ↔ _
    simp [pure_inj]

end Pure

end Subplans.Outcome
