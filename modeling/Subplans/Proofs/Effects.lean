import Subplans.Proofs.Outcome

/-!
Steps that can fail and have effects.

`Always` says that the outcome of a run has a property however the run is answered; a statement may be answered
otherwise when it is asked again. Where the effects are those on a state, `Yields` and `Stops` tell a run that has an
answer from one that fails.
-/

namespace Subplans.Outcome

section Always

variable {α β ε ε' : Type} {m : Type → Type} [Monad m] [LawfulMonad m] {P : Except ε α → Prop} {Q : Except ε β → Prop}
  {x : ExceptT ε m α} {f : α → ExceptT ε m β} {a : α} {e : ε}

-- However the run is answered on the way, its outcome has the property.
def Always (P : Except ε α → Prop) (x : ExceptT ε m α) : Prop :=
  ∃ c : m {outcome // P outcome}, x.run = Subtype.val <$> c

theorem always_pure (h : P (.ok a)) : Always P (pure a : ExceptT ε m α) :=
  ⟨pure ⟨_, h⟩, by simp⟩

theorem always_throw (h : P (.error e)) : Always P (throw e : ExceptT ε m α) :=
  ⟨pure ⟨_, h⟩, by simp⟩

-- What would have followed a failure does not matter.
theorem always_throw_bind (h : Q (.error e)) : Always Q (throw e >>= f) :=
  ⟨pure ⟨_, h⟩, by simp⟩

theorem always_liftM {y : Except ε α} (h : P y) : Always P (liftM y : ExceptT ε m α) := by
  cases y
  case error => exact always_throw h
  case ok => exact always_pure h

theorem liftM_ok_bind : (liftM (Except.ok a : Except ε α) : ExceptT ε m α) >>= f = f a :=
  pure_bind a f

theorem always_lift {A : α → Prop} {y : m α} (hy : ∃ c : m {a // A a}, y = Subtype.val <$> c)
    (h : ∀ a, A a → P (.ok a)) : Always P (ExceptT.lift y) := by
  obtain ⟨c, rfl⟩ := hy
  exact ⟨(fun a => ⟨.ok a.1, h a.1 a.2⟩) <$> c, by simp⟩

theorem Always.bind (hx : Always P x) (hok : ∀ a, P (.ok a) → Always Q (f a))
    (herror : ∀ e, P (.error e) → Q (.error e)) : Always Q (x >>= f) := by
  obtain ⟨c, hc⟩ := hx
  choose next hnext using hok
  let after : {outcome // P outcome} → m {outcome // Q outcome}
    | ⟨.ok a, ha⟩ => next a ha
    | ⟨.error e, he⟩ => pure ⟨_, herror e he⟩
  refine ⟨c >>= after, ?_⟩
  rw [ExceptT.run_bind, hc, bind_map_left, map_bind]
  congr 1
  funext outcome
  rcases outcome with ⟨_ | a, ha⟩
  case error => simp [after]
  case ok => exact hnext a ha

theorem Always.mono {P' : Except ε α → Prop} (hx : Always P x) (h : ∀ outcome, P outcome → P' outcome) :
    Always P' x := by
  obtain ⟨c, hc⟩ := hx
  exact ⟨(fun outcome => ⟨outcome.1, h outcome.1 outcome.2⟩) <$> c, by simp [hc]⟩

theorem Always.adapt {P' : Except ε' α → Prop} {g : ε → ε'} (hx : Always P x)
    (h : ∀ outcome, P outcome → P' (outcome.mapError g)) : Always P' (x.adapt g) := by
  obtain ⟨c, hc⟩ := hx
  refine ⟨(fun outcome => ⟨outcome.1.mapError g, h outcome.1 outcome.2⟩) <$> c, ?_⟩
  have hrun : (x.adapt g).run = Except.mapError g <$> x.run := rfl
  simp [hrun, hc]

-- An answer has the one property, an error the other one.
def Ending (A : α → Prop) (E : ε → Prop) : Except ε α → Prop
  | .error e => E e
  | .ok a => A a

-- What every step preserves for one more element holds in the end for all of them.
theorem always_foldlM {I : List α → β → Prop} {E : ε → Prop} {f : β → α → ExceptT ε m β}
    (hstep : ∀ done x b, I done b → Always (Ending (I (done ++ [x])) E) (f b x)) {b : β} (hb : I [] b) (xs : List α) :
    Always (Ending (I xs) E) (xs.foldlM f b) := by
  have hall : ∀ (xs done : List α) (b : β), I done b → Always (Ending (I (done ++ xs)) E) (xs.foldlM f b) := by
    intro xs
    induction xs
    case nil =>
      intro done b hb
      rw [List.append_nil]
      exact always_pure hb
    case cons x xs ih =>
      intro done b hb
      rw [List.foldlM_cons]
      refine (hstep done x b hb).bind (fun next hnext => ?_) fun _ => id
      have hrest := ih _ next hnext
      rwa [List.append_assoc] at hrest
  exact hall xs [] b hb

-- Steps that have no effects have none one after the other.
theorem foldlM_liftM {f : β → α → Except ε β} (xs : List α) (b : β) :
    xs.foldlM (fun b x => (liftM (f b x) : ExceptT ε m β)) b = liftM (xs.foldlM f b) := by
  induction xs generalizing b
  case nil => rfl
  case cons x xs ih =>
    rw [List.foldlM_cons, List.foldlM_cons, liftM_bind]
    congr 1
    funext next
    exact ih next

end Always

variable {α β ε σ : Type} {x : ExceptT ε (StateM σ) α} {f : α → ExceptT ε (StateM σ) β} {y : StateM σ α}
  {s s' : σ} {a b : α} {c : β} {e : ε}

-- From the state `s` the run has the answer `a` and ends in `s'`.
def Yields (x : ExceptT ε (StateM σ) α) (s : σ) (a : α) (s' : σ) : Prop :=
  (x.run.run s).run = (.ok a, s')

theorem exists_yields (h : (x.run.run s).run.1.isOk = true) : ∃ a s', Yields x s a s' := by
  cases hx : (x.run.run s).run
  case mk outcome s' =>
    cases outcome
    case error => simp [hx, Except.isOk, Except.toBool] at h
    case ok a => exact ⟨a, s', hx⟩

theorem run_bind : ((x >>= f).run.run s).run = match (x.run.run s).run with
    | (.ok a, s₁) => ((f a).run.run s₁).run
    | (.error e, s₁) => (.error e, s₁) := by
  rw [ExceptT.run_bind, StateT.run_bind, Id.run_bind]
  rcases (x.run.run s).run with ⟨_ | _, _⟩
  case error => rfl
  case ok => rfl

theorem yields_bind : Yields (x >>= f) s c s' ↔ ∃ a s₁, Yields x s a s₁ ∧ Yields (f a) s₁ c s' := by
  rw [Yields, run_bind]
  constructor
  · intro h
    split at h
    case h_1 a s₁ hx => exact ⟨a, s₁, hx, h⟩
    case h_2 => cases h
  · rintro ⟨a, s₁, hx, h⟩
    rw [hx]
    exact h

theorem yields_pure : Yields (pure a : ExceptT ε (StateM σ) α) s b s' ↔ a = b ∧ s = s' where
  mp h := by
    cases h
    exact ⟨rfl, rfl⟩
  mpr := by
    rintro ⟨rfl, rfl⟩
    rfl

-- A step without a state.
theorem yields_liftM {r : Except ε α} : Yields (liftM r : ExceptT ε (StateM σ) α) s a s' ↔ r = .ok a ∧ s = s' where
  mp h := by
    cases h
    exact ⟨rfl, rfl⟩
  mpr := by
    rintro ⟨rfl, rfl⟩
    rfl

theorem yields_mk_pure {r : Except ε α} : Yields (ExceptT.mk (pure r)) s a s' ↔ r = .ok a ∧ s = s' where
  mp h := by
    cases h
    exact ⟨rfl, rfl⟩
  mpr := by
    rintro ⟨rfl, rfl⟩
    rfl

theorem yields_throw {e : ε} : ¬Yields (throw e : ExceptT ε (StateM σ) α) s a s' :=
  nofun

theorem yields_adapt {ε' : Type} {g : ε → ε'} : Yields (x.adapt g) s a s' ↔ Yields x s a s' := by
  have hrun : ((x.adapt g).run.run s).run = ((x.run.run s).run.1.mapError g, (x.run.run s).run.2) := rfl
  rw [Yields, Yields, hrun]
  cases (x.run.run s).run
  case mk outcome s₁ => cases outcome <;> simp [Except.mapError]

-- The elements of a list and their answers, each from the state that the run had reached.
theorem yields_mapM {xs : List α} {ys : List β} (h : Yields (xs.mapM f) s ys s') :
    List.Forall₂ (fun x y => ∃ s s', Yields (f x) s y s') xs ys := by
  induction xs generalizing s ys
  case nil =>
    obtain ⟨rfl, -⟩ := yields_pure.mp h
    exact .nil
  case cons x xs ih =>
    rw [List.mapM_cons] at h
    have ⟨y, s₁, hy, h⟩ := yields_bind.mp h
    have ⟨rest, s₂, hrest, h⟩ := yields_bind.mp h
    obtain ⟨rfl, rfl⟩ := yields_pure.mp h
    exact .cons ⟨s, s₁, hy⟩ (ih hrest)

-- From the state `s` the run fails.
def Stops (x : ExceptT ε (StateM σ) α) (s : σ) (e : ε) : Prop :=
  (x.run.run s).run.1 = .error e

theorem exists_yields_or_stops (x : ExceptT ε (StateM σ) α) (s : σ) : (∃ a s', Yields x s a s') ∨ ∃ e, Stops x s e := by
  rcases hx : (x.run.run s).run with ⟨e | a, s'⟩
  case error => exact .inr ⟨e, congrArg Prod.fst hx⟩
  case ok => exact .inl ⟨a, s', hx⟩

theorem Always.run {P : Except ε α → Prop} (h : Always P x) (s : σ) : P (x.run.run s).run.1 := by
  obtain ⟨c, hc⟩ := h
  rw [hc]
  exact (c.run s).run.1.2

theorem Always.yields {P : Except ε α → Prop} (h : Always P x) (hx : Yields x s a s') : P (.ok a) := by
  have hrun := h.run s
  rwa [hx] at hrun

theorem Always.stops {P : Except ε α → Prop} (h : Always P x) (hx : Stops x s e) : P (.error e) := by
  have hrun := h.run s
  rwa [hx] at hrun

-- The state in which the run ends, whether it fails or not.
def after (x : ExceptT ε (StateM σ) α) (s : σ) : σ :=
  (x.run.run s).run.2

-- The first step fails, or the second after it.
theorem stops_bind : Stops (x >>= f) s e ↔ Stops x s e ∨ ∃ a s₁, Yields x s a s₁ ∧ Stops (f a) s₁ e := by
  rw [Stops, run_bind, Stops]
  rcases hx : (x.run.run s).run with ⟨_ | a, s₁⟩
  case error => simp [Yields, hx]
  case ok =>
    constructor
    · exact fun h => .inr ⟨a, s₁, hx, h⟩
    · rintro (h | ⟨a', s₁', hx', h⟩)
      case inl => cases h
      case inr =>
        cases hx.symm.trans hx'
        exact h

-- Nothing is done after a failure.
theorem Stops.after_bind (h : Stops x s e) : after (x >>= f) s = after x s := by
  unfold Stops at h
  rw [after, after, run_bind]
  rcases hx : (x.run.run s).run with ⟨_ | a, s₁⟩
  case error => rfl
  case ok =>
    rw [hx] at h
    cases h

theorem stops_pure : ¬Stops (pure a : ExceptT ε (StateM σ) α) s e :=
  nofun

theorem stops_mk_pure {r : Except ε α} : Stops (ExceptT.mk (pure r : StateM σ (Except ε α))) s e ↔ r = .error e :=
  .rfl

theorem stops_throw {e' : ε} : Stops (throw e' : ExceptT ε (StateM σ) α) s e ↔ e' = e where
  mp h := by
    cases h
    rfl
  mpr h := h ▸ rfl

-- What comes after a step that cannot fail may fail.
theorem stops_lift_bind : Stops (ExceptT.lift y >>= f) s e ↔ Stops (f (y.run s).run.1) (y.run s).run.2 e := by
  rw [Stops, run_bind]
  rfl

theorem stops_adapt {ε' : Type} {g : ε → ε'} {e' : ε'} : Stops (x.adapt g) s e' ↔ ∃ e, Stops x s e ∧ g e = e' := by
  have hrun : ((x.adapt g).run.run s).run.1 = (x.run.run s).run.1.mapError g := rfl
  simp only [Stops, hrun]
  cases (x.run.run s).run.1 <;> simp [Except.mapError]

-- One of the elements fails after those before it have their answers.
theorem stops_mapM {xs : List α} : Stops (xs.mapM f) s e ↔ ∃ before x after ys s₁, xs = before ++ x :: after ∧
    Yields (before.mapM f) s ys s₁ ∧ Stops (f x) s₁ e := by
  constructor
  case mp =>
    intro h
    induction xs generalizing s
    case nil => exact absurd h stops_pure
    case cons x xs ih =>
      rw [List.mapM_cons] at h
      rcases stops_bind.mp h with h | ⟨y, s₁, hy, h⟩
      case inl => exact ⟨[], x, xs, [], s, rfl, yields_pure.mpr ⟨rfl, rfl⟩, h⟩
      case inr =>
        rcases stops_bind.mp h with h | ⟨_, _, _, h⟩
        case inl =>
          obtain ⟨before, z, after, ys, s₂, rfl, hbefore, hz⟩ := ih h
          refine ⟨x :: before, z, after, y :: ys, s₂, rfl, ?_, hz⟩
          rw [List.mapM_cons]
          exact yields_bind.mpr ⟨y, s₁, hy, yields_bind.mpr ⟨ys, s₂, hbefore, yields_pure.mpr ⟨rfl, rfl⟩⟩⟩
        case inr => exact absurd h stops_pure
  case mpr =>
    rintro ⟨before, x, after, ys, s₁, rfl, hbefore, hx⟩
    rw [List.mapM_append]
    refine stops_bind.mpr (.inr ⟨ys, s₁, hbefore, stops_bind.mpr (.inl ?_)⟩)
    rw [List.mapM_cons]
    exact stops_bind.mpr (.inl hx)

-- Whether it fails or not, the run keeps what holds of the state.
def Keeps (P : σ → Prop) (x : ExceptT ε (StateM σ) α) : Prop :=
  ∀ s, P s → P (after x s)

section Keeps

variable {P : σ → Prop}

theorem keeps_bind (hx : Keeps P x) (hf : ∀ a s s', Yields x s a s' → Keeps P (f a)) : Keeps P (x >>= f) := by
  intro s hs
  have hs₁ := hx s hs
  unfold after at hs₁ ⊢
  rw [run_bind]
  rcases hrun : (x.run.run s).run with ⟨_ | a, s₁⟩
  case error => rwa [hrun] at hs₁
  case ok =>
    rw [hrun] at hs₁
    exact hf a s s₁ hrun s₁ hs₁

theorem keeps_pure : Keeps P (pure a : ExceptT ε (StateM σ) α) := fun _ => id

theorem keeps_throw : Keeps P (throw e : ExceptT ε (StateM σ) α) := fun _ => id

theorem keeps_mk_pure {r : Except ε α} : Keeps P (ExceptT.mk (pure r : StateM σ (Except ε α))) := fun _ => id

theorem keeps_lift (h : ∀ s, P s → P (y.run s).run.2) : Keeps P (ExceptT.lift y : ExceptT ε (StateM σ) α) := h

theorem keeps_adapt {ε' : Type} {g : ε → ε'} (h : Keeps P x) : Keeps P (x.adapt g) := h

theorem keeps_mapM {xs : List α} (h : ∀ x ∈ xs, Keeps P (f x)) : Keeps P (xs.mapM f) := by
  induction xs
  case nil => exact keeps_pure
  case cons x xs ih =>
    rw [List.forall_mem_cons] at h
    rw [List.mapM_cons]
    exact keeps_bind h.1 fun _ _ _ _ => keeps_bind (ih h.2) fun _ _ _ _ => keeps_pure

theorem keeps_forM {g : α → ExceptT ε (StateM σ) PUnit} {xs : List α} (h : ∀ x ∈ xs, Keeps P (g x)) :
    Keeps P (xs.forM g) := by
  induction xs
  case nil => exact keeps_pure
  case cons x xs ih =>
    rw [List.forall_mem_cons] at h
    exact keeps_bind h.1 fun _ _ _ _ => ih h.2

end Keeps

end Subplans.Outcome
