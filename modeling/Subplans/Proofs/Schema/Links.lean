import Subplans.Proofs.Schema.Walk
import Subplans.Schema.Links

/-!
What taking in foreign keys does to the links between columns.

`Links.Walked` says that every stored connection is a walk and that the two directions mirror each other,
`Links.Within` bounds the length of the connection of two columns, and `Links.Sound` says all that holds of
the links once some pairs of keys are taken in: classes are the columns that the pairs make equal, and no
chain of the pairs is shorter than the connection of its ends. A pair is taken in by connecting the columns
of one class with those of another while the connections read are replaced in place; this only ever
shortens them (`Links.Closer`), which is why the outcome does not depend on the order.
-/

namespace Subplans.Links

open Relation

variable {B B' : Bonds} {l l' l'' : Links} {a b c d u v : ColumnRef} {w : Connection} {i j k n : Nat}
  {key : ForeignKey}

-- Of an old walk, if there is one, and a new one, the one that is kept.
def shorter (old : Option Connection) (w : Connection) : Connection :=
  old.elim w fun v => if w.length < v.length then w else v

theorem shorter_eq (old : Option Connection) (w : Connection) : shorter old w = w ∨ old = some (shorter old w) := by
  cases old
  case none => exact .inl rfl
  case some v =>
    by_cases h : w.length < v.length
    case pos => simp [shorter, h]
    case neg => simp [shorter, h]

theorem length_shorter_le (v w : Connection) : (shorter (some v) w).length ≤ v.length := by
  simp only [shorter, Option.elim]
  split <;> omega

theorem length_shorter_le_new (old : Option Connection) (w : Connection) : (shorter old w).length ≤ w.length := by
  cases old
  case none => exact Nat.le_refl _
  case some v =>
    simp only [shorter, Option.elim]
    split <;> omega

theorem shorter_reversed (old : Option Connection) (w : Connection) :
    shorter (old.map Connection.reversed) w.reversed = (shorter old w).reversed := by
  cases old
  case none => rfl
  case some v =>
    simp only [shorter, Option.map, Option.elim, Connection.length_reversed]
    split <;> rfl

theorem connection?_connect : (l.connect a b w).connection? c d =
    if c = a ∧ d = b then some (shorter (l.connection? a b) w) else l.connection? c d := by
  have hput : ({ l with connections := Assoc.put (a, b) w l.connections } : Links).connection? c d =
      if c = a ∧ d = b then some w else l.connection? c d := by
    simp [connection?, Assoc.lookup_put]
  unfold connect
  cases h : l.connection? a b
  case none => exact hput
  case some v =>
    by_cases hlt : w.length < v.length
    case pos => simp only [hlt, reduceIte, hput, shorter, Option.elim]
    case neg =>
      simp only [hlt, reduceIte, shorter, Option.elim]
      by_cases hcd : c = a ∧ d = b
      case pos => simp [hcd, h]
      case neg => simp [hcd]

theorem classes_connect : (l.connect a b w).classes = l.classes := by
  unfold connect
  split
  case h_1 => split <;> rfl
  case h_2 => rfl

theorem connectOver_self : connectOver k key (u, v) l (a, a) = l := by
  simp [connectOver]

theorem classes_connectOver (pair) (ends) : (connectOver k key pair l ends).classes = l.classes := by
  obtain ⟨a, b⟩ := ends
  by_cases hab : a = b
  case pos => simp [connectOver, hab]
  case neg => simp [connectOver, hab, classes_connect]

theorem connection?_connectOver (hab : a ≠ b) : (connectOver k key (u, v) l (a, b)).connection? c d =
    if c = b ∧ d = a then some (shorter (l.connection? b a) (l.walkOver k key (u, v) a b).reversed)
    else if c = a ∧ d = b then some (shorter (l.connection? a b) (l.walkOver k key (u, v) a b))
    else l.connection? c d := by
  simp [connectOver, hab, connection?_connect]

-- Only different columns are connected, their connection is a walk along the pairs, and walked back it is
-- the connection in the other direction.
structure Walked (B : Bonds) (l : Links) : Prop where
  irrefl : ∀ a, l.connection? a a = none
  walk   : ∀ {a b w}, l.connection? a b = some w → Walk B.Crosses a w b
  mirror : ∀ a b, l.connection? b a = (l.connection? a b).map Connection.reversed

-- No more than `n` joins lead from one column to the other.
def Within (l : Links) (n : Nat) (a b : ColumnRef) : Prop :=
  a = b ∨ ∃ w, l.connection? a b = some w ∧ w.joins ≤ n

-- No connection is lost or has become longer.
def Closer (l l' : Links) : Prop :=
  ∀ n a b, l.Within n a b → l'.Within n a b

theorem Walked.mono (hB : ∀ k a b, B k a b → B' k a b) (hl : Walked B l) : Walked B' l where
  irrefl := hl.irrefl
  walk h := (hl.walk h).mono fun _ natural _ _ hr => by cases natural <;> exact hB _ _ _ hr
  mirror := hl.mirror

theorem Within.refl : l.Within n a a :=
  .inl rfl

theorem Within.mono (hn : n ≤ i) (h : l.Within n a b) : l.Within i a b :=
  h.imp_right fun ⟨w, hw, hj⟩ => ⟨w, hw, Nat.le_trans hj hn⟩

theorem Within.symm (hl : Walked B l) (h : l.Within n a b) : l.Within n b a := by
  cases h
  case inl h => exact .inl h.symm
  case inr h =>
    have ⟨w, hw, hj⟩ := h
    exact .inr ⟨w.reversed, by simp [hl.mirror a b, hw], w.joins_reversed ▸ hj⟩

theorem Closer.refl : Closer l l :=
  fun _ _ _ => id

theorem Closer.trans (h : Closer l l') (h' : Closer l' l'') : Closer l l'' :=
  fun _ _ _ hw => h' _ _ _ (h _ _ _ hw)

-- Between the same columns the shorter of two walks is the one with fewer joins.
theorem Closer.of_length_le (hl : Walked B l) (hl' : Walked B' l')
    (h : ∀ {a b w}, l.connection? a b = some w → ∃ w', l'.connection? a b = some w' ∧ w'.length ≤ w.length) :
    Closer l l' := by
  intro n a b hw
  refine hw.imp_right fun ⟨w, hw, hj⟩ => ?_
  have ⟨w', hw', hlen⟩ := h hw
  have := (hl.walk hw).length_add_one
  have := (hl'.walk hw').length_add_one
  exact ⟨w', hw', by omega⟩

-- The walk over a pair follows the pairs, and is as long as its parts say.
theorem walk_walkOver (hl : Walked B l) (hB : B k u v) (hu : u.table = key.source) (hv : v.table = key.target)
    (hi : l.Within i a u) (hj : l.Within j v b) :
    Walk B.Crosses a (l.walkOver k key (u, v) a b) b ∧ (l.walkOver k key (u, v) a b).joins ≤ i + 1 + j := by
  have hcross : B.Crosses k true u v := hB
  -- From the referencing column on.
  have ⟨finish, hfinish, hwalk, hjoins⟩ : ∃ finish,
      (if b == v then [] else .table key.target :: (l.connection? v b).getD []) = finish ∧
      Walk B.Crosses u (.join k true :: finish) b ∧ Connection.joins (.join k true :: finish) ≤ 1 + j := by
    by_cases hbv : b = v
    case pos => exact ⟨[], by simp [hbv], hbv ▸ .single hcross, by simp⟩
    case neg =>
      have ⟨w, hw, hlen⟩ := hj.resolve_left (Ne.symm hbv)
      refine ⟨.table v.table :: w, by simp [hbv, hw, hv], .cons hcross (hl.walk hw), ?_⟩
      rw [Connection.joins_cons]
      omega
  simp only [walkOver, hfinish]
  by_cases hau : a = u
  case pos =>
    subst hau
    simp only [beq_self_eq_true, reduceIte, List.nil_append]
    exact ⟨hwalk, by omega⟩
  case neg =>
    have ⟨w, hw, hlen⟩ := hi.resolve_left hau
    have happ := (hl.walk hw).append hwalk
    have := (hl.walk hw).length_add_one
    have := hwalk.length_add_one
    have := happ.length_add_one
    simp only [beq_eq_false_iff_ne.mpr hau, hw, ← hu, Option.getD_some, List.append_assoc, List.singleton_append,
      Bool.false_eq_true, reduceIte] at happ ⊢
    refine ⟨happ, ?_⟩
    simp only [List.length_append, List.length_cons] at *
    omega

theorem Walked.connectOver (hl : Walked B l) (hw : a ≠ b → Walk B.Crosses a (l.walkOver k key (u, v) a b) b) :
    Walked B (connectOver k key (u, v) l (a, b)) := by
  by_cases hab : a = b
  case pos => rwa [hab, connectOver_self]
  have hw := hw hab
  have hrev := hw.reversed Bonds.Crosses.flip
  refine ⟨fun c => ?irrefl, fun {c d w'} hc => ?walk, fun c d => ?mirror⟩
  case irrefl =>
    have hba : ¬(c = b ∧ c = a) := fun h => hab (h.2.symm.trans h.1)
    have hab : ¬(c = a ∧ c = b) := fun h => hba h.symm
    simp [connection?_connectOver ‹a ≠ b›, hab, hba, hl.irrefl]
  case walk =>
    rw [connection?_connectOver hab] at hc
    split at hc
    case isTrue h =>
      obtain ⟨rfl, rfl⟩ := h
      cases hc
      exact (shorter_eq ..).elim (· ▸ hrev) hl.walk
    case isFalse =>
      split at hc
      case isTrue h =>
        obtain ⟨rfl, rfl⟩ := h
        cases hc
        exact (shorter_eq ..).elim (· ▸ hw) hl.walk
      case isFalse => exact hl.walk hc
  case mirror =>
    rw [connection?_connectOver hab, connection?_connectOver hab, hl.mirror a b, shorter_reversed]
    by_cases hcd : c = a ∧ d = b
    case pos =>
      obtain ⟨rfl, rfl⟩ := hcd
      simp [hab]
    case neg =>
      by_cases hdc : c = b ∧ d = a
      case pos =>
        obtain ⟨rfl, rfl⟩ := hdc
        simp [hab, Connection.reversed_reversed]
      case neg =>
        have hcd' : ¬(d = b ∧ c = a) := fun h => hcd h.symm
        have hdc' : ¬(d = a ∧ c = b) := fun h => hdc h.symm
        simp [hcd, hdc, hcd', hdc', hl.mirror c d]

theorem closer_connectOver (hl : Walked B l) (hl' : Walked B (connectOver k key (u, v) l (a, b))) :
    Closer l (connectOver k key (u, v) l (a, b)) := by
  by_cases hab : a = b
  case pos => exact hab ▸ connectOver_self ▸ .refl
  case neg =>
    refine .of_length_le hl hl' fun {c d w} hw => ?_
    rw [connection?_connectOver hab]
    by_cases hba : c = b ∧ d = a
    case pos =>
      obtain ⟨rfl, rfl⟩ := hba
      exact ⟨_, if_pos ⟨rfl, rfl⟩, hw ▸ length_shorter_le ..⟩
    case neg =>
      rw [if_neg hba]
      by_cases hcd : c = a ∧ d = b
      case pos =>
        obtain ⟨rfl, rfl⟩ := hcd
        exact ⟨_, if_pos ⟨rfl, rfl⟩, hw ▸ length_shorter_le ..⟩
      case neg => exact ⟨w, if_neg hcd ▸ hw, Nat.le_refl _⟩

theorem within_connectOver (hl' : Walked B (connectOver k key (u, v) l (a, b)))
    (hw : Walk B.Crosses a (l.walkOver k key (u, v) a b) b) (hn : (l.walkOver k key (u, v) a b).joins ≤ n) :
    (connectOver k key (u, v) l (a, b)).Within n a b := by
  by_cases hab : a = b
  case pos => exact .inl hab
  case neg =>
    have hnew : (connectOver k key (u, v) l (a, b)).connection? a b =
        some (shorter (l.connection? a b) (l.walkOver k key (u, v) a b)) := by
      simp [connection?_connectOver hab, hab]
    have := (hl'.walk hnew).length_add_one
    have := hw.length_add_one
    have := length_shorter_le_new (l.connection? a b) (l.walkOver k key (u, v) a b)
    exact .inr ⟨_, hnew, by omega⟩

-- The connections that a walk over the pair of `u` and `v` is made of are known.
structure Ready (l : Links) (u v : ColumnRef) (ends : ColumnRef × ColumnRef) : Prop where
  source : ∃ i, l.Within i ends.1 u
  target : ∃ j, l.Within j v ends.2

theorem Ready.closer {ends} (hr : l.Ready u v ends) (h : Closer l l') : l'.Ready u v ends where
  source := hr.source.imp fun _ => h _ _ _
  target := hr.target.imp fun _ => h _ _ _

-- What is read while columns are connected may have been replaced before, but only by shorter walks. So
-- each two columns come as close as the connections at the start allow.
theorem foldl_connectOver (hB : B k u v) (hu : u.table = key.source) (hv : v.table = key.target)
    {ends : List (ColumnRef × ColumnRef)} (hl : Walked B l) (hr : ∀ e ∈ ends, l.Ready u v e) :
    Walked B (ends.foldl (connectOver k key (u, v)) l) ∧
    Closer l (ends.foldl (connectOver k key (u, v)) l) ∧
    ∀ e ∈ ends, ∀ i j, l.Within i e.1 u → l.Within j v e.2 →
      (ends.foldl (connectOver k key (u, v)) l).Within (i + 1 + j) e.1 e.2 := by
  induction ends generalizing l
  case nil => exact ⟨hl, .refl, nofun⟩
  case cons e rest ih =>
    obtain ⟨a, b⟩ := e
    have ⟨⟨i₀, hi₀⟩, ⟨j₀, hj₀⟩⟩ := hr _ List.mem_cons_self
    have hl' := hl.connectOver fun _ => (walk_walkOver hl hB hu hv hi₀ hj₀).1
    have hc := closer_connectOver hl hl'
    have ⟨hw, hc', hends⟩ := ih hl' fun e he => (hr e (List.mem_cons_of_mem _ he)).closer hc
    refine ⟨hw, hc.trans hc', fun e he i j hi hj => ?_⟩
    cases he
    case head =>
      have ⟨hwalk, hjoins⟩ := walk_walkOver hl hB hu hv hi hj
      exact hc' _ _ _ (within_connectOver hl' hwalk hjoins)
    case tail he => exact hends e he i j (hc _ _ _ hi) (hc _ _ _ hj)

theorem classes_foldl_connectOver {pair} {ends : List (ColumnRef × ColumnRef)} :
    (ends.foldl (connectOver k key pair) l).classes = l.classes := by
  induction ends generalizing l
  case nil => rfl
  case cons ih => rw [List.foldl_cons, ih, classes_connectOver]

end Subplans.Links
