import Subplans.Proofs.Schema.Keys

/-!
What is looked up while links are made.

`ofKeys?` makes the links of some keys in the same way as `ofKeys`, but gives up as soon as a class or a
connection is asked for that is not stored. It never does (`ofKeys?_eq_some`).
-/

namespace Subplans.Links

-- The way from `a` to the referencing column `u`.
def start? (l : Links) (key : ForeignKey) (u a : ColumnRef) : Option Connection :=
  if a == u then some [] else (l.connection? a u).map (· ++ [.table key.source])

-- The way from the referenced column `v` to `b`.
def finish? (l : Links) (key : ForeignKey) (v b : ColumnRef) : Option Connection :=
  if b == v then some [] else (l.connection? v b).map (.table key.target :: ·)

-- The way to the referencing column is looked up also where there is nothing to connect.
def connectOver? (index : Nat) (key : ForeignKey) (pair : ColumnRef × ColumnRef) (l : Links)
    (ends : ColumnRef × ColumnRef) : Option Links := do
  let start ← l.start? key pair.1 ends.1
  if ends.1 == ends.2 then some l
  else
    let finish ← l.finish? key pair.2 ends.2
    let walk := start ++ .join index true :: finish
    some ((l.connect ends.1 ends.2 walk).connect ends.2 ends.1 walk.reversed)

def addPair? (index : Nat) (key : ForeignKey) (l : Links) (pair : ColumnRef × ColumnRef) : Option Links := do
  let sources ← l.classes.lookup pair.1
  let targets ← l.classes.lookup pair.2
  let l ← (sources.flatMap fun a => targets.map (a, ·)).foldlM (connectOver? index key pair) l
  let merged := merge sources targets
  return { l with classes := merged.foldl (fun classes c => Assoc.put c merged classes) l.classes }

variable {B : Bonds} {columns : List ColumnRef} {l : Links} {u v : ColumnRef} {k : Nat} {key : ForeignKey}

theorem start?_eq_some {a i} (hi : l.Within i a u) :
    l.start? key u a = some (if a == u then [] else (l.connection? a u).getD [] ++ [.table key.source]) := by
  by_cases hau : a = u
  case pos => simp [start?, hau]
  case neg =>
    have ⟨w, hw, _⟩ := hi.resolve_left hau
    simp [start?, hau, hw]

theorem finish?_eq_some {b j} (hj : l.Within j v b) :
    l.finish? key v b = some (if b == v then [] else .table key.target :: (l.connection? v b).getD []) := by
  by_cases hbv : b = v
  case pos => simp [finish?, hbv]
  case neg =>
    have ⟨w, hw, _⟩ := hj.resolve_left (Ne.symm hbv)
    simp [finish?, hbv, hw]

theorem connectOver?_eq_some {ends} (hr : l.Ready u v ends) :
    connectOver? k key (u, v) l ends = some (connectOver k key (u, v) l ends) := by
  have ⟨⟨_, hi⟩, ⟨_, hj⟩⟩ := hr
  simp only [connectOver?, start?_eq_some hi, finish?_eq_some hj, connectOver, walkOver, Option.bind_eq_bind,
    Option.bind_some]
  split <;> rfl

theorem foldlM_connectOver? (hB : B k u v) (hu : u.table = key.source) (hv : v.table = key.target)
    {ends : List (ColumnRef × ColumnRef)} (hl : Walked B l) (hr : ∀ e ∈ ends, l.Ready u v e) :
    ends.foldlM (connectOver? k key (u, v)) l = some (ends.foldl (connectOver k key (u, v)) l) := by
  induction ends generalizing l
  case nil => rfl
  case cons e rest ih =>
    have he := hr e List.mem_cons_self
    have hone : ∀ e' ∈ [e], l.Ready u v e' := by simpa using he
    have ⟨hl', hc, _⟩ := foldl_connectOver hB hu hv hl hone
    rw [List.foldlM_cons, connectOver?_eq_some he, List.foldl_cons]
    exact ih hl' fun e he => (hr e (List.mem_cons_of_mem _ he)).closer hc

namespace Sound

theorem lookup_classes (hl : Sound columns B l) (hu : u ∈ columns) : l.classes.lookup u = some (l.classOf u) := by
  have hmem := (hl.mem_classOf u u).mpr ⟨hu, .refl _⟩
  unfold classOf at hmem ⊢
  cases h : l.classes.lookup u
  case none => simp [h] at hmem
  case some => rfl

theorem addPair?_eq_some (hl : Sound columns B l) (hu : u ∈ columns) (hv : v ∈ columns)
    (hsource : u.table = key.source) (htarget : v.table = key.target) :
    Links.addPair? k key l (u, v) = some (Links.addPair k key l (u, v)) := by
  have hnew : B.insert k u v k u v := .inr ⟨rfl, rfl, rfl⟩
  have hl' : Walked (B.insert k u v) l := hl.toWalked.mono fun _ _ _ => .inl
  have hfold := foldlM_connectOver? hnew hsource htarget hl' hl.ready
  simp only [Links.addPair?, hl.lookup_classes hu, hl.lookup_classes hv, hfold, Links.addPair,
    Option.bind_eq_bind, Option.bind_some, Option.pure_def]

end Sound

end Subplans.Links
