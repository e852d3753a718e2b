import Subplans.Proofs.Graph.Forces
import Subplans.Proofs.Outcome
import Subplans.Proofs.Sql.Classes

/-!
The joins of a class of equal columns.

Each of the columns that is joined to another one is left out of those that remain, and the other one remains at first.
So all columns of the class come to be equal to one that remains in the end (`Directly.reach`). If several do, edges to
one virtual node make them equal, provided that they refer to the same column of its table. In no case do the edges
force more than that the columns of the class are equal (`Joined.origin`).
-/

namespace Subplans.Sql

open Closure Relation QueryGraph

variable {s : Schema} {tables : List FromTable} {g g' : QueryGraph} {remaining columns c : List Slot} {a b p q : Slot}
  {key target : Nat}

-- What happens to one of the columns.
def joinStep (s : Schema) (state : List Slot × QueryGraph) (a : Slot) : List Slot × QueryGraph :=
  match state.1.find? fun b => b != a && (s.keyBetween? a.column b.column).isSome with
  | none => state
  | some b =>
    match s.keyBetween? a.column b.column with
    | none => state
    | some key => (state.1.filter (· != a), (state.2.addEdge a.node key b.node).2)

theorem joinDirectly_eq : joinDirectly s columns g = columns.foldl (joinStep s) (columns, g) :=
  rfl

theorem pairs_of_keyBetween? {c d : ColumnRef} (h : s.keyBetween? c d = some key) : (s.key key).pairs = [(c, d)] := by
  have hmem := List.find?_some h
  simp only [Bool.and_eq_true, beq_iff_eq] at hmem
  exact hmem.2

theorem joinStep_cases {state : List Slot × QueryGraph} : joinStep s state a = state ∨
    ∃ b key, b ∈ state.1 ∧ b ≠ a ∧ (s.key key).pairs = [(a.column, b.column)] ∧
      joinStep s state a = (state.1.filter (· != a), (state.2.addEdge a.node key b.node).2) := by
  unfold joinStep
  split
  case h_1 => exact .inl rfl
  case h_2 b hb =>
    have hfound := List.find?_some hb
    split
    case h_1 => exact .inl rfl
    case h_2 key hkey =>
      rw [Bool.and_eq_true, bne_iff_ne] at hfound
      exact .inr ⟨b, key, List.mem_of_find?_eq_some hb, hfound.1, pairs_of_keyBetween? hkey, rfl⟩

-- Where the joins between the columns stand.
structure Directly (s : Schema) (columns : List Slot) (g : QueryGraph) (state : List Slot × QueryGraph) : Prop where
  nodes  : SameNodes g state.2
  subset : state.1 ⊆ columns
  -- The edges are those from before and some between the columns.
  keeps  : ∀ p q, g.Relates s p q → state.2.Relates s p q
  origin : ∀ p q, state.2.Relates s p q → g.Relates s p q ∨ (p ∈ columns ∧ q ∈ columns)
  -- Every column is equal to one that remains.
  reach  : ∀ a ∈ columns, ∃ b ∈ state.1, state.2.Forces s a b

namespace Directly

theorem start : Directly s columns g (columns, g) where
  nodes := .refl
  subset := List.Subset.refl columns
  keeps _ _ h := h
  origin _ _ h := .inl h
  reach a ha := ⟨a, ha, .refl a⟩

theorem step {state : List Slot × QueryGraph} (h : Directly s columns g state) (ha : a ∈ columns) :
    Directly s columns g (joinStep s state a) := by
  rcases joinStep_cases (s := s) (a := a) with heq | ⟨b, key, hb, hne, hkey, heq⟩
  case inl => rwa [heq]
  case inr =>
    have hrelates : (state.2.addEdge a.node key b.node).2.Relates s = _ := relates_addEdge_of_pairs hkey
    rw [heq]
    constructor
    case nodes => exact h.nodes.trans sameNodes_addEdge
    case subset => exact fun p hp => h.subset (List.mem_filter.mp hp).1
    case keeps =>
      intro p q hpq
      rw [hrelates]
      exact .inl (h.keeps p q hpq)
    case origin =>
      intro p q hpq
      rw [hrelates] at hpq
      rcases hpq with hpq | ⟨rfl, rfl⟩
      case inl => exact h.origin p q hpq
      case inr => exact .inr ⟨ha, h.subset hb⟩
    case reach =>
      -- What was equal to the column that is left out is equal to the one that it is joined to.
      have hstays : b ∈ state.1.filter (· != a) := List.mem_filter.mpr ⟨hb, by simpa using hne⟩
      intro p hp
      have ⟨q, hq, hforced⟩ := h.reach p hp
      have hforced : (state.2.addEdge a.node key b.node).2.Forces s p q := by
        rw [Forces, hrelates]
        exact left hforced
      by_cases hqa : q = a
      case neg => exact ⟨q, List.mem_filter.mpr ⟨hq, by simpa using hqa⟩, hforced⟩
      case pos =>
        subst hqa
        refine ⟨b, hstays, .trans _ _ _ hforced ?_⟩
        rw [hrelates]
        exact of_pair

theorem foldl {state : List Slot × QueryGraph} {more : List Slot} (h : Directly s columns g state)
    (hmore : more ⊆ columns) : Directly s columns g (more.foldl (joinStep s) state) := by
  induction more generalizing state
  case nil => exact h
  case cons a more ih =>
    rw [List.cons_subset] at hmore
    exact ih (h.step hmore.1) hmore.2

end Directly

theorem directly_joinDirectly : Directly s columns g (joinDirectly s columns g) :=
  joinDirectly_eq ▸ Directly.start.foldl (List.Subset.refl columns)

-- The columns are joined to the node by these keys, the only ones that they have.
def Shares (s : Schema) (target : Nat) (a : Slot) (join : Nat × Nat) : Prop :=
  join.1 = a.node ∧ s.keysFromColumn a.column = [join.2] ∧ (s.key join.2).target = target

theorem sharedKeys_ok {known : Option Nat} {joins : List (Nat × Nat)}
    (h : sharedKeys s tables known columns = .ok joins) :
    ∃ target, (∀ t, known = some t → t = target) ∧ List.Forall₂ (Shares s target) columns joins := by
  induction columns generalizing known joins
  case nil =>
    cases h
    exact ⟨known.getD 0, by rintro t rfl; rfl, .nil⟩
  case cons a rest ih =>
    rw [sharedKeys] at h
    dsimp only at h
    split at h
    case h_1 key hkey =>
      by_cases hknown : known.any (· != (s.key key).target)
      case pos =>
        rw [if_pos hknown] at h
        cases h
      case neg =>
        rw [if_neg hknown] at h
        have ⟨more, hmore, heq⟩ := Outcome.bind_eq_ok.mp h
        cases heq
        have ⟨target, htarget, hall⟩ := ih hmore
        cases htarget _ rfl
        refine ⟨_, ?_, .cons ⟨rfl, hkey, rfl⟩ hall⟩
        rintro t rfl
        simpa using hknown
    case h_2 => cases h

theorem sharedKeys_error {known : Option Nat} {e : GraphError} (h : sharedKeys s tables known columns = .error e) :
    ∃ fault, e = .unsupportedJoin fault := by
  induction columns generalizing known
  case nil => cases h
  case cons a rest ih =>
    rw [sharedKeys] at h
    dsimp only at h
    split at h
    case h_1 key hkey =>
      by_cases hknown : known.any (· != (s.key key).target)
      case pos =>
        rw [if_pos hknown] at h
        cases h
        exact ⟨_, rfl⟩
      case neg =>
        rw [if_neg hknown] at h
        rcases Outcome.bind_eq_error.mp h with h | ⟨_, _, h⟩
        case inl => exact ih h
        case inr => cases h
    case h_2 =>
      cases h
      exact ⟨_, rfl⟩

theorem pairs_of_keysFromColumn (hkeys : ∀ key ∈ s.keys, key.pairs.length = 1) {d : ColumnRef}
    (h : key ∈ s.keysFromColumn d) : ∃ e, (s.key key).pairs = [(d, e)] := by
  simp only [Schema.keysFromColumn, Schema.keysFrom, List.mem_filter, List.mem_range] at h
  have ⟨⟨hlt, _⟩, hany⟩ := h
  have hmem : s.key key ∈ s.keys := by
    rw [Schema.key, List.getD_eq_getElem?_getD, List.getElem?_eq_getElem hlt]
    exact List.getElem_mem hlt
  obtain ⟨⟨u, v⟩, hpair⟩ := List.length_eq_one_iff.mp (hkeys _ hmem)
  have hu : u = d := by simpa [hpair] using hany
  exact ⟨v, by rw [hpair, hu]⟩

-- The graph after the columns were joined to a node.
def joinTo (n : Nat) (g : QueryGraph) (joins : List (Nat × Nat)) : QueryGraph :=
  joins.foldl (fun g join => (g.addEdge join.1 join.2 n).2) g

theorem sameNodes_joinTo {n : Nat} (joins : List (Nat × Nat)) : SameNodes g (joinTo n g joins) := by
  induction joins generalizing g
  case nil => exact .refl
  case cons join joins ih => exact sameNodes_addEdge.trans ih

-- An edge of one of the columns to the node.
def Shared (s : Schema) (n : Nat) (columns : List Slot) (p q : Slot) : Prop :=
  p ∈ columns ∧ q.node = n ∧ ∃ key, s.keysFromColumn p.column = [key] ∧ (s.key key).pairs = [(p.column, q.column)]

theorem relates_joinTo (hkeys : ∀ key ∈ s.keys, key.pairs.length = 1) {n : Nat} {joins : List (Nat × Nat)}
    (h : List.Forall₂ (Shares s target) columns joins) :
    (joinTo n g joins).Relates s p q ↔ g.Relates s p q ∨ Shared s n columns p q := by
  induction h generalizing g
  case nil => simp [joinTo, Shared]
  case cons a join columns joins hjoin _ ih =>
    obtain ⟨node, key⟩ := join
    have ⟨hnode, hkey, _⟩ := hjoin
    dsimp only at hnode hkey
    have ⟨d, hpairs⟩ := pairs_of_keysFromColumn hkeys (hkey ▸ List.mem_singleton_self key)
    have hedge : Pair ⟨node, a.column⟩ ⟨n, d⟩ p q ↔ p = a ∧ q.node = n ∧
        ∃ key, s.keysFromColumn p.column = [key] ∧ (s.key key).pairs = [(p.column, q.column)] := by
      constructor
      · rintro ⟨rfl, rfl⟩
        exact ⟨by rw [hnode], rfl, key, hkey, hpairs⟩
      · rintro ⟨rfl, rfl, key', hkey', hpairs'⟩
        cases hkey.symm.trans hkey'
        cases hpairs.symm.trans hpairs'
        exact ⟨by rw [hnode], rfl⟩
    have hrest := ih (g := (g.addEdge node key n).2)
    rw [relates_addEdge_of_pairs hpairs, Either, hedge] at hrest
    exact hrest.trans (by simp only [Shared, List.mem_cons, or_and_right, or_assoc])

theorem joinClass_cases (h : joinClass s tables g columns = .ok g') :
    ((joinDirectly s columns g).1.length < 2 ∧ g' = (joinDirectly s columns g).2) ∨
    ∃ target joins, List.Forall₂ (Shares s target) (joinDirectly s columns g).1 joins ∧
      g' = joinTo (joinDirectly s columns g).2.slots.length
        ((joinDirectly s columns g).2.addFresh (.virtual s target)).2 joins := by
  rw [joinClass] at h
  dsimp only at h
  by_cases hlength : (joinDirectly s columns g).1.length < 2
  case pos =>
    rw [if_pos hlength] at h
    cases h
    exact .inl ⟨hlength, rfl⟩
  case neg =>
    rw [if_neg hlength] at h
    have ⟨joins, hjoins, h⟩ := Outcome.bind_eq_ok.mp h
    have ⟨target, _, hall⟩ := sharedKeys_ok hjoins
    have hcount : joins.length = (joinDirectly s columns g).1.length := hall.length_eq.symm
    refine .inr ⟨target, joins, hall, ?_⟩
    cases joins
    case nil => exact absurd hcount (by simp; omega)
    case cons join joins =>
      obtain ⟨a, _, hjoin, _, _⟩ := List.forall₂_cons_right_iff.mp hall
      cases h
      rw [← hjoin.2.2]
      rfl

theorem joinClass_error {e : GraphError} (h : joinClass s tables g columns = .error e) :
    ∃ fault, e = .unsupportedJoin fault := by
  rw [joinClass] at h
  dsimp only at h
  split at h
  case isTrue => cases h
  case isFalse =>
    rcases Outcome.bind_eq_error.mp h with h | ⟨joins, _, h⟩
    case inl => exact sharedKeys_error h
    case inr => cases joins <;> cases h

-- The nodes that were there are as they were.
structure KeepsNodes (g g' : QueryGraph) : Prop where
  length    : g.slots.length ≤ g'.slots.length
  node?     : ∀ n < g.slots.length, g'.node? n = g.node? n
  aliasName : ∀ n < g.slots.length, g'.aliasName n = g.aliasName n

theorem keepsNodes_of_sameNodes (h : SameNodes g g') : KeepsNodes g g' :=
  ⟨Nat.le_of_eq h.length.symm, fun n _ => h.node? n, fun n _ => h.aliasName n⟩

theorem keepsNodes_addFresh {o : Occurrence} : KeepsNodes g (g.addFresh o).2 where
  length := Nat.le_trans (Nat.le_succ _) (Nat.le_of_eq length_add.symm)
  node? n hn := by rw [node?_addFresh, if_neg (Nat.ne_of_lt hn)]
  aliasName n hn := by rw [aliasName_addFresh, if_neg (Nat.ne_of_lt hn)]

theorem KeepsNodes.trans {g'' : QueryGraph} (h : KeepsNodes g g') (h' : KeepsNodes g' g'') : KeepsNodes g g'' where
  length := Nat.le_trans h.length h'.length
  node? n hn := (h'.node? n (Nat.lt_of_lt_of_le hn h.length)).trans (h.node? n hn)
  aliasName n hn := (h'.aliasName n (Nat.lt_of_lt_of_le hn h.length)).trans (h.aliasName n hn)

theorem keepsNodes_joinClass (h : joinClass s tables g columns = .ok g') : KeepsNodes g g' := by
  have hd : Directly s columns g _ := directly_joinDirectly
  have hnodes := keepsNodes_of_sameNodes hd.nodes
  rcases joinClass_cases h with ⟨_, rfl⟩ | ⟨target, joins, _, rfl⟩
  case inl => exact hnodes
  case inr => exact (hnodes.trans keepsNodes_addFresh).trans (keepsNodes_of_sameNodes (sameNodes_joinTo joins))

-- What the joins of a class change: edges between its columns, or from them to one node that was added.
structure Joined (s : Schema) (columns : List Slot) (g g' : QueryGraph) : Prop where
  length    : g.slots.length ≤ g'.slots.length
  node?     : ∀ n < g.slots.length, g'.node? n = g.node? n
  aliasName : ∀ n < g.slots.length, g'.aliasName n = g.aliasName n
  keeps     : ∀ p q, g.Relates s p q → g'.Relates s p q
  origin    : ∀ p q, g'.Relates s p q → g.Relates s p q ∨
    p ∈ columns ∧ (q ∈ columns ∨ q.node = g.slots.length ∧ q.node < g'.slots.length)

-- Columns that are equal by `R` do not refer to different columns of one table.
def Agreeing (s : Schema) (R : Slot → Slot → Prop) : Prop :=
  ∀ a b j k c d, R a b → (a.column, c) ∈ (s.key j).pairs → (b.column, d) ∈ (s.key k).pairs →
    (s.key j).target = (s.key k).target → c = d

theorem relates_addFresh {o : Occurrence} : (g.addFresh o).2.Relates s p q ↔ g.Relates s p q :=
  Relates.congr fun _ => hasEdge_add

theorem joined_joinClass (hkeys : ∀ key ∈ s.keys, key.pairs.length = 1) (h : joinClass s tables g columns = .ok g') :
    Joined s columns g g' := by
  have hd : Directly s columns g _ := directly_joinDirectly
  have hkeeps := keepsNodes_joinClass h
  refine ⟨hkeeps.length, hkeeps.node?, hkeeps.aliasName, ?_, ?_⟩
  case refine_1 =>
    intro p q hpq
    rcases joinClass_cases h with ⟨_, rfl⟩ | ⟨target, joins, hall, rfl⟩
    case inl => exact hd.keeps p q hpq
    case inr =>
      rw [relates_joinTo hkeys hall, relates_addFresh]
      exact .inl (hd.keeps p q hpq)
  case refine_2 =>
    intro p q hpq
    rcases joinClass_cases h with ⟨_, rfl⟩ | ⟨target, joins, hall, rfl⟩
    case inl => exact (hd.origin p q hpq).imp_right fun h => ⟨h.1, .inl h.2⟩
    case inr =>
      rw [relates_joinTo hkeys hall, relates_addFresh] at hpq
      rcases hpq with hpq | ⟨hp, hq, _⟩
      case inl => exact (hd.origin p q hpq).imp_right fun h => ⟨h.1, .inl h.2⟩
      case inr =>
        have hlength := (sameNodes_joinTo (n := (joinDirectly s columns g).2.slots.length)
          (g := ((joinDirectly s columns g).2.addFresh (.virtual s target)).2) joins).length.trans length_add
        rw [hlength, hq, hd.nodes.length]
        exact .inr ⟨hd.subset hp, .inr ⟨rfl, Nat.lt_succ_self _⟩⟩

-- All columns of the class come to be equal.
theorem forces_joinClass (hkeys : ∀ key ∈ s.keys, key.pairs.length = 1) (h : joinClass s tables g columns = .ok g')
    (hagree : Agreeing s fun a b => a ∈ columns ∧ b ∈ columns) (ha : a ∈ columns) (hb : b ∈ columns) :
    g'.Forces s a b := by
  have hd : Directly s columns g _ := directly_joinDirectly
  -- It is enough that those that remain are equal.
  have hreach : (∀ p q, (joinDirectly s columns g).2.Relates s p q → g'.Relates s p q) →
      (∀ c ∈ (joinDirectly s columns g).1, ∀ d ∈ (joinDirectly s columns g).1, g'.Forces s c d) → g'.Forces s a b := by
    intro hkeeps hall
    have ⟨c, hc, hac⟩ := hd.reach a ha
    have ⟨d, hd, hbd⟩ := hd.reach b hb
    have hle : ∀ {p q}, (joinDirectly s columns g).2.Forces s p q → g'.Forces s p q :=
      fun hpq => of_le (fun p q hpq => .rel _ _ (hkeeps p q hpq)) hpq
    exact .trans _ _ _ (hle hac) (.trans _ _ _ (hall c hc d hd) (.symm _ _ (hle hbd)))
  rcases joinClass_cases h with ⟨hlength, rfl⟩ | ⟨target, joins, hall, rfl⟩
  case inl =>
    refine hreach (fun _ _ => id) fun c hc d hd => ?_
    have heq : c = d := by
      rcases hremaining : (joinDirectly s columns g).1 with _ | ⟨e, _ | ⟨_, _⟩⟩
      case nil => simp [hremaining] at hc
      case cons.nil =>
        simp only [hremaining, List.mem_singleton] at hc hd
        exact hc.trans hd.symm
      case cons.cons =>
        rw [hremaining, List.length_cons, List.length_cons] at hlength
        omega
    exact heq ▸ .refl c
  case inr =>
    have hrelates := fun {p q} => relates_joinTo (g := ((joinDirectly s columns g).2.addFresh (.virtual s target)).2)
      (n := (joinDirectly s columns g).2.slots.length) (p := p) (q := q) hkeys hall
    refine hreach (fun p q hpq => hrelates.mpr (.inl (relates_addFresh.mpr hpq))) fun c hc d hd' => ?_
    have ⟨⟨_, j⟩, _, _, hj, hjtarget⟩ := Outcome.exists_of_forall₂ hall.flip c hc
    have ⟨⟨_, k⟩, _, _, hk, hktarget⟩ := Outcome.exists_of_forall₂ hall.flip d hd'
    dsimp only at hj hk hjtarget hktarget
    have ⟨u, hu⟩ := pairs_of_keysFromColumn hkeys (hj ▸ List.mem_singleton_self j)
    have ⟨v, hv⟩ := pairs_of_keysFromColumn hkeys (hk ▸ List.mem_singleton_self k)
    -- Both columns refer to the same column of the node.
    have heq : u = v := hagree c d j k u v ⟨hd.subset hc, hd.subset hd'⟩ (hu ▸ List.mem_singleton_self _)
      (hv ▸ List.mem_singleton_self _) (hjtarget.trans hktarget.symm)
    subst heq
    have hleft := hrelates (p := c) (q := ⟨_, u⟩) |>.mpr (.inr ⟨hc, rfl, j, hj, hu⟩)
    have hright := hrelates (p := d) (q := ⟨_, u⟩) |>.mpr (.inr ⟨hd', rfl, k, hk, hv⟩)
    exact .trans _ _ _ (.rel _ _ hleft) (.symm _ _ (.rel _ _ hright))

end Subplans.Sql
