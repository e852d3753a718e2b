import Mathlib.Tactic.Tauto
import Subplans.Proofs.Schema.Links

/-!
The links that all foreign keys of a schema make.

`Links.Sound` holds of the links without keys (`Sound.ofColumns`), every pair that is taken in keeps it
(`Sound.addPair`), and so it holds of the links of all keys (`Sound.ofKeys`).
-/

namespace Subplans

open Relation

-- The two columns of each pair belong to the tables that the key is said to be between.
structure ForeignKey.Fits (columns : List ColumnRef) (key : ForeignKey) : Prop where
  source_mem : ∀ p ∈ key.pairs, p.1 ∈ columns
  target_mem : ∀ p ∈ key.pairs, p.2 ∈ columns
  source     : ∀ p ∈ key.pairs, p.1.table = key.source
  target     : ∀ p ∈ key.pairs, p.2.table = key.target

namespace Bonds

variable {B : Bonds} {columns : List ColumnRef} {a b u v : ColumnRef} {k : Nat}

-- Pairs are between these columns only.
def Over (columns : List ColumnRef) (B : Bonds) : Prop :=
  ∀ k a b, B k a b → a ∈ columns ∧ b ∈ columns

theorem Over.insert (hB : B.Over columns) (hu : u ∈ columns) (hv : v ∈ columns) :
    (B.insert k u v).Over columns := by
  intro j a b h
  rcases h with h | ⟨-, rfl, rfl⟩
  · exact hB j a b h
  · exact ⟨hu, hv⟩

theorem Over.mem_iff (hB : B.Over columns) (h : EqvGen B.Paired a b) : a ∈ columns ↔ b ∈ columns := by
  induction h
  case rel hp =>
    have ⟨k, hk⟩ := hp
    exact iff_of_true (hB k _ _ hk).1 (hB k _ _ hk).2
  case refl => exact .rfl
  case symm ih => exact ih.symm
  case trans ih ih' => exact ih.trans ih'

theorem eqvGen_insert : EqvGen (B.insert k u v).Paired a b ↔
    EqvGen B.Paired a b ∨ (EqvGen B.Paired a u ∧ EqvGen B.Paired v b) ∨
      (EqvGen B.Paired a v ∧ EqvGen B.Paired u b) where
  mp h := by
    have ⟨n, hn⟩ := eqvGen_iff_chain.mp h
    rcases hn.split paired_insert.mp with ⟨_, _, h⟩ | ⟨_, _, _, hi, hj⟩ | ⟨_, _, _, hi, hj⟩
    · exact .inl h.eqvGen
    · exact .inr <| .inl ⟨hi.eqvGen, hj.eqvGen⟩
    · exact .inr <| .inr ⟨hi.eqvGen, hj.eqvGen⟩
  mpr h := by
    have old {a b} : EqvGen B.Paired a b → EqvGen (B.insert k u v).Paired a b :=
      EqvGen.mono (fun _ _ hp => paired_insert.mpr (.inl hp)) _ _
    have new : EqvGen (B.insert k u v).Paired u v := .rel _ _ (paired_insert.mpr (.inr ⟨rfl, rfl⟩))
    rcases h with h | ⟨hi, hj⟩ | ⟨hi, hj⟩
    · exact old h
    · exact .trans _ _ _ (old hi) (.trans _ _ _ new (old hj))
    · exact .trans _ _ _ (old hi) (.trans _ _ _ (.symm _ _ new) (old hj))

-- The pairs of keys that are numbered by their positions.
def ofKeys (keys : List ForeignKey) : Bonds :=
  fun k a b => ∃ key, keys[k]? = some key ∧ (a, b) ∈ key.pairs

end Bonds

namespace Links

variable {B B' : Bonds} {columns : List ColumnRef} {l : Links} {a b c u v : ColumnRef} {k n : Nat}
  {key : ForeignKey}

theorem mem_merge (as bs : List ColumnRef) : c ∈ merge as bs ↔ c ∈ as ∨ c ∈ bs := by
  fun_induction merge as bs
  case case1 => simp
  case case2 => simp
  case case3 h ih =>
    rw [beq_iff_eq] at h
    simp only [List.mem_cons, ih, h]
    tauto
  case case4 ih =>
    simp only [List.mem_cons, ih]
    tauto
  case case5 ih =>
    simp only [List.mem_cons, ih]
    tauto

theorem lookup_foldl_put (members cs : List ColumnRef) (entries : List (ColumnRef × List ColumnRef)) :
    (cs.foldl (fun classes c => Assoc.put c members classes) entries).lookup a =
      if a ∈ cs then some members else entries.lookup a := by
  induction cs generalizing entries
  case nil => simp
  case cons c cs ih =>
    rw [List.foldl_cons, ih, Assoc.lookup_put]
    by_cases ha : a ∈ cs
    case pos => simp [ha]
    case neg => simp [ha]

theorem lookup_singletons : (columns.map fun c => (c, [c])).lookup a = if a ∈ columns then some [a] else none := by
  induction columns
  case nil => rfl
  case cons c cs ih =>
    by_cases h : a = c
    case pos => simp [h]
    case neg => simp [List.lookup_cons, beq_eq_false_iff_ne.mpr h, ih, h]

theorem lookup_classes_addPair : (addPair k key l (u, v)).classes.lookup a =
    if a ∈ merge (l.classOf u) (l.classOf v) then some (merge (l.classOf u) (l.classOf v))
    else l.classes.lookup a := by
  simp only [addPair, lookup_foldl_put, classes_foldl_connectOver]

theorem classOf_addPair : (addPair k key l (u, v)).classOf a =
    if a ∈ merge (l.classOf u) (l.classOf v) then merge (l.classOf u) (l.classOf v) else l.classOf a := by
  rw [classOf, lookup_classes_addPair]
  split <;> rfl

-- Classes hold the columns that the pairs make equal, and no chain of pairs is shorter than the connection
-- of its ends.
structure Sound (columns : List ColumnRef) (B : Bonds) (l : Links) : Prop extends Walked B l where
  mem_classOf : ∀ a b, b ∈ l.classOf a ↔ a ∈ columns ∧ EqvGen B.Paired a b
  shortest    : ∀ n a b, Chain B.Paired n a b → l.Within n a b

namespace Sound

theorem congr (hB : ∀ k a b, B k a b ↔ B' k a b) (hl : Sound columns B l) : Sound columns B' l := by
  have : B = B' := by
    funext k a b
    exact propext (hB k a b)
  exact this ▸ hl

theorem ofColumns : Sound columns (fun _ _ _ => False) (ofColumns columns) where
  irrefl _ := rfl
  walk := nofun
  mirror _ _ := rfl
  mem_classOf a b := by
    have hE : EqvGen (Bonds.Paired fun _ _ _ => False) a b ↔ b = a := by
      refine ⟨fun h => ?_, (· ▸ .refl _)⟩
      induction h
      case rel hp => exact hp.elim nofun
      case refl => rfl
      case symm ih => exact ih.symm
      case trans ih ih' => exact ih'.trans ih
    rw [hE, classOf, Links.ofColumns, lookup_singletons]
    by_cases ha : a ∈ columns
    case pos => simp [ha]
    case neg => simp [ha]
  shortest n a b h := by
    cases h
    case nil => exact .refl
    case cons hp _ => exact hp.elim (fun ⟨_, h⟩ => h.elim) (fun ⟨_, h⟩ => h.elim)

theorem connection?_isSome_iff (hl : Sound columns B l) :
    (l.connection? a b).isSome ↔ a ≠ b ∧ EqvGen B.Paired a b where
  mp h := by
    have ⟨w, hw⟩ := Option.isSome_iff_exists.mp h
    refine ⟨fun hab => ?_, (hl.walk hw).chain.eqvGen⟩
    simp [hab, hl.irrefl] at h
  mpr h := by
    have ⟨n, hn⟩ := eqvGen_iff_chain.mp h.2
    have ⟨w, hw, _⟩ := (hl.shortest n a b hn).resolve_left h.1
    simp [hw]

-- The columns of one class are connected to `u`, and `v` to those of the other.
theorem ready (hl : Sound columns B l) :
    ∀ e ∈ (l.classOf u).flatMap fun c => (l.classOf v).map (c, ·), l.Ready u v e := by
  intro e he
  simp only [List.mem_flatMap, List.mem_map] at he
  obtain ⟨a, ha, b, hb, rfl⟩ := he
  have ⟨i, hi⟩ := eqvGen_iff_chain.mp (hl.mem_classOf u a |>.mp ha).2
  have ⟨j, hj⟩ := eqvGen_iff_chain.mp (hl.mem_classOf v b |>.mp hb).2
  exact ⟨⟨i, hl.shortest _ _ _ hi.symm⟩, ⟨j, hl.shortest _ _ _ hj⟩⟩

-- The class of a column of either class is their union, as the new pair makes them equal.
theorem mem_classOf_addPair (hl : Sound columns B l) (hB : B.Over columns) (hu : u ∈ columns) (hv : v ∈ columns) :
    b ∈ (Links.addPair k key l (u, v)).classOf a ↔ a ∈ columns ∧ EqvGen (B.insert k u v).Paired a b := by
  have hmerged {c} : c ∈ merge (l.classOf u) (l.classOf v) ↔ EqvGen B.Paired u c ∨ EqvGen B.Paired v c := by
    simp [mem_merge, hl.mem_classOf, hu, hv]
  have symm {a b} : EqvGen B.Paired a b → EqvGen B.Paired b a := .symm _ _
  have trans {a b c} : EqvGen B.Paired a b → EqvGen B.Paired b c → EqvGen B.Paired a c := .trans _ _ _
  rw [classOf_addPair, Bonds.eqvGen_insert]
  by_cases ha : a ∈ merge (l.classOf u) (l.classOf v)
  case pos =>
    rw [if_pos ha, hmerged]
    have hcol : a ∈ columns := (hmerged.mp ha).elim (hB.mem_iff · |>.mp hu) (hB.mem_iff · |>.mp hv)
    refine ⟨fun hb => ⟨hcol, ?_⟩, fun ⟨_, h⟩ => ?_⟩
    · rcases hmerged.mp ha with ha | ha <;> rcases hb with hb | hb
      · exact .inl (trans (symm ha) hb)
      · exact .inr <| .inl ⟨symm ha, hb⟩
      · exact .inr <| .inr ⟨symm ha, hb⟩
      · exact .inl (trans (symm ha) hb)
    · rcases h with h | ⟨-, h⟩ | ⟨-, h⟩
      · exact (hmerged.mp ha).imp (trans · h) (trans · h)
      · exact .inr h
      · exact .inl h
  case neg =>
    rw [if_neg ha, hl.mem_classOf]
    refine and_congr_right fun _ => ⟨.inl, fun h => ?_⟩
    rcases h with h | ⟨h, -⟩ | ⟨h, -⟩
    · exact h
    · exact absurd (hmerged.mpr (.inl (symm h))) ha
    · exact absurd (hmerged.mpr (.inr (symm h))) ha

theorem addPair (hl : Sound columns B l) (hB : B.Over columns) (hu : u ∈ columns) (hv : v ∈ columns)
    (hsource : u.table = key.source) (htarget : v.table = key.target) :
    Sound columns (B.insert k u v) (Links.addPair k key l (u, v)) := by
  have hnew : B.insert k u v k u v := .inr ⟨rfl, rfl, rfl⟩
  have hl' : Walked (B.insert k u v) l := hl.toWalked.mono fun _ _ _ => .inl
  have ⟨hw, hc, hends⟩ := foldl_connectOver hnew hsource htarget hl' hl.ready
  -- Chains that use the new pair once come as close as those to its columns were before.
  have across {i j a b} (ha : Chain B.Paired i a u) (hb : Chain B.Paired j v b) :
      (Links.addPair k key l (u, v)).Within (i + 1 + j) a b := by
    have ha' := (hl.mem_classOf u a).mpr ⟨hu, ha.symm.eqvGen⟩
    have hb' := (hl.mem_classOf v b).mpr ⟨hv, hb.eqvGen⟩
    refine hends (a, b) ?_ i j (hl.shortest _ _ _ ha) (hl.shortest _ _ _ hb)
    exact List.mem_flatMap.mpr ⟨a, ha', List.mem_map.mpr ⟨b, hb', rfl⟩⟩
  exact {
    irrefl := hw.irrefl
    walk := hw.walk
    mirror := hw.mirror
    mem_classOf := fun _ _ => hl.mem_classOf_addPair hB hu hv
    shortest := fun n a b h => by
      rcases h.split Bonds.paired_insert.mp with ⟨m, hm, h⟩ | ⟨i, j, hn, hi, hj⟩ | ⟨i, j, hn, hi, hj⟩
      · exact (hc _ _ _ (hl.shortest _ _ _ h)).mono hm
      · exact (across hi hj).mono hn
      · exact ((across hj.symm hi.symm).symm hw).mono (by omega)
  }

theorem foldl_addPair {ps : List (ColumnRef × ColumnRef)} (hl : Sound columns B l) (hB : B.Over columns)
    (hk : key.Fits columns) (hps : ∀ p ∈ ps, p ∈ key.pairs) :
    Sound columns (fun j a b => B j a b ∨ (j = k ∧ (a, b) ∈ ps)) (ps.foldl (Links.addPair k key) l) := by
  induction ps generalizing B l
  case nil => exact hl.congr (by simp)
  case cons p ps ih =>
    obtain ⟨u, v⟩ := p
    have hp : (u, v) ∈ key.pairs := hps _ List.mem_cons_self
    have hu := hk.source_mem _ hp
    have hv := hk.target_mem _ hp
    have hl' := hl.addPair (k := k) hB hu hv (hk.source _ hp) (hk.target _ hp)
    have hrest := ih hl' (hB.insert hu hv) fun p h => hps p (List.mem_cons_of_mem _ h)
    refine hrest.congr fun j a b => ?_
    simp only [Bonds.insert, List.mem_cons, Prod.mk.injEq]
    tauto

theorem over_addKey (hB : B.Over columns) (hk : key.Fits columns) :
    Bonds.Over columns fun j a b => B j a b ∨ (j = k ∧ (a, b) ∈ key.pairs) := by
  rintro j a b (h | ⟨-, h⟩)
  case inl => exact hB j a b h
  case inr => exact ⟨hk.source_mem _ h, hk.target_mem _ h⟩

theorem foldl_addKey {entries : List (ForeignKey × Nat)} (hl : Sound columns B l) (hB : B.Over columns)
    (hk : ∀ e ∈ entries, e.1.Fits columns) :
    Sound columns (fun j a b => B j a b ∨ ∃ key, (key, j) ∈ entries ∧ (a, b) ∈ key.pairs)
      (entries.foldl addKey l) := by
  induction entries generalizing B l
  case nil => exact hl.congr (by simp)
  case cons e entries ih =>
    obtain ⟨key, i⟩ := e
    have hkey : key.Fits columns := hk _ List.mem_cons_self
    have hl' := hl.foldl_addPair (k := i) hB hkey fun _ => id
    have hrest := ih hl' (over_addKey hB hkey) fun e h => hk e (List.mem_cons_of_mem _ h)
    refine hrest.congr fun j a b => ?_
    simp only [List.mem_cons, Prod.mk.injEq]
    constructor
    · rintro ((h | ⟨rfl, h⟩) | ⟨key', h, hp⟩)
      · exact .inl h
      · exact .inr ⟨key, .inl ⟨rfl, rfl⟩, h⟩
      · exact .inr ⟨key', .inr h, hp⟩
    · rintro (h | ⟨key', ⟨rfl, rfl⟩ | h, hp⟩)
      · exact .inl (.inl h)
      · exact .inl (.inr ⟨rfl, hp⟩)
      · exact .inr ⟨key', h, hp⟩

theorem ofKeys {keys : List ForeignKey} (hk : ∀ key ∈ keys, key.Fits columns) :
    Sound columns (Bonds.ofKeys keys) (Links.ofKeys columns keys) := by
  have hentries : ∀ e ∈ keys.zipIdx, e.1.Fits columns := fun e he => hk _ (List.fst_mem_of_mem_zipIdx he)
  have hl := ofColumns.foldl_addKey (fun _ _ _ => False.elim) hentries
  refine hl.congr fun k a b => ?_
  simp [Bonds.ofKeys, List.mk_mem_zipIdx_iff_getElem?]

end Sound

end Links

end Subplans
