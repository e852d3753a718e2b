import Subplans.Proofs.Schema.Description
import Subplans.Proofs.Schema.Lookups

/-!
Which columns of a schema foreign keys force to be equal, and along which walks.

For every schema that is loaded from a description: two columns are equivalent exactly if the pairs of the
keys link them (`equivalence_closure`), the connection of two equivalent columns is a walk along pairs that
mirrors the one in the other direction (`connection_walk`), and no chain of pairs is shorter
(`connection_shortest`).
-/

namespace Subplans.Schema

open Relation

variable {d : SchemaDescription} {s : Schema} {a b : ColumnRef} {w : Connection}

-- The pairs of the schema's keys.
def bonds (s : Schema) : Bonds :=
  Bonds.ofKeys s.keys

namespace Loaded

theorem areEquivalent_iff (h : s.Loaded) :
    s.areEquivalent a b = true ↔ a ∈ columnsOf s.tables ∧ EqvGen s.bonds.Paired a b := by
  rw [areEquivalent, List.contains_iff_mem]
  exact h.sound.mem_classOf a b

theorem known (h : s.Loaded) : s.bonds.Over (columnsOf s.tables) := by
  rintro k a b ⟨key, hkey, hmem⟩
  have hfits := h.fits key (List.mem_of_getElem? hkey)
  exact ⟨hfits.source_mem _ hmem, hfits.target_mem _ hmem⟩

theorem areEquivalent_comm (h : s.Loaded) (a b : ColumnRef) : s.areEquivalent a b = s.areEquivalent b a := by
  rw [Bool.eq_iff_iff, h.areEquivalent_iff, h.areEquivalent_iff]
  constructor
  · exact fun ⟨hmem, hab⟩ => ⟨(h.known.mem_iff hab).mp hmem, .symm _ _ hab⟩
  · exact fun ⟨hmem, hba⟩ => ⟨(h.known.mem_iff hba).mp hmem, .symm _ _ hba⟩

theorem connection?_comm (h : s.Loaded) (a b : ColumnRef) :
    s.connection? b a = (s.connection? a b).map Connection.reversed :=
  h.sound.mirror a b

theorem connection?_isSome_iff (h : s.Loaded) : (s.connection? a b).isSome ↔ a ≠ b ∧ EqvGen s.bonds.Paired a b :=
  h.sound.connection?_isSome_iff

theorem exists_connection (h : s.Loaded) (hab : a ≠ b) (he : s.areEquivalent a b = true) :
    ∃ w, s.connection? a b = some w :=
  Option.isSome_iff_exists.mp (h.connection?_isSome_iff.mpr ⟨hab, (h.areEquivalent_iff.mp he).2⟩)

theorem joins_le (h : s.Loaded) (hw : s.connection? a b = some w) {n} (hn : Chain s.bonds.Paired n a b) :
    w.joins ≤ n := by
  have hsome : (s.connection? a b).isSome := hw ▸ rfl
  have hab := (h.connection?_isSome_iff.mp hsome).1
  have ⟨w', hw', hj⟩ := (h.sound.shortest n a b hn).resolve_left hab
  cases hw.symm.trans hw'
  exact hj

-- A step from a column to itself would make the walk longer than it has to be.
theorem walk_proper (h : s.Loaded) (hw : s.connection? a b = some w) :
    Walk (fun k natural a b => s.bonds.Crosses k natural a b ∧ a ≠ b) a w b := by
  rcases (h.sound.walk hw).proper_or_shorter with hwalk | ⟨n, hlt, hn⟩
  · exact hwalk
  · exact absurd (h.joins_le hw hn) (Nat.not_le_of_lt hlt)

end Loaded

-- A table that two others refer to, one of which also refers to the other.
def triangle : SchemaDescription where
  name := "triangle"
  tables := [
    { name := "a", cardinality := 1, columns := [{ name := "id", dataType := "integer" }] },
    { name := "b", cardinality := 1, columns := [{ name := "a_id", dataType := "integer" }] },
    { name := "c", cardinality := 1, columns := [{ name := "a_id", dataType := "integer" }] }]
  keys := [
    { name := "b_a", source := "b", sourceColumns := ["a_id"], target := "a", targetColumns := ["id"] },
    { name := "c_a", source := "c", sourceColumns := ["a_id"], target := "a", targetColumns := ["id"] },
    { name := "c_b", source := "c", sourceColumns := ["a_id"], target := "b", targetColumns := ["a_id"] }]

theorem ofDescription_triangle : ∃ s, ofDescription triangle = .ok s ∧
    ⟨2, 0⟩ ∈ columnsOf s.tables ∧ ⟨1, 0⟩ ∈ columnsOf s.tables ∧ s.areEquivalent ⟨2, 0⟩ ⟨1, 0⟩ = true :=
  ⟨_, rfl, by decide, by decide, by decide +kernel⟩

-- The connection follows the pairs of keys from column to column, and the connection in the other direction
-- is the same walk from its end to its start.
theorem connection_walk (h : ofDescription d = .ok s) (hab : a ≠ b) (he : s.areEquivalent a b = true) :
    ∃ w, s.connection? a b = some w ∧ Walk s.bonds.Crosses a w b ∧ s.connection? b a = some w.reversed := by
  have hs := loaded_of_ofDescription h
  have ⟨w, hw⟩ := hs.exists_connection hab he
  exact ⟨w, hw, hs.sound.walk hw, by rw [hs.connection?_comm a b, hw, Option.map_some]⟩

theorem connection_walk_triangle : ∃ s, ofDescription triangle = .ok s ∧
    (⟨2, 0⟩ : ColumnRef) ≠ ⟨1, 0⟩ ∧ s.areEquivalent ⟨2, 0⟩ ⟨1, 0⟩ = true ∧
    ∃ w, s.connection? ⟨2, 0⟩ ⟨1, 0⟩ = some w ∧ Walk s.bonds.Crosses ⟨2, 0⟩ w ⟨1, 0⟩ ∧
      s.connection? ⟨1, 0⟩ ⟨2, 0⟩ = some w.reversed := by
  have ⟨s, h, _, _, he⟩ := ofDescription_triangle
  exact ⟨s, h, by decide, he, connection_walk h (by decide) he⟩

-- No chain of pairs, each used in either direction, takes fewer joins.
theorem connection_shortest (h : ofDescription d = .ok s) (hab : a ≠ b) (he : s.areEquivalent a b = true) :
    ∃ w, s.connection? a b = some w ∧ ∀ n, Chain s.bonds.Paired n a b → w.joins ≤ n := by
  have hs := loaded_of_ofDescription h
  have ⟨w, hw⟩ := hs.exists_connection hab he
  exact ⟨w, hw, fun _ hn => hs.joins_le hw hn⟩

-- The two referring tables were connected through the third before their own key was taken in.
theorem connection_shortest_triangle : ∃ s, ofDescription triangle = .ok s ∧
    (⟨2, 0⟩ : ColumnRef) ≠ ⟨1, 0⟩ ∧ s.areEquivalent ⟨2, 0⟩ ⟨1, 0⟩ = true ∧
    ∃ w, s.connection? ⟨2, 0⟩ ⟨1, 0⟩ = some w ∧ ∀ n, Chain s.bonds.Paired n ⟨2, 0⟩ ⟨1, 0⟩ → w.joins ≤ n := by
  have ⟨s, h, _, _, he⟩ := ofDescription_triangle
  exact ⟨s, h, by decide, he, connection_shortest h (by decide) he⟩

end Subplans.Schema
