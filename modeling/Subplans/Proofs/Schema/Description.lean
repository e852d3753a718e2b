import Subplans.Proofs.Outcome
import Subplans.Proofs.Schema.Keys
import Subplans.Schema.Description

/-!
The schemas that descriptions describe.

A description is accepted only if each of its keys finds its columns in the two tables that it names. So
the links of the schema are sound for the pairs of its keys (`Schema.Loaded.sound`).
-/

namespace Subplans

namespace Schema

variable {tables : List Table} {c : ColumnRef}

theorem mem_columnsOf : c ∈ columnsOf tables ↔ ∃ t, tables[c.table]? = some t ∧ c.column < t.columns.length where
  mp h := by
    simp only [columnsOf, List.mem_flatMap, List.mem_map, List.mem_range, Prod.exists,
      List.mk_mem_zipIdx_iff_getElem?] at h
    obtain ⟨t, i, ht, j, hj, rfl⟩ := h
    exact ⟨t, ht, hj⟩
  mpr h := by
    have ⟨t, ht, hc⟩ := h
    simp only [columnsOf, List.mem_flatMap, List.mem_map, List.mem_range, Prod.exists,
      List.mk_mem_zipIdx_iff_getElem?]
    exact ⟨t, c.table, ht, c.column, hc, rfl⟩

theorem findColumn_eq_ok {table column : String} (h : findColumn tables table column = .ok c) :
    tables.findIdx? (·.name == table) = some c.table ∧ c ∈ columnsOf tables := by
  unfold findColumn at h
  split at h
  case h_1 => cases h
  case h_2 i hi =>
    split at h
    case h_1 => cases h
    case h_2 j hj =>
      cases h
      have ⟨hlt, _⟩ := List.findIdx?_eq_some_iff_getElem.mp hi
      have ⟨hj, _⟩ := List.findIdx?_eq_some_iff_getElem.mp hj
      refine ⟨hi, mem_columnsOf.mpr ⟨tables[i], by simp [hlt], ?_⟩⟩
      simpa [List.getD_eq_getElem?_getD, hlt] using hj

-- All columns of one side are looked up in one table, the one that the first of them is found in.
theorem fits_of_buildKey {d : KeyDescription} {key : ForeignKey} (h : buildKey tables d = .ok key) :
    key.Fits (columnsOf tables) := by
  unfold buildKey at h
  split at h
  case isTrue => cases h
  have ⟨pairs, hpairs, h⟩ := Outcome.bind_eq_ok.mp h
  have found : ∀ p ∈ pairs, (tables.findIdx? (·.name == d.source) = some p.1.table ∧ p.1 ∈ columnsOf tables) ∧
      (tables.findIdx? (·.name == d.target) = some p.2.table ∧ p.2 ∈ columnsOf tables) := by
    intro p hp
    have ⟨_, _, hf⟩ := Outcome.exists_of_mapM_eq_ok hpairs p hp
    have ⟨_, ha, hf⟩ := Outcome.bind_eq_ok.mp hf
    have ⟨_, hb, hf⟩ := Outcome.bind_eq_ok.mp hf
    cases Outcome.pure_eq_ok.mp hf
    exact ⟨findColumn_eq_ok ha, findColumn_eq_ok hb⟩
  split at h
  case h_1 => cases h
  case h_2 a b rest =>
    cases Outcome.pure_eq_ok.mp h
    have ⟨⟨ha, _⟩, ⟨hb, _⟩⟩ := found (a, b) List.mem_cons_self
    exact {
      source_mem := fun p hp => (found p hp).1.2
      target_mem := fun p hp => (found p hp).2.2
      source := fun p hp => Option.some.inj <| (found p hp).1.1.symm.trans ha
      target := fun p hp => Option.some.inj <| (found p hp).2.1.symm.trans hb
    }

-- What loading has made sure of: every key fits the columns, and the links are those of the keys.
structure Loaded (s : Schema) : Prop where
  fits  : ∀ key ∈ s.keys, key.Fits (columnsOf s.tables)
  links : s.links = Links.ofKeys (columnsOf s.tables) s.keys

theorem loaded_of_ofDescription {d : SchemaDescription} {s : Schema} (h : ofDescription d = .ok s) : s.Loaded := by
  unfold ofDescription at h
  have ⟨tables, _, h⟩ := Outcome.bind_eq_ok.mp h
  have ⟨keys, hkeys, h⟩ := Outcome.bind_eq_ok.mp h
  cases Outcome.pure_eq_ok.mp h
  refine ⟨fun key hkey => ?_, rfl⟩
  have ⟨_, _, hd⟩ := Outcome.exists_of_mapM_eq_ok hkeys key hkey
  exact fits_of_buildKey hd

theorem Loaded.sound {s : Schema} (h : s.Loaded) :
    s.links.Sound (columnsOf s.tables) (Bonds.ofKeys s.keys) :=
  h.links ▸ .ofKeys h.fits

end Schema

end Subplans
