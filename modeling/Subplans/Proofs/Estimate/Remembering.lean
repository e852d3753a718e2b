import Subplans.Estimate.Memory
import Subplans.Proofs.Equalities.Printed
import Subplans.Proofs.Estimate.Simulation

/-!
An estimator that remembers answers like the estimator below it.

This holds of all calls one after the other, if what the estimator below answers depends on the SQL of a query only. It
is asked for the same SQL again only after it has failed or all was forgotten, and what is remembered are its answers
(`answers_remembering`).
-/

namespace Subplans.Estimator

open Outcome QueryGraph

variable {σ τ α β : Type}

inductive Event
  -- The estimator was asked for a query with this SQL.
  | asked (sql : String) (answer : Except BackendError Float)
  | forgotten

def Event.isAsked : Event → Bool
  | asked _ _ => true
  | forgotten => false

-- What happened since all was forgotten, if the latest event comes first.
def recent (history : List Event) : List Event :=
  history.takeWhile Event.isAsked

-- If an estimator is asked again before all is forgotten, it has failed. The latest event comes first.
def Sparing (history : List Event) : Prop :=
  ∀ sql answer again later between earlier,
    history = later ++ .asked sql again :: (between ++ .asked sql answer :: earlier) → .forgotten ∉ between →
    ∃ err, answer = .error err

-- Keeps account of what an estimator is asked.
def noting (e : Estimator (StateM σ)) : Estimator (StateM (List Event × σ)) where
  connected s g := ExceptT.mk fun (history, st) =>
    let (answer, st) := (e.connected s g).run.run st
    (answer, .asked (g.sql s false) answer :: history, st)

inductive Call
  | estimate (s : Schema) (query : Option QueryGraph)
  | estimateAll (s : Schema) (batches : List (List (Option QueryGraph)))
  | forget

-- What an estimator answers to a call. One that does not remember has nothing to forget.
def Call.answer {m : Type → Type} [Monad m] (e : Estimator m) : Call → ExceptT BackendError m (List Float)
  | estimate s query => do return [← e.estimate s query]
  | estimateAll s batches => e.estimateAll s batches.flatten
  | forget => return []

structure Session (σ : Type) where
  memory  : Memory
  history : List Event
  -- The state of the estimator below.
  state   : σ

-- The outcome of a run with a memory, and where it ends.
def recalling (x : ExceptT BackendError (StateT Memory (StateM τ)) α) (memory : Memory) (st : τ) :
    (Except BackendError α × Memory) × τ :=
  ((x.run.run memory).run st).run

namespace Session

-- The call of an estimator that remembers.
def call (e : Estimator (StateM σ)) (session : Session σ) : Call → Except BackendError (List Float) × Session σ
  | .forget =>
    let ((reply, memory), st) := recalling (ExceptT.lift forget) session.memory session.state
    (reply.map fun _ => [], ⟨memory, .forgotten :: session.history, st⟩)
  | c =>
    let ((reply, memory), history, st) :=
      recalling (c.answer e.noting.remembering) session.memory (session.history, session.state)
    (reply, ⟨memory, history, st⟩)

-- The replies to some calls, one after the other.
def calls (e : Estimator (StateM σ)) (session : Session σ) :
    List Call → List (Except BackendError (List Float)) × Session σ
  | [] => ([], session)
  | c :: rest =>
    let (reply, session) := session.call e c
    let (replies, session) := session.calls e rest
    (reply :: replies, session)

end Session

variable {e : Estimator (StateM σ)} {s : Schema} {g : QueryGraph} {answer : String → Except BackendError Float}
  {memory : Memory} {history between earlier : List Event} {sql : String} {x : Float} {st : σ}

theorem recent_asked {r : Except BackendError Float} :
    recent (.asked sql r :: history) = .asked sql r :: recent history :=
  rfl

theorem recent_append (h : .forgotten ∉ between) : recent (between ++ earlier) = between ++ recent earlier := by
  refine List.takeWhile_append_of_pos fun event hevent => ?_
  cases event
  case asked => rfl
  case forgotten => exact absurd hevent h

-- What is remembered are the answers since all was forgotten.
structure Consistent (answer : String → Except BackendError Float) (memory : Memory) (history : List Event) : Prop where
  lookup  : ∀ sql x, memory.lookup sql = some x ↔ .asked sql (.ok x) ∈ recent history
  right   : ∀ sql r, .asked sql r ∈ history → r = answer sql
  sparing : Sparing history

namespace Consistent

theorem start : Consistent answer [] [] where
  lookup _ _ := iff_of_false nofun nofun
  right := nofun
  sparing _ _ _ later _ _ h := by cases later <;> cases h

theorem answer_eq (h : Consistent answer memory history) (hsql : memory.lookup sql = some x) : answer sql = .ok x :=
  (h.right sql _ ((List.takeWhile_prefix _).mem ((h.lookup sql x).mp hsql))).symm

theorem forget (h : Consistent answer memory history) : Consistent answer [] (.forgotten :: history) where
  lookup _ _ := iff_of_false nofun nofun
  right sql r hr := h.right sql r ((List.mem_cons.mp hr).resolve_left nofun)
  sparing sql r again later between earlier heq hnone := by
    rcases later with _ | ⟨event, later⟩
    case nil => cases heq
    case cons => exact h.sparing sql r again later between earlier (List.cons.inj heq).2 hnone

-- What is not remembered was not asked for before, or failed.
theorem asked (h : Consistent answer memory history) (hnone : memory.lookup sql = none) : Consistent answer
    (match answer sql with
      | .ok x => Assoc.put sql x memory
      | .error _ => memory) (.asked sql (answer sql) :: history) where
  lookup key x := by
    rw [recent_asked, List.mem_cons, ← h.lookup]
    by_cases hkey : key = sql
    case pos =>
      subst hkey
      cases hanswer : answer key <;> simp [Assoc.lookup_put, hnone, eq_comm]
    case neg =>
      cases hanswer : answer sql <;> simp [Assoc.lookup_put, hkey]
  right key r hr := by
    rcases List.mem_cons.mp hr with heq | hr
    · cases heq
      rfl
    · exact h.right key r hr
  sparing key r again later between earlier heq hbetween := by
    rcases later with _ | ⟨event, later⟩
    case cons => exact h.sparing key r again later between earlier (List.cons.inj heq).2 hbetween
    case nil =>
      obtain ⟨hevent, rfl⟩ := List.cons.inj heq
      cases hevent
      cases r
      case error err => exact ⟨err, rfl⟩
      case ok x =>
        have hrecent : .asked sql (.ok x) ∈ recent (between ++ .asked sql (.ok x) :: earlier) := by
          simp [recent_append hbetween, recent_asked]
        rw [← h.lookup, hnone] at hrecent
        cases hrecent

end Consistent

theorem recalling_bind {x : ExceptT BackendError (StateT Memory (StateM τ)) α}
    {f : α → ExceptT BackendError (StateT Memory (StateM τ)) β} {st : τ} :
    recalling (x >>= f) memory st = match recalling x memory st with
      | ((.ok a, memory'), st') => recalling (f a) memory' st'
      | ((.error err, memory'), st') => ((.error err, memory'), st') := by
  rw [recalling, ExceptT.run_bind, StateT.run_bind, StateT.run_bind, Id.run_bind, recalling]
  rcases ((x.run.run memory).run st).run with ⟨⟨_ | _, _⟩, _⟩
  case error => rfl
  case ok => rfl

theorem recalling_remembered (h : memory.lookup (g.sql s false) = some x) :
    recalling (e.noting.remembering.connected s g) memory (history, st) = ((.ok x, memory), history, st) := by
  have hget : recalling get memory (history, st) = ((.ok memory, memory), history, st) := rfl
  rw [remembering, recalling_bind, hget]
  simp only [h]
  rfl

theorem recalling_asked (h : memory.lookup (g.sql s false) = none) :
    recalling (e.noting.remembering.connected s g) memory (history, st) =
      ((outcome (e.connected s g) st, match outcome (e.connected s g) st with
          | .ok x => Assoc.put (g.sql s false) x memory
          | .error _ => memory),
        .asked (g.sql s false) (outcome (e.connected s g) st) :: history, after (e.connected s g) st) := by
  have hget : recalling get memory (history, st) = ((.ok memory, memory), history, st) := rfl
  have hask : recalling (e.noting.lift.connected s g) memory (history, st) = ((outcome (e.connected s g) st, memory),
      .asked (g.sql s false) (outcome (e.connected s g) st) :: history, after (e.connected s g) st) := rfl
  rw [remembering, recalling_bind, hget]
  simp only [h]
  rw [recalling_bind, hask]
  cases outcome (e.connected s g) st
  case error => rfl
  case ok => rfl

-- A run with a memory comes to the same as one without, and keeps the memory consistent.
def transparent (answer : String → Except BackendError Float) :
    Simulation BackendError (StateT Memory (StateM (List Event × σ))) (StateM σ) where
  Simulates x y := ∀ memory history st st', Consistent answer memory history →
    (recalling x memory (history, st)).1.1 = outcome y st' ∧
    Consistent answer (recalling x memory (history, st)).1.2 (recalling x memory (history, st)).2.1
  answer _ _ _ _ _ h := ⟨rfl, h⟩
  follow {_ _ x _ _ _} hx hf memory history st st' h := by
    obtain ⟨hx, hconsistent⟩ := hx memory history st st' h
    rw [recalling_bind, outcome_bind, ← hx]
    rcases hrun : recalling x memory (history, st) with ⟨⟨_ | a, memory'⟩, history', st₁⟩
    all_goals rw [hrun] at hconsistent
    case error => exact ⟨rfl, hconsistent⟩
    case ok => exact hf a memory' history' st₁ _ hconsistent

section Answers

variable (he : ∀ s g st, outcome (e.connected s g) st = answer (g.sql s false))

include he

theorem transparent_connected (s : Schema) (g : QueryGraph) :
    (transparent answer).Simulates (e.noting.remembering.connected s g) (e.connected s g) := by
  intro memory history st st' h
  rw [he s g st']
  cases hlookup : memory.lookup (g.sql s false)
  case some x =>
    rw [recalling_remembered hlookup]
    exact ⟨(h.answer_eq hlookup).symm, h⟩
  case none =>
    rw [recalling_asked hlookup, he s g st]
    exact ⟨rfl, h.asked hlookup⟩

theorem transparent_answer (c : Call) :
    (transparent answer).Simulates (c.answer e.noting.remembering) (c.answer e) := by
  cases c
  case estimate s query =>
    exact (transparent answer).follow (estimate_simulates _ (transparent_connected he s) query)
      fun _ => (transparent answer).answer _
  case estimateAll s batches => exact estimateAll_simulates _ (transparent_connected he s) _
  case forget => exact (transparent answer).answer []

theorem answers_call {session : Session σ} (h : Consistent answer session.memory session.history) (c : Call) (st : σ) :
    (session.call e c).1 = outcome (c.answer e) st ∧
    Consistent answer (session.call e c).2.memory (session.call e c).2.history := by
  cases c
  case forget => exact ⟨rfl, h.forget⟩
  case estimate s query => exact transparent_answer he (.estimate s query) _ _ session.state st h
  case estimateAll s batches => exact transparent_answer he (.estimateAll s batches) _ _ session.state st h

theorem answers_calls (session : Session σ) (h : Consistent answer session.memory session.history)
    (calls : List Call) (st : σ) :
    (session.calls e calls).1 = calls.map (fun c => outcome (c.answer e) st) ∧
    Consistent answer (session.calls e calls).2.memory (session.calls e calls).2.history := by
  induction calls generalizing session
  case nil => exact ⟨rfl, h⟩
  case cons c rest ih =>
    obtain ⟨hreply, hnext⟩ := answers_call he h c st
    obtain ⟨hreplies, hlast⟩ := ih _ hnext
    exact ⟨congrArg₂ List.cons hreply hreplies, hlast⟩

end Answers

theorem answers_remembering (answer : String → Except BackendError Float)
    (he : ∀ s g st, outcome (e.connected s g) st = answer (g.sql s false)) (calls : List Call) (st : σ) :
    let (replies, session) := Session.calls e ⟨[], [], st⟩ calls
    (∀ st', replies = calls.map fun c => outcome (c.answer e) st') ∧
    Sparing session.history ∧
    (∀ sql x, session.memory.lookup sql = some x ↔ .asked sql (.ok x) ∈ recent session.history) ∧
    ∀ sql err, answer sql = .error err → session.memory.lookup sql = none := by
  have hanswers := answers_calls he ⟨[], [], st⟩ .start calls
  have hconsistent := (hanswers st).2
  refine ⟨fun st' => (hanswers st').1, hconsistent.sparing, hconsistent.lookup, fun sql err herr => ?_⟩
  rw [Option.eq_none_iff_forall_not_mem]
  intro x hx
  cases herr.symm.trans (hconsistent.answer_eq hx)

def always (x : Float) : Estimator (StateM Nat) where
  connected _ _ := do
    modify (· + 1)
    return x

-- The same query before and after all is forgotten, and twice in one call.
def filmCalls : List Call := [
  .estimate filmSchema (some .linkedTwice), .estimate filmSchema none, .forget,
  .estimateAll filmSchema [[some .linkedTwice, none], [], [some .linkedTwice]]]

theorem answers_remembering_always : (∀ s g st, outcome ((always 7).connected s g) st = .ok 7) ∧
    let (replies, session) := Session.calls (always 7) ⟨[], [], 0⟩ filmCalls
    replies = [.ok [7], .ok [unknownEstimate], .ok [], .ok [7, unknownEstimate, 7]] ∧ Sparing session.history := by
  have he : ∀ s g st, outcome ((always 7).connected s g) st = .ok 7 := fun _ _ _ => rfl
  obtain ⟨hreplies, hsparing, -⟩ := answers_remembering (fun _ => .ok 7) he filmCalls 0
  exact ⟨he, hreplies 0, hsparing⟩

end Subplans.Estimator
