/-
# Durable.GateIdentity — whose messages the gate of a loop admits

`addSubjectLoop` makes the processing gate of a loop for the worker of the call it runs in.
A subject that is registered and still wanted keeps its loop, and with it the gate. Where the
configuration allows the worker to change, that gate goes on admitting for the worker before.

* `gate_follows_worker`: as long as no call that changes the worker keeps a subject, an
  update that returned nil has left only gates of its own worker.
* `kept_gate_is_stale`: one that keeps a subject leaves it behind the gate of the old worker.
-/
import Parti.Durable.ProcessingGate
import Parti.Durable.WorkerConsumer

namespace Parti.Durable.WorkerConsumer

open Parti.Types Lib List

/-- The consumer, and the gate in front of the handler of each loop it ever started. -/
structure Gated where
  base : State
  gates : List ProcessingGate

def Call.workerID : Call → String
  | .update workerID _ => workerID
  | .close => ""

/-- A step of the consumer at a time: a loop that starts gets a gate of its own, and no
other step touches a gate. -/
def gatedStep (cfg : WorkerConsumerConfig) (gate : ProcessingGateConfig) (s : Gated)
    (input : Input × Int) : Option Gated :=
  match s.base.pc, input.1 with
  | .adding call (_ :: _), .added .started =>
    match newProcessingGate call.workerID cfg.subjectTemplate gate input.2 with
    | .ok made => (step cfg s.base input.1).map (⟨·, s.gates ++ [made]⟩)
    | .error _ => none
  | _, _ => (step cfg s.base input.1).map (⟨·, s.gates⟩)

def gatedSystem (cfg : WorkerConsumerConfig) (gate : ProcessingGateConfig) :
    System Gated (Input × Int) where
  init s := s = ⟨⟨.new, .idle⟩, []⟩
  step := gatedStep cfg gate

def Pc.updated : Pc → Option String
  | .returned (.update workerID _) none => some workerID
  | _ => none

/-- The entries that the call under way deletes, whatever becomes of it. -/
def Pc.leaving : Pc → List GoString
  | .stopping _ _ keys _ | .waiting _ keys _ => keys
  | _ => []

def Replaces (cfg : WorkerConsumerConfig) (wc : WorkerConsumer) : Input → Bool
  | .call (.update workerID partitions) => wc.workerID = workerID ||
      match buildSubjects cfg.engine cfg.subjectTemplate partitions with
      | .ok built => built.all fun subject => subject ∉ wc.subjects
      | .error _ => true
  | _ => true

def Pc.Working (wc : WorkerConsumer) : Pc → Prop
  | .stopping call _ _ _ | .waiting call _ _ | .returned call none =>
    call = .close ∨ call.workerID = wc.workerID
  | .adding call _ => call.workerID = wc.workerID
  | _ => True

/-- The gates of the entries that stay are those of the present worker. -/
structure Follows (s : Gated) : Prop where
  gated : s.gates.length = s.base.wc.loops.length
  captured : ∀ subject id, s.base.wc.subjects.lookup subject = some id →
    ∃ made, s.gates[id]? = some made ∧
      (subject ∉ s.base.pc.leaving → made.workerID = s.base.wc.workerID)
  working : s.base.pc.Working s.base.wc

section Steps

variable {cfg : WorkerConsumerConfig} {gate : ProcessingGateConfig} {wc : WorkerConsumer}
  {gates : List ProcessingGate} {workerID : String} {partitions : List Partition}

theorem newProcessingGate_worker {tmpl now made}
    (ok : newProcessingGate workerID tmpl gate now = .ok made) : made.workerID = workerID := by
  unfold newProcessingGate at ok
  split at ok
  · cases ok
  · cases ok; rfl

theorem Follows.beginUpdate (follows : Follows ⟨⟨wc, .idle⟩, gates⟩)
    (replaces : Replaces cfg wc (.call (.update workerID partitions)) = true) :
    Follows ⟨⟨(beginUpdate cfg wc workerID partitions).1,
      (beginUpdate cfg wc workerID partitions).2⟩, gates⟩ := by
  obtain ⟨gated, captured, -⟩ := follows
  simp only [WorkerConsumer.beginUpdate]
  split
  · exact ⟨gated, captured, trivial⟩
  split
  · exact ⟨gated, captured, trivial⟩
  split
  · exact ⟨gated, captured, trivial⟩
  next built builds =>
    split
    · exact ⟨gated, captured, trivial⟩
    -- an entry that is not in the difference is wanted, so the worker is the one before
    have kept : ∀ subject id, wc.subjects.lookup subject = some id → ∃ made,
        gates[id]? = some made ∧
          (subject ∉ (computeSubjectDiff built wc.subjects.keys).2 → made.workerID = workerID) := by
      intro subject id entry
      obtain ⟨made, there, own⟩ := captured subject id entry
      refine ⟨made, there, fun stays => ?_⟩
      have held : subject ∈ wc.subjects := AList.lookup_isSome.mp (entry ▸ rfl)
      have wanted : subject ∈ built := by
        simpa [computeSubjectDiff, AList.mem_keys.mp held] using stays
      have same : wc.workerID = workerID := by
        simp only [Replaces, builds, Bool.or_eq_true, decide_eq_true_eq, all_eq_true]
          at replaces
        exact replaces.resolve_right fun none_ => none_ subject wanted held
      exact (own not_mem_nil).trans same
    split
    next nothing =>
      rw [nothing] at kept
      exact ⟨gated, kept, rfl⟩
    next => exact ⟨gated, kept, .inr rfl⟩

theorem Follows.started {call subject toAdd now made}
    (follows : Follows ⟨⟨wc, .adding call (subject :: toAdd)⟩, gates⟩)
    (ok : newProcessingGate call.workerID cfg.subjectTemplate gate now = .ok made) :
    Follows ⟨⟨wc.addLoop subject, .adding call toAdd⟩, gates ++ [made]⟩ := by
  obtain ⟨gated, captured, working⟩ := follows
  refine ⟨by simpa [addLoop] using gated, fun other id entry => ?_, working⟩
  by_cases same : other = subject
  · subst same
    have last : wc.loops.length = id := by simpa [addLoop] using entry
    refine ⟨made, by simp [← last, ← gated], fun _ => ?_⟩
    exact (newProcessingGate_worker ok).trans working
  · obtain ⟨old, there, own⟩ := captured other id ((AList.lookup_insert_ne same).symm.trans entry)
    refine ⟨old, ?_, own⟩
    rwa [List.getElem?_append_left (List.getElem?_eq_some_iff.mp there).1]

theorem Follows.waited {call keys toAdd outcome pc}
    (follows : Follows ⟨⟨wc, .waiting call keys toAdd⟩, gates⟩)
    (moved : afterWait call toAdd outcome = some pc) :
    Follows ⟨⟨wc.deleteEntries keys, pc⟩, gates⟩ := by
  refine ⟨follows.gated, fun subject id entry => ?_, ?_⟩
  · by_cases removed : subject ∈ keys
    · cases (lookup_eraseAll_of_mem _ removed).symm.trans entry
    · obtain ⟨made, there, own⟩ := follows.captured subject id
        ((lookup_eraseAll_of_notMem _ removed).symm.trans entry)
      exact ⟨made, there, fun _ => own removed⟩
  · cases outcome with
    | finished =>
      cases call with
      | update workerID partitions => cases moved; exact follows.working.resolve_left nofun
      | close => cases moved; exact .inl rfl
    | cancelled => cases moved; trivial
    | timedOut => cases call <;> cases moved; trivial

theorem Follows.step {s s' : Gated} {input} (follows : Follows s)
    (replaces : Replaces cfg s.base.wc input.1 = true)
    (taken : gatedStep cfg gate s input = some s') : Follows s' := by
  obtain ⟨⟨wc, pc⟩, gates⟩ := s
  obtain ⟨input, now⟩ := input
  simp only [gatedStep] at taken replaces
  split at taken
  next call subject toAdd =>
    split at taken
    · next made ok =>
      cases taken
      exact follows.started ok
    · cases taken
  next other =>
    obtain ⟨base, moved, rfl⟩ := Option.map_eq_some_iff.mp taken
    simp only [WorkerConsumer.step] at moved
    split at moved
    case h_1 => cases moved; exact follows.beginUpdate replaces
    case h_2 =>
      cases moved
      refine ⟨follows.gated, fun subject id entry => ?_, .inl rfl⟩
      obtain ⟨made, there, own⟩ := follows.captured subject id entry
      exact ⟨made, there, fun _ => own not_mem_nil⟩
    case h_3 =>
      cases moved
      exact ⟨by simpa [stop] using follows.gated, follows.captured, follows.working⟩
    case h_4 => cases moved; exact ⟨follows.gated, follows.captured, follows.working⟩
    case h_5 =>
      obtain ⟨pc', waited, rfl⟩ := Option.map_eq_some_iff.mp moved
      exact follows.waited waited
    case h_6 => cases other _ _ _ rfl rfl
    case h_9 => cases moved; exact ⟨follows.gated, follows.captured, .inr follows.working⟩
    case h_7 | h_8 | h_10 => cases moved; exact ⟨follows.gated, follows.captured, trivial⟩
    case h_11 => cases moved

end Steps

theorem gate_follows_worker {cfg : WorkerConsumerConfig} {gate : ProcessingGateConfig} {s : Gated}
    (reached : Reachable (gatedSystem cfg gate)
      (fun s input => Replaces cfg s.base.wc input.1 = true) s) {workerID : String}
    (updated : s.base.pc.updated = some workerID) {subject : GoString} {id : Nat}
    (entry : s.base.wc.subjects.lookup subject = some id) :
    ∃ made, s.gates[id]? = some made ∧ ∀ now pid owner,
      made.judge now pid owner = .handled ↔ owner.1 = workerID ∧ owner.2 ∈ made.allowed now := by
  have follows : Follows s := by
    refine reached.invariant ?_ fun _ _ _ follows replaces => follows.step replaces
    rintro _ rfl
    exact ⟨rfl, fun _ _ entry => by simp [new] at entry, trivial⟩
  obtain ⟨made, there, own⟩ := follows.captured subject id entry
  have working := follows.working
  unfold Pc.updated at updated
  split at updated
  next at_ =>
    cases updated
    rw [at_] at own working
    have whose : made.workerID = workerID :=
      (own not_mem_nil).trans (working.resolve_left (by simp)).symm
    refine ⟨made, there, fun now pid owner => ?_⟩
    rw [ProcessingGate.judge, whose]
    split_ifs with mine allowed
    · simp [mine, allowed]
    · simp [allowed]
    · simp [mine]
  next => cases updated

/-- A consumer whose worker may change, and a gate without a warm-up. -/
def changingConfig : WorkerConsumerConfig := { plainConfig with allowWorkerIDChange := true }

def plainGate : ProcessingGateConfig := ⟨true, [], 0, []⟩

def keptRun (workerID : String) : List (Input × Int) :=
  [.call (updateTo 97), .added .started, .go, .go,
    .call (.update workerID [⟨[[97]], 1, []⟩]), .go].map (·, 0)

theorem gate_follows_worker_kept :
    ∃ s, Reachable (gatedSystem changingConfig plainGate)
        (fun s input => Replaces changingConfig s.base.wc input.1 = true) s ∧
      (s.base.pc.updated = some "w" ∧ s.base.wc.subjects.lookup [97] = some 0) ∧
      ∃ made, s.gates[0]? = some made ∧ ∀ now pid owner,
        made.judge now pid owner = .handled ↔ owner.1 = "w" ∧ owner.2 ∈ made.allowed now :=
  exists_reachable_and (M := gatedSystem changingConfig plainGate) rfl
    (keptRun "w") (by decide) fun _ reached holds => gate_follows_worker reached holds.1 holds.2

theorem kept_gate_is_stale :
    ∃ s, Reachable (gatedSystem changingConfig plainGate) Free s ∧
      s.base.pc.updated = some "v" ∧ s.base.wc.subjects.lookup [97] = some 0 ∧
      s.base.wc.loops = [⟨[97], false⟩] ∧ ∃ made ∈ s.gates[0]?,
        made.judge 0 [97] ("w", .stable) = .handled ∧
        made.judge 0 [97] ("v", .stable) = .nak [97] "v" .stable .nonOwner :=
  exists_reachable (M := gatedSystem changingConfig plainGate) _ rfl
    (keptRun "v") _ (by decide)

end Parti.Durable.WorkerConsumer
