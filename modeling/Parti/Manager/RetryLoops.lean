/-
# Manager.RetryLoops — no retry is forgotten

The apply-retry and the fetch-retry loop of a worker are two instances of the
loop of `Lib.RetryLoop`. What a goroutine owes to each slot is read off its program
counter (`applyDuty`, `fetchDuty`), and every step of every handler is one of the
moves the library allows (`apply_attends`, `fetch_attends`).

* `stashed_retry_is_served`: with no scheduling call part-way and no loop in its
  exit, a stashed assignment or commit has its loop, and no loop runs twice.
-/
import Parti.Manager.Steps

namespace Parti.Manager

open Parti.Types
open Lib Pc Cells

section Duties

variable {cfg : Config}

/-- What a goroutine owes to `stashedApplyRetry`. The apply pipeline runs in the
loop's body when the loop called it. -/
def Pc.applyDuty : Pc cfg → Duty
  | .apply .applyRetry _ .wake => ⟨true, true⟩
  | .apply .applyRetry _ _ => .body
  | .apply _ _ .wake => ⟨false, true⟩
  | .applyLoop loop => loop.duty
  | .recover .wake => ⟨false, true⟩
  | _ => .free

/-- What it owes to `stashedFetchRetry`. -/
def Pc.fetchDuty : Pc cfg → Duty
  | .commit _ .wake => ⟨false, true⟩
  | .apply .fetchRetry _ _ => .body
  | .fetchLoop loop => loop.duty
  | .fetch _ _ => .body
  | _ => .free

/-- Inside `scheduleApplyRetry`. -/
def Pc.schedulesApply : Pc cfg → Bool
  | .apply _ _ (.stash _) => true
  | .apply _ _ .wake => true
  | .recover (.stash _ _) => true
  | .recover .wake => true
  | _ => false

/-- Inside `scheduleCommitFetchRetry`. -/
def Pc.schedulesFetch : Pc cfg → Bool
  | .commit _ (.stash _) => true
  | .commit _ .wake => true
  | _ => false

def exiting : Loop → Bool
  | .leave | .recheck | .rewake => true
  | _ => false

def Pc.exitsApply : Pc cfg → Bool
  | .applyLoop loop => exiting loop
  | _ => false

def Pc.exitsFetch : Pc cfg → Bool
  | .fetchLoop loop => exiting loop
  | _ => false

/-- In the body of the apply-retry loop: waiting, taking an item, applying it,
or looking for the next one. -/
def Pc.runsApplyLoop : Pc cfg → Bool
  | .apply .applyRetry _ _ => true
  | .applyLoop loop => !exiting loop
  | _ => false

def Pc.runsFetchLoop : Pc cfg → Bool
  | .apply .fetchRetry _ _ => true
  | .fetchLoop loop => !exiting loop
  | .fetch _ _ => true
  | _ => false

theorem Pc.applyDuty_due {pc : Pc cfg} (outside : pc.schedulesApply = false)
    (stays : pc.exitsApply = false) : pc.applyDuty.due = false := by
  unfold applyDuty
  split <;> simp_all [schedulesApply, exitsApply, Duty.body, Duty.free]
  next loop => cases loop <;> simp_all [Loop.duty, exiting, Duty.body]

theorem Pc.fetchDuty_due {pc : Pc cfg} (outside : pc.schedulesFetch = false)
    (stays : pc.exitsFetch = false) : pc.fetchDuty.due = false := by
  unfold fetchDuty
  split <;> simp_all [schedulesFetch, exitsFetch, Duty.body, Duty.free]
  next loop => cases loop <;> simp_all [Loop.duty, exiting, Duty.body]

end Duties

/-! ## Every step is a move of both loops -/

section Moves

variable {T : Type} {cfg : Config} {cells : Cells T} {t : T} {pc : Pc cfg} {input : Input T}
  {turn : Turn (Cells T) (Pc cfg) T} {α : Type} {slot : Cells T → Retry α} {duty : Pc cfg → Duty}

def MovesOn (slot : Cells T → Retry α) (duty : Pc cfg → Duty) (cells : Cells T) (pc : Pc cfg)
    (turn : Turn (Cells T) (Pc cfg) T) : Prop :=
  ∃ started, (slot cells).Moves (duty pc) (slot turn.cells) (duty turn.pc) started ∧
    (started = true → ∃ fresh start, turn.spawned = some (fresh, start) ∧ duty start = .body) ∧
    (started = false → ∀ fresh start, turn.spawned = some (fresh, start) → duty start = .free)

variable {cells' : Cells T} {pc' start : Pc cfg} {at_ : Loop → Pc cfg} {loop : Loop}
  {set : Cells T → Retry α → Cells T} {work : α → Pc cfg} {fresh : T}

theorem MovesOn.of_move (moves : (slot cells).Moves (duty pc) (slot cells') (duty pc') false) :
    MovesOn slot duty cells pc (move cells' pc') :=
  ⟨false, moves, fun off => (by cases off), fun _ _ _ spawned => (by cases spawned)⟩

theorem MovesOn.keep (same : slot cells' = slot cells) (owes : duty pc' = duty pc) :
    MovesOn slot duty cells pc (move cells' pc') := by
  apply of_move
  rw [same, owes]
  exact .keep rfl id

theorem MovesOn.stashed {stash} (same : slot cells' = { slot cells with stash := stash })
    (holds : (duty pc').holds = (duty pc).holds)
    (served : (duty pc').holds = true ∨ (duty pc').due = true) :
    MovesOn slot duty cells pc (move cells' pc') := by
  apply of_move
  rw [same]
  exact .put holds served

theorem MovesOn.wake (same : slot cells' = (slot cells).activate.1)
    (holds : (duty pc').holds = (duty pc).holds) (body : duty start = .body) :
    MovesOn slot duty cells pc
      ⟨cells', pc', if (slot cells).activate.2 then some (fresh, start) else none⟩ := by
  refine ⟨(slot cells).activate.2, ?_, fun won => ?_, fun lost => ?_⟩
  · show (slot cells).Moves (duty pc) (slot cells') (duty pc') (slot cells).activate.2
    rw [same]
    exact .wake holds
  · exact ⟨fresh, start, if_pos won, body⟩
  · intro other begun spawned
    simp only [lost] at spawned
    cases spawned

theorem MovesOn.wakeOther {won : Bool} (same : slot cells' = slot cells) (owes : duty pc' = duty pc)
    (free : duty start = .free) :
    MovesOn slot duty cells pc ⟨cells', pc', if won then some (fresh, start) else none⟩ := by
  refine ⟨false, ?_, fun off => (by cases off), fun _ other begun spawned => ?_⟩
  · show (slot cells).Moves (duty pc) (slot cells') (duty pc') false
    rw [same, owes]
    exact .keep rfl id
  · cases won with
    | false => cases spawned
    | true =>
      cases spawned
      exact free

theorem LoopStep.moves (step : LoopStep cells slot set at_ work loop turn)
    (sets : ∀ r, slot (set cells r) = r) (at_duty : ∀ loop, duty (at_ loop) = loop.duty)
    (works : ∀ item, duty (work item) = .body) (rests : duty .idle = .free) :
    MovesOn slot duty cells (at_ loop) turn := by
  cases step with
  | empty | take =>
    apply MovesOn.of_move
    rw [sets, at_duty]
    refine .take ?_
    simp [at_duty, works, Loop.duty]
  | more | nothing | recheck =>
    refine .keep (sets _) ?_
    simp [at_duty, Loop.duty]
  | leave =>
    apply MovesOn.of_move
    rw [sets, at_duty, at_duty]
    exact .leave rfl rfl rfl
  | gone none =>
    apply MovesOn.of_move
    rw [sets, at_duty, rests]
    exact .quit (by simpa using none) rfl
  | respawn won =>
    refine ⟨true, ?_, fun _ => ⟨_, _, rfl, ?_⟩, fun off => (by cases off)⟩
    · show (slot cells).Moves (duty (at_ .rewake)) (slot (set cells _)) (duty .idle) true
      rw [sets, at_duty, rests, ← won]
      exact .wake rfl
    · rw [at_duty]
      rfl
  | lost other =>
    apply MovesOn.of_move
    rw [sets, at_duty, rests, ← other]
    exact .wake rfl

theorem LoopStep.keeps {β : Type} {other : Cells T → Retry β}
    (step : LoopStep cells slot set at_ work loop turn)
    (sets : ∀ r, other (set cells r) = other cells) (at_free : ∀ loop, duty (at_ loop) = .free)
    (works : ∀ item, duty (work item) = duty .idle) (rests : duty .idle = .free) :
    MovesOn other duty cells (at_ loop) turn := by
  cases step with
  | respawn won =>
    refine ⟨false, ?_, fun off => (by cases off), fun _ fresh begun spawned => ?_⟩
    · show (other cells).Moves (duty (at_ .rewake)) (other (set cells _)) (duty .idle) false
      rw [sets, at_free, rests]
      exact .keep rfl id
    · cases spawned
      exact at_free _
  | _ => exact .keep (sets _) (by simp [at_free, works, rests])

end Moves

section Attend

variable {T : Type} {cfg : Config} {cells : Cells T} {t : T} {input : Input T} {pc : Pc cfg}
  {turn : Turn (Cells T) (Pc cfg) T}

variable {a : WorkerAssignment} {c : AssignmentCommit} {caller : Caller}

theorem ApplyPc.Step.applyMoves {pc} (step : pc.Step cells t caller a turn) :
    MovesOn applyRetry applyDuty cells (.apply caller a pc) turn := by
  cases step with
  | stashed settled =>
    refine .stashed rfl ?_ (.inr ?_)
    · cases caller <;> rfl
    · cases caller <;> rfl
  | wake =>
    refine .wake rfl ?_ rfl
    cases caller <;> rfl
  -- the caller goes on where its loop left off
  | _ => exact .keep rfl (by cases caller <;> rfl)

theorem ApplyPc.Step.fetchMoves {pc} (step : pc.Step cells t caller a turn) :
    MovesOn fetchRetry fetchDuty cells (.apply caller a pc) turn := by
  cases step with
  | wake => exact .wakeOther rfl (by cases caller <;> rfl) rfl
  | _ => exact .keep rfl (by cases caller <;> rfl)

theorem RecoverPc.Step.applyMoves {pc} (step : pc.Step cells t input turn) :
    MovesOn applyRetry applyDuty cells (.recover pc) turn := by
  cases step with
  | stashed settled => exact .stashed rfl rfl (.inr rfl)
  | wake => exact .wake rfl rfl rfl
  | _ => exact .keep rfl rfl

theorem RecoverPc.Step.fetchMoves {pc} (step : pc.Step cells t input turn) :
    MovesOn fetchRetry fetchDuty cells (.recover pc) turn := by
  cases step with
  | wake => exact .wakeOther rfl rfl rfl
  | _ => exact .keep rfl rfl

theorem CommitPc.Step.applyMoves {pc} (step : pc.Step cells c turn) :
    MovesOn applyRetry applyDuty cells (.commit c pc) turn := by
  cases step with
  | wake => exact .wakeOther rfl rfl rfl
  | _ => exact .keep rfl rfl

theorem CommitPc.Step.fetchMoves {pc} (step : pc.Step cells c turn) :
    MovesOn fetchRetry fetchDuty cells (.commit c pc) turn := by
  cases step with
  | stashed settled => exact .stashed rfl rfl (.inr rfl)
  | wake => exact .wake rfl rfl rfl
  | _ => exact .keep rfl rfl

theorem FetchPc.Step.applyMoves {pc} (step : pc.Step cells c turn) :
    MovesOn applyRetry applyDuty cells (.fetch c pc) turn := by
  cases step <;> exact .keep rfl rfl

/-- The fetch loop puts an item back without trying the flag: it holds it. -/
theorem FetchPc.Step.fetchMoves {pc} (step : pc.Step cells c turn) :
    MovesOn fetchRetry fetchDuty cells (.fetch c pc) turn := by
  cases step with
  | stashed settled => exact .stashed rfl rfl (.inl rfl)
  | _ => exact .keep rfl rfl

theorem startFromAlias_duty (initial : WorkerAssignment) :
    (startFromAlias initial : Pc cfg).applyDuty = .free ∧
      (startFromAlias initial : Pc cfg).fetchDuty = .free :=
  startFromAlias_cases (P := fun pc => pc.applyDuty = .free ∧ pc.fetchDuty = .free)
    ⟨rfl, rfl⟩ ⟨rfl, rfl⟩

theorem drain_duty (a : WorkerAssignment) (pending : Option AssignmentCommit) :
    (drain a pending : Pc cfg).applyDuty = .free ∧ (drain a pending : Pc cfg).fetchDuty = .free :=
  drain_cases (P := fun pc => pc.applyDuty = .free ∧ pc.fetchDuty = .free)
    ⟨rfl, rfl⟩ fun _ _ => ⟨rfl, rfl⟩

theorem StartPc.Step.moves {pc} (step : pc.Step cells input turn) :
    MovesOn applyRetry applyDuty cells (.start pc) turn ∧
      MovesOn fetchRetry fetchDuty cells (.start pc) turn := by
  cases step with
  | noCommit | unbuilt =>
    exact ⟨.keep rfl (startFromAlias_duty _).1, .keep rfl (startFromAlias_duty _).2⟩
  | _ => exact ⟨.keep rfl rfl, .keep rfl rfl⟩

theorem AliasPc.Step.moves {pc} (step : pc.Step cells a turn) :
    MovesOn applyRetry applyDuty cells (.legacy a pc) turn ∧
      MovesOn fetchRetry fetchDuty cells (.legacy a pc) turn := by
  cases step <;> exact ⟨.keep rfl rfl, .keep rfl rfl⟩

theorem Took.applyMoves (took : Took cells t input pc turn) :
    MovesOn applyRetry applyDuty cells pc turn := by
  cases took with
  | deliverAlias | deliverCommit | recover | boot | release => exact .keep rfl rfl
  | drain => exact .keep rfl (drain_duty _ _).1
  | legacy step | start step => exact step.moves.1
  | commit step | apply step | fetch step | recovering step => exact step.applyMoves
  | applyLoop step =>
    exact step.moves (fun _ => rfl) (fun _ => rfl) (fun _ => rfl) rfl
  | fetchLoop step =>
    exact step.keeps (fun _ => rfl) (fun _ => rfl) (fun _ => rfl) rfl

theorem Took.fetchMoves (took : Took cells t input pc turn) :
    MovesOn fetchRetry fetchDuty cells pc turn := by
  cases took with
  | deliverAlias | deliverCommit | recover | boot | release => exact .keep rfl rfl
  | drain => exact .keep rfl (drain_duty _ _).2
  | legacy step | start step => exact step.moves.2
  | commit step | apply step | fetch step | recovering step => exact step.fetchMoves
  | applyLoop step =>
    exact step.keeps (fun _ => rfl) (fun _ => rfl) (fun _ => rfl) rfl
  | fetchLoop step =>
    exact step.moves (fun _ => rfl) (fun _ => rfl) (fun _ => rfl) rfl

variable (T cfg) in
theorem apply_attends : Attends (program T cfg) applyRetry applyDuty where
  idle pc rests := by
    cases pc with
    | idle => rfl
    | _ => cases rests
  moves cells t pc input turn moved := (next_took moved).applyMoves

variable (T cfg) in
theorem fetch_attends : Attends (program T cfg) fetchRetry fetchDuty where
  idle pc rests := by
    cases pc with
    | idle => rfl
    | _ => cases rests
  moves cells t pc input turn moved := (next_took moved).fetchMoves

end Attend

/-! ## No lost wake-up -/

variable {T : Type} [DecidableEq T] {cfg : Config} {s : Pool (Cells T) (Pc cfg) T}

variable {pc : Pc cfg}

theorem Pc.applyDuty_runs (runs : pc.runsApplyLoop = true) :
    pc.applyDuty.holds = true := by
  cases pc with
  | apply caller a pc =>
    cases caller <;> first | (cases runs; done) | (cases pc <;> rfl)
  | applyLoop loop => cases loop <;> first | rfl | cases runs
  | _ => cases runs

theorem Pc.runs_of_applyDuty (holds : pc.applyDuty.holds = true) (stays : pc.exitsApply = false) :
    pc.runsApplyLoop = true := by
  cases pc with
  | apply caller a pc =>
    cases caller <;> first | rfl | (cases pc <;> cases holds)
  | applyLoop loop => cases loop <;> first | rfl | cases stays
  | recover pc => cases pc <;> cases holds
  | _ => cases holds

theorem Pc.fetchDuty_runs (runs : pc.runsFetchLoop = true) :
    pc.fetchDuty.holds = true := by
  cases pc with
  | apply caller a pc => cases caller <;> first | rfl | cases runs
  | fetchLoop loop => cases loop <;> first | rfl | cases runs
  | fetch c pc => rfl
  | _ => cases runs

theorem Pc.runs_of_fetchDuty (holds : pc.fetchDuty.holds = true) (stays : pc.exitsFetch = false) :
    pc.runsFetchLoop = true := by
  cases pc with
  | apply caller a pc => cases caller <;> first | rfl | cases holds
  | fetchLoop loop => cases loop <;> first | rfl | cases stays
  | fetch c pc => rfl
  | commit c pc => cases pc <;> cases holds
  | _ => cases holds

theorem stashed_retry_is_served (reached : Reachable (worker T cfg) Free s) :
    ((∀ t, (s.pcs t).schedulesApply = false ∧ (s.pcs t).exitsApply = false) →
      s.cells.applyRetry.stash ≠ none →
        s.cells.applyRetry.active = true ∧ ∃ t, (s.pcs t).runsApplyLoop = true) ∧
    ((∀ t, (s.pcs t).schedulesFetch = false ∧ (s.pcs t).exitsFetch = false) →
      s.cells.fetchRetry.stash ≠ none →
        s.cells.fetchRetry.active = true ∧ ∃ t, (s.pcs t).runsFetchLoop = true) ∧
    (∀ t u, (s.pcs t).runsApplyLoop = true → (s.pcs u).runsApplyLoop = true → t = u) ∧
    (∀ t u, (s.pcs t).runsFetchLoop = true → (s.pcs u).runsFetchLoop = true → t = u) := by
  have applies : Served s.cells.applyRetry fun t => (s.pcs t).applyDuty :=
    (apply_attends T cfg).served rfl (by rintro cells rfl; rfl) reached
  have fetches : Served s.cells.fetchRetry fun t => (s.pcs t).fetchDuty :=
    (fetch_attends T cfg).served rfl (by rintro cells rfl; rfl) reached
  refine ⟨fun quiet stashed => ?_, fun quiet stashed => ?_, fun t u at_t at_u => ?_,
    fun t u at_t at_u => ?_⟩
  · obtain ⟨active, t, holds⟩ := applies.active
      (fun t => applyDuty_due (quiet t).1 (quiet t).2) (Option.isSome_iff_ne_none.mpr stashed)
    exact ⟨active, t, runs_of_applyDuty holds (quiet t).2⟩
  · obtain ⟨active, t, holds⟩ := fetches.active
      (fun t => fetchDuty_due (quiet t).1 (quiet t).2) (Option.isSome_iff_ne_none.mpr stashed)
    exact ⟨active, t, runs_of_fetchDuty holds (quiet t).2⟩
  · exact applies.one t u (applyDuty_runs at_t) (applyDuty_runs at_u)
  · exact fetches.one t u (fetchDuty_runs at_t) (fetchDuty_runs at_u)

theorem stashed_retry_is_served_start :
    ∃ s, Reachable (worker (Fin 2) plainConfig) Free s ∧
      s.cells.applyRetry.stash = some (plainAssignment 1 1) ∧
      s.cells.applyRetry.active = true ∧ ∃ t, (s.pcs t).runsApplyLoop = true := by
  obtain ⟨s, reached, stash, quiet⟩ := exists_reachable Free (startPool_init (Fin 2) plainConfig)
    (failedStart 0 1 (plainAssignment 1 1)) (fun s =>
    s.cells.applyRetry.stash = some (plainAssignment 1 1) ∧ ∀ t, (s.pcs t).schedulesApply = false ∧
      (s.pcs t).exitsApply = false) (by decide)
  exact ⟨s, reached, stash, (stashed_retry_is_served reached).1 quiet (by rw [stash]; simp)⟩

end Parti.Manager
