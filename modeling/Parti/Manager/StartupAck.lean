/-
# Manager.StartupAck — stable means acknowledged

A worker that reports stable should have acknowledged an assignment that it
applied, or the empty one of a cold start. This joins the two models of the
manager: the goroutines that apply assignments (`worker`) and the calls that move
its state (`lifecycle`). A goroutine of the first that calls into the second goes on
when the call has returned; the other calls come from elsewhere in the manager.

`Pc.vouches` and `LifePc.vouches` are the places on the way to stable. Not every way there
comes from an acknowledgement: the startup runner takes a rejected or dropped first apply
for a success, `stopCalculator` looks at a snapshot that nobody may have applied, and the
recovery compares with a committed assignment that may not be there, or not be
acknowledged yet. `Acknowledges` rules these out.

* `Joint.projects`: the parts of a manager's run are runs of the two models.
* `stable_is_acknowledged`: in every run with `Acknowledges`.
* `rejected_start_is_stable`: a start without.
-/
import Parti.Manager.Lifecycle
import Parti.Manager.Steps
import Mathlib.Data.Fintype.Basic

namespace Parti.Manager

open Parti.Types Function Option
open Lib

/-! ## The manager as a whole -/

section System

variable (T : Type) (cfg : Config)

structure Joint where
  work : Pool (Cells T) (Pc cfg) T
  life : Pool Life LifePc T

inductive Act where
  | work (t : T) (input : Input T)
  | life (t : T) (call : Call)

variable {T cfg}

def Pc.calls (input : Input T) : Pc cfg → Option LifePc
  | .apply _ _ .mark => some .markFlag
  | .start .coldMark => some .markFlag
  | .start (.finish true) => some .waitingSwap
  | .recover .exit =>
    match input with
    | .gates true => some .exitLoad
    | _ => none
  | _ => none

/-- A recovery is attempted while there is a record of degraded mode. -/
def Input.allowed (life : Life) : Input T → Bool
  | .recover => life.degraded.isSome
  | _ => true

/-- The calls that come from outside the worker's goroutines. `stopCalculator`
looks at the snapshot. -/
def Call.allowed (cells : Cells T) : Call → Bool
  | .exitDegraded | .markStartupAssignmentApplied | .casToStableFromWaitingAssignment => false
  | .assignment assigned => assigned == !cells.assignment.partitions.isEmpty
  | _ => true

variable [DecidableEq T]

def Joint.step (s : Joint T cfg) : Act T → Option (Joint T cfg)
  | .work t input =>
    if s.life.pcs t = .idle ∧ input.allowed s.life.cells = true then
      ((worker T cfg).step s.work (t, input)).map fun work =>
        { work := work
          life := { s.life with
            pcs := Function.update s.life.pcs t (((s.work.pcs t).calls input).getD .idle) } }
    else none
  | .life t call =>
    if call.allowed s.work.cells = true then
      ((lifecycle T).step s.life (t, call)).map fun life => { s with life := life }
    else none

variable (T cfg)

def manager : System (Joint T cfg) (Act T) where
  init s := (worker T cfg).init s.work ∧ (lifecycle T).init s.life
  step := Joint.step

def startJoint : Joint T cfg := ⟨startPool T cfg, startLife T⟩

theorem startJoint_init : (manager T cfg).init (startJoint T cfg) :=
  ⟨startPool_init T cfg, startLife_init T⟩

variable {T cfg} {first : LifePc}

omit [DecidableEq T] in
theorem Pc.calls_begins {input : Input T} {pc : Pc cfg} (calls : pc.calls input = some first) :
    ∃ call : Call, call.begins = some first := by
  unfold Pc.calls at calls
  split at calls
  next => cases calls; exact ⟨.markStartupAssignmentApplied, rfl⟩
  next => cases calls; exact ⟨.markStartupAssignmentApplied, rfl⟩
  next => cases calls; exact ⟨.casToStableFromWaitingAssignment, rfl⟩
  next =>
    split at calls
    next => cases calls; exact ⟨.exitDegraded, rfl⟩
    next => cases calls
  next => cases calls

theorem lifecycle_call {s} {t : T} {call : Call} (idle : s.pcs t = .idle)
    (begins : call.begins = some first) :
    (lifecycle T).step s (t, call) = some { s with pcs := Function.update s.pcs t first } := by
  refine Program.step_eq_some.mpr ⟨live s.cells first, ?_, rfl, rfl⟩
  show (s.pcs t).next s.cells call = _
  rw [idle]
  simp only [LifePc.next, begins, map_some]

/-- **The parts of a run are runs of the parts.** -/
theorem Joint.projects {ok} {s} (reached : Reachable (manager T cfg) ok s) :
    Reachable (worker T cfg) Free s.work ∧ Reachable (lifecycle T) Free s.life := by
  induction reached with
  | initial starts => exact ⟨.initial starts.1, .initial starts.2⟩
  | @next s s' act _ _ taken ih =>
    cases act with
    | work t input =>
      have taken : s.step (.work t input) = some s' := taken
      simp only [Joint.step] at taken
      split at taken
      next idle =>
        obtain ⟨work', moved, rfl⟩ := map_eq_some_iff.mp taken
        refine ⟨ih.1.next trivial moved, ?_⟩
        cases calls : (s.work.pcs t).calls input with
        | none =>
          simp only [getD_none]
          rw [← idle.1, update_eq_self]
          exact ih.2
        | some first =>
          obtain ⟨call, begins⟩ := Pc.calls_begins calls
          exact ih.2.next trivial (lifecycle_call idle.1 begins)
      next => cases taken
    | life t call =>
      have taken : s.step (.life t call) = some s' := taken
      simp only [Joint.step] at taken
      split at taken
      next =>
        obtain ⟨life', moved, rfl⟩ := map_eq_some_iff.mp taken
        exact ⟨ih.1, ih.2.next trivial moved⟩
      next => cases taken

end System

/-! ## Who is on the way to stable -/

section Vouching

variable {T : Type} {cfg : Config}

def Caller.initial : Caller → Bool
  | .startCommit _ | .startAlias => true
  | _ => false

def Pc.vouches : Pc cfg → Bool
  | .apply _ _ .unlock | .apply _ _ .mark => true
  | .apply caller _ .dropped => caller.initial
  | .start .coldMark | .start (.observe _) | .start .clear | .start (.finish true) => true
  | .recover .exit => true
  | _ => false

def LifePc.vouches : LifePc → Bool
  | .transition site _ | .swap site _ _ => decide (site.target = .stable)
  | .exitLoad | .exitSwap | .markFlag | .markWaiting | .markState | .markCalculator => true
  | .waitingSwap => true
  | _ => false

def Pc.acking : Pc cfg → Bool
  | .apply _ _ .ack | .start .coldAck => true
  | _ => false

/-- The first apply is not rejected and not dropped. -/
def Pc.acknowledges (cells : Cells T) : Pc cfg → Bool
  | .apply caller a .enter => !(caller.initial && labelIncarnationMismatch cfg a)
  | .apply caller a .staleGate =>
    !(caller.initial && isApplyResultStale a.target cells.assignment.target)
  | .apply caller a .fenceGate =>
    !(caller.initial && cells.highestAcceptedTarget.any (isApplyResultStale a.target))
  | _ => true

/-- A recovery that is about to find its snapshot applied. -/
def Pc.recovers (cells : Cells T) : Pc cfg → Bool
  | .recover (.committed cur) => currentAssignmentApplied cfg cells.committedAssignment cur
  | _ => false

/-- The guard of the runs considered. Besides `Pc.acknowledges`: what a recovery
finds applied was committed, and not between a commit and its acknowledgement; and
`stopCalculator` does not find partitions before the first apply is done. -/
def Acknowledges (T : Type) (cfg : Config) (s : Joint T cfg) : Act T → Prop
  | .work t _ =>
    (s.work.pcs t).acknowledges s.work.cells = true ∧
      ((s.work.pcs t).recovers s.work.cells = true →
        s.work.cells.committedAssignment.isSome = true ∧ ∀ u, (s.work.pcs u).acking = false)
  | .life t call =>
    s.life.pcs t = .stopAssignment → call = .assignment true →
      s.life.cells.startupAssignmentApplied = true

end Vouching

/-! ## One step -/

section Steps

variable {T : Type} {cfg : Config} {cells : Cells T} {t : T} {input : Input T} {pc : Pc cfg}
  {turn : Turn (Cells T) (Pc cfg) T} {call : Call} {first : LifePc}

theorem Took.acknowledged (took : Took cells t input pc turn) (acked : cells.acknowledged = true) :
    turn.cells.acknowledged = true := by
  cases took with
  | legacy step | commit step | applyLoop step | fetchLoop step | fetch step | recovering step =>
    cases step <;> exact acked
  | apply step =>
    cases step with
    | ack => rfl
    | _ => exact acked
  | start step =>
    cases step with
    | coldAck => rfl
    | _ => exact acked
  | _ => exact acked

theorem Caller.failed_vouches (caller : Caller) (a : WorkerAssignment) :
    (caller.failed a : Pc cfg).vouches = false := by
  cases caller <;> rfl

theorem Caller.rejected_vouches (caller : Caller) (a : WorkerAssignment) :
    (caller.rejected a : Pc cfg).vouches = caller.initial := by
  cases caller <;> rfl

theorem Caller.returned_vouches (caller : Caller) (a : WorkerAssignment) :
    (caller.returned a : Pc cfg).vouches = caller.initial := by
  cases caller <;> rfl

theorem ApplyPc.Step.vouches {caller : Caller} {a} {pc} (step : pc.Step cells t caller a turn)
    (knows : (.apply caller a pc : Pc cfg).vouches = true → cells.acknowledged = true)
    (allowed : (.apply caller a pc : Pc cfg).acknowledges cells = true)
    (vouches : turn.pc.vouches = true) : turn.cells.acknowledged = true := by
  cases step with
  | rejected mismatch =>
    have first : caller.initial = true := (caller.rejected_vouches a).symm.trans vouches
    simp [Pc.acknowledges, first, mismatch] at allowed
  | stale behind =>
    have first : caller.initial = true := vouches
    simp [Pc.acknowledges, first, behind] at allowed
  | fenced at_ behind =>
    have first : caller.initial = true := vouches
    simp [Pc.acknowledges, first, at_, behind] at allowed
  | ack => rfl
  | unlock | mark => exact knows rfl
  | dropped => exact knows ((caller.returned_vouches a).symm.trans vouches)
  | wake =>
    have off : false = true := (caller.failed_vouches a).symm.trans vouches
    cases off
  | _ => cases vouches

theorem drain_vouches (a : WorkerAssignment) (pending : Option AssignmentCommit) :
    (drain a pending : Pc cfg).vouches = false :=
  drain_cases (P := fun pc => pc.vouches = false) rfl fun _ _ => rfl

theorem startFromAlias_vouches (initial : WorkerAssignment) :
    (startFromAlias initial : Pc cfg).vouches = false :=
  startFromAlias_cases (P := fun pc => pc.vouches = false) rfl rfl

/-- **Whoever goes towards stable knows of an acknowledgement.** -/
theorem Took.vouches (took : Took cells t input pc turn)
    (knows : pc.vouches = true → cells.acknowledged = true) (allowed : pc.acknowledges cells = true)
    (committed : pc.recovers cells = true → cells.acknowledged = true)
    (vouches : turn.pc.vouches = true) : turn.cells.acknowledged = true := by
  cases took with
  | legacy step | commit step | applyLoop step | fetchLoop step | fetch step =>
    cases step <;> cases vouches
  | apply step => exact step.vouches knows allowed vouches
  | drain =>
    have off := (drain_vouches _ _).symm.trans vouches
    cases off
  | recovering step =>
    cases step with
    | settled done => exact committed done
    | _ => cases vouches
  | start step =>
    cases step with
    | noCommit | unbuilt =>
      have off := (startFromAlias_vouches _).symm.trans vouches
      cases off
    | coldAck => rfl
    | coldMark | observe | clear => exact knows rfl
    | _ => cases vouches
  | _ => cases vouches

theorem Took.acking (took : Took cells t input pc turn)
    (committed : turn.cells.committedAssignment ≠ none) :
    turn.pc.acking = true ∨ turn.cells.acknowledged = true ∨
      (cells.committedAssignment ≠ none ∧ pc.acking = false) := by
  cases took with
  | legacy step | commit step | applyLoop step | fetchLoop step | fetch step | recovering step =>
    cases step <;> exact .inr (.inr ⟨committed, rfl⟩)
  | apply step =>
    cases step with
    | committed => exact .inl rfl
    | ack => exact .inr (.inl rfl)
    | _ => exact .inr (.inr ⟨committed, rfl⟩)
  | start step =>
    cases step with
    | coldCommitted => exact .inl rfl
    | coldAck => exact .inr (.inl rfl)
    | _ => exact .inr (.inr ⟨committed, rfl⟩)
  | _ => exact .inr (.inr ⟨committed, rfl⟩)

theorem Pc.calls_vouches (calls : pc.calls input = some first) : pc.vouches = true := by
  cases pc with
  | apply caller a pc =>
    cases pc with
    | mark => rfl
    | _ => cases calls
  | start pc =>
    cases pc with
    | coldMark => rfl
    | finish applyOK =>
      cases applyOK with
      | true => rfl
      | false => cases calls
    | _ => cases calls
  | recover pc =>
    cases pc with
    | exit => rfl
    | _ => cases calls
  | _ => cases calls

theorem Call.begins_vouches (allowed : call.allowed cells = true)
    (begins : call.begins = some first) : first.vouches = false := by
  cases call with
  | startTo site =>
    cases site with
    | claim | elect | wait => cases begins; rfl
    | _ => cases begins
  | exitDegraded | markStartupAssignmentApplied | casToStableFromWaitingAssignment => cases allowed
  | go | calculator | assignment => cases begins
  | _ => cases begins; rfl

theorem Site.ended_vouches (site : Site) (moved : Bool) : (site.ended moved).vouches = false := by
  cases site <;> cases moved <;> rfl

/-- **No call moves the state to stable on its own account.** `P` stands for the
acknowledgement. -/
theorem LifeStep.vouches {life life' : Life} {pc pc' : LifePc} {P : Prop}
    (step : LifeStep life call pc life' pc') (allowed : call.allowed cells = true)
    (knows : pc.vouches = true → P) (marked : life.startupAssignmentApplied = true → P)
    (stable : life.state = .stable → P)
    (stops : pc = .stopAssignment → call = .assignment true → life.startupAssignmentApplied = true) :
    (pc'.vouches = true → P) ∧ (life'.startupAssignmentApplied = true → P) ∧
      (life'.state = .stable → P) := by
  have ended : ∀ (site : Site) (moved : Bool), (site.ended moved).vouches = true → P := by
    intro site moved vouches
    rw [Site.ended_vouches] at vouches
    cases vouches
  cases step with
  | call begins =>
    refine ⟨fun vouches => ?_, marked, stable⟩
    rw [Call.begins_vouches allowed begins] at vouches
    cases vouches
  | arrived | refused | gaveUp => exact ⟨ended _ _, marked, stable⟩
  | loaded | again | exits => exact ⟨knows, marked, stable⟩
  | swapped => exact ⟨ended _ _, marked, fun at_ => knows (decide_eq_true at_)⟩
  | exited | waitingSwapped => exact ⟨nofun, marked, fun _ => knows rfl⟩
  | @syncActive calcState active =>
    refine ⟨fun vouches => ?_, marked, stable⟩
    have asks := of_decide_eq_true vouches
    cases calcState with
    | idle => exact absurd rfl active
    | _ => cases asks
  | synced ready => exact ⟨fun _ => marked ready, marked, stable⟩
  | marked => exact ⟨fun _ => knows rfl, fun _ => knows rfl, stable⟩
  | markSwapped => exact ⟨fun _ => knows rfl, marked, fun _ => knows rfl⟩
  | markMissed | markOwned | markIdle => exact ⟨fun _ => knows rfl, marked, stable⟩
  | @stopped assigned read =>
    refine ⟨fun vouches => ?_, marked, stable⟩
    cases assigned with
    | true => exact marked (stops rfl read)
    | false => cases vouches
  | _ => exact ⟨nofun, marked, stable⟩

end Steps

/-! ## Every run -/

variable {T : Type} {cfg : Config}

structure Vouched (s : Joint T cfg) : Prop where
  work : ∀ t, (s.work.pcs t).vouches = true → s.work.cells.acknowledged = true
  life : ∀ t, (s.life.pcs t).vouches = true → s.work.cells.acknowledged = true
  marked : s.life.cells.startupAssignmentApplied = true → s.work.cells.acknowledged = true
  stable : s.life.cells.state = .stable → s.work.cells.acknowledged = true
  committed : s.work.cells.committedAssignment ≠ none →
    s.work.cells.acknowledged = true ∨ ∃ t, (s.work.pcs t).acking = true

variable [DecidableEq T] {s s' : Joint T cfg} {input : Input T} {t : T}

omit [DecidableEq T] in
theorem Vouched.recovers (vouched : Vouched s) (allowed : Acknowledges T cfg s (.work t input))
    (recovers : (s.work.pcs t).recovers s.work.cells = true) :
    s.work.cells.acknowledged = true := by
  obtain ⟨committed, quiet⟩ := allowed.2 recovers
  obtain acked | ⟨u, acking⟩ := vouched.committed (isSome_iff_ne_none.mp committed)
  · exact acked
  · rw [quiet u] at acking
    cases acking

section Turns

variable {t : T} {input : Input T} {turn : Turn (Cells T) (Pc cfg) T}

theorem Vouched.work_next (vouched : Vouched s) (allowed : Acknowledges T cfg s (.work t input))
    (took : Took s.work.cells t input (s.work.pcs t) turn)
    (fits : (program T cfg).fits s.work.pcs t turn = true) (u : T)
    (vouches : ((turn.pool s.work.pcs t).pcs u).vouches = true) :
    turn.cells.acknowledged = true := by
  obtain ⟨rfl, at_u⟩ | ⟨_, _, spawned⟩ | ⟨_, at_u⟩ := Turn.pool_pcs fits u
  · rw [at_u] at vouches
    exact took.vouches (vouched.work u) allowed.1 (vouched.recovers allowed) vouches
  · obtain loop | loop := took.spawned_loop spawned <;>
      (rw [loop] at vouches; cases vouches)
  · rw [at_u] at vouches
    exact took.acknowledged (vouched.work u vouches)

theorem Vouched.life_next (vouched : Vouched s) (u : T)
    (vouches : (Function.update s.life.pcs t (((s.work.pcs t).calls input).getD .idle) u).vouches =
      true) : s.work.cells.acknowledged = true := by
  by_cases mover : u = t
  · subst mover
    simp only [update_self] at vouches
    cases calls : (s.work.pcs u).calls input with
    | none =>
      rw [calls] at vouches
      cases vouches
    | some first => exact vouched.work u (Pc.calls_vouches calls)
  · simp only [update_of_ne mover] at vouches
    exact vouched.life u vouches

theorem Vouched.committed_next (vouched : Vouched s)
    (took : Took s.work.cells t input (s.work.pcs t) turn)
    (fits : (program T cfg).fits s.work.pcs t turn = true)
    (committed : turn.cells.committedAssignment ≠ none) :
    turn.cells.acknowledged = true ∨ ∃ u, ((turn.pool s.work.pcs t).pcs u).acking = true := by
  obtain acking | acked | ⟨before, quiet⟩ := took.acking committed
  · exact .inr ⟨t, by rw [Turn.pool_self fits]; exact acking⟩
  · exact .inl acked
  · obtain acked | ⟨u, acking⟩ := vouched.committed before
    · exact .inl (took.acknowledged acked)
    · -- the one that is acknowledging is not the mover, and is busy
      have other : u ≠ t := by
        rintro rfl
        rw [quiet] at acking
        cases acking
      have busy : (s.work.pcs u).isIdle = false := by
        refine Pc.not_isIdle fun idle => ?_
        rw [idle] at acking
        cases acking
      exact .inr ⟨u, by rw [Turn.pool_busy fits other busy]; exact acking⟩

end Turns

theorem Vouched.worked (vouched : Vouched s) (allowed : Acknowledges T cfg s (.work t input))
    (taken : s.step (.work t input) = some s') : Vouched s' := by
  simp only [Joint.step] at taken
  split at taken
  next =>
    obtain ⟨work', moved, rfl⟩ := map_eq_some_iff.mp taken
    obtain ⟨turn, next, fits, rfl⟩ := Program.step_eq_some.mp moved
    have took : Took s.work.cells t input (s.work.pcs t) turn := next_took next
    have kept := took.acknowledged
    constructor <;> rw [Turn.pool_cells]
    case work => exact vouched.work_next allowed took fits
    case life => exact fun u vouches => kept (vouched.life_next u vouches)
    case marked => exact fun at_ => kept (vouched.marked at_)
    case stable => exact fun at_ => kept (vouched.stable at_)
    case committed => exact vouched.committed_next took fits
  next => cases taken

theorem Vouched.lived (vouched : Vouched s) {call : Call}
    (allowed : Acknowledges T cfg s (.life t call)) (taken : s.step (.life t call) = some s') :
    Vouched s' := by
  simp only [Joint.step] at taken
  split at taken
  next permitted =>
    obtain ⟨⟨life', pcs'⟩, moved, rfl⟩ := map_eq_some_iff.mp taken
    obtain ⟨pc', step, rfl⟩ := lifecycle_step moved
    obtain ⟨vouches', marked', stable'⟩ :=
      step.vouches permitted (vouched.life t) vouched.marked vouched.stable allowed
    refine ⟨vouched.work, fun u vouches => ?_, marked', stable', vouched.committed⟩
    by_cases mover : u = t
    · subst mover
      simp only [update_self] at vouches
      exact vouches' vouches
    · simp only [update_of_ne mover] at vouches
      exact vouched.life u vouches
  next => cases taken

theorem vouched_of_reachable (reached : Reachable (manager T cfg) (Acknowledges T cfg) s) :
    Vouched s := by
  refine Reachable.invariant (I := Vouched) ?_ ?_ reached
  · rintro ⟨⟨cells, pcs⟩, ⟨life, lives⟩⟩ ⟨⟨rfl, idle⟩, ⟨rfl, quiet⟩⟩
    refine ⟨fun t vouches => ?_, fun t vouches => ?_, fun off => ?_, fun off => ?_, fun off => ?_⟩
    · rw [idle t] at vouches
      cases vouches
    · rw [quiet t] at vouches
      cases vouches
    · cases off
    · cases off
    · exact absurd rfl off
  · intro s act s' vouched allowed taken
    cases act with
    | work t input => exact vouched.worked allowed taken
    | life t call => exact vouched.lived allowed taken

theorem stable_is_acknowledged (reached : Reachable (manager T cfg) (Acknowledges T cfg) s)
    (stable : s.life.cells.state = .stable) : s.work.cells.acknowledged = true :=
  (vouched_of_reachable reached).stable stable

instance acknowledgesDecidable [Fintype T] (s : Joint T cfg) :
    DecidablePred (Acknowledges T cfg s)
  | .work _ _ => inferInstanceAs (Decidable (_ ∧ (_ → _ ∧ ∀ _, _ = _)))
  | .life _ _ => inferInstanceAs (Decidable (_ → _ → _))

def works {T : Type} (events : List (T × Input T)) : List (Act T) :=
  events.map fun event => .work event.1 event.2

def moves {T : Type} (events : List (T × Call)) : List (Act T) :=
  events.map fun event => .life event.1 event.2

def appliedStart {T : Type} (t : T) : List (Act T) :=
  moves (waits t) ++ works (startsWith t (plainAssignment 1 1) ++ [(t, .applied true)] ++ goes t 7) ++
    moves (lives t 2)

theorem stable_is_acknowledged_start :
    ∃ s, Reachable (manager (Fin 2) plainConfig) (Acknowledges (Fin 2) plainConfig) s ∧
      s.life.cells.state = .stable ∧ s.work.cells.acknowledged = true :=
  exists_reachable_and (startJoint_init _ _) (appliedStart 0) (by decide)
    fun _ reached stable => stable_is_acknowledged reached stable

def labelledAssignment : WorkerAssignment :=
  { plainAssignment 1 1 with workerLabels := [[120]], workerLabelsKnown := true }

/-- The only assignment in the bucket is for another incarnation: the label guard
rejects it, the startup runner clears it and goes on as after a success. -/
def rejectedStart {T : Type} (t : T) : List (Act T) :=
  moves (waits t) ++
    works ([(t, .boot), (t, .fetched (some labelledAssignment)), (t, .go), (t, .latest none)] ++
      goes t 3) ++ moves (lives t 1)

theorem rejected_start_is_stable :
    ∃ s, Reachable (manager (Fin 2) plainConfig) Free s ∧ s.life.cells.state = .stable ∧
      s.work.cells.acknowledged = false ∧ s.work.cells.applied = .zero :=
  exists_reachable _ (startJoint_init _ _) (rejectedStart 0) _ (by decide)

end Parti.Manager
