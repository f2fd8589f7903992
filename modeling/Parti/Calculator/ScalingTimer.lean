/-
# Calculator.ScalingTimer — scaling always ends

The state machine leaves scaling through the timer that `EnterScaling` started,
so while it is in scaling there has to be such a timer and its context must not
be cancelled.

The tail check of a partition rebalance may enter scaling too. Its context is
cancelled as soon as the check returns, the timer goes with it, and nobody is left
to end the state (`tail_check_strands_scaling`).
`scaling_has_timer` is the guarantee in runs where no tail check finds the
calculator idle once it has decided to scale.
-/
import Parti.Calculator.Leader

namespace Parti.Calculator

open Lib Function Option Thread

section Machine

variable {X : Type}

/-- The context under which a goroutine enters scaling or waits in it. -/
def Pc.scalingCtx : Pc X → Option X
  | .scalingStop ctx _ | .scalingLoad ctx _ | .scalingReason ctx _ => some ctx
  | .emitLoad (.scaling ctx) | .emitCas (.scaling ctx) _ => some ctx
  | .startTimer ctx | .timer ctx | .rebalanceCas ctx => some ctx
  | _ => none

/-- A timer that will still end scaling, or the call about to start it. -/
def Pc.awaits : Pc X → Bool
  | .startTimer _ | .timer _ | .rebalanceCas _ => true
  | _ => false

def Next.scalingCtx : Next X → Option X
  | .goto pc => pc.scalingCtx
  | .spawn ctx => some ctx
  | .returned => none

def Next.awaits : Next X → Bool
  | .goto pc => pc.awaits
  | .spawn _ => true
  | .returned => false

/-- What an atomic operation means for scaling: contexts are handed on, the stop
flag is left alone, and where scaling holds afterwards either this goroutine now
awaits its end or scaling held before and the goroutine was not the one awaiting
it. -/
structure ScalingStep (m : Machine) (pc : Pc X) (m' : Machine) (next : Next X) : Prop where
  ctx : ∀ ctx, next.scalingCtx = some ctx → pc.scalingCtx = some ctx
  stopping : m'.stopping = m.stopping
  scaling : m'.current = .scaling → m.stopping = false →
    next.awaits = true ∨ m.current = .scaling ∧ pc.awaits = false

variable {m m' : Machine} {pc : Pc X} {next : Next X}

theorem ScalingStep.quiet (ctx : ∀ ctx, next.scalingCtx = some ctx → pc.scalingCtx = some ctx)
    (same : m'.current = m.current) (stopping : m'.stopping = m.stopping) (idle : pc.awaits = false)
    : ScalingStep m pc m' next :=
  ⟨ctx, stopping, fun scaling _ => .inr ⟨same.symm.trans scaling, idle⟩⟩

theorem ScalingStep.other (ctx : ∀ ctx, next.scalingCtx = some ctx → pc.scalingCtx = some ctx)
    (stopping : m'.stopping = m.stopping) (other : m'.current ≠ .scaling) :
    ScalingStep m pc m' next :=
  ⟨ctx, stopping, fun scaling => absurd scaling other⟩

theorem tryClaimEmergencyFrom_scaling {source} {ctx : X} {otherwise : Next X}
    (idle : pc.awaits = false) (without : otherwise.scalingCtx = none)
    (took : m.tryClaimEmergencyFrom source ctx otherwise = (m', next)) :
    ScalingStep m pc m' next := by
  unfold Machine.tryClaimEmergencyFrom at took
  split at took <;> cases took
  · exact .other (by simp [Next.scalingCtx, Pc.scalingCtx]) rfl (by simp)
  · exact .quiet (by simp [without]) rfl rfl idle

theorem step_scaling (took : m.step pc = some (m', next)) : ScalingStep m pc m' next := by
  cases pc with
  | scalingStop | scalingLoad =>
    cases took
    refine .quiet (fun ctx' handed => ?_) rfl rfl rfl
    split at handed <;> first | exact handed | cases handed
  | scalingReason ctx reason =>
    cases took
    exact .quiet (fun _ handed => handed) rfl rfl rfl
  | emitLoad e =>
    cases took
    refine .quiet (fun ctx' handed => ?_) rfl rfl rfl
    split at handed <;> cases e <;> exact handed
  | emitCas e old =>
    simp only [Machine.step] at took
    split at took <;> cases took
    next =>
      -- the swap sets scaling only for the call that goes on to start a timer
      rcases e with ctx | held
      · exact ⟨fun _ handed => handed, rfl, fun _ _ => .inl rfl⟩
      · exact .other (by simp [Emit.after, Next.scalingCtx]) rfl (by simp [Emit.target])
    next =>
      refine .quiet (fun ctx' handed => ?_) rfl rfl rfl
      cases e <;> exact handed
  | startTimer ctx =>
    cases took
    refine ⟨fun ctx' handed => ?_, rfl, fun _ running => .inl ?_⟩
    · split at handed <;> first | exact handed | cases handed
    · simp [running, Next.awaits]
  | timer | claimed | callback => cases took
  | rebalanceCas ctx =>
    simp only [Machine.step] at took
    split at took <;> cases took
    next => exact .other (by simp [Next.scalingCtx, Pc.scalingCtx]) rfl (by simp)
    next elsewhere => exact .other (by simp [Next.scalingCtx]) rfl elsewhere
  | rebalanceReason | emergencyReason | claimReason | idleReason =>
    cases took
    exact .quiet (by simp [Next.scalingCtx, Pc.scalingCtx]) rfl rfl rfl
  | emergencyIdle | emergencyScaling =>
    exact tryClaimEmergencyFrom_scaling rfl rfl (some.inj took)
  | claimCas ctx reason =>
    simp only [Machine.step] at took
    split at took <;> cases took
    next => exact .other (by simp [Next.scalingCtx, Pc.scalingCtx]) rfl (by simp)
    next => exact .quiet (by simp [Next.scalingCtx]) rfl rfl rfl

end Machine

def Thread.scalingCtx (th : Thread) : Option Ctx :=
  match th.place with
  | .stopCheck _ => some th.frame.ctx
  | .machine pc => pc.scalingCtx
  | .lock | .observe | .getState _ => none

def Thread.awaits (th : Thread) : Bool :=
  match th.place with
  | .machine pc => pc.awaits
  | _ => false

variable {G : Type} [DecidableEq G]

/-- Whoever enters scaling or waits in it does so under the lifetime context, and
scaling has somebody waiting. -/
structure Awake (s : Leader G) : Prop where
  lifetime : ∀ g th, s.threads g = some th → ∀ ctx, th.scalingCtx = some ctx → ctx = .lifetime
  pending : s.machine.current = .scaling → s.machine.stopping = false →
    ∃ g th, s.threads g = some th ∧ th.awaits = true

variable {s s' : Leader G} {g : G} {th' : Option Thread}

theorem Awake.move (awake : Awake s) (threads : s'.threads = Function.update s.threads g th')
    (ctx : ∀ th, th' = some th → ∀ ctx, th.scalingCtx = some ctx → ctx = .lifetime)
    (pending : s'.machine.current = .scaling → s'.machine.stopping = false →
      (∃ th, th' = some th ∧ th.awaits = true) ∨
        s.machine.current = .scaling ∧ s.machine.stopping = false ∧
          ∀ th, s.threads g = some th → th.awaits = false)
    : Awake s' := by
  refine ⟨fun g' th at_ c carries => ?_, fun scaling running => ?_⟩
  · rw [threads] at at_
    by_cases same : g' = g
    · subst same
      rw [update_self] at at_
      exact ctx th at_ c carries
    · rw [update_of_ne same] at at_
      exact awake.lifetime g' th at_ c carries
  · rcases pending scaling running with ⟨th, now, awaits⟩ | ⟨before, ran, notMe⟩
    · exact ⟨g, th, by rw [threads, update_self, now], awaits⟩
    · obtain ⟨g', th, at_, awaits⟩ := awake.pending before ran
      have other : g' ≠ g := by
        rintro rfl
        simp [notMe th at_] at awaits
      exact ⟨g', th, by rw [threads, update_of_ne other, at_], awaits⟩

theorem Awake.idle (awake : Awake s) (threads : s'.threads = Function.update s.threads g th')
    (machine : s'.machine = s.machine)
    (ctx : ∀ th, th' = some th → ∀ ctx, th.scalingCtx = some ctx → ctx = .lifetime)
    (quiet : ∀ th, s.threads g = some th → th.awaits = false) : Awake s' :=
  awake.move threads ctx fun scaling running =>
    .inr ⟨machine ▸ scaling, machine ▸ running, quiet⟩

theorem returned_threads (s : Leader G) (g : G) (frame : Frame) (pc : Pc Ctx) :
    ∃ th', (s.returned g frame pc).threads = Function.update s.threads g th' ∧
      (∀ th, th' = some th → th.scalingCtx = none ∧ th.awaits = false) ∧
      (s.returned g frame pc).machine = s.machine := by
  unfold Leader.returned
  split
  · exact ⟨_, rfl, by rintro th ⟨⟩; exact ⟨rfl, rfl⟩, rfl⟩
  · exact ⟨none, rfl, by simp, rfl⟩

/-- A tail check that has decided to scale, at its check for idle. -/
def Thread.tailScaling : Thread → Bool
  | ⟨.tail _, .getState _⟩ => true
  | _ => false

/-- No tail check that has decided to scale finds the calculator idle. -/
def TailFindsBusy (s : Leader G) : LeaderEvent G → Prop
  | .step g => ∀ th ∈ s.threads g, th.tailScaling = true → s.machine.current ≠ .idle
  | _ => True

instance (s : Leader G) : (e : LeaderEvent G) → Decidable (TailFindsBusy s e)
  | .step g => inferInstanceAs (Decidable (∀ th ∈ s.threads g, _))
  | .start _ _ | .poll _ | .audit _ | .partition _ _ | .label _ | .observed _ _ | .spawn _ _
  | .fire _ | .expire _ | .run _ | .finish _ | .timeout _ | .stop =>
    inferInstanceAs (Decidable True)

variable {th : Thread} {m' : Machine} {pc : Pc Ctx}

theorem Awake.operation {next} (awake : Awake s) (at_ : s.threads g = some th)
    (place : th.place = .machine pc) (took : s.machine.step pc = some (m', next))
    (threads : s'.threads = Function.update s.threads g th') (machine : s'.machine = m')
    (goes : ∀ th, th' = some th → th.scalingCtx = next.scalingCtx ∧ th.awaits = next.awaits)
    (stays : next.awaits = true → th'.isSome = true) : Awake s' := by
  have scaling := step_scaling took
  refine awake.move threads (fun th'' now ctx carries => ?_) fun state running => ?_
  · refine awake.lifetime g th at_ ctx ?_
    rw [(goes th'' now).1] at carries
    simpa only [scalingCtx, place] using scaling.ctx ctx carries
  · rw [machine] at state running
    rw [scaling.stopping] at running
    rcases scaling.scaling state running with awaits | ⟨before, idle⟩
    · obtain ⟨th'', now⟩ := isSome_iff_exists.mp (stays awaits)
      exact .inl ⟨th'', now, (goes th'' now).2.trans awaits⟩
    · refine .inr ⟨before, running, fun th'' here => ?_⟩
      rw [at_, some.injEq] at here
      subst here
      simpa only [awaits, place] using idle

theorem Awake.advance (awake : Awake s) (at_ : s.threads g = some th)
    (busy : th.tailScaling = true → s.machine.current ≠ .idle) (taken : s.advance g th = some s') :
    Awake s' := by
  have quiet : (∀ pc, th.place ≠ .machine pc) →
      ∀ th', s.threads g = some th' → th'.awaits = false := fun notMachine th' here => by
    rw [at_, some.injEq] at here
    subst here
    unfold awaits
    split
    next pc place => exact absurd place (notMachine pc)
    next => rfl
  unfold Leader.advance at taken
  split at taken
  next place =>
    simp only [ite_none_right_eq_some, some.injEq] at taken
    obtain ⟨_, rfl⟩ := taken
    exact awake.idle rfl rfl (by rintro th' ⟨⟩; simp [scalingCtx]) (quiet (by simp [place]))
  next => cases taken
  next reason place =>
    split at taken <;> cases taken
    next => exact awake.idle rfl rfl (by simp) (quiet (by simp [place]))
    next idle =>
      refine awake.idle rfl rfl ?_ (quiet (by simp [place]))
      rintro th' ⟨⟩ ctx carries
      -- only a tail check hands on a context of its own
      obtain ⟨frame, place'⟩ := th
      cases place
      cases frame with
      | tail id => exact absurd (by simpa using idle) (busy rfl)
      | _ => exact (some.inj carries).symm
  next reason place =>
    split at taken <;> cases taken
    next => exact awake.idle rfl rfl (by simp) (quiet (by simp [place]))
    next =>
      refine awake.idle rfl rfl ?_ (quiet (by simp [place]))
      rintro th' ⟨⟩ ctx carries
      exact awake.lifetime g th at_ ctx (by simpa [scalingCtx, place, Pc.scalingCtx] using carries)
  next pc place =>
    obtain ⟨⟨m', next⟩, took, ran⟩ := bind_eq_some_iff.mp taken
    cases next with
    | goto pc' =>
      cases ran
      exact awake.operation at_ place took rfl rfl (by rintro th' ⟨⟩; exact ⟨rfl, rfl⟩) fun _ => rfl
    | returned =>
      cases ran
      obtain ⟨th', threads, without, machine⟩ :=
        returned_threads { s with machine := m' } g th.frame pc
      exact awake.operation at_ place took threads machine without (by simp [Next.awaits])
    | spawn ctx => cases ran

theorem Awake.enter (awake : Awake s) (ctx : ∀ ctx, th.scalingCtx = some ctx → ctx = .lifetime)
    (called : s.enter g th = some s') : Awake s' := by
  simp only [Leader.enter, ite_none_right_eq_some, some.injEq] at called
  obtain ⟨outside, rfl⟩ := called
  refine awake.idle rfl rfl (by rintro th' ⟨⟩; exact ctx) fun th' here => ?_
  simp [here] at outside

theorem Awake.observed {o} (awake : Awake s) (at_ : s.threads g = some th)
    (place : th.place = .observe) : Awake (s.observed g th o) := by
  have quiet : ∀ th', s.threads g = some th' → th'.awaits = false := fun th' here => by
    rw [at_, some.injEq] at here
    subst here
    simp [awaits, place]
  unfold Leader.observed
  split
  next => exact awake.idle rfl rfl (by simp) quiet
  next => exact awake.idle rfl rfl (by rintro th' ⟨⟩; simp [scalingCtx, Pc.scalingCtx]) quiet
  next => exact awake.idle rfl rfl (by rintro th' ⟨⟩; simp [scalingCtx]) quiet

theorem Awake.spawned {t : G} {ctx : Ctx} (awake : Awake s) (at_ : s.threads g = some th)
    (place : th.place = .machine pc) (took : s.machine.step pc = some (m', .spawn ctx)) :
    Awake ((s.leave g th.frame).set t (some ⟨.timer, .machine (.timer ctx)⟩)) := by
  have lifetime : ctx = .lifetime := by
    refine awake.lifetime g th at_ ctx ?_
    simpa only [scalingCtx, place] using (step_scaling took).ctx ctx rfl
  refine ⟨fun g' th' here c carries => ?_, fun _ _ =>
    ⟨t, ⟨.timer, .machine (.timer ctx)⟩, update_self .., rfl⟩⟩
  simp only [Leader.set, Leader.leave, Leader.unlock] at here
  by_cases timer : g' = t
  · subst timer
    rw [update_self, some.injEq] at here
    subst here
    exact (some.inj carries).symm.trans lifetime
  · rw [update_of_ne timer] at here
    by_cases same : g' = g
    · subst same
      simp at here
    · rw [update_of_ne same] at here
      exact awake.lifetime g' th' here c carries

theorem Awake.step {e} (awake : Awake s) (busy : TailFindsBusy s e)
    (taken : s.step e = some s') : Awake s' := by
  cases e with
  | start | audit =>
    refine awake.enter (fun ctx carries => ?_) taken
    exact (some.inj carries).symm
  | poll g => exact awake.enter (by simp [scalingCtx]) taken
  | partition | label =>
    exact awake.enter (by simp [scalingCtx, Pc.scalingCtx]) taken
  | observed g o =>
    obtain ⟨th, at_, ran⟩ := bind_eq_some_iff.mp taken
    simp only [ite_none_right_eq_some, some.injEq] at ran
    obtain ⟨place, rfl⟩ := ran
    exact awake.observed at_ place
  | step g =>
    obtain ⟨th, at_, ran⟩ := bind_eq_some_iff.mp taken
    exact awake.advance at_ (busy th at_) ran
  | spawn g t =>
    obtain ⟨th, at_, ran⟩ := bind_eq_some_iff.mp taken
    split at ran
    next pc place =>
      split at ran
      next m' ctx took =>
        simp only [ite_none_right_eq_some, some.injEq] at ran
        obtain ⟨_, rfl⟩ := ran
        exact awake.spawned at_ place took
      next => cases ran
    next => cases ran
  | fire t =>
    obtain ⟨th, at_, ran⟩ := bind_eq_some_iff.mp taken
    split at ran <;> cases ran
    next ctx place =>
      refine awake.move rfl ?_ fun _ _ => .inl ⟨_, rfl, rfl⟩
      rintro th' ⟨⟩ c carries
      exact awake.lifetime t th at_ c
        (by simpa only [scalingCtx, place, Pc.scalingCtx] using carries)
  | expire t =>
    obtain ⟨th, at_, ran⟩ := bind_eq_some_iff.mp taken
    split at ran
    next ctx place =>
      simp only [ite_none_left_eq_some, some.injEq] at ran
      obtain ⟨dead, rfl⟩ := ran
      -- the lifetime context dies with the calculator only
      have lifetime := awake.lifetime t th at_ ctx (by simp [scalingCtx, place, Pc.scalingCtx])
      refine awake.move rfl (by simp) fun _ running => ?_
      simp only [lifetime, Leader.live, Bool.not_eq_true', Bool.not_eq_false] at dead
      cases running.symm.trans dead
    next => cases ran
  | run | finish =>
    obtain ⟨th, at_, ran⟩ := bind_eq_some_iff.mp taken
    split at ran <;> cases ran
    next ctx reason place =>
      refine awake.idle rfl rfl (by rintro th' ⟨⟩; simp [scalingCtx, Pc.scalingCtx])
        fun th' here => ?_
      rw [at_, some.injEq] at here
      subst here
      simp [awaits, place, Pc.awaits]
  | timeout id =>
    simp only [Leader.step, ite_none_right_eq_some, some.injEq] at taken
    obtain ⟨_, rfl⟩ := taken
    exact ⟨awake.lifetime, awake.pending⟩
  | stop =>
    cases taken
    exact ⟨awake.lifetime, nofun⟩

omit [DecidableEq G] in
theorem Made.awake (made : Made s) : Awake s :=
  ⟨fun g th at_ => by simp [made.outside] at at_, fun scaling => by simp [made.current] at scaling⟩

/-- There is a timer, or the call about to start it, that will still enter
rebalancing, and its context is not cancelled. -/
def TimerPending (s : Leader G) : Prop :=
  ∃ g frame pc ctx, s.threads g = some ⟨frame, .machine pc⟩ ∧ pc.awaits = true ∧
    pc.scalingCtx = some ctx ∧ s.live ctx = true

omit [DecidableEq G] in
theorem Pc.awaits_ctx {X : Type} {pc : Pc X} (awaits : pc.awaits = true) :
    ∃ ctx, pc.scalingCtx = some ctx := by
  cases pc <;> first | exact ⟨_, rfl⟩ | cases awaits

theorem scaling_has_timer {s : Leader G} (reached : Reachable (leader G) TailFindsBusy s)
    (running : s.machine.stopping = false) (scaling : s.machine.current = .scaling) :
    TimerPending s := by
  have awake : Awake s := reached.invariant (I := Awake) (fun _ made => Made.awake made)
    fun _ _ _ awake busy taken => awake.step busy taken
  obtain ⟨g, ⟨frame, place⟩, at_, awaits⟩ := awake.pending scaling running
  cases place with
  | machine pc =>
    obtain ⟨ctx, carries⟩ := Pc.awaits_ctx awaits
    have lifetime := awake.lifetime g _ at_ ctx carries
    exact ⟨g, frame, pc, ctx, at_, awaits, carries, by simp [lifetime, Leader.live, running]⟩
  | _ => cases awaits

/-! ## Concrete runs -/

def newLeader (G : Type) : Leader G := ⟨⟨.idle, "", false⟩, fun _ => none, none, [], 0⟩

omit [DecidableEq G] in
theorem newLeader_made : Made (newLeader G) := ⟨rfl, rfl, fun _ => rfl⟩

/-- A planned scale: a fresh change of the workers, nothing in its way. -/
def plannedScale : Observation := ⟨false, true, true, false, "planned_scale", false, false⟩

/-- From the call of `observeAndDecide` to the timer `t` of a planned scale. -/
def scaleSteps {G : Type} (g t : G) : List (LeaderEvent G) :=
  [.step g, .observed g plannedScale] ++ List.replicate 7 (.step g) ++ [.spawn g t]

theorem scaling_has_timer_poll :
    ∃ s, Reachable (leader Bool) TailFindsBusy s ∧ s.machine.current = .scaling ∧
      TimerPending s := by
  obtain ⟨s, reached, scaling, running⟩ : ∃ s, Reachable (leader Bool) TailFindsBusy s ∧
      s.machine.current = .scaling ∧ s.machine.stopping = false :=
    exists_reachable _ newLeader_made (.poll false :: scaleSteps false true) _ (by decide)
  exact ⟨s, reached, scaling, scaling_has_timer reached running scaling⟩

def strandingRun : List (LeaderEvent Bool) :=
  [.partition false "partition_update", .step false, .step false, .run false, .finish false,
    .step false, .step false, .step false] ++ scaleSteps false true ++ [.expire true]

theorem tail_check_strands_scaling :
    ∃ s, Reachable (leader Bool) Free s ∧ s.machine.stopping = false ∧
      s.machine.current = .scaling ∧ ¬ TimerPending s := by
  obtain ⟨s, reached, running, scaling, idle⟩ : ∃ s, Reachable (leader Bool) Free s ∧
      s.machine.stopping = false ∧ s.machine.current = .scaling ∧ ∀ g, s.threads g = none :=
    exists_reachable _ newLeader_made strandingRun _ (by decide)
  refine ⟨s, reached, running, scaling, ?_⟩
  rintro ⟨g, frame, pc, ctx, at_, _⟩
  simp [idle g] at at_

end Parti.Calculator
