/-
# Calculator.Exclusion — one rebalance at a time

A claimed lifecycle is meant to be exclusive: its callback runs alone, and while it
runs the state says so. The strict swaps keep that. The load-and-swap loop of
`EnterScaling` does not: it checks for idle and then sets scaling from whatever state
it finds, so a lifecycle claimed in between is overwritten
(`scaling_overwrites_claim`). `callbacks_exclusive` is the guarantee in runs where no
goroutine without a lifecycle overwrites a claimed state.
-/
import Parti.Lib.Run
import Parti.Calculator.StateMachine

namespace Parti.Calculator

open Lib Function Option

/-- The shared words, and where each goroutine is; `none` is a goroutine outside
the state machine. -/
structure Goroutines (G X : Type) where
  machine : Machine
  threads : G → Option (Pc X)

inductive Event (G X : Type) where
  | enterScaling (g : G) (ctx : X) (reason : String)
  | tryClaimEmergency (g : G) (ctx : X)
  | tryClaimRebalancing (g : G) (ctx : X) (reason : String)
  | returnToIdle (g : G)
  /-- The next atomic operation of a goroutine. -/
  | step (g : G)
  /-- `wg.Go`: the timer goroutine is `t`. -/
  | spawn (g t : G)
  /-- The timer fires, or its context or the stop channel ends it. -/
  | fire (t : G)
  | expire (t : G)
  /-- The caller of a claim runs the callback; the callback returns. -/
  | run (g : G)
  | finish (g : G)
  | stop

variable {G X : Type} [DecidableEq G]

namespace Goroutines

def set (s : Goroutines G X) (g : G) (pc : Option (Pc X)) : Goroutines G X :=
  { s with threads := Function.update s.threads g pc }

def enter (s : Goroutines G X) (g : G) (pc : Pc X) : Option (Goroutines G X) :=
  if (s.threads g).isNone then some (s.set g (some pc)) else none

def step (s : Goroutines G X) : Event G X → Option (Goroutines G X)
  | .enterScaling g ctx reason => s.enter g (.scalingStop ctx reason)
  | .tryClaimEmergency g ctx => s.enter g (.emergencyIdle ctx)
  | .tryClaimRebalancing g ctx reason => s.enter g (.claimCas ctx reason)
  | .returnToIdle g => s.enter g (.idleReason false)
  | .step g =>
    (s.threads g).bind fun pc => (s.machine.step pc).bind fun r =>
      match r.2 with
      | .goto pc' => some { s.set g (some pc') with machine := r.1 }
      | .returned => some { s.set g none with machine := r.1 }
      | .spawn _ => none
  | .spawn g t =>
    (s.threads g).bind fun pc => (s.machine.step pc).bind fun r =>
      match r.2 with
      | .spawn ctx =>
        if (s.threads t).isNone then some ((s.set g none).set t (some (.timer ctx))) else none
      | _ => none
  | .fire t =>
    (s.threads t).bind fun
      | .timer ctx => some (s.set t (some (.rebalanceCas ctx)))
      | _ => none
  | .expire t =>
    (s.threads t).bind fun
      | .timer _ => some (s.set t none)
      | _ => none
  | .run g =>
    (s.threads g).bind fun
      | .claimed ctx reason => some (s.set g (some (.callback ctx reason)))
      | _ => none
  | .finish g =>
    (s.threads g).bind fun
      | .callback _ _ => some (s.set g (some (.idleReason true)))
      | _ => none
  | .stop => some { s with machine.stopping := true }

end Goroutines

structure Idle (s : Goroutines G X) : Prop where
  current : s.machine.current = .idle
  outside : ∀ g, s.threads g = none

variable (G X)

def stateMachine : System (Goroutines G X) (Event G X) := ⟨Idle, Goroutines.step⟩

variable {G X}

/-! ## Exclusion -/

/-- Every goroutine that holds a lifecycle finds the state claimed, and there is
at most one. -/
structure Exclusive (s : Goroutines G X) : Prop where
  claimed : ∀ g pc, s.threads g = some pc → pc.holds = true → s.machine.current.claimed = true
  one : ∀ g g' pc pc', s.threads g = some pc → s.threads g' = some pc' →
    pc.holds = true → pc'.holds = true → g = g'

variable {s : Goroutines G X} {g : G} {pc : Pc X} {s' : Goroutines G X}

omit [DecidableEq G] in
theorem Exclusive.nobody (exclusive : Exclusive s) (free : s.machine.current.claimed = false)
    (at_ : s.threads g = some pc) :
    pc.holds = false := by
  cases holds : pc.holds with
  | false => rfl
  | true => simp [exclusive.claimed g pc at_ holds] at free

theorem Exclusive.set (exclusive : Exclusive s) (g : G) (pc' : Option (Pc X))
    (keeps : ∀ p, pc' = some p → p.holds = true → ∃ pc, s.threads g = some pc ∧ pc.holds = true) :
    Exclusive (s.set g pc') := by
  have was : ∀ g' p, (s.set g pc').threads g' = some p → p.holds = true →
      ∃ pc, s.threads g' = some pc ∧ pc.holds = true := by
    intro g' p at_ holds
    by_cases same : g' = g
    · subst same
      simp only [Goroutines.set, update_self] at at_
      exact keeps p at_ holds
    · simp only [Goroutines.set, update_of_ne same] at at_
      exact ⟨p, at_, holds⟩
  refine ⟨fun g' p at_ holds => ?_, fun g' g'' p p' at_ at_' holds holds' => ?_⟩
  · obtain ⟨pc, before, held⟩ := was g' p at_ holds
    exact exclusive.claimed g' pc before held
  · obtain ⟨pc, before, held⟩ := was g' p at_ holds
    obtain ⟨pc', before', held'⟩ := was g'' p' at_' holds'
    exact exclusive.one g' g'' pc pc' before before' held held'

theorem exclusive_of_only (g : G)
    (others : ∀ g' pc, g' ≠ g → s.threads g' = some pc → pc.holds = false)
    (claimed : ∀ pc, s.threads g = some pc → pc.holds = true → s.machine.current.claimed = true) :
    Exclusive s := by
  have only : ∀ g' pc, s.threads g' = some pc → pc.holds = true → g' = g := by
    intro g' pc at_ holds
    by_contra ne
    simp [others g' pc ne at_] at holds
  refine ⟨fun g' pc at_ holds => ?_, fun g' g'' pc pc' at_ at_' holds holds' => ?_⟩
  · cases only g' pc at_ holds
    exact claimed pc at_ holds
  · rw [only g' pc at_ holds, only g'' pc' at_' holds']

/-- An atomic operation keeps the state exclusive, unless it overwrites a claimed
state without holding the lifecycle. -/
theorem Exclusive.operation {m'} {next : Next X} (exclusive : Exclusive s)
    (at_ : s.threads g = some pc) (effect : Effect s.machine pc m' next)
    (allowed : ∀ old ∈ pc.overwrites, s.machine.current = old → old.claimed = false) :
    Exclusive { s.set g next.pc? with machine := m' } := by
  have other : ∀ g' p, g' ≠ g → (s.set g next.pc?).threads g' = some p →
      s.threads g' = some p := by
    intro g' p ne at_'
    simpa only [Goroutines.set, update_of_ne ne] using at_'
  have self : ∀ p, (s.set g next.pc?).threads g = some p → p.holds = next.holds := by
    intro p at_'
    simp only [Goroutines.set, update_self] at at_'
    exact (Next.holds_pc at_').symm
  cases effect with
  | quiet same keeps =>
    have kept := exclusive.set g next.pc? fun p at_' holds =>
      ⟨pc, at_, keeps ((Next.holds_pc at_').trans holds)⟩
    exact ⟨fun g' p at_' holds => same.symm ▸ kept.claimed g' p at_' holds, kept.one⟩
  | claim free taken =>
    exact exclusive_of_only g
      (fun g' p ne at_' => exclusive.nobody free (other g' p ne at_')) fun _ _ _ => taken
  | release held freed =>
    refine exclusive_of_only g (fun g' p ne at_' => ?_) fun p at_' holds => ?_
    · cases holds : p.holds with
      | false => rfl
      | true => exact absurd (exclusive.one g' g p pc (other g' p ne at_') at_ holds held) ne
    · simp [self p at_', freed] at holds
  | overwrite old free without =>
    have unclaimed := allowed _ old rfl
    refine exclusive_of_only g (fun g' p ne at_' =>
      exclusive.nobody unclaimed (other g' p ne at_')) fun p at_' holds => ?_
    simp [self p at_', without] at holds

/-- A step that does not overwrite a claimed state, unless its goroutine holds the
lifecycle. -/
def Respects (s : Goroutines G X) : Event G X → Prop
  | .step g => ∀ pc ∈ s.threads g, ∀ old ∈ pc.overwrites,
      s.machine.current = old → old.claimed = false
  | _ => True

instance (s : Goroutines G X) : (e : Event G X) → Decidable (Respects s e)
  | .step g => inferInstanceAs (Decidable (∀ pc ∈ s.threads g, _))
  | .enterScaling _ _ _ | .tryClaimEmergency _ _ | .tryClaimRebalancing _ _ _
  | .returnToIdle _ | .spawn _ _ | .fire _ | .expire _ | .run _ | .finish _ | .stop =>
    inferInstanceAs (Decidable True)

theorem enter_eq_some (called : s.enter g pc = some s') :
    s' = s.set g (some pc) := by
  unfold Goroutines.enter at called
  split at called <;> cases called
  rfl

theorem Exclusive.enter (exclusive : Exclusive s) (without : pc.holds = false)
    (called : s.enter g pc = some s') : Exclusive s' := by
  cases enter_eq_some called
  refine exclusive.set g (some pc) fun p same holds => ?_
  cases same
  simp [without] at holds

theorem Exclusive.step {e} (exclusive : Exclusive s) (respects : Respects s e)
    (taken : s.step e = some s') : Exclusive s' := by
  cases e with
  | enterScaling | tryClaimEmergency | tryClaimRebalancing | returnToIdle =>
    exact exclusive.enter rfl taken
  | step g =>
    obtain ⟨pc, at_, ran⟩ := bind_eq_some_iff.mp taken
    obtain ⟨⟨m', next⟩, took, ran⟩ := bind_eq_some_iff.mp ran
    have kept := exclusive.operation at_ (step_effect took) (respects pc at_)
    cases next with
    | goto | returned =>
      cases ran
      exact kept
    | spawn ctx => cases ran
  | spawn g t =>
    obtain ⟨pc, at_, ran⟩ := bind_eq_some_iff.mp taken
    obtain ⟨⟨m', next⟩, took, ran⟩ := bind_eq_some_iff.mp ran
    cases next with
    | goto | returned => cases ran
    | spawn ctx =>
      simp only [ite_none_right_eq_some, Option.some.injEq] at ran
      obtain ⟨_, rfl⟩ := ran
      exact (exclusive.set g none (by simp)).set t _ (by simp [Pc.holds])
  | fire t =>
    obtain ⟨pc, at_, ran⟩ := bind_eq_some_iff.mp taken
    split at ran <;> cases ran
    exact exclusive.set t _ (by simp [Pc.holds])
  | expire t =>
    obtain ⟨pc, at_, ran⟩ := bind_eq_some_iff.mp taken
    split at ran <;> cases ran
    exact exclusive.set t none (by simp)
  | run g | finish g =>
    obtain ⟨pc, at_, ran⟩ := bind_eq_some_iff.mp taken
    split at ran <;> cases ran
    exact exclusive.set g _ fun _ _ _ => ⟨_, at_, rfl⟩
  | stop =>
    cases taken
    exact ⟨exclusive.claimed, exclusive.one⟩

omit [DecidableEq G] in
theorem Idle.exclusive (idle : Idle s) : Exclusive s :=
  ⟨fun g pc at_ => by simp [idle.outside] at at_, fun g g' pc pc' at_ => by
    simp [idle.outside] at at_⟩

def InCallback (s : Goroutines G X) (g : G) : Prop :=
  ∃ ctx reason, s.threads g = some (.callback ctx reason)

theorem callbacks_exclusive {s : Goroutines G X}
    (reached : Reachable (stateMachine G X) Respects s) :
    (∀ g g', InCallback s g → InCallback s g' → g = g') ∧
      ∀ g, InCallback s g →
        s.machine.current = .rebalancing ∨ s.machine.current = .emergency := by
  have exclusive : Exclusive s := reached.invariant (I := Exclusive) (fun _ idle => Idle.exclusive idle)
    fun _ _ _ exclusive respects taken => exclusive.step respects taken
  refine ⟨fun g g' ⟨_, _, at_⟩ ⟨_, _, at_'⟩ => exclusive.one g g' _ _ at_ at_' rfl rfl,
    fun g ⟨_, _, at_⟩ => ?_⟩
  have claimed := exclusive.claimed g _ at_ rfl
  cases state : s.machine.current with
  | idle | scaling => simp [state, CalcState.claimed] at claimed
  | rebalancing => exact .inl rfl
  | emergency => exact .inr rfl

/-! ## Concrete runs -/

def newStateMachine (G X : Type) : Goroutines G X := ⟨⟨.idle, "", false⟩, fun _ => none⟩

omit [DecidableEq G] in
theorem newStateMachine_idle : Idle (newStateMachine G X) := ⟨rfl, fun _ => rfl⟩

/-- Scaling is entered and its timer fires; the callback of the timer runs. -/
def timerRun : List (Event Nat Unit) :=
  .enterScaling 0 () "planned_scale" :: List.replicate 5 (.step 0) ++
    [.spawn 0 1, .fire 1, .step 1, .step 1]

theorem callbacks_exclusive_timer :
    ∃ s, Reachable (stateMachine Nat Unit) Respects s ∧ InCallback s 1 ∧
      ((∀ g g', InCallback s g → InCallback s g' → g = g') ∧
        ∀ g, InCallback s g →
          s.machine.current = .rebalancing ∨ s.machine.current = .emergency) := by
  obtain ⟨s, reached, at_⟩ : ∃ s, Reachable (stateMachine Nat Unit) Respects s ∧
      s.threads 1 = some (.callback () "planned_scale") :=
    exists_reachable _ newStateMachine_idle timerRun _ (by decide)
  exact ⟨s, reached, ⟨_, _, at_⟩, callbacks_exclusive reached⟩

def overwriteRun : List (Event Nat Unit) :=
  [.enterScaling 0 () "planned_scale", .step 0, .step 0,
    .tryClaimRebalancing 1 () "partition_update", .step 1, .step 1, .run 1] ++
    List.replicate 3 (.step 0) ++ [.spawn 0 2, .fire 2, .step 2, .step 2]

/-- Two callbacks run at once, and before the second starts the state was scaling
while the first ran. -/
theorem scaling_overwrites_claim :
    (∃ s, Reachable (stateMachine Nat Unit) Free s ∧ InCallback s 1 ∧ InCallback s 2) ∧
      ∃ s, Reachable (stateMachine Nat Unit) Free s ∧ InCallback s 1 ∧
        s.machine.current = .scaling := by
  obtain ⟨s, reached, first, second⟩ : ∃ s, Reachable (stateMachine Nat Unit) Free s ∧
      s.threads 1 = some (.callback () "partition_update") ∧
      s.threads 2 = some (.callback () "planned_scale") :=
    exists_reachable _ newStateMachine_idle overwriteRun _ (by decide)
  obtain ⟨s', reached', first', scaling⟩ : ∃ s, Reachable (stateMachine Nat Unit) Free s ∧
      s.threads 1 = some (.callback () "partition_update") ∧ s.machine.current = .scaling :=
    exists_reachable _ newStateMachine_idle (overwriteRun.take 10) _ (by decide)
  exact ⟨⟨s, reached, ⟨_, _, first⟩, ⟨_, _, second⟩⟩, s', reached', ⟨_, _, first'⟩, scaling⟩

end Parti.Calculator
