/-
# Calculator.ScalingEpisode — how long a scaling episode lasts

The state machine with a clock. A call of `EnterScaling` takes the next ticket, and its
window with it; the timer it starts fires when the window has passed. An episode begins
with the swap that sets scaling; ticket and time of that swap are for the record.

An emergency claim leaves scaling without cancelling the timer. The next episode then runs
with two timers, and the state word does not say whose it is: the old timer ends the new
episode (`abandoned_timer_ends_episode`). The same comes of two calls that both saw idle,
when the second finds scaling set by the first. `episode_lasts_window` is the guarantee in
runs without either.
-/
import Mathlib.Data.Fintype.Basic
import Parti.Calculator.Exclusion
import Parti.Calculator.ScalingTimer

namespace Parti.Calculator

open Lib Function Option

/-- A call of `EnterScaling`, by its number, and its window. -/
structure Ticket where
  call : Nat
  window : Nat
deriving DecidableEq

structure Timed (G : Type) where
  inner : Goroutines G Ticket
  now : Nat
  /-- How many calls of `EnterScaling` were made. -/
  calls : Nat
  /-- When the timer of a call fires. -/
  due : Nat → Nat
  /-- The call that began the last episode, and when. -/
  episode : Option (Ticket × Nat)

inductive TimedEvent (G : Type) where
  | act (event : Event G Ticket)
  | tick (elapsed : Nat)

namespace Timed

variable {G : Type}

/-- Calls take their tickets in order, and a timer fires when it is due. -/
def allows (s : Timed G) : Event G Ticket → Bool
  | .enterScaling _ ticket _ => ticket.call = s.calls
  | .fire t =>
    match s.inner.threads t with
    | some (.timer ticket) => s.due ticket.call ≤ s.now
    | _ => false
  | _ => true

def callsAfter (s : Timed G) : Event G Ticket → Nat
  | .enterScaling _ _ _ => s.calls + 1
  | _ => s.calls

/-- `time.NewTimer(window)`. -/
def dueAfter (s : Timed G) : Event G Ticket → Nat → Nat
  | .spawn g _ =>
    match s.inner.threads g with
    | some (.startTimer ticket) => Function.update s.due ticket.call (s.now + ticket.window)
    | _ => s.due
  | _ => s.due

def begins (s : Timed G) : Event G Ticket → Option Ticket
  | .step g =>
    match s.inner.threads g with
    | some (.emitCas (.scaling ticket) old) =>
      if s.inner.machine.current = old then some ticket else none
    | _ => none
  | _ => none

def episodeAfter (s : Timed G) (event : Event G Ticket) : Option (Ticket × Nat) :=
  match s.begins event with
  | some ticket => some (ticket, s.now)
  | none => s.episode

variable [DecidableEq G]

def step (s : Timed G) : TimedEvent G → Option (Timed G)
  | .act event =>
    if s.allows event then
      (s.inner.step event).map fun inner =>
        { s with
          inner := inner
          calls := s.callsAfter event
          due := s.dueAfter event
          episode := s.episodeAfter event }
    else none
  | .tick elapsed => some { s with now := s.now + elapsed }

end Timed

variable (G : Type) [DecidableEq G]

def timedMachine : System (Timed G) (TimedEvent G) :=
  ⟨fun s => Idle s.inner ∧ s.episode = none, Timed.step⟩

variable {G}

/-- A call that has seen idle finds scaling set by another. -/
def Timed.joins (s : Timed G) (g : G) : Bool :=
  match s.inner.threads g with
  | some (.emitLoad (.scaling _)) => s.inner.machine.current = .scaling
  | _ => false

/-- The goroutine is a timer of scaling that has not fired, or is about to start one or to
end scaling. -/
def Timed.awaits (s : Timed G) (g : G) : Bool := (s.inner.threads g).any Pc.awaits

/-- No call joins an episode of another, and none begins one while a timer is around. -/
def Separate (s : Timed G) : TimedEvent G → Prop
  | .act (.step g) =>
    s.joins g = false ∧ ((s.begins (.step g)).isSome = true → ∀ g', s.awaits g' = false)
  | _ => True

instance [Fintype G] (s : Timed G) : DecidablePred (Separate s)
  | .act (.step g) =>
    inferInstanceAs (Decidable (s.joins g = false ∧
      ((s.begins (.step g)).isSome = true → ∀ g', s.awaits g' = false)))
  | .act (.enterScaling ..) | .act (.tryClaimEmergency ..) | .act (.tryClaimRebalancing ..)
  | .act (.returnToIdle _) | .act (.spawn ..) | .act (.fire _) | .act (.expire _) | .act (.run _)
  | .act (.finish _) | .act .stop | .tick _ => .isTrue trivial

/-! ## One operation -/

section Machine

variable {X : Type} {m m' : Machine} {pc : Pc X} {next : Next X}

inductive Paced (m : Machine) (m' : Machine) : Pc X → Next X → Prop
  | begins {ctx} (scaling : m'.current = .scaling) :
      Paced m m' (.emitCas (.scaling ctx) m.current) (.goto (.startTimer ctx))
  | joins {ctx} (scaling : m.current = .scaling) (same : m' = m) :
      Paced m m' (.emitLoad (.scaling ctx)) (.goto (.startTimer ctx))
  | starts {ctx} (same : m' = m) : Paced m m' (.startTimer ctx) (.spawn ctx)
  | ends {ctx} {next : Next X} (scaling : m.current = .scaling)
      (rebalances : m'.current = .rebalancing) (quiet : next.awaits = false) :
      Paced m m' (.rebalanceCas ctx) next
  | other {pc : Pc X} {next : Next X} (quiet : next.awaits = false)
      (state : m'.current = m.current ∨ m'.current = .idle ∨
        m.current.claimed = false ∧ m'.current = .emergency ∨
        m.current = .idle ∧ m'.current = .rebalancing)
      (swaps : ∀ ctx, pc ≠ .emitCas (.scaling ctx) m.current) : Paced m m' pc next

theorem tryClaimEmergencyFrom_paced {source} {ctx : X} {otherwise : Next X}
    (unclaimed : source.claimed = false) (quiet : otherwise.awaits = false)
    (swaps : ∀ ctx, pc ≠ .emitCas (.scaling ctx) m.current)
    (took : m.tryClaimEmergencyFrom source ctx otherwise = (m', next)) : Paced m m' pc next := by
  unfold Machine.tryClaimEmergencyFrom at took
  split at took <;> cases took
  next here => exact .other rfl (.inr (.inr (.inl ⟨here ▸ unclaimed, rfl⟩))) swaps
  next => exact .other quiet (.inl rfl) swaps

theorem step_paced (took : m.step pc = some (m', next)) : Paced m m' pc next := by
  cases pc with
  | scalingStop | scalingLoad =>
    cases took
    exact .other (by split <;> rfl) (.inl rfl) (by simp)
  | scalingReason | rebalanceReason | emergencyReason | claimReason | idleReason =>
    cases took
    exact .other rfl (.inl rfl) (by simp)
  | emitLoad e =>
    cases took
    rcases e with ctx | held
    · split
      next scaling => exact .joins scaling rfl
      next => exact .other rfl (.inl rfl) (by simp)
    · exact .other (by split <;> rfl) (.inl rfl) (by simp)
  | emitCas e old =>
    simp only [Machine.step] at took
    rcases e with ctx | held
    · split at took <;> cases took
      next same =>
        subst same
        exact .begins rfl
      next other => exact .other rfl (.inl rfl) fun ctx same => other (by cases same; rfl)
    · split at took <;> cases took
      next => exact .other rfl (.inr (.inl rfl)) (by simp)
      next => exact .other rfl (.inl rfl) (by simp)
  | startTimer ctx =>
    cases took
    split
    next => exact .other rfl (.inl rfl) (by simp)
    next => exact .starts rfl
  | rebalanceCas ctx =>
    simp only [Machine.step] at took
    split at took <;> cases took
    next scaling => exact .ends scaling rfl rfl
    next => exact .other rfl (.inl rfl) (by simp)
  | emergencyIdle | emergencyScaling =>
    exact tryClaimEmergencyFrom_paced rfl rfl (by simp) (some.inj took)
  | claimCas ctx reason =>
    simp only [Machine.step] at took
    split at took <;> cases took
    next idle => exact .other rfl (.inr (.inr (.inr ⟨idle, rfl⟩))) (by simp)
    next => exact .other rfl (.inl rfl) (by simp)
  | timer ctx | claimed ctx reason | callback ctx reason => cases took

theorem step_of_current {s s' : Goroutines G X} {event}
    (taken : s.step event = some s') (moved : s'.machine.current ≠ s.machine.current) :
    ∃ g pc next, event = .step g ∧ s.threads g = some pc ∧
      s.machine.step pc = some (s'.machine, next) := by
  cases event with
  | enterScaling g ticket reason | tryClaimEmergency g ticket | tryClaimRebalancing g ticket reason
  | returnToIdle g =>
    obtain rfl := enter_eq_some taken
    exact absurd rfl moved
  | step g =>
    obtain ⟨pc, here, ran⟩ := bind_eq_some_iff.mp taken
    obtain ⟨⟨m', next⟩, took, ran⟩ := bind_eq_some_iff.mp ran
    cases next with
    | goto | returned =>
      cases ran
      exact ⟨g, pc, _, rfl, here, took⟩
    | spawn ticket => cases ran
  | spawn g t =>
    obtain ⟨pc, here, ran⟩ := bind_eq_some_iff.mp taken
    obtain ⟨⟨m', next⟩, took, ran⟩ := bind_eq_some_iff.mp ran
    cases next with
    | goto | returned => cases ran
    | spawn ticket =>
      simp only [ite_none_right_eq_some, some.injEq] at ran
      obtain ⟨_, rfl⟩ := ran
      exact absurd rfl moved
  | fire t | expire t | run g | finish g =>
    obtain ⟨pc, here, ran⟩ := bind_eq_some_iff.mp taken
    split at ran <;> cases ran
    exact absurd rfl moved
  | stop =>
    cases taken
    exact absurd rfl moved

end Machine

/-! ## Every run -/

section Runs

variable {s s' : Timed G} {g : G} {calls : Nat} {pc : Pc Ticket} {ticket : Ticket}

/-- Whoever awaits the end of scaling does so for the episode. -/
def Pc.Awaited (s : Timed G) : Pc Ticket → Prop
  | .startTimer ticket => ∃ began, s.episode = some (ticket, began) ∧ began ≤ s.now
  | .timer ticket =>
    ∃ began, s.episode = some (ticket, began) ∧ began + ticket.window ≤ s.due ticket.call
  | .rebalanceCas ticket =>
    ∃ began, s.episode = some (ticket, began) ∧ began + ticket.window ≤ s.now
  | _ => True

omit [DecidableEq G] in
theorem Pc.awaited_of_quiet (quiet : pc.awaits = false) : pc.Awaited s := by
  cases pc with
  | startTimer | timer | rebalanceCas => cases quiet
  | _ => trivial

/-- At most one goroutine awaits the end of scaling, and in scaling it is that of the
episode. -/
structure Timely (s : Timed G) : Prop where
  one : ∀ g g', s.awaits g = true → s.awaits g' = true → g = g'
  mine : ∀ g pc, s.inner.threads g = some pc → s.inner.machine.current = .scaling → pc.Awaited s

omit [DecidableEq G] in
theorem Timed.awaits_of (here : s.inner.threads g = some pc) : s.awaits g = pc.awaits := by
  rw [Timed.awaits, here, any_some]

theorem awaits_update (pc : Option (Pc Ticket))
    (threads : s'.inner.threads = Function.update s.inner.threads g pc) (g' : G) :
    s'.awaits g' = if g' = g then pc.any Pc.awaits else s.awaits g' := by
  rw [Timed.awaits, threads]
  split
  next same => rw [same, update_self]
  next other => rw [update_of_ne other, Timed.awaits]

omit [DecidableEq G] in
theorem Timely.tick (timely : Timely s) (elapsed : Nat) :
    Timely { s with now := s.now + elapsed } := by
  refine ⟨timely.one, fun g pc here scaling => ?_⟩
  have awaited := timely.mine g pc here scaling
  cases pc with
  | startTimer ticket | rebalanceCas ticket =>
    obtain ⟨began, same, past⟩ := awaited
    exact ⟨began, same, le_trans past (Nat.le_add_right ..)⟩
  | timer ticket => exact awaited
  | _ => trivial

theorem Timely.quiet (timely : Timely s) (pc : Option (Pc Ticket))
    (threads : s'.inner.threads = Function.update s.inner.threads g pc)
    (idle : pc.any Pc.awaits = false)
    (state : s'.inner.machine.current = .scaling → s.inner.machine.current = .scaling)
    (clock : s'.now = s.now ∧ s'.due = s.due ∧ s'.episode = s.episode) : Timely s' := by
  have before : ∀ g', s'.awaits g' = true → s.awaits g' = true := by
    intro g' awaits
    rw [awaits_update _ threads] at awaits
    split at awaits
    next => exact absurd awaits (by simp [idle])
    next => exact awaits
  refine ⟨fun g₁ g₂ awaits₁ awaits₂ => timely.one g₁ g₂ (before g₁ awaits₁) (before g₂ awaits₂),
    fun g' pc' here scaling => ?_⟩
  rw [threads] at here
  by_cases mover : g' = g
  · subst mover
    rw [update_self] at here
    rw [here] at idle
    exact Pc.awaited_of_quiet idle
  · rw [update_of_ne mover] at here
    have awaited := timely.mine g' pc' here (state scaling)
    simp only [Pc.Awaited, clock.1, clock.2.1, clock.2.2]
    exact awaited

theorem Timely.only (pc : Pc Ticket)
    (threads : s'.inner.threads = Function.update s.inner.threads g (some pc))
    (nobody : ∀ g', g' ≠ g → s.awaits g' = false)
    (awaited : s'.inner.machine.current = .scaling → pc.Awaited s') : Timely s' := by
  have only : ∀ g', s'.awaits g' = true → g' = g := by
    intro g' awaits
    by_contra other
    rw [awaits_update _ threads, if_neg other, nobody g' other] at awaits
    cases awaits
  refine ⟨fun g₁ g₂ awaits₁ awaits₂ => (only g₁ awaits₁).trans (only g₂ awaits₂).symm,
    fun g' pc' here scaling => ?_⟩
  by_cases mover : g' = g
  · subst mover
    rw [threads, update_self] at here
    rw [← some.inj here]
    exact awaited scaling
  · rw [threads, update_of_ne mover] at here
    apply Pc.awaited_of_quiet
    rw [← Timed.awaits_of here]
    exact nobody g' mover

omit [DecidableEq G] in
theorem Timely.others (timely : Timely s) (awaits : s.awaits g = true) (g' : G) (other : g' ≠ g) :
    s.awaits g' = false := by
  rw [Bool.eq_false_iff]
  exact fun awaits' => other (timely.one g' g awaits' awaits)

omit [DecidableEq G] in
theorem begins_none (here : s.inner.threads g = some pc)
    (swaps : ∀ ticket, pc ≠ .emitCas (.scaling ticket) s.inner.machine.current) :
    s.begins (.step g) = none := by
  simp only [Timed.begins, here]
  split
  next ticket old same =>
    cases same
    rw [if_neg]
    rintro rfl
    exact swaps ticket rfl
  next => rfl

omit [DecidableEq G] in
theorem begins_some
    (here : s.inner.threads g = some (.emitCas (.scaling ticket) s.inner.machine.current)) :
    s.begins (.step g) = some ticket := by
  simp [Timed.begins, here]

theorem Timely.operation (timely : Timely s) (separate : Separate s (.act (.step g))) {m'}
    {next} (here : s.inner.threads g = some pc)
    (paced : Paced s.inner.machine m' pc next) (stays : ∀ ticket, next ≠ .spawn ticket) :
    Timely { s with
      inner := { s.inner.set g next.pc? with machine := m' }
      episode := s.episodeAfter (.step g) } := by
  cases paced with
  | @begins ticket scaling =>
    have began := begins_some here
    refine Timely.only (.startTimer ticket) rfl (fun g' _ => separate.2 (by simp [began]) g')
      fun _ => ⟨s.now, ?_, le_refl _⟩
    simp [Timed.episodeAfter, began]
  | joins scaling =>
    have joins : s.joins g = true := by simp [Timed.joins, here, scaling]
    rw [separate.1] at joins
    cases joins
  | starts same => exact absurd rfl (stays _)
  | ends scaling rebalances quiet =>
    refine timely.quiet (g := g) next.pc? rfl ?_ (fun again => ?_) ⟨rfl, rfl, ?_⟩
    · cases next <;> first | exact quiet | rfl
    · rw [rebalances] at again
      cases again
    · simp [Timed.episodeAfter, begins_none here]
  | other quiet state swaps =>
    refine timely.quiet (g := g) next.pc? rfl ?_ (fun scaling => ?_) ⟨rfl, rfl, ?_⟩
    · cases next <;> first | exact quiet | rfl
    · have scaling : m'.current = .scaling := scaling
      rcases state with same | idle | ⟨_, emergency⟩ | ⟨_, rebalances⟩
      · exact same.symm.trans scaling
      · exact absurd (scaling.symm.trans idle) (by decide)
      · exact absurd (scaling.symm.trans emergency) (by decide)
      · exact absurd (scaling.symm.trans rebalances) (by decide)
    · simp [Timed.episodeAfter, begins_none here swaps]

theorem Timely.spawn (timely : Timely s) {t : G}
    (here : s.inner.threads g = some (.startTimer ticket)) :
    Timely { s with
      inner := (s.inner.set g none).set t (some (.timer ticket))
      calls := calls
      due := s.dueAfter (.spawn g t)
      episode := s.episodeAfter (.spawn g t) } := by
  have awaits : s.awaits g = true := Timed.awaits_of here
  refine Timely.only (s := { s with inner := s.inner.set g none }) (g := t) (.timer ticket) rfl
    (fun g' _ => ?_) fun scaling => ?_
  · rw [awaits_update (s := s) (g := g) none rfl]
    split
    next => rfl
    next other => exact timely.others awaits g' other
  · obtain ⟨began, same, past⟩ := timely.mine g _ here scaling
    refine ⟨began, same, ?_⟩
    simp only [Timed.dueAfter, here, update_self]
    omega

theorem Timely.fire (timely : Timely s) (here : s.inner.threads g = some (.timer ticket))
    (allows : s.allows (.fire g) = true) :
    Timely { s with
      inner := s.inner.set g (some (.rebalanceCas ticket))
      calls := calls
      due := s.dueAfter (.fire g)
      episode := s.episodeAfter (.fire g) } := by
  have awaits : s.awaits g = true := Timed.awaits_of here
  refine Timely.only (s := s) (g := g) (.rebalanceCas ticket) rfl (timely.others awaits)
    fun scaling => ?_
  obtain ⟨began, same, past⟩ := timely.mine g _ here scaling
  refine ⟨began, same, ?_⟩
  have due : s.due ticket.call ≤ s.now := by simpa [Timed.allows, here] using allows
  exact le_trans past due

theorem Timely.act (timely : Timely s) {event}
    (separate : Separate s (.act event)) (taken : s.step (.act event) = some s') : Timely s' := by
  simp only [Timed.step] at taken
  split at taken
  next allows =>
    obtain ⟨inner, moved, rfl⟩ := map_eq_some_iff.mp taken
    cases event with
    | enterScaling g ticket reason | tryClaimEmergency g ticket
    | tryClaimRebalancing g ticket reason | returnToIdle g =>
      obtain rfl := enter_eq_some moved
      exact timely.quiet _ rfl rfl id ⟨rfl, rfl, rfl⟩
    | step g =>
      obtain ⟨pc, here, ran⟩ := bind_eq_some_iff.mp moved
      obtain ⟨⟨m', next⟩, took, ran⟩ := bind_eq_some_iff.mp ran
      have kept := timely.operation separate here (step_paced took)
      cases next with
      | goto | returned =>
        cases ran
        exact kept (by simp)
      | spawn ticket => cases ran
    | spawn g t =>
      obtain ⟨pc, here, ran⟩ := bind_eq_some_iff.mp moved
      obtain ⟨⟨m', next⟩, took, ran⟩ := bind_eq_some_iff.mp ran
      cases next with
      | goto | returned => cases ran
      | spawn ticket =>
        simp only [ite_none_right_eq_some, some.injEq] at ran
        obtain ⟨_, rfl⟩ := ran
        cases step_paced took with
        | other quiet | ends _ _ quiet => cases quiet
        | starts same => exact timely.spawn here
    | fire t =>
      obtain ⟨pc, here, ran⟩ := bind_eq_some_iff.mp moved
      split at ran <;> cases ran
      exact timely.fire here allows
    | expire | run | finish =>
      obtain ⟨pc, here, ran⟩ := bind_eq_some_iff.mp moved
      split at ran <;> cases ran
      exact timely.quiet _ rfl rfl id ⟨rfl, rfl, rfl⟩
    | stop =>
      cases moved
      exact ⟨timely.one, timely.mine⟩
  next => cases taken

theorem timely_of_reachable (reached : Reachable (timedMachine G) Separate s) : Timely s := by
  refine Reachable.invariant (I := Timely) ?_ ?_ reached
  · rintro s ⟨idle, _⟩
    refine ⟨fun g _ awaits => ?_, fun g pc here => ?_⟩
    · simp [Timed.awaits, idle.outside] at awaits
    · simp [idle.outside] at here
  · rintro s event s' timely separate taken
    cases event with
    | act event => exact timely.act separate taken
    | tick elapsed =>
      cases taken
      exact timely.tick elapsed

/-- **An episode that ends in a rebalance lasts its window.** -/
theorem episode_lasts_window (reached : Reachable (timedMachine G) Separate s)
    {event : TimedEvent G} (taken : (timedMachine G).step s event = some s')
    (scaling : s.inner.machine.current = .scaling)
    (rebalancing : s'.inner.machine.current = .rebalancing) :
    ∃ g ticket began, event = .act (.step g) ∧
      s.inner.threads g = some (.rebalanceCas ticket) ∧ s.episode = some (ticket, began) ∧
      began + ticket.window ≤ s.now := by
  have timely := timely_of_reachable reached
  have moved : s'.inner.machine.current ≠ s.inner.machine.current := by
    rw [scaling, rebalancing]
    decide
  cases event with
  | tick elapsed =>
    cases taken
    exact absurd rfl moved
  | act event =>
    simp only [timedMachine, Timed.step] at taken
    split at taken
    next =>
      obtain ⟨inner, stepped, rfl⟩ := map_eq_some_iff.mp taken
      obtain ⟨g, pc, next, rfl, here, took⟩ := step_of_current stepped moved
      cases step_paced took with
      | begins again => exact absurd (again.symm.trans rebalancing) (by decide)
      | joins _ same | starts same => exact absurd (congrArg Machine.current same) moved
      | @ends ticket _ _ rebalances =>
        obtain ⟨began, same, past⟩ := timely.mine g _ here scaling
        exact ⟨g, ticket, began, rfl, here, same, past⟩
      | other quiet state swaps =>
        rcases state with same | idle | ⟨_, emergency⟩ | ⟨idle, _⟩
        · exact absurd same moved
        · exact absurd (idle.symm.trans rebalancing) (by decide)
        · exact absurd (emergency.symm.trans rebalancing) (by decide)
        · exact absurd (idle.symm.trans scaling) (by decide)
    next => cases taken

end Runs

/-! ## Two episodes -/

def newTimedMachine (G : Type) : Timed G := ⟨newStateMachine G Ticket, 0, 0, fun _ => 0, none⟩

/-- Goroutine `g` enters scaling with a window of ten, and `t` is its timer. -/
def scales (call : Nat) (g t : Fin 4) : List (TimedEvent (Fin 4)) :=
  .act (.enterScaling g ⟨call, 10⟩ "planned_scale") ::
    List.replicate 5 (.act (.step g)) ++ [.act (.spawn g t)]

/-- Goroutine `g` claims an emergency, runs its rebalance and returns to idle. -/
def claimsEmergency (g : Fin 4) : List (TimedEvent (Fin 4)) :=
  .act (.tryClaimEmergency g ⟨0, 0⟩) :: List.replicate 3 (.act (.step g)) ++
    [.act (.run g), .act (.finish g)] ++ List.replicate 3 (.act (.step g))

/-- A first episode is left for an emergency at once and its timer is cancelled; the second
runs its ten units. -/
theorem episode_lasts_window_second :
    ∃ s s', Reachable (timedMachine (Fin 4)) Separate s ∧
      (timedMachine (Fin 4)).step s (.act (.step 3)) = some s' ∧
      s'.inner.machine.current = .rebalancing ∧
      ∃ g ticket began, s.inner.threads g = some (.rebalanceCas ticket) ∧
        s.episode = some (ticket, began) ∧ began + ticket.window ≤ s.now := by
  obtain ⟨s, s', reached, taken, scaling, rebalancing⟩ := exists_reachable_step
    (M := timedMachine (Fin 4)) (s := newTimedMachine _) Separate ⟨newStateMachine_idle, rfl⟩
    (scales 0 0 1 ++ claimsEmergency 2 ++ [.act (.expire 1)] ++ scales 1 0 3 ++ [.tick 10,
        .act (.fire 3)])
    (.act (.step 3)) (fun s s' => s.inner.machine.current = .scaling ∧
      s'.inner.machine.current = .rebalancing) (by decide)
  obtain ⟨g, ticket, began, _, lasts⟩ := episode_lasts_window reached taken scaling rebalancing
  exact ⟨s, s', reached, taken, rebalancing, g, ticket, began, lasts⟩

theorem abandoned_timer_ends_episode :
    ∃ s s', Reachable (timedMachine (Fin 4)) Free s ∧
      (timedMachine (Fin 4)).step s (.act (.step 1)) = some s' ∧
      s.inner.machine.current = .scaling ∧ s'.inner.machine.current = .rebalancing ∧
      s.inner.threads 1 = some (.rebalanceCas ⟨0, 10⟩) ∧
      s.episode = some (⟨1, 10⟩, 6) ∧ s.now = 10 :=
  exists_reachable_step (M := timedMachine (Fin 4)) (s := newTimedMachine _)
    _ ⟨newStateMachine_idle, rfl⟩
    (scales 0 0 1 ++ [.tick 5] ++ claimsEmergency 2 ++ [.tick 1] ++ scales 1 0 3 ++
      [.tick 4, .act (.fire 1)]) _ _ (by decide)

end Parti.Calculator
