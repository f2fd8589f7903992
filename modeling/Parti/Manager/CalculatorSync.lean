/-
# Manager.CalculatorSync — the manager's state after the calculator's

A leader runs `monitorCalculatorState`: it subscribes to the calculator's state changes and
moves the manager's own state after them, one notification at a time, and every few seconds
it compares the calculator's state with the one it applied last.

The calculator is the state machine of `Calculator.Exclusion`. A swap that changes its state
puts the new state into the channel, which keeps the order and loses nothing; the first
thing in it is the state at the subscription. Nobody else moves the manager.

The calculator claims an emergency out of scaling, and the manager's table has no edge from
scaling to emergency: the notification is dropped, recorded as applied, and no reconcile
repairs it (`emergency_from_scaling_lost`). The same comes of scaling set over a claimed
lifecycle. `state_follows` is the guarantee in runs without either.
-/
import Mathlib.Data.List.Chain
import Parti.Calculator.ScalingEpisode
import Parti.Manager.Lifecycle

namespace Parti.Manager

open Lib Program List
open Calculator (CalcState Goroutines Event Idle Machine Paced)

/-! ## The calls, with nobody else around -/

def Life.transitionState (life : Life) (target : State) : Life :=
  if life.state = target then life
  else if isValidTransition life.state target then { life with state := target }
  else life

def Life.syncStateFromCalculator (life : Life) (calcState : CalcState) : Life :=
  if life.state = .init ∨ life.state = .claimingID ∨ life.state = .election ∨
      life.state = .shutdown then life
  else if life.state = .waitingAssignment ∧ calcState = .idle then life
  else if calcState = .idle ∧ isCalculatorOwnedActiveState life.state = false then life
  else if calcState = .idle ∧ life.startupAssignmentApplied = false then life
  else if life.state ≠ (Site.sync calcState).target then
    life.transitionState (Site.sync calcState).target
  else life

section Alone

attribute [local simp] solo lifeProgram LifePc.next Call.begins live Site.ended

theorem transitionState_alone {T : Type} (t : T) (life : Life) (calcState : CalcState) :
    ∃ count, (lifeProgram T).solo t life (.transition (.sync calcState) 0)
      (List.replicate count .go) =
        some (life.transitionState (Site.sync calcState).target, .idle) := by
  unfold Life.transitionState
  split_ifs with there valid
  · exact ⟨1, by simp [there]⟩
  · exact ⟨2, by simp [there, valid]⟩
  · exact ⟨1, by simp [there, valid]⟩

theorem syncStateFromCalculator_cases (life : Life) (calcState : CalcState) :
    let moved := life.transitionState (Site.sync calcState).target
    syncFrom life.state calcState = .idle ∧ life.syncStateFromCalculator calcState = life ∨
    (syncFrom life.state calcState = .syncApplied ∧ calcState = .idle) ∧
      life.syncStateFromCalculator calcState =
        (if life.startupAssignmentApplied then moved else life) ∨
    syncFrom life.state calcState = .transition (.sync calcState) 0 ∧
      life.syncStateFromCalculator calcState = moved := by
  unfold Life.syncStateFromCalculator syncFrom
  by_cases early : life.state = .init ∨ life.state = .claimingID ∨ life.state = .election ∨
      life.state = .shutdown
  · simp [early]
  by_cases idle : calcState = .idle
  · subst idle
    cases state : life.state <;> simp_all [isCalculatorOwnedActiveState, Site.target]
    all_goals cases life.startupAssignmentApplied <;> rfl
  · by_cases there : life.state = (Site.sync calcState).target <;> simp [early, idle, there]

/-- Step by step, with nobody else around, the call is this function. -/
theorem syncStateFromCalculator_alone {T : Type} (t : T) (life : Life) (calcState : CalcState) :
    ∃ count, (lifeProgram T).solo t life .idle
      (.syncStateFromCalculator calcState :: List.replicate count .go) =
        some (life.syncStateFromCalculator calcState, .idle) := by
  obtain ⟨count, moves⟩ := transitionState_alone t life calcState
  obtain ⟨first, is⟩ | ⟨⟨first, rfl⟩, is⟩ | ⟨first, is⟩ := syncStateFromCalculator_cases life calcState
  · exact ⟨1, by simp [first, is]⟩
  · rw [is]
    split
    next ready => exact ⟨count + 2, by simpa [first, ready, replicate_succ] using moves⟩
    next unready => exact ⟨2, by simp [first, unready]⟩
  · exact ⟨count + 1, by simpa [first, is, replicate_succ] using moves⟩
end Alone

/-! ## The monitor -/

structure Monitored (G X : Type) where
  inner : Goroutines G X
  stateCh : List CalcState
  life : Life
  lastApplied : Option CalcState

inductive MonitorEvent (G X : Type) where
  | act (event : Event G X)
  /-- The monitor takes a notification, or its ticker fires. -/
  | deliver
  | reconcile

namespace Monitored

variable {G X : Type}

def notify (s : Monitored G X) (inner : Goroutines G X) : List CalcState :=
  if inner.machine.current = s.inner.machine.current then s.stateCh
  else s.stateCh ++ [inner.machine.current]

def apply (s : Monitored G X) (calcState : CalcState) : Monitored G X :=
  { s with
    life := s.life.syncStateFromCalculator calcState
    lastApplied := some calcState }

def reconcile (s : Monitored G X) : Monitored G X :=
  if s.lastApplied = some s.inner.machine.current then s else s.apply s.inner.machine.current

variable [DecidableEq G]

def step (s : Monitored G X) : MonitorEvent G X → Option (Monitored G X)
  | .act event =>
    (s.inner.step event).map fun inner => { s with inner := inner, stateCh := s.notify inner }
  | .deliver =>
    match s.stateCh with
    | [] => none
    | calcState :: rest => some { s.apply calcState with stateCh := rest }
  | .reconcile => some s.reconcile

end Monitored

/-- A leader, stable and with its startup assignment applied, that has just subscribed. -/
structure Subscribed {G X : Type} (s : Monitored G X) : Prop where
  inner : Idle s.inner
  stateCh : s.stateCh = [.idle]
  life : s.life = ⟨.stable, none, true⟩
  fresh : s.lastApplied = none

section System

variable (G X : Type) [DecidableEq G]

def monitor : System (Monitored G X) (MonitorEvent G X) := ⟨Subscribed, Monitored.step⟩

end System

def projection (calcState : CalcState) : State := (Site.sync calcState).target

/-- Emergency out of scaling, and scaling over a claimed lifecycle. -/
def jumps : CalcState → CalcState → Bool
  | .scaling, .emergency => true
  | old, .scaling => old.claimed
  | _, _ => false

section Guards

variable {G X : Type}

/-- The ticker does not overtake a notification. -/
def InOrder (s : Monitored G X) : MonitorEvent G X → Prop
  | .reconcile => s.stateCh = []
  | .act _ | .deliver => True

variable [DecidableEq G]

def Smooth (s : Monitored G X) : MonitorEvent G X → Prop
  | .act event =>
    (s.inner.step event).all
      (fun inner => !jumps s.inner.machine.current inner.machine.current) = true
  | .reconcile => s.stateCh = []
  | .deliver => True

instance (s : Monitored G X) : DecidablePred (InOrder s)
  | .reconcile => inferInstanceAs (Decidable (s.stateCh = []))
  | .act _ | .deliver => .isTrue trivial

instance (s : Monitored G X) : DecidablePred (Smooth s)
  | .act event => inferInstanceAs (Decidable (Option.all _ (s.inner.step event) = true))
  | .reconcile => inferInstanceAs (Decidable (s.stateCh = []))
  | .deliver => .isTrue trivial

end Guards

/-! ## The two tables -/

def Agrees (old new : CalcState) : Prop :=
  new = old ∨ isValidTransition (projection old) (projection new) = true

instance (old new : CalcState) : Decidable (Agrees old new) :=
  inferInstanceAs (Decidable (_ ∨ _))

variable {new old : CalcState}

/-- A claim starts from an unclaimed state. Without jumps, every move of the calculator is
then one the manager's table has. -/
theorem agrees_of_smooth (claims : new.claimed = true → old.claimed = false)
    (smooth : jumps old new = false) : Agrees old new := by
  cases old <;> cases new <;> first
    | exact .inl rfl
    | exact .inr rfl
    | exact absurd (claims rfl) (by decide)
    | exact absurd smooth (by decide)

section Calculator

variable {G X : Type} [DecidableEq G] {s s' : Goroutines G X} {event : Event G X}

theorem unclaimed_of_paced {m m'} {pc : Calculator.Pc X} {next}
    (paced : Paced m m' pc next) (moved : m'.current ≠ m.current)
    (claims : m'.current.claimed = true) : m.current.claimed = false := by
  cases paced with
  | begins scaling =>
    rw [scaling] at claims
    cases claims
  | joins _ same | starts same => exact absurd (congrArg Machine.current same) moved
  | ends scaling =>
    rw [scaling]
    rfl
  | other quiet state swaps =>
    rcases state with same | idle | ⟨unclaimed, _⟩ | ⟨idle, _⟩
    · exact absurd same moved
    · rw [idle] at claims
      cases claims
    · exact unclaimed
    · rw [idle]
      rfl

theorem calculator_agrees (taken : s.step event = some s')
    (smooth : jumps s.machine.current s'.machine.current = false) :
    Agrees s.machine.current s'.machine.current := by
  by_cases moved : s'.machine.current = s.machine.current
  · exact .inl moved
  · obtain ⟨_, _, _, _, _, took⟩ := Calculator.step_of_current taken moved
    exact agrees_of_smooth (unclaimed_of_paced (Calculator.step_paced took) moved) smooth

end Calculator

theorem syncStateFromCalculator_state {life : Life} (here : life.state = projection old)
    (ready : life.startupAssignmentApplied = true) (agrees : Agrees old new) :
    (life.syncStateFromCalculator new).state = projection new ∧
      (life.syncStateFromCalculator new).startupAssignmentApplied = true := by
  obtain ⟨state, degraded, applied⟩ := life
  cases here
  cases ready
  cases old <;> cases new <;> first
    | exact ⟨rfl, rfl⟩
    | exact absurd agrees (by decide)

/-! ## Every run -/

section Runs

variable {G X : Type} [DecidableEq G] {s s' : Monitored G X} {last : CalcState}

/-- The manager is where the last notification put it, and from there the notifications
still to come lead to the calculator's state, each an edge of the manager's table. -/
structure Follows (s : Monitored G X) (last : CalcState) : Prop where
  ready : s.life.startupAssignmentApplied = true
  here : s.life.state = projection last
  path : (last :: s.stateCh).IsChain Agrees
  now : (last :: s.stateCh).getLast? = some s.inner.machine.current

omit [DecidableEq G] in
theorem Follows.notify {inner} (follows : Follows s last)
    (agrees : Agrees s.inner.machine.current inner.machine.current) :
    Follows { s with inner := inner, stateCh := s.notify inner } last := by
  by_cases same : inner.machine.current = s.inner.machine.current
  · have channel : s.notify inner = s.stateCh := if_pos same
    rw [channel]
    exact ⟨follows.ready, follows.here, follows.path, follows.now.trans (congrArg some same.symm)⟩
  · have channel : s.notify inner = s.stateCh ++ [inner.machine.current] := if_neg same
    rw [channel]
    refine ⟨follows.ready, follows.here, ?_, ?_⟩
    · rw [← cons_append]
      refine follows.path.append (isChain_singleton _) fun old older new newer => ?_
      rw [follows.now] at older
      cases older
      cases newer
      exact agrees
    · rw [← cons_append, List.getLast?_append]
      rfl

omit [DecidableEq G] in
theorem Follows.deliver {calcState} {rest} (follows : Follows s last)
    (first : s.stateCh = calcState :: rest) :
    Follows { s.apply calcState with stateCh := rest } calcState := by
  obtain ⟨ready, here, path, now⟩ := follows
  rw [first] at path now
  obtain ⟨agrees, path⟩ := isChain_cons_cons.mp path
  obtain ⟨state, ready⟩ := syncStateFromCalculator_state here ready agrees
  exact ⟨ready, state, path, now⟩

omit [DecidableEq G] in
theorem Follows.reconcile (follows : Follows s last) (empty : s.stateCh = []) :
    Follows s.reconcile last := by
  unfold Monitored.reconcile
  split
  · exact follows
  · obtain ⟨ready, here, path, now⟩ := follows
    have same : last = s.inner.machine.current := by simpa [empty] using now
    obtain ⟨state, ready⟩ := syncStateFromCalculator_state here ready (.inl same.symm)
    exact ⟨ready, same ▸ state, path, now⟩

theorem follows_of_reachable (reached : Reachable (monitor G X) Smooth s) :
    ∃ last, Follows s last := by
  refine Reachable.invariant (I := fun s => ∃ last, Follows s last) ?_ ?_ reached
  · rintro s ⟨idle, channel, life, _⟩
    refine ⟨.idle, by rw [life], by rw [life]; rfl, ?_, ?_⟩
    · rw [channel]
      exact isChain_pair.mpr (.inl rfl)
    · rw [channel, idle.current]
      rfl
  · rintro s event s' ⟨last, follows⟩ smooth taken
    cases event with
    | act event =>
      obtain ⟨inner, moved, rfl⟩ := Option.map_eq_some_iff.mp taken
      have smooth : jumps s.inner.machine.current inner.machine.current = false := by
        simpa [Smooth, moved] using smooth
      exact ⟨last, follows.notify (calculator_agrees moved smooth)⟩
    | deliver =>
      simp only [monitor, Monitored.step] at taken
      split at taken
      next => cases taken
      next calcState rest first =>
        cases taken
        exact ⟨calcState, follows.deliver first⟩
    | reconcile =>
      cases taken
      exact ⟨last, follows.reconcile smooth⟩

theorem state_follows (reached : Reachable (monitor G X) Smooth s)
    (taken : (monitor G X).step s .deliver = some s') :
    ∃ calcState rest, s.stateCh = calcState :: rest ∧ s'.stateCh = rest ∧
      s'.life.state = projection calcState ∧
      (rest = [] → s'.inner.machine.current = calcState) := by
  obtain ⟨last, follows⟩ := follows_of_reachable reached
  simp only [monitor, Monitored.step] at taken
  split at taken
  next => cases taken
  next calcState rest first =>
    cases taken
    have follows := follows.deliver first
    refine ⟨calcState, rest, first, rfl, follows.here, ?_⟩
    rintro rfl
    exact (Option.some.inj follows.now).symm

end Runs

/-! ## Two runs -/

def newMonitored (G X : Type) : Monitored G X :=
  ⟨Calculator.newStateMachine G X, [.idle], ⟨.stable, none, true⟩, none⟩

theorem newMonitored_subscribed {G X : Type} : Subscribed (newMonitored G X) :=
  ⟨Calculator.newStateMachine_idle, rfl, rfl, rfl⟩

/-- Goroutine `0` enters scaling. -/
def scalesUp : List (MonitorEvent (Fin 3) Unit) :=
  .act (.enterScaling 0 () "planned_scale") :: List.replicate 5 (.act (.step 0))

/-- The timer ends scaling; the rebalance is delivered before the calculator is idle again. -/
theorem state_follows_rebalance :
    ∃ s s', Reachable (monitor (Fin 3) Unit) Smooth s ∧
      (monitor (Fin 3) Unit).step s .deliver = some s' ∧
      ∃ calcState rest, s.stateCh = calcState :: rest ∧ s'.stateCh = rest ∧
        s'.life.state = projection calcState ∧
        (rest = [] → s'.inner.machine.current = calcState) := by
  obtain ⟨s, s', reached, taken, _⟩ := exists_reachable_step (M := monitor (Fin 3) Unit) Smooth
    newMonitored_subscribed ([.deliver] ++ scalesUp ++ [.deliver, .reconcile, .act (.spawn 0 1),
      .act (.fire 1), .act (.step 1)]) .deliver (fun s s' => s'.life.state = .rebalancing) (by decide)
  exact ⟨s, s', reached, taken, state_follows reached taken⟩

theorem emergency_from_scaling_lost :
    ∃ s s', Reachable (monitor (Fin 3) Unit) InOrder s ∧ s.stateCh = [.emergency] ∧
      (monitor (Fin 3) Unit).step s .deliver = some s' ∧
      s'.inner.machine.current = .emergency ∧ s'.life.state = .scaling ∧
      (monitor (Fin 3) Unit).step s' .reconcile = some s' := by
  obtain ⟨s, s', reached, taken, channel, current, state, applied⟩ := exists_reachable_step
    (M := monitor (Fin 3) Unit) InOrder newMonitored_subscribed
    (scalesUp ++
      [.act (.tryClaimEmergency 2 ()), .act (.step 2), .act (.step 2), .deliver, .deliver])
    .deliver (fun s s' => s.stateCh = [.emergency] ∧ s'.inner.machine.current = .emergency ∧
      s'.life.state = .scaling ∧ s'.lastApplied = some .emergency) (by decide)
  refine ⟨s, s', reached, channel, taken, current, state, ?_⟩
  simp [monitor, Monitored.step, Monitored.reconcile, current, applied]

end Parti.Manager
