/-
# Manager.Lifecycle — the state of a manager, and who moves it

A manager's state is one word that many goroutines move by compare-and-swap. Most of
them call `transitionState`, which reads the state, checks the edge in a table and
swaps, up to sixteen times; it knows where to go and not where its caller thought it
was. Two direct swaps leave one state only.

Each load, store and swap is a step. What a function reads elsewhere comes with the
step. The manager's mutex, which some of the callers hold, is left out, as are hooks,
logs and metrics.
-/
import Parti.Calculator.StateMachine
import Parti.Lib.Threads

namespace Parti.Manager

open Lib
open Calculator (CalcState)

inductive State where
  | init
  | claimingID
  | election
  | waitingAssignment
  | stable
  | scaling
  | rebalancing
  | emergency
  | degraded
  | shutdown
deriving DecidableEq

/-- The table of `isValidTransition`. -/
def validTransitions : State → List State
  | .init => [.claimingID, .shutdown]
  | .claimingID => [.election, .shutdown]
  | .election => [.waitingAssignment, .shutdown]
  | .waitingAssignment => [.stable, .scaling, .rebalancing, .emergency, .degraded, .shutdown]
  | .stable => [.scaling, .rebalancing, .emergency, .degraded, .shutdown]
  | .scaling => [.rebalancing, .waitingAssignment, .stable, .degraded, .shutdown]
  | .rebalancing => [.stable, .waitingAssignment, .degraded, .shutdown]
  | .emergency => [.stable, .waitingAssignment, .degraded, .shutdown]
  | .degraded => [.stable, .shutdown]
  | .shutdown => []

def isValidTransition (cur target : State) : Bool := (validTransitions cur).contains target

def isCalculatorOwnedActiveState : State → Bool
  | .scaling | .rebalancing | .emergency => true
  | _ => false

structure DegradedRecord where
  since : Int
  reason : String
deriving DecidableEq

structure Life where
  state : State
  degraded : Option DegradedRecord
  startupAssignmentApplied : Bool
deriving DecidableEq

def Life.initial : Life := ⟨.init, none, false⟩

/-- The callers of `transitionState`. -/
inductive Site where
  | claim
  | elect
  | wait
  | enter
  | sync (calcState : CalcState)
  | mark
  | stop (assigned : Bool)
  | shutdown
deriving DecidableEq

def Site.target : Site → State
  | .claim => .claimingID
  | .elect => .election
  | .wait => .waitingAssignment
  | .enter => .degraded
  | .sync .idle => .stable
  | .sync .scaling => .scaling
  | .sync .rebalancing => .rebalancing
  | .sync .emergency => .emergency
  | .mark => .stable
  | .stop true => .stable
  | .stop false => .waitingAssignment
  | .shutdown => .shutdown

inductive LifePc where
  | idle
  /-- `transitionState`, before its next read and before its swap. -/
  | transition (site : Site) (tries : Nat)
  | swap (site : Site) (seen : State) (tries : Nat)
  | enterState (record : DegradedRecord)
  | enterClaim (record : DegradedRecord)
  | enterRollback
  | exitLoad
  | exitSwap
  | exitClear
  | syncState (calcState : CalcState)
  | syncApplied
  | markFlag
  | markWaiting
  | markState
  | markCalculator
  | stopState
  | stopAssignment
  | waitingSwap
deriving DecidableEq

/-- The calls, and what a call reads outside the state. `calculator none` says that
there is no calculator. -/
inductive Call where
  | go
  | startTo (site : Site)
  | enterDegraded (record : DegradedRecord)
  | exitDegraded
  | syncStateFromCalculator (calcState : CalcState)
  | markStartupAssignmentApplied
  | stopCalculator
  | casToStableFromWaitingAssignment
  | shutdown
  | calculator (calcState : Option CalcState)
  | assignment (assigned : Bool)
deriving DecidableEq

/-! ## Steps -/

section Steps

variable {T : Type}

def live (life : Life) (pc : LifePc) : Turn Life LifePc T := ⟨life, pc, none⟩

def Site.ended (moved : Bool) : Site → LifePc
  | .enter => if moved then .idle else .enterRollback
  | _ => .idle

def maxRetries : Nat := 16

/-- The first step of `syncStateFromCalculator`: where to, given the state. -/
def syncFrom (cur : State) (calcState : CalcState) : LifePc :=
  if cur = .init ∨ cur = .claimingID ∨ cur = .election ∨ cur = .shutdown then .idle
  else if cur = .waitingAssignment ∧ calcState = .idle then .idle
  else if calcState = .idle then
    if isCalculatorOwnedActiveState cur then .syncApplied else .idle
  else if cur ≠ (Site.sync calcState).target then .transition (.sync calcState) 0
  else .idle

/-- The steps of `Start` that move the state. -/
def Site.ofStart : Site → Bool
  | .claim | .elect | .wait => true
  | _ => false

def Call.begins : Call → Option LifePc
  | .startTo site => if site.ofStart then some (.transition site 0) else none
  | .enterDegraded record => some (.enterState record)
  | .exitDegraded => some .exitLoad
  | .syncStateFromCalculator calcState => some (.syncState calcState)
  | .markStartupAssignmentApplied => some .markFlag
  | .stopCalculator => some .stopState
  | .casToStableFromWaitingAssignment => some .waitingSwap
  | .shutdown => some (.transition .shutdown 0)
  | .go | .calculator _ | .assignment _ => none

def LifePc.next (life : Life) (call : Call) : LifePc → Option (Turn Life LifePc T)
  | .idle => call.begins.map (live life)
  | .transition site tries =>
    if life.state = site.target then some (live life (site.ended true))
    else if isValidTransition life.state site.target then
      some (live life (.swap site life.state tries))
    else some (live life (site.ended false))
  | .swap site seen tries =>
    if life.state = seen then some (live { life with state := site.target } (site.ended true))
    else if tries + 1 < maxRetries then some (live life (.transition site (tries + 1)))
    else some (live life (site.ended false))
  | .enterState record =>
    if life.state = .shutdown then some (live life .idle) else some (live life (.enterClaim record))
  | .enterClaim record =>
    if life.degraded = none then
      some (live { life with degraded := some record } (.transition .enter 0))
    else some (live life .idle)
  | .enterRollback => some (live { life with degraded := none } .idle)
  | .exitLoad => if life.degraded = none then some (live life .idle) else some (live life .exitSwap)
  | .exitSwap =>
    if life.state = .degraded then some (live { life with state := .stable } .exitClear)
    else some (live life .idle)
  | .exitClear => some (live { life with degraded := none } .idle)
  | .syncState calcState => some (live life (syncFrom life.state calcState))
  | .syncApplied =>
    if life.startupAssignmentApplied then some (live life (.transition (.sync .idle) 0))
    else some (live life .idle)
  | .markFlag =>
    if life.startupAssignmentApplied then some (live life .idle)
    else some (live { life with startupAssignmentApplied := true } .markWaiting)
  | .markWaiting =>
    if life.state = .waitingAssignment then some (live { life with state := .stable } .markState)
    else some (live life .markState)
  | .markState =>
    if isCalculatorOwnedActiveState life.state then some (live life .markCalculator)
    else some (live life .idle)
  | .markCalculator =>
    match call with
    | .calculator calcState =>
      if calcState = some .idle then some (live life (.transition .mark 0)) else some (live life .idle)
    | _ => none
  | .stopState =>
    if isCalculatorOwnedActiveState life.state then some (live life .stopAssignment)
    else some (live life .idle)
  | .stopAssignment =>
    match call with
    | .assignment assigned => some (live life (.transition (.stop assigned) 0))
    | _ => none
  | .waitingSwap =>
    if life.state = .waitingAssignment then some (live { life with state := .stable } .idle)
    else some (live life .idle)

end Steps

section System

variable (T : Type) [DecidableEq T]

def lifeProgram : Program Life LifePc Call T :=
  ⟨fun pc => decide (pc = .idle), fun life _ pc call => pc.next life call⟩

def lifecycle : System (Pool Life LifePc T) (T × Call) :=
  (lifeProgram T).system (fun life => life = .initial) .idle

def startLife : Pool Life LifePc T := ⟨.initial, fun _ => .idle⟩

theorem startLife_init : (lifecycle T).init (startLife T) := ⟨rfl, fun _ => rfl⟩

end System

/-! ## What each step can do -/

section Relation

variable (life : Life) (call : Call)

def LifePc.returns : LifePc → Bool
  | .enterState _ | .enterClaim _ | .exitLoad | .exitSwap | .syncState _ | .syncApplied => true
  | .markFlag | .markState | .markCalculator | .stopState | .waitingSwap => true
  | _ => false

/-- One constructor a step, with what was just read. -/
inductive LifeStep : LifePc → Life → LifePc → Prop
  | call {pc} (begins : call.begins = some pc) : LifeStep .idle life pc
  | arrived {site tries} (there : life.state = site.target) :
      LifeStep (.transition site tries) life (site.ended true)
  | loaded {site tries} (valid : isValidTransition life.state site.target = true) :
      LifeStep (.transition site tries) life (.swap site life.state tries)
  | refused {site tries} : LifeStep (.transition site tries) life (site.ended false)
  | swapped {site tries} :
      LifeStep (.swap site life.state tries) { life with state := site.target } (site.ended true)
  | again {site seen tries} : LifeStep (.swap site seen tries) life (.transition site (tries + 1))
  | gaveUp {site seen tries} : LifeStep (.swap site seen tries) life (site.ended false)
  | claims {record} : LifeStep (.enterState record) life (.enterClaim record)
  | claimed {record} (free : life.degraded = none) :
      LifeStep (.enterClaim record) { life with degraded := some record } (.transition .enter 0)
  | rolledBack : LifeStep .enterRollback { life with degraded := none } .idle
  | exits : LifeStep .exitLoad life .exitSwap
  | exited (degraded : life.state = .degraded) :
      LifeStep .exitSwap { life with state := .stable } .exitClear
  | cleared : LifeStep .exitClear { life with degraded := none } .idle
  | syncActive {calcState} (active : calcState ≠ .idle) :
      LifeStep (.syncState calcState) life (.transition (.sync calcState) 0)
  | syncIdle {calcState} (owned : isCalculatorOwnedActiveState life.state = true) :
      LifeStep (.syncState calcState) life .syncApplied
  | synced (ready : life.startupAssignmentApplied = true) :
      LifeStep .syncApplied life (.transition (.sync .idle) 0)
  | marked (first : life.startupAssignmentApplied = false) :
      LifeStep .markFlag { life with startupAssignmentApplied := true } .markWaiting
  | markSwapped (waiting : life.state = .waitingAssignment) :
      LifeStep .markWaiting { life with state := .stable } .markState
  | markMissed : LifeStep .markWaiting life .markState
  | markOwned : LifeStep .markState life .markCalculator
  | markIdle : LifeStep .markCalculator life (.transition .mark 0)
  | stopOwned (owned : isCalculatorOwnedActiveState life.state = true) :
      LifeStep .stopState life .stopAssignment
  | stopped {assigned} (read : call = .assignment assigned) :
      LifeStep .stopAssignment life (.transition (.stop assigned) 0)
  | waitingSwapped (waiting : life.state = .waitingAssignment) :
      LifeStep .waitingSwap { life with state := .stable } .idle
  | returned {pc} (quiet : pc.returns = true) : LifeStep pc life .idle

end Relation

variable {call : Call} {life : Life}

theorem syncFrom_step {calcState} :
    LifeStep life call (.syncState calcState) life (syncFrom life.state calcState) := by
  unfold syncFrom
  split
  · exact .returned rfl
  · split
    · exact .returned rfl
    · split
      next idle =>
        split
        next owned => exact .syncIdle owned
        next => exact .returned rfl
      next active =>
        split
        · exact .syncActive active
        · exact .returned rfl

/-- **Inversion.** A step is one of those listed, and starts no goroutine. -/
theorem LifePc.next_step {T : Type} {pc : LifePc} {turn : Turn Life LifePc T}
    (moved : pc.next life call = some turn) :
    LifeStep life call pc turn.cells turn.pc ∧ turn.spawned = none := by
  cases pc with
  | idle =>
    obtain ⟨first, begins, rfl⟩ := Option.map_eq_some_iff.mp moved
    exact ⟨.call begins, rfl⟩
  | transition site tries =>
    simp only [next] at moved
    split at moved
    next there => cases moved; exact ⟨.arrived there, rfl⟩
    next =>
      split at moved
      next valid => cases moved; exact ⟨.loaded valid, rfl⟩
      next => cases moved; exact ⟨.refused, rfl⟩
  | swap site seen tries =>
    simp only [next] at moved
    split at moved
    next same => subst same; cases moved; exact ⟨.swapped, rfl⟩
    next =>
      split at moved
      next => cases moved; exact ⟨.again, rfl⟩
      next => cases moved; exact ⟨.gaveUp, rfl⟩
  | enterState record =>
    exact some_ite moved (fun _ => ⟨.returned rfl, rfl⟩) fun _ => ⟨.claims, rfl⟩
  | enterClaim record =>
    exact some_ite moved (fun free => ⟨.claimed free, rfl⟩) fun _ => ⟨.returned rfl, rfl⟩
  | enterRollback => cases moved; exact ⟨.rolledBack, rfl⟩
  | exitLoad => exact some_ite moved (fun _ => ⟨.returned rfl, rfl⟩) fun _ => ⟨.exits, rfl⟩
  | exitSwap =>
    exact some_ite moved (fun degraded => ⟨.exited degraded, rfl⟩) fun _ => ⟨.returned rfl, rfl⟩
  | exitClear => cases moved; exact ⟨.cleared, rfl⟩
  | syncState calcState => cases moved; exact ⟨syncFrom_step, rfl⟩
  | syncApplied =>
    exact some_ite moved (fun ready => ⟨.synced ready, rfl⟩) fun _ => ⟨.returned rfl, rfl⟩
  | markFlag =>
    exact some_ite moved (fun _ => ⟨.returned rfl, rfl⟩)
      fun first => ⟨.marked (by simpa using first), rfl⟩
  | markWaiting =>
    exact some_ite moved (fun waiting => ⟨.markSwapped waiting, rfl⟩) fun _ => ⟨.markMissed, rfl⟩
  | markState => exact some_ite moved (fun _ => ⟨.markOwned, rfl⟩) fun _ => ⟨.returned rfl, rfl⟩
  | markCalculator =>
    cases call with
    | calculator found =>
      exact some_ite moved (fun _ => ⟨.markIdle, rfl⟩) fun _ => ⟨.returned rfl, rfl⟩
    | _ => cases moved
  | stopState =>
    exact some_ite moved (fun owned => ⟨.stopOwned owned, rfl⟩) fun _ => ⟨.returned rfl, rfl⟩
  | stopAssignment =>
    cases call with
    | assignment assigned => cases moved; exact ⟨.stopped rfl, rfl⟩
    | _ => cases moved
  | waitingSwap =>
    exact some_ite moved (fun waiting => ⟨.waitingSwapped waiting, rfl⟩)
      fun _ => ⟨.returned rfl, rfl⟩

theorem lifecycle_step {T : Type} [DecidableEq T] {s s'} {t : T}
    (taken : (lifecycle T).step s (t, call) = some s') :
    ∃ pc', LifeStep s.cells call (s.pcs t) s'.cells pc' ∧ s'.pcs = Function.update s.pcs t pc' := by
  obtain ⟨turn, moved, _, rfl⟩ := Program.step_eq_some.mp taken
  obtain ⟨step, nobody⟩ := LifePc.next_step moved
  refine ⟨turn.pc, by rw [Turn.pool_cells]; exact step, ?_⟩
  simp only [Turn.pool, nobody]

/-! ## The table -/

/-- A goroutine that is about to swap has found its edge in the table. -/
def LifePc.onEdge : LifePc → Prop
  | .swap site seen _ => isValidTransition seen site.target = true
  | _ => True

theorem LifeStep.edge {pc pc' : LifePc} {life'} (step : LifeStep life call pc life' pc')
    (edge : pc.onEdge) : pc'.onEdge ∧
      (life'.state ≠ life.state → isValidTransition life.state life'.state = true) := by
  have ended (moved : Bool) (site : Site) : (site.ended moved).onEdge := by
    cases site <;> cases moved <;> trivial
  cases step with
  | call begins =>
    refine ⟨?_, absurd rfl⟩
    unfold Call.begins at begins
    repeat' split at begins
    all_goals cases begins <;> trivial
  | loaded valid => exact ⟨valid, absurd rfl⟩
  | swapped => exact ⟨ended .., fun _ => edge⟩
  | arrived | refused | gaveUp => exact ⟨ended .., absurd rfl⟩
  | exited at_ | markSwapped at_ | waitingSwapped at_ => exact ⟨trivial, fun _ => by rw [at_]; rfl⟩
  | _ => exact ⟨trivial, absurd rfl⟩

/-- **The state moves along the table's edges**, and a manager that is shut down stays so. -/
theorem state_moves_along_edges {T : Type} [DecidableEq T] {s s'} {t : T}
    (reached : Reachable (lifecycle T) Free s) (taken : (lifecycle T).step s (t, call) = some s') :
    (s'.cells.state ≠ s.cells.state →
      isValidTransition s.cells.state s'.cells.state = true) ∧
    (s.cells.state = .shutdown → s'.cells.state = .shutdown) := by
  have edges : ∀ u, (s.pcs u).onEdge := by
    refine reached.invariant (I := fun s => ∀ u, (s.pcs u).onEdge) ?_ ?_
    · intro s starts u
      rw [starts.2 u]
      trivial
    · intro s ⟨t, call⟩ s' edges _ taken u
      obtain ⟨pc', step, moved⟩ := lifecycle_step taken
      rw [moved, Function.update_apply]
      split
      · exact (step.edge (edges t)).1
      · exact edges u
  obtain ⟨_, step, _⟩ := lifecycle_step taken
  have valid := (step.edge (edges t)).2
  refine ⟨valid, fun down => ?_⟩
  by_contra moved
  have edge := valid (by rwa [down])
  rw [down] at edge
  cases edge

theorem state_moves_along_edges_claim :
    ∃ s s', Reachable (lifecycle Unit) Free s ∧ (lifecycle Unit).step s ((), .go) = some s' ∧
      s'.cells.state ≠ s.cells.state ∧ isValidTransition s.cells.state s'.cells.state = true := by
  obtain ⟨s, s', reached, taken, moved⟩ := exists_reachable_step Free (startLife_init Unit)
    [((), .startTo .claim), ((), .go)] ((), .go)
    (fun s s' => s'.cells.state ≠ s.cells.state) (by decide)
  exact ⟨s, s', reached, taken, moved, (state_moves_along_edges reached taken).1 moved⟩

/-! ## A manager to run -/

/-- `count` steps of one goroutine that read nothing outside the state. -/
def lives {T : Type} (t : T) (count : Nat) : List (T × Call) := List.replicate count (t, .go)

/-- Goroutine `t` starts the manager, up to waiting for its assignment. -/
def waits {T : Type} (t : T) : List (T × Call) :=
  [(t, .startTo .claim)] ++ lives t 2 ++ [(t, .startTo .elect)] ++ lives t 2 ++
    [(t, .startTo .wait)] ++ lives t 2

end Parti.Manager
