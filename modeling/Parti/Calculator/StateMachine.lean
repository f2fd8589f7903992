/-
# Calculator.StateMachine — the lifecycle state and the atomic steps of its methods

The calculator's state is one atomic word, read and swapped by goroutines that
run the methods of the state machine. A `Pc` is a place in one of these methods,
in front of its next atomic operation.

The claims and the timer swap from a fixed source state and give up if it is not
there. `EnterScaling` and `ReturnToIdle` set their target from whatever state they
find, in a load-and-swap loop (`emitLoad`, `emitCas`).

`Machine.step` is one atomic operation of one goroutine. `step_effect` says what
it can do to the state, in terms of who holds a claimed lifecycle (`Pc.holds`):
from the swap that claims it to the swap that returns to idle.
-/
import Mathlib.Logic.Function.Basic

namespace Parti.Calculator

inductive CalcState where
  | idle
  | scaling
  | rebalancing
  | emergency
deriving DecidableEq

def CalcState.claimed : CalcState → Bool
  | .rebalancing | .emergency => true
  | .idle | .scaling => false

/-- The words the goroutines share. `stopping` stands for the flag and the stop
channel, which `Stop` sets together. -/
structure Machine where
  current : CalcState
  scalingReason : String
  stopping : Bool
deriving DecidableEq

/-- The two callers of `emitStateChange`. A return to idle is `held` when it ends
a lifecycle its goroutine claimed. -/
inductive Emit (X : Type) where
  | scaling (ctx : X)
  | idle (held : Bool)
deriving DecidableEq

def Emit.target {X : Type} : Emit X → CalcState
  | .scaling _ => .scaling
  | .idle _ => .idle

/-- Places in the methods of the state machine, for contexts of type `X`. -/
inductive Pc (X : Type) where
  /-- `EnterScaling`: the stop checks, the state check, the reason. -/
  | scalingStop (ctx : X) (reason : String)
  | scalingLoad (ctx : X) (reason : String)
  | scalingReason (ctx : X) (reason : String)
  /-- `emitStateChange`. -/
  | emitLoad (e : Emit X)
  | emitCas (e : Emit X) (old : CalcState)
  /-- `EnterScaling` under `wgMu`, about to start the timer. -/
  | startTimer (ctx : X)
  /-- The timer goroutine, waiting. -/
  | timer (ctx : X)
  /-- `EnterRebalancing`. -/
  | rebalanceCas (ctx : X)
  | rebalanceReason (ctx : X)
  /-- `TryClaimEmergency`: the swap from idle, the swap from scaling, the reason. -/
  | emergencyIdle (ctx : X)
  | emergencyScaling (ctx : X)
  | emergencyReason (ctx : X)
  /-- `TryClaimRebalancing`. -/
  | claimCas (ctx : X) (reason : String)
  | claimReason (ctx : X) (reason : String)
  /-- A claim has returned true; its caller is about to run the callback. -/
  | claimed (ctx : X) (reason : String)
  /-- `RunClaimedRebalance` and `RunClaimedRebalanceErr`, inside the callback. -/
  | callback (ctx : X) (reason : String)
  /-- `ReturnToIdle`. -/
  | idleReason (held : Bool)
deriving DecidableEq

inductive Next (X : Type) where
  | goto (pc : Pc X)
  | spawn (ctx : X)
  | returned
deriving DecidableEq

variable {X : Type} {m' m : Machine} {next : Next X} {pc : Pc X}

def Emit.after : Emit X → Next X
  | .scaling ctx => .goto (.startTimer ctx)
  | .idle _ => .returned

/-- The swap of `tryClaimEmergencyFrom`, and what follows if it fails. -/
def Machine.tryClaimEmergencyFrom (m : Machine) (source : CalcState) (ctx : X)
    (otherwise : Next X) : Machine × Next X :=
  if m.current = source then ({ m with current := .emergency }, .goto (.emergencyReason ctx))
  else (m, otherwise)

/-- One atomic operation. A waiting timer, a caller between claim and run, and a
running callback have none: the environment moves them. -/
def Machine.step (m : Machine) : Pc X → Option (Machine × Next X)
  | .scalingStop ctx reason =>
    some (m, if m.stopping then .returned else .goto (.scalingLoad ctx reason))
  | .scalingLoad ctx reason =>
    some (m, if m.current ≠ .idle then .returned else .goto (.scalingReason ctx reason))
  | .scalingReason ctx reason =>
    some ({ m with scalingReason := reason }, .goto (.emitLoad (.scaling ctx)))
  | .emitLoad e =>
    some (m, if m.current = e.target then e.after else .goto (.emitCas e m.current))
  | .emitCas e old =>
    if m.current = old then some ({ m with current := e.target }, e.after)
    else some (m, .goto (.emitLoad e))
  | .startTimer ctx => some (m, if m.stopping then .returned else .spawn ctx)
  | .rebalanceCas ctx =>
    if m.current = .scaling then
      some ({ m with current := .rebalancing }, .goto (.rebalanceReason ctx))
    else some (m, .returned)
  | .rebalanceReason ctx => some (m, .goto (.callback ctx m.scalingReason))
  | .emergencyIdle ctx =>
    some (m.tryClaimEmergencyFrom .idle ctx (.goto (.emergencyScaling ctx)))
  | .emergencyScaling ctx => some (m.tryClaimEmergencyFrom .scaling ctx .returned)
  | .emergencyReason ctx =>
    some ({ m with scalingReason := "emergency" }, .goto (.claimed ctx "emergency"))
  | .claimCas ctx reason =>
    if m.current = .idle then
      some ({ m with current := .rebalancing }, .goto (.claimReason ctx reason))
    else some (m, .returned)
  | .claimReason ctx reason =>
    some ({ m with scalingReason := reason }, .goto (.claimed ctx reason))
  | .idleReason held => some ({ m with scalingReason := "" }, .goto (.emitLoad (.idle held)))
  | .timer _ | .claimed _ _ | .callback _ _ => none

/-! ## Who holds a claimed lifecycle -/

/-- From the swap that claims a lifecycle to the swap that returns to idle. -/
def Pc.holds : Pc X → Bool
  | .rebalanceReason _ | .emergencyReason _ | .claimReason _ _ | .claimed _ _ | .callback _ _ => true
  | .idleReason held | .emitLoad (.idle held) | .emitCas (.idle held) _ => held
  | _ => false

def Next.holds : Next X → Bool
  | .goto pc => pc.holds
  | .spawn _ | .returned => false

def Next.pc? : Next X → Option (Pc X)
  | .goto pc => some pc
  | .spawn _ | .returned => none

theorem Next.holds_pc (at_ : next.pc? = some pc) : next.holds = pc.holds := by
  cases next <;> cases at_
  rfl

/-- The state a goroutine that holds no lifecycle is about to overwrite. -/
def Pc.overwrites : Pc X → Option CalcState
  | .emitCas (.scaling _) old | .emitCas (.idle false) old => some old
  | _ => none

inductive Effect (m : Machine) (pc : Pc X) (m' : Machine) (next : Next X) : Prop
  /-- Nothing, and nobody comes to hold a lifecycle. -/
  | quiet (same : m'.current = m.current) (keeps : next.holds = true → pc.holds = true)
  /-- A lifecycle is claimed where none was. -/
  | claim (free : m.current.claimed = false) (taken : m'.current.claimed = true)
  /-- The holder returns to idle. -/
  | release (held : pc.holds = true) (freed : next.holds = false)
  /-- A goroutine without a lifecycle overwrites the state. -/
  | overwrite (old : pc.overwrites = some m.current) (free : m'.current.claimed = false)
      (without : next.holds = false)

theorem tryClaimEmergencyFrom_effect {source} {ctx : X} {otherwise : Next X}
    (unclaimed : source.claimed = false) (without : otherwise.holds = false)
    (took : m.tryClaimEmergencyFrom source ctx otherwise = (m', next)) : Effect m pc m' next := by
  unfold Machine.tryClaimEmergencyFrom at took
  split at took <;> cases took
  next here => exact .claim (here ▸ unclaimed) rfl
  next => exact .quiet rfl (by simp [without])

theorem step_effect (took : m.step pc = some (m', next)) : Effect m pc m' next := by
  cases pc with
  | scalingStop | scalingLoad | startTimer =>
    cases took
    refine .quiet rfl fun holds => ?_
    split at holds <;> cases holds
  | scalingReason ctx reason =>
    cases took
    exact .quiet rfl (by simp [Next.holds, Pc.holds])
  | emitLoad e =>
    cases took
    refine .quiet rfl fun holds => ?_
    split at holds <;> cases e <;> first | exact holds | cases holds
  | emitCas e old =>
    simp only [Machine.step] at took
    split at took <;> cases took
    next here =>
      -- the swap: by a holder, or by `EnterScaling` or a plain return to idle
      rcases e with ctx | held
      · exact .overwrite (by simp [Pc.overwrites, here]) rfl rfl
      · cases held with
        | true => exact .release rfl rfl
        | false => exact .overwrite (by simp [Pc.overwrites, here]) rfl rfl
    next => exact .quiet rfl (by cases e <;> simp [Next.holds, Pc.holds])
  | timer | claimed | callback => cases took
  | rebalanceCas | claimCas =>
    simp only [Machine.step] at took
    split at took <;> cases took
    next here => exact .claim (by simp [here, CalcState.claimed]) rfl
    next => exact .quiet rfl (by simp [Next.holds])
  | rebalanceReason | emergencyReason | claimReason =>
    cases took
    exact .quiet rfl fun _ => rfl
  | emergencyIdle | emergencyScaling =>
    exact tryClaimEmergencyFrom_effect rfl rfl (Option.some.inj took)
  | idleReason held =>
    cases took
    exact .quiet rfl fun holds => holds

end Parti.Calculator
