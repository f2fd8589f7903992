/-
# Calculator.Leader — who enters scaling, and under which context

The goroutines of a leader's calculator: the last call of `Start`, the poll and
watcher checks of the worker monitor, the audit, the partition monitor, the label
monitor, and the scaling timers. A thread's `Frame` says which of them it is.

`observeAndDecide` holds `pollMu` while it observes, decides and claims or enters
scaling; it releases it before an emergency rebalance. What it observes is the
environment's choice (`Observation`); in which order the branches are tried is
`observeDecision`.

A scaling timer lives under the context its `EnterScaling` was called with. All
callers pass the calculator's lifetime context but one: the check that ends
`triggerPartitionRebalance` runs under a context of its own, cancelled when the
call returns. The contexts of these tail checks are numbered.
-/
import Parti.Lib.Run
import Parti.Calculator.StateMachine

namespace Parti.Calculator

open Lib

inductive Ctx where
  | lifetime
  | tail (id : Nat)
deriving DecidableEq

inductive Frame where
  | start
  | poll
  | audit
  | partition
  | tail (id : Nat)
  | label
  | timer
deriving DecidableEq

/-- The context a frame hands on. The request context of a partition or label
rebalance bounds its callback only. -/
def Frame.ctx : Frame → Ctx
  | .tail id => .tail id
  | _ => .lifetime

/-- What one observation of the workers gives `observeAndDecideLocked`. -/
structure Observation where
  failed : Bool
  changed : Bool
  fresh : Bool
  emergency : Bool
  reason : String
  inRecoveryGrace : Bool
  cooling : Bool
deriving DecidableEq

inductive Decision where
  | nothing
  | emergency
  | scaling (reason : String)
deriving DecidableEq

/-- The branches of `observeAndDecideLocked`, up to its check for idle. -/
def observeDecision (o : Observation) : Decision :=
  if o.failed then .nothing
  else if !o.changed then .nothing
  else if !o.fresh then .nothing
  else if o.emergency then .emergency
  else if o.reason = "" then .nothing
  else if o.inRecoveryGrace then .nothing
  else if o.cooling then .nothing
  else .scaling o.reason

inductive Place where
  /-- `observeAndDecideLocked`: waiting for `pollMu`; holding it; at `GetState`. -/
  | lock
  | observe
  | getState (reason : String)
  /-- `enterScalingState`. -/
  | stopCheck (reason : String)
  | machine (pc : Pc Ctx)
deriving DecidableEq

structure Thread where
  frame : Frame
  place : Place
deriving DecidableEq

structure Leader (G : Type) where
  machine : Machine
  threads : G → Option Thread
  pollMu : Option G
  cancelled : List Nat
  nextCtx : Nat

inductive LeaderEvent (G : Type) where
  | start (g : G) (reason : String)
  | poll (g : G)
  | audit (g : G)
  | partition (g : G) (lifecycle : String)
  | label (g : G)
  | observed (g : G) (o : Observation)
  | step (g : G)
  | spawn (g t : G)
  | fire (t : G)
  | expire (t : G)
  | run (g : G)
  | finish (g : G)
  | timeout (id : Nat)
  | stop

variable {G : Type} [DecidableEq G]

namespace Leader

/-- Not cancelled. The stop channel cancels every context. -/
def live (s : Leader G) : Ctx → Bool
  | .lifetime => !s.machine.stopping
  | .tail id => !s.machine.stopping && id ∉ s.cancelled

def set (s : Leader G) (g : G) (th : Option Thread) : Leader G :=
  { s with threads := Function.update s.threads g th }

def enter (s : Leader G) (g : G) (th : Thread) : Option (Leader G) :=
  if (s.threads g).isNone then some (s.set g (some th)) else none

def unlock (s : Leader G) (g : G) : Leader G :=
  { s with pollMu := if s.pollMu = some g then none else s.pollMu }

/-- The deferred calls on the way out: `pollMu` and the tail context. -/
def leave (s : Leader G) (g : G) (frame : Frame) : Leader G :=
  { (s.set g none).unlock g with
    cancelled := match frame with
      | .tail id => id :: s.cancelled
      | _ => s.cancelled }

/-- A method of the state machine has returned, from `pc`. A partition rebalance
that has run goes on to its tail check, under a new context. -/
def returned (s : Leader G) (g : G) (frame : Frame) (pc : Pc Ctx) : Leader G :=
  if frame = .partition ∧ pc.holds then
    { s.set g (some ⟨.tail s.nextCtx, .lock⟩) with nextCtx := s.nextCtx + 1 }
  else s.leave g frame

/-- The next operation of a thread, when it is not the environment's. -/
def advance (s : Leader G) (g : G) (th : Thread) : Option (Leader G) :=
  match th.place with
  | .lock =>
    if s.pollMu.isNone then
      some { s.set g (some { th with place := .observe }) with pollMu := some g }
    else none
  | .observe => none
  | .getState reason =>
    if s.machine.current ≠ .idle then some (s.leave g th.frame)
    else some (s.set g (some { th with place := .stopCheck reason }))
  | .stopCheck reason =>
    if s.machine.stopping then some (s.leave g th.frame)
    else some (s.set g (some { th with place := .machine (.scalingStop th.frame.ctx reason) }))
  | .machine pc =>
    (s.machine.step pc).bind fun r =>
      match r.2 with
      | .goto pc' => some { s.set g (some { th with place := .machine pc' }) with machine := r.1 }
      | .returned => some ({ s with machine := r.1 }.returned g th.frame pc)
      | .spawn _ => none

def observed (s : Leader G) (g : G) (th : Thread) (o : Observation) : Leader G :=
  match observeDecision o with
  | .nothing => s.leave g th.frame
  | .emergency => s.set g (some { th with place := .machine (.emergencyIdle th.frame.ctx) })
  | .scaling reason => s.set g (some { th with place := .getState reason })

def step (s : Leader G) : LeaderEvent G → Option (Leader G)
  | .start g reason => s.enter g ⟨.start, .stopCheck reason⟩
  | .poll g => s.enter g ⟨.poll, .lock⟩
  | .audit g => s.enter g ⟨.audit, .machine (.scalingStop .lifetime "audit_repair")⟩
  | .partition g lifecycle => s.enter g ⟨.partition, .machine (.claimCas .lifetime lifecycle)⟩
  | .label g => s.enter g ⟨.label, .machine (.claimCas .lifetime "label_recheck")⟩
  | .observed g o =>
    (s.threads g).bind fun th => if th.place = .observe then some (s.observed g th o) else none
  | .step g => (s.threads g).bind (s.advance g)
  | .spawn g t =>
    (s.threads g).bind fun th =>
      match th.place with
      | .machine pc =>
        match s.machine.step pc with
        | some (_, .spawn ctx) =>
          if (s.threads t).isNone then
            some ((s.leave g th.frame).set t (some ⟨.timer, .machine (.timer ctx)⟩))
          else none
        | _ => none
      | _ => none
  | .fire t =>
    (s.threads t).bind fun th =>
      match th.place with
      | .machine (.timer ctx) =>
        some (s.set t (some { th with place := .machine (.rebalanceCas ctx) }))
      | _ => none
  | .expire t =>
    (s.threads t).bind fun th =>
      match th.place with
      | .machine (.timer ctx) => if s.live ctx then none else some (s.set t none)
      | _ => none
  | .run g =>
    (s.threads g).bind fun th =>
      match th.place with
      | .machine (.claimed ctx reason) =>
        some ((s.set g (some { th with place := .machine (.callback ctx reason) })).unlock g)
      | _ => none
  | .finish g =>
    (s.threads g).bind fun th =>
      match th.place with
      | .machine (.callback _ _) =>
        some (s.set g (some { th with place := .machine (.idleReason true) }))
      | _ => none
  | .timeout id => if id < s.nextCtx then some { s with cancelled := id :: s.cancelled } else none
  | .stop => some { s with machine.stopping := true }

end Leader

structure Made (s : Leader G) : Prop where
  current : s.machine.current = .idle
  running : s.machine.stopping = false
  outside : ∀ g, s.threads g = none

variable (G)

def leader : System (Leader G) (LeaderEvent G) := ⟨Made, Leader.step⟩

end Parti.Calculator
