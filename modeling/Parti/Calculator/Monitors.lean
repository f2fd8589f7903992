/-
# Calculator.Monitors — how a change of the partition source reaches a rebalance

`monitorPartitions` receives the change signals of the source; what it cannot do at
once it leaves in the flag `pendingPartitionUpdate`, which its drain ticker takes up
again. `monitorLabelRecheck` serves the flag `pendingLabelRecheck`, which a rebalance
sets when it defers or sees a stale worker list. Rebalances of other lifecycles run
beside them; `rebalanceMu` admits one at a time.

`rebalanceOutcome` is the order of the exits of `rebalance` behind its snapshot;
`Inputs` is what it finds there. Claims of the state machine and recovery grace are
the environment's choice at each check.

Three counters are for the record: `signals` received so far, `covered` by a snapshot
that was published or proved published, and `lapsed`, up to which signal a monitor's
attempt has ended in an exit that re-arms nothing.
-/
import Parti.Lib.Run

namespace Parti.Calculator

open Lib

/-- The ways out of `rebalance`. -/
inductive Outcome where
  | published
  /-- Nothing published: the last commit provably covers the snapshot. -/
  | replayed
  | noWorkers
  | suspiciousWorkers
  | suspiciousPartitions
  /-- `errLabelObservationDeferred`. -/
  | deferred
  /-- `errShuttingDown`, also on the recovery-grace re-check. -/
  | shuttingDown
  | failed
deriving DecidableEq

structure Inputs where
  noWorkers : Bool
  floorBlocks : Bool
  guardBlocks : Bool
  trusted : Bool
  replayable : Bool
  pipelineFails : Bool
  pipelineDefers : Bool
  managerStops : Bool
  publishFails : Bool
deriving DecidableEq

/-- An error is reported as a shutdown once the calculator stops. -/
def wrapStopErr (stopping : Bool) : Outcome :=
  if stopping then .shuttingDown else .failed

def rebalanceOutcome (stopping : Bool) (i : Inputs) : Outcome :=
  if i.noWorkers then .noWorkers
  else if i.floorBlocks then .suspiciousWorkers
  else if i.guardBlocks then .suspiciousPartitions
  else if !i.trusted then
    if i.replayable then .replayed else .deferred
  else if i.pipelineFails then wrapStopErr stopping
  else if i.pipelineDefers then .deferred
  else if i.managerStops then .shuttingDown
  else if i.publishFails then wrapStopErr stopping
  else .published

namespace Outcome

def covers : Outcome → Bool
  | .published | .replayed => true
  | _ => false

def requestsRecheck : Outcome → Bool
  | .replayed | .deferred => true
  | _ => false

/-- No flag is set by the rebalance or by the partition monitor afterwards, and
nothing is covered. -/
def lapses : Outcome → Bool
  | .noWorkers | .suspiciousWorkers | .failed => true
  | _ => false

end Outcome

inductive Attempt where
  | waiting
  | collecting
  | snapshotting
  | deciding (seen : Nat)
  | ended (outcome : Outcome)
deriving DecidableEq

/-- A monitor: idle in its `select`; with a signal, or a flag it has taken; about
to claim; in its rebalance. -/
inductive Monitor where
  | idle
  | received
  | drained
  | claiming
  | rebalancing (a : Attempt)
deriving DecidableEq

def Monitor.attempt : Monitor → Option Attempt
  | .rebalancing a => some a
  | _ => none

theorem Monitor.attempt_eq_some {m : Monitor} {a} :
    m.attempt = some a ↔ m = .rebalancing a := by
  cases m <;> simp [Monitor.attempt]

inductive Who (R : Type) where
  | partition
  | label
  | other (r : R)
deriving DecidableEq

/-- The recovery-grace re-check is for the two monitors' rebalances only. -/
def Who.monitored {R : Type} : Who R → Bool
  | .other _ => false
  | _ => true

structure Monitors (R : Type) where
  pendingPartitionUpdate : Bool
  pendingLabelRecheck : Bool
  partition : Monitor
  label : Monitor
  others : R → Option Attempt
  rebalanceMu : Option (Who R)
  stopped : Bool
  signals : Nat
  covered : Nat
  lapsed : Nat
  /-- The signals there were when the label monitor took its flag. -/
  taken : Nat

inductive MonitorEvent (R : Type) where
  | signal
  | drainPartition
  | drainLabel
  | gracePartition (inGrace : Bool)
  | graceLabel (inGrace : Bool)
  | claimPartition (ok : Bool)
  | claimLabel (ok : Bool)
  | start (r : R)
  | begin (who : Who R) (inGrace : Bool)
  | collect (who : Who R) (ok : Bool)
  | snapshot (who : Who R) (ok : Bool)
  | decide (who : Who R) (i : Inputs)
  | settlePartition
  | settleLabel
  | settleOther (r : R)
  | labelRequest
  | stop

variable {R : Type} [DecidableEq R]

namespace Monitors

def attempt (s : Monitors R) : Who R → Option Attempt
  | .partition => s.partition.attempt
  | .label => s.label.attempt
  | .other r => s.others r

def setAttempt (s : Monitors R) (who : Who R) (a : Attempt) : Monitors R :=
  match who with
  | .partition => { s with partition := .rebalancing a }
  | .label => { s with label := .rebalancing a }
  | .other r => { s with others := Function.update s.others r (some a) }

/-- The rebalance returns, and with it the lock. -/
def finish (s : Monitors R) (who : Who R) (o : Outcome) : Monitors R :=
  { s.setAttempt who (.ended o) with rebalanceMu := none }

/-- What follows the snapshot: the exit, and what it does on its way. -/
def decide (s : Monitors R) (who : Who R) (seen : Nat) (o : Outcome) : Monitors R :=
  { s.finish who o with
    pendingLabelRecheck := s.pendingLabelRecheck || o.requestsRecheck
    covered := if o.covers then max s.covered seen else s.covered }

/-- `triggerPartitionRebalance` and `restorePendingOnGraceBail` after the
rebalance. -/
def settlePartition (s : Monitors R) (o : Outcome) : Monitors R :=
  { s with
    partition := .idle
    pendingPartitionUpdate := s.pendingPartitionUpdate || o = .suspiciousPartitions ||
      (o = .shuttingDown && !s.stopped)
    lapsed := if o.lapses then s.signals else s.lapsed }

/-- `monitorLabelRecheck` after the rebalance. -/
def settleLabel (s : Monitors R) (o : Outcome) : Monitors R :=
  { s with
    label := .idle
    pendingLabelRecheck := s.pendingLabelRecheck || (o = .shuttingDown && !s.stopped)
    lapsed := if o.lapses || o = .suspiciousPartitions then max s.lapsed s.taken else s.lapsed }

def step (s : Monitors R) : MonitorEvent R → Option (Monitors R)
  | .signal =>
    if s.partition = .idle then some { s with partition := .received, signals := s.signals + 1 }
    else none
  | .drainPartition =>
    if s.partition = .idle ∧ s.pendingPartitionUpdate = true then
      some { s with partition := .drained, pendingPartitionUpdate := false }
    else none
  | .drainLabel =>
    if s.label = .idle ∧ s.pendingLabelRecheck = true then
      some { s with label := .drained, pendingLabelRecheck := false, taken := s.signals }
    else none
  | .gracePartition inGrace =>
    if s.partition = .received then
      -- the immediate trigger supersedes a pending update
      if s.stopped then some { s with partition := .idle }
      else if inGrace then some { s with partition := .idle, pendingPartitionUpdate := true }
      else some { s with partition := .claiming, pendingPartitionUpdate := false }
    else if s.partition = .drained then
      if inGrace then some { s with partition := .idle, pendingPartitionUpdate := true }
      else some { s with partition := .claiming }
    else none
  | .graceLabel inGrace =>
    if s.label = .drained then
      if inGrace then some { s with label := .idle, pendingLabelRecheck := true }
      else some { s with label := .claiming }
    else none
  | .claimPartition ok =>
    if s.partition = .claiming then
      if ok then some { s with partition := .rebalancing .waiting }
      else some { s with partition := .idle, pendingPartitionUpdate := true }
    else none
  | .claimLabel ok =>
    if s.label = .claiming then
      if ok then some { s with label := .rebalancing .waiting }
      else some { s with label := .idle, pendingLabelRecheck := true }
    else none
  | .start r =>
    if (s.others r).isNone then
      some { s with others := Function.update s.others r (some .waiting) }
    else none
  | .begin who inGrace =>
    if s.attempt who = some .waiting ∧ s.rebalanceMu = none then
      if who.monitored && inGrace then some (s.finish who .shuttingDown)
      else some { s.setAttempt who .collecting with rebalanceMu := some who }
    else none
  | .collect who ok =>
    if s.attempt who = some .collecting then
      if ok then some (s.setAttempt who .snapshotting)
      else some (s.finish who (wrapStopErr s.stopped))
    else none
  | .snapshot who ok =>
    if s.attempt who = some .snapshotting then
      if ok then some (s.setAttempt who (.deciding s.signals))
      else some (s.finish who (wrapStopErr s.stopped))
    else none
  | .decide who i =>
    match s.attempt who with
    | some (.deciding seen) => some (s.decide who seen (rebalanceOutcome s.stopped i))
    | _ => none
  | .settlePartition =>
    match s.partition with
    | .rebalancing (.ended o) => some (s.settlePartition o)
    | _ => none
  | .settleLabel =>
    match s.label with
    | .rebalancing (.ended o) => some (s.settleLabel o)
    | _ => none
  | .settleOther r =>
    match s.others r with
    | some (.ended _) => some { s with others := Function.update s.others r none }
    | _ => none
  | .labelRequest => some { s with pendingLabelRecheck := true }
  | .stop => some { s with stopped := true }

end Monitors

structure Quiet (s : Monitors R) : Prop where
  partition : s.partition = .idle
  label : s.label = .idle
  signals : s.signals = 0

variable (R)

def monitors : System (Monitors R) (MonitorEvent R) := ⟨Quiet, Monitors.step⟩

end Parti.Calculator
