/-
# Recovery.Controller — the checkpoint and the configuration of a recreated consumer

A controller keeps, for one consumer, the highest stream sequence it has acked (the
checkpoint), the epoch of the stream and a flag that is set when the stream was recreated.
`BuildConfig` turns them into the delivery policy of the consumer that replaces a lost one.

The operations here are the controller's own, each as one step. `Recovery.Fence` takes them
apart into loads, stores and swaps; `Recovery.LastProcessed` and `Recovery.StreamRecreated`
ask where the consumers start that are built from them.
-/
import Mathlib.Order.Lattice

namespace Parti.Recovery

/-! ## Configurations -/

inductive Strategy where
  | disabled
  | fromNew
  | fromLastProcessed
  | fromBeginning
deriving DecidableEq

inductive DeliverPolicy where
  | deliverAll
  | deliverNew
  | deliverByStartSequence
deriving DecidableEq

/-- The fields that decide where a consumer starts. -/
structure ConsumerConfig where
  deliverPolicy : DeliverPolicy
  optStartSeq : Nat
  optStartTime : Option Nat
deriving DecidableEq

/-- What `dynamicbuild.ConsumerConfig` sets of them: everything, and no start. -/
def consumerConfig : ConsumerConfig := ⟨.deliverAll, 0, none⟩

/-- The configuration, and the fallback that was used if there was one. -/
def buildConfig (base : ConsumerConfig) (strategy : Strategy) (checkpoint : Nat)
    (recreatedSinceLastBuild : Bool) : ConsumerConfig × String :=
  let cfg := { base with optStartSeq := 0, optStartTime := none }
  match strategy with
  | .fromNew => ({ cfg with deliverPolicy := .deliverNew }, "")
  | .fromLastProcessed =>
    if checkpoint > 0 then
      ({ cfg with deliverPolicy := .deliverByStartSequence, optStartSeq := checkpoint + 1 }, "")
    else if recreatedSinceLastBuild then
      ({ cfg with deliverPolicy := .deliverAll }, "stream_recreated_replay_from_start")
    else
      ({ cfg with deliverPolicy := .deliverNew }, "fallback_no_checkpoint")
  | .fromBeginning => ({ cfg with deliverPolicy := .deliverAll }, "")
  | .disabled => ({ cfg with deliverPolicy := .deliverNew }, "unsupported_strategy_fallback")

/-- The first sequence of the stream that a consumer with that configuration can deliver, if
it is created when the last one was `lastSeq`. -/
def ConsumerConfig.start (cfg : ConsumerConfig) (lastSeq : Nat) : Nat :=
  match cfg.deliverPolicy with
  | .deliverAll => 1
  | .deliverNew => lastSeq + 1
  | .deliverByStartSequence => cfg.optStartSeq

theorem buildConfig_checkpoint (base : ConsumerConfig) {checkpoint : Nat} (known : 0 < checkpoint)
    (recreated : Bool) :
    (buildConfig base .fromLastProcessed checkpoint recreated).1 =
      ⟨.deliverByStartSequence, checkpoint + 1, none⟩ := by
  simp [buildConfig, known]

/-! ## The controller -/

structure Controller where
  streamEpoch : Nat
  maxAckedStreamSeq : Nat
  recreatedSinceLastBuild : Bool
deriving DecidableEq

def Controller.new : Controller := ⟨0, 0, false⟩

namespace Controller

variable (c : Controller)

/-- `Seed` and `Advance`: the checkpoint never falls. -/
def raise (seq : Nat) : Controller :=
  { c with maxAckedStreamSeq := max c.maxAckedStreamSeq seq }

/-- With the ack floor that `Info` returned, if it did. -/
def seedCheckpoint : Option Nat → Controller
  | some floor => if floor > 0 then c.raise floor else c
  | none => c

/-- With the sequence of the message, and the epoch of its dispatch. -/
def advanceCheckpoint (seq epoch : Nat) : Controller :=
  if epoch ≠ c.streamEpoch then c else c.raise seq

def handleStreamRecreated (info : Option Nat) : Controller :=
  { ({ c with streamEpoch := c.streamEpoch + 1, maxAckedStreamSeq := 0 }).seedCheckpoint info with
    recreatedSinceLastBuild := true }

end Controller

end Parti.Recovery
