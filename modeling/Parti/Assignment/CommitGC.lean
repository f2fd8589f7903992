/-
# Assignment.CommitGC — the payload collector's sweep

`RunOnce` computes a live set from `_commit`, the last commit logs and its own
publisher's in-flight references, lists the keys, takes the time once, and then
visits every payload key outside the live set: read it, skip it while it is
younger than the retention window, look at the in-flight references once more,
and delete it at the revision just read.

The time is taken after the live set was read: what happened to `_commit` in between
is not in it.
-/
import Parti.Assignment.Publisher

namespace Parti.Assignment

open Parti.Types Lib
open Lib.Kv (Entry Write)
open Lib.Client (Request Answer)

/-- The collector's settings. A window that is not positive is replaced by the
default when the collector is built. -/
structure GCConfig where
  keepCommits : Nat
  retention : Int
  retention_pos : 0 < retention

inductive SweepPc where
  | commit
  | logs (version : Int) (remaining : Nat) (live : List Key)
  | refs (live : List Key)
  | keys (live : List Key)
  | clock (live keys : List Key)
  | visit (todo : List Key) (now : Int)
  | recheck (todo : List Key) (now : Int) (key : Key) (seen : Entry Value)
  | delete (todo : List Key) (now : Int) (key : Key) (seen : Entry Value)

def Key.isPayload : Key → Bool
  | .payload _ => true
  | _ => false

def candidates (live keys : List Key) : List Key :=
  keys.filter fun key => Key.isPayload key && !decide (key ∈ live)

def sweepRequest : SweepPc → Option (Request Key Value)
  | .commit => some (.read .commit)
  | .logs version (_ + 1) _ => if 0 < version then some (.read (.commitLog version)) else none
  | .keys _ => some .keys
  | .visit (key :: _) _ => some (.read key)
  | .delete _ _ key seen => some (.write (.delete key seen.revision))
  | _ => none

/-- What a sweep does with the store's answer. A failed read of `_commit` or of
the key list ends the sweep; a failed read of a log or of a payload key skips
it; the outcome of a delete is only counted. -/
def sweepResume (gc : GCConfig) : SweepPc → Answer Key Value → Option (Progress SweepPc Unit)
  | .commit, .entry (some seen) =>
    match seen.value.asCommit with
    | some commit => some (.waits (.logs commit.version gc.keepCommits commit.refKeys))
    | none => some (.waits (.logs 0 gc.keepCommits []))
  | .commit, .entry none => some (.waits (.logs 0 gc.keepCommits []))
  | .commit, .failed => some (.returned ())
  | .logs version (remaining + 1) live, .entry (some seen) =>
    match seen.value.asCommitLog with
    | some entry => some (.waits (.logs (version - 1) remaining (entry.payloadKeys ++ live)))
    | none => some (.waits (.logs (version - 1) remaining live))
  | .logs version (remaining + 1) live, .entry none
  | .logs version (remaining + 1) live, .failed =>
    some (.waits (.logs (version - 1) remaining live))
  | .keys live, .keys keys => some (.waits (.clock live keys))
  | .keys _, .failed => some (.returned ())
  | .visit (key :: rest) now, .entry (some seen) =>
    if now - seen.created < gc.retention then some (.waits (.visit rest now))
    else some (.waits (.recheck rest now key seen))
  | .visit (_ :: rest) now, .entry none | .visit (_ :: rest) now, .failed =>
    some (.waits (.visit rest now))
  | .delete rest now _ _, .written _
  | .delete rest now _ _, .conflict
  | .delete rest now _ _, .failed => some (.waits (.visit rest now))
  | _, _ => none

/-- The moves of a sweep between store operations. `now` is the reading of the
sweep's own clock. -/
def sweepProceed (pub : Publisher) (now : Int) : SweepPc → Option (Progress SweepPc Unit)
  | .logs version (_ + 1) live => if 0 < version then none else some (.waits (.refs live))
  | .logs _ 0 live => some (.waits (.refs live))
  | .refs live => some (.waits (.keys (pub.inflightRefs ++ live)))
  | .clock live keys => some (.waits (.visit (candidates live keys) now))
  | .recheck rest at_ key seen =>
    if key ∈ pub.inflightRefs then some (.waits (.visit rest at_))
    else some (.waits (.delete rest at_ key seen))
  | .visit [] _ => some (.returned ())
  | _ => none

/-! ## What one step of a sweep can do -/

inductive SweepResumed (gc : GCConfig) :
    SweepPc → Answer Key Value → Progress SweepPc Unit → Prop
  | committed (seen commit) (decoded : seen.value.asCommit = some commit) :
      SweepResumed gc .commit (.entry (some seen))
        (.waits (.logs commit.version gc.keepCommits commit.refKeys))
  | uncommitted (live) (undecoded : (live.bind fun seen => seen.value.asCommit) = none) :
      SweepResumed gc .commit (.entry live) (.waits (.logs 0 gc.keepCommits []))
  | logged (version remaining live seen entry) (decoded : seen.value.asCommitLog = some entry) :
      SweepResumed gc (.logs version (remaining + 1) live) (.entry (some seen))
        (.waits (.logs (version - 1) remaining (entry.payloadKeys ++ live)))
  | unlogged (version remaining live answer)
      (undecoded : ∀ seen, answer = .entry (some seen) → seen.value.asCommitLog = none) :
      SweepResumed gc (.logs version (remaining + 1) live) answer
        (.waits (.logs (version - 1) remaining live))
  | listed (live keys) : SweepResumed gc (.keys live) (.keys keys) (.waits (.clock live keys))
  | aged (key rest now seen) (old : gc.retention ≤ now - seen.created) :
      SweepResumed gc (.visit (key :: rest) now) (.entry (some seen))
        (.waits (.recheck rest now key seen))
  | passed (key rest now answer) :
      SweepResumed gc (.visit (key :: rest) now) answer (.waits (.visit rest now))
  | tried (rest now key seen answer) :
      SweepResumed gc (.delete rest now key seen) answer (.waits (.visit rest now))
  | ended (pc) : SweepResumed gc pc .failed (.returned ())

variable {pc : SweepPc} {r : Progress SweepPc Unit}

theorem sweepResume_resumed {gc} {answer}
    (ran : sweepResume gc pc answer = some r) : SweepResumed gc pc answer r := by
  unfold sweepResume at ran
  split at ran
  case h_1 seen =>
    split at ran <;> cases ran
    next commit decoded => exact .committed seen commit decoded
    next undecoded => exact .uncommitted (some seen) undecoded
  case h_2 => cases ran; exact .uncommitted none rfl
  case h_4 version remaining live seen =>
    split at ran <;> cases ran
    next entry decoded => exact .logged version remaining live seen entry decoded
    next undecoded =>
      refine .unlogged version remaining live _ fun other eq => ?_
      cases eq
      exact undecoded
  case h_5 version remaining live | h_6 version remaining live =>
    cases ran
    exact .unlogged version remaining live _ fun _ eq => nomatch eq
  case h_7 live keys => cases ran; exact .listed live keys
  case h_9 key rest now seen =>
    split at ran <;> cases ran
    next => exact .passed key rest now _
    next old => exact .aged key rest now seen (not_lt.mp old)
  case h_10 key rest now | h_11 key rest now => cases ran; exact .passed key rest now _
  case h_12 rest now key seen _ | h_13 rest now key seen | h_14 rest now key seen =>
    cases ran
    exact .tried rest now key seen _
  all_goals cases ran
  all_goals exact .ended _

inductive SweepProceeded (pub : Publisher) (now : Int) :
    SweepPc → Progress SweepPc Unit → Prop
  | walked (version remaining live) (last : remaining = 0 ∨ version ≤ 0) :
      SweepProceeded pub now (.logs version remaining live) (.waits (.refs live))
  | folded (live) : SweepProceeded pub now (.refs live) (.waits (.keys (pub.inflightRefs ++ live)))
  | sampled (live keys) :
      SweepProceeded pub now (.clock live keys) (.waits (.visit (candidates live keys) now))
  | spared (rest at_ key seen) :
      SweepProceeded pub now (.recheck rest at_ key seen) (.waits (.visit rest at_))
  | doomed (rest at_ key seen) :
      SweepProceeded pub now (.recheck rest at_ key seen) (.waits (.delete rest at_ key seen))
  | ended (at_) : SweepProceeded pub now (.visit [] at_) (.returned ())

theorem sweepProceed_proceeded {pub} {now : Int}
    (ran : sweepProceed pub now pc = some r) : SweepProceeded pub now pc r := by
  unfold sweepProceed at ran
  split at ran
  case h_1 version remaining live =>
    split at ran <;> cases ran
    next last => exact .walked version _ live (.inr (not_lt.mp last))
  case h_2 version live => cases ran; exact .walked version 0 live (.inl rfl)
  case h_3 live => cases ran; exact .folded live
  case h_4 live keys => cases ran; exact .sampled live keys
  case h_5 rest at_ key seen =>
    split at ran <;> cases ran
    next => exact .spared rest at_ key seen
    next => exact .doomed rest at_ key seen
  case h_6 at_ => cases ran; exact .ended at_
  case h_7 => cases ran

end Parti.Assignment
