/-
# Handoff.Coordinator — workers applying assignments over one claim store

Any number of workers run `Apply` at once, and sweeps, startup hygiene, resume
passes and orphan reaping run beside them. A `Job` is one `updateClaim` call on one
partition, or one orphan reap.

`PutIfEpoch` is two operations: a read, whose epoch is compared with the epoch
the transform was given, and a create or an update at the revision just read.

`Apply` walks its phases in order: prepare jobs, the removal guard, the consumer
update, commit jobs, stabilize jobs. A phase ends when its last job has returned
(`g.Wait`), and an error ends the call. The sweep at its start is a task of its
own, like the periodic sweep.

The environment decides when calls arrive and what they carry, the clock each
process reads, how a consumer update ends, which commit is live, when a context is
cancelled, and which claims a sweep visits or reaps.
-/
import Parti.Lib.Client
import Parti.Handoff.Claims

namespace Parti.Handoff

open Parti.Types Lib
open Lib.Kv (Bucket Entry Write)
open Lib.Client (Request Answer Protocol State Action Reply)

/-! ## One claim: `updateClaim`, `PutIfEpoch`, the reap -/

inductive JobKind where
  | update (transform : Transform)
  | reap
deriving DecidableEq

inductive JobPc where
  | get
  | putGet (next : Written)
  | create (next : Written)
  | update (next : Written) (revision : Nat)
  | delete (revision : Nat)
  | done (ok : Bool)
deriving DecidableEq

structure Job where
  pid : Pid
  kind : JobKind
  now : Int
  ttlSeconds : Int
  retries : Nat
  pc : JobPc
deriving DecidableEq

namespace Job

/-- The epoch `PutIfEpoch` is called with. -/
def expectedEpoch (next : Written) : Int :=
  match next.given with
  | none => 0
  | some (claim, _) => claim.epoch

def request (j : Job) : Option (Request Pid Written) :=
  match j.pc with
  | .get | .putGet _ => some (.read j.pid)
  | .create next => some (.write (.create j.pid next))
  | .update next revision => some (.write (.update j.pid next revision))
  | .delete revision => some (.write (.delete j.pid revision))
  | .done _ => none

def retry (j : Job) : Job :=
  match j.retries with
  | 0 => { j with pc := .done false }
  | n + 1 => { j with retries := n, pc := .get }

def attempt (j : Job) (live : Option (Entry Written)) : JobPc :=
  match j.kind, live with
  | .update t, live =>
    match t.apply j.pid j.now j.ttlSeconds (live.map fun e => e.value.claim) with
    | none => .done true
    | some draft => .putGet ⟨draft, live.map fun e => (e.value.claim, e.revision)⟩
  | .reap, some e =>
    if e.value.claim.state = .stable ∧ e.value.claim.pendingOwner = "" then .delete e.revision
    else .done true
  | .reap, none => .done true

/-- `PutIfEpoch` after its own read. -/
def compare (j : Job) (next : Written) (live : Option (Entry Written)) : Job :=
  match live with
  | none => if expectedEpoch next ≠ 0 then j.retry else { j with pc := .create next }
  | some e =>
    if e.value.claim.epoch ≠ expectedEpoch next then j.retry
    else { j with pc := .update next e.revision }

def resume (j : Job) : Answer Pid Written → Option Job
  | .entry live =>
    match j.pc with
    | .get => some { j with pc := j.attempt live }
    | .putGet next => some (j.compare next live)
    | _ => none
  | .written _ =>
    match j.pc with
    | .create _ | .update _ _ | .delete _ => some { j with pc := .done true }
    | _ => none
  | .conflict =>
    match j.pc with
    | .create _ | .update _ _ => some j.retry
    | .delete _ => some { j with pc := .done true }
    | _ => none
  | .failed =>
    match j.pc with
    | .get => some { j with pc := .done false }
    | .putGet _ | .create _ | .update _ _ => some j.retry
    | .delete _ => some { j with pc := .done true }
    | .done _ => none
  | .keys _ => none

def isDone (j : Job) : Bool :=
  match j.pc with
  | .done _ => true
  | _ => false

def succeeded (j : Job) : Bool := j.pc = .done true

end Job

/-! ## One assignment: `Apply` -/

/-- The live commit, as the removal guard reads it: its version and the subject
keys in its payloads. -/
structure Commit where
  version : Int
  batch : List Pid
deriving DecidableEq

inductive Phase where
  | prepare
  | readCommit
  | guard (transfers : List Pid)
  | update
  | commit
  | stabilize
deriving DecidableEq

structure Apply where
  worker : String
  previous : Assignment
  next : Assignment
  phase : Phase
  jobs : List Job
deriving DecidableEq

structure Config where
  hashID : Partition → UInt64
  ttlSeconds : Int
  maxRetries : Nat

def Config.walk (cfg : Config) (t : Transform) (now : Int) (parts : List Partition) : List Job :=
  parts.map fun p => ⟨p.subjectKey, .update t, now, cfg.ttlSeconds, cfg.maxRetries, .get⟩

def transitionVersionAdjacent (previous next : Assignment) : Bool :=
  previous.version + 1 = next.version

/-- The partitions `prepare` walks: those new by hash, or all of them when
`previous` is not the direct predecessor. -/
def Config.toPrepare (cfg : Config) (previous next : Assignment) : List Partition :=
  let old := if transitionVersionAdjacent previous next then previous.partitions else []
  next.partitions.filter fun p => cfg.hashID p ∉ old.map cfg.hashID

/-- The subject keys `next` no longer has. -/
def removedPartitions (previous next : Assignment) : List Pid :=
  (previous.partitions.map Partition.subjectKey).filter fun pid =>
    pid ∉ next.partitions.map Partition.subjectKey

/-- The removals that are transfers: those the live commit still assigns, when it
is the commit of `next`. -/
def transfers (commit : Option Commit) (previous next : Assignment) : List Pid :=
  match commit with
  | none => []
  | some c =>
    if c.version = next.version then
      (removedPartitions previous next).filter fun pid => pid ∈ c.batch
    else []

/-- The claim proves that another worker holds the partition. -/
def committedElsewhere (worker : String) (c : Claim) : Bool :=
  c.owner ≠ "" ∧ c.owner ≠ worker ∧ (c.state = .commit ∨ c.state = .stable)

/-- Past the claims read so far: on to the next transfer or to the update. -/
def guardPhase : List Pid → Phase
  | [] => .update
  | pid :: rest => .guard (pid :: rest)

/-- The guard after reading the claim of its first transfer; `none` is the error
`ErrRemovalPending`. -/
def Apply.guardStep (ap : Apply) (pids : List Pid) (live : Option (Entry Written)) :
    Option Apply :=
  match live with
  | some e =>
    if committedElsewhere ap.worker e.value.claim then
      some { ap with phase := guardPhase pids.tail }
    else none
  | none => none

/-- `g.Wait`: what follows when every job of a phase has returned. -/
def Apply.advance (cfg : Config) (ap : Apply) (now : Int) : Option Apply :=
  if ap.jobs.all Job.succeeded then
    match ap.phase with
    | .prepare => some { ap with phase := .readCommit, jobs := [] }
    | .commit =>
      some { ap with phase := .stabilize
                     jobs := cfg.walk (.stabilize ap.worker) now ap.next.partitions }
    | _ => none
  else none

/-! ## The workers -/

inductive Tid (A J : Type) where
  | job (a : A) (index : Nat)
  | guard (a : A)
  | task (j : J)

/-- Everything outside the store. `updated` is the history of consumer updates
that succeeded: the worker, and the assignment it was called with. -/
structure Locals (A J : Type) where
  applies : A → Option Apply
  tasks : J → Option Job
  commit : Option Commit
  updated : List (String × Assignment)

inductive Call (A J : Type) where
  | apply (a : A) (worker : String) (previous next : Assignment) (now : Int)
  | advance (a : A) (now : Int)
  | returnError (a : A)
  | finish (a : A)
  | readCommit (a : A) (ok : Bool)
  | consumer (a : A) (ok : Bool) (now : Int)
  | cancel (t : Tid A J)
  | start (j : J) (pid : Pid) (transform : Transform) (now : Int)
  | reap (j : J) (pid : Pid) (now : Int)
  | publish (commit : Commit)

/-- The background writers, and how often each tries: the sweep goes through
`updateClaim`; hygiene and resume make one attempt. -/
def Config.attempts (cfg : Config) : Transform → Option Nat
  | .sweep => some cfg.maxRetries
  | .hygiene | .resume _ => some 0
  | .prepare _ | .commit _ | .stabilize _ => none

section Workers

variable {A J : Type} [DecidableEq A] [DecidableEq J]

namespace Locals

def setApply (l : Locals A J) (a : A) (ap : Option Apply) : Locals A J :=
  { l with applies := Function.update l.applies a ap }

def setTask (l : Locals A J) (j : J) (job : Option Job) : Locals A J :=
  { l with tasks := Function.update l.tasks j job }

def jobAt (l : Locals A J) : Tid A J → Option Job
  | .job a index => (l.applies a).bind fun ap => ap.jobs[index]?
  | .task j => l.tasks j
  | .guard _ => none

def setJob (l : Locals A J) (t : Tid A J) (job : Job) : Locals A J :=
  match t with
  | .job a index =>
    l.setApply a ((l.applies a).map fun ap => { ap with jobs := ap.jobs.set index job })
  | .task j => l.setTask j (some job)
  | .guard _ => l

end Locals

def requestOf (l : Locals A J) : Tid A J → Option (Request Pid Written)
  | .guard a =>
    (l.applies a).bind fun ap =>
      match ap.phase with
      | .guard (pid :: _) => some (.read pid)
      | _ => none
  | t => (l.jobAt t).bind Job.request

def resumeOf (l : Locals A J) (t : Tid A J) (answer : Answer Pid Written) :
    Option (Locals A J) :=
  match t with
  | .guard a =>
    (l.applies a).bind fun ap =>
      match ap.phase, answer with
      | .guard pids, .entry live => some (l.setApply a (ap.guardStep pids live))
      | .guard _, .failed => some (l.setApply a none)
      | _, _ => none
  | t => ((l.jobAt t).bind fun job => job.resume answer).map (l.setJob t)

/-- Calls and returns, and everything else that is not a store operation. -/
def callOf (cfg : Config) (l : Locals A J) : Call A J → Option (Locals A J)
  | .apply a worker previous next now =>
    if (l.applies a).isNone then
      some (l.setApply a (some ⟨worker, previous, next, .prepare,
        cfg.walk (.prepare worker) now (cfg.toPrepare previous next)⟩))
    else none
  | .advance a now =>
    ((l.applies a).bind fun ap => ap.advance cfg now).map fun ap => l.setApply a (some ap)
  | .returnError a =>
    -- some job returned an error; the others have returned as well
    (l.applies a).bind fun ap =>
      if ap.jobs.all Job.isDone ∧ ¬ ap.jobs.all Job.succeeded then some (l.setApply a none)
      else none
  | .finish a =>
    (l.applies a).bind fun ap =>
      if ap.phase = .stabilize ∧ ap.jobs.all Job.succeeded then some (l.setApply a none)
      else none
  | .readCommit a ok =>
    (l.applies a).bind fun ap =>
      if ap.phase = .readCommit then
        if ok then
          some (l.setApply a
            (some { ap with phase := guardPhase (transfers l.commit ap.previous ap.next) }))
        else some (l.setApply a none)
      else none
  | .consumer a ok now =>
    (l.applies a).bind fun ap =>
      if ap.phase = .update then
        if ok then
          some { l.setApply a (some { ap with
                    phase := .commit
                    jobs := cfg.walk (.commit ap.worker) now ap.next.partitions }) with
                 updated := (ap.worker, ap.next) :: l.updated }
        else some (l.setApply a none)
      else none
  | .cancel t =>
    (l.jobAt t).bind fun job =>
      if job.isDone then none else some (l.setJob t { job with pc := .done false })
  | .start j pid transform now =>
    (cfg.attempts transform).bind fun retries =>
      if (l.tasks j).all Job.isDone then
        some (l.setTask j
          (some ⟨pid, .update transform, now, cfg.ttlSeconds, retries, .get⟩))
      else none
  | .reap j pid now =>
    if (l.tasks j).all Job.isDone then
      some (l.setTask j (some ⟨pid, .reap, now, cfg.ttlSeconds, 0, .get⟩))
    else none
  | .publish commit =>
    if ∀ c ∈ l.commit, c.version < commit.version then some { l with commit := some commit }
    else none

variable (A J)

def protocol (cfg : Config) : Protocol (Locals A J) (Tid A J) (Call A J) Pid Written where
  request := requestOf
  resume := fun l t _ answer => resumeOf l t answer
  call := fun l c _ => callOf cfg l c

abbrev StoreState := State (Locals A J) Pid Written

variable {A J}

structure Fresh (s : StoreState A J) : Prop where
  bucket : s.bucket.log = []
  pending : s.pending = []
  applies : ∀ a, s.locals.applies a = none
  tasks : ∀ j, s.locals.tasks j = none
  updated : s.locals.updated = []

variable (A J)

def claimStore (cfg : Config) :
    System (StoreState A J) (Action (Tid A J) (Call A J)) :=
  (protocol A J cfg).system Fresh

/-! ## Concrete runs -/

variable {A J}

def emptyStore (A J : Type) : StoreState A J where
  bucket := .empty
  pending := []
  clock := 0
  locals := ⟨fun _ => none, fun _ => none, none, []⟩

omit [DecidableEq A] [DecidableEq J] in
theorem emptyStore_fresh : Fresh (emptyStore A J) := ⟨rfl, rfl, fun _ => rfl, fun _ => rfl, rfl⟩

end Workers

/-- Claims live for one second, and a lost race is retried once. -/
def plainConfig : Config := ⟨fun p => UInt64.ofNat p.keys.length, 1, 1⟩

def partitionP : Partition := ⟨[[112]], 0, []⟩

def assignmentOf (version : Int) (partitions : List Partition) : Assignment where
  version := version
  lifecycle := ""
  partitions := partitions
  leaderRevision := 0
  totalWorkers := 0
  workerLabels := []
  workerLabelsKnown := false

variable {A J : Type}

def phaseSteps (a : A) : List (Action (Tid A J) (Call A J)) :=
  List.replicate 3 (.step (.job a 0) .served)

/-- `Apply` of one partition, from the call up to the end of its prepare phase. -/
def prepareSteps (a : A) (worker : String) (previous next : Assignment) :
    List (Action (Tid A J) (Call A J)) :=
  .call (.apply a worker previous next 0) :: phaseSteps a ++ [.call (.advance a 0)]

/-- From there to the start of the commit phase, with nothing to guard. -/
def updateSteps (a : A) : List (Action (Tid A J) (Call A J)) :=
  [.call (.readCommit a true), .call (.consumer a true 0)]

/-- The commit and stabilize phases when the claim is already the worker's. -/
def settledSteps (a : A) : List (Action (Tid A J) (Call A J)) :=
  [.step (.job a 0) .served, .call (.advance a 0), .step (.job a 0) .served, .call (.finish a)]

end Parti.Handoff
