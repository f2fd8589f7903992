/-
# Manager.Worker — the goroutines that bring assignments to a worker

The cells of a worker's manager that its goroutines share, and every function
that touches them, one atomic operation a step: the alias watcher, the commit
watcher, the apply pipeline with its mutex, the two retry loops, the recovery of
a degraded worker with its refresh, and the startup runner. Any number of
goroutines may run any of the handlers at the same time.

What the environment decides comes with the step: what was delivered or read
from the bucket, whether a payload could be fetched and verified, whether the
handoff coordinator's `Apply` succeeded, and which name a new goroutine gets. The
manager's context stays live.

`acknowledged` records that `SetAppliedAssignment` was called; the source has no
such cell. The calls that leave these cells for the manager's state
(`markStartupAssignmentApplied`, the exit from degraded mode, the startup
runner's transition) are steps that change nothing here.
-/
import Parti.Manager.Assignment
import Parti.Lib.Cas
import Parti.Lib.RetryLoop

namespace Parti.Manager

open Parti.Types
open Lib (CasLoop Retry Loop Turn Pool Program System)

/-! ## Shared cells -/

/-- How far the startup runner is. The monitors start when it ends. -/
inductive Startup where
  | pending
  | running
  | monitoring
deriving DecidableEq

structure Cells (T : Type) where
  assignment : WorkerAssignment
  lastSeenLeaderRevision : Nat
  committedAssignment : Option WorkerAssignment
  highestAcceptedTarget : Option AcceptedTarget
  applied : AppliedSnapshot
  lastObservedCommit : Option AssignmentCommit
  lastSeenAlias : Option WorkerAssignment
  pendingApplyInFlight : Bool
  stashedCommit : Option AssignmentCommit
  applyRetry : Retry WorkerAssignment
  fetchRetry : Retry AssignmentCommit
  applyStoreMu : Option T
  startup : Startup
  acknowledged : Bool

def Cells.initial {T : Type} : Cells T where
  assignment := .empty
  lastSeenLeaderRevision := 0
  committedAssignment := none
  highestAcceptedTarget := none
  applied := .zero
  lastObservedCommit := none
  lastSeenAlias := none
  pendingApplyInFlight := false
  stashedCommit := none
  applyRetry := ⟨none, false⟩
  fetchRetry := ⟨none, false⟩
  applyStoreMu := none
  startup := .pending
  acknowledged := false

/-! ## What the compare-and-swap loops replace -/

/-- `raiseAcceptedTarget`. -/
def raises (target : AcceptedTarget) : Option AcceptedTarget → Bool
  | none => true
  | some cur => isApplyResultStale cur target

/-- `updateLastSeenLeaderRevision`. -/
def advances (rev cur : Nat) : Bool := decide (cur < rev)

/-- `scheduleApplyRetry`. -/
def supersedesRetry (cfg : Config) (a : WorkerAssignment) : Option WorkerAssignment → Bool
  | none => true
  | some cur => assignmentSupersedesForStash cfg a cur

/-- The commit stashes: `stashFetchRetryCandidate`, and the coalescing of
commits that arrive while one is being applied. -/
def supersedesCommit (c : AssignmentCommit) : Option AssignmentCommit → Bool
  | none => true
  | some cur => commitSupersedesForStash c cur

/-! ## Program counters -/

inductive Caller where
  | legacy
  | commit
  | applyRetry
  | fetchRetry
  | startCommit (commit : AssignmentCommit)
  | startAlias

/-- `handleAssignmentEntry`. `raised` says whether this alias moved the fence. -/
inductive AliasPc (a : WorkerAssignment) where
  | seen
  | current (lastSeen : Nat)
  | raise (lastSeen : Nat) (loop : CasLoop (raises a.target))
  | record (lastSeen : Nat) (raised : Bool)
  | authority (lastSeen : Nat) (raised : Bool)

/-- `handleCommitValueOnce`, up to the apply. -/
inductive CommitPc (c : AssignmentCommit) where
  | current
  | noop
  | noopSeen (loop : CasLoop (advances c.leaderRevision))
  | seen
  | observe (lastSeen : Nat)
  | authority (lastSeen : Nat)
  | claim
  | coalesce (loop : CasLoop (supersedesCommit c))
  | raise (loop : CasLoop (raises (commitTarget c)))
  | build
  | unfetched
  | replace
  | stash (loop : CasLoop (supersedesCommit c))
  | wake

/-- `applyAssignmentWithPrev` and its core. -/
inductive ApplyPc (cfg : Config) (a : WorkerAssignment) where
  | enter
  | lock
  | staleGate
  | fenceGate
  | raise (loop : CasLoop (raises a.target))
  | apply
  | failed
  | stash (loop : CasLoop (supersedesRetry cfg a))
  | wake
  | seen (loop : CasLoop (advances a.leaderRevision))
  | store
  | committed
  | ack
  | unlock
  | mark
  | dropped

inductive FetchPc (c : AssignmentCommit) where
  | fence
  | build
  | stash (loop : CasLoop (supersedesCommit c))

/-- `attemptRecoveryFromDegraded`, with `refreshAssignmentFromNATS` and its
`monotonicStore`. -/
inductive RecoverPc (cfg : Config) where
  | get
  | lock (a : WorkerAssignment)
  | gate (a : WorkerAssignment)
  | seen (a : WorkerAssignment) (loop : CasLoop (advances a.leaderRevision))
  | store (a : WorkerAssignment)
  | unlock
  | current
  | committed (cur : WorkerAssignment)
  | stash (cur : WorkerAssignment) (loop : CasLoop (supersedesRetry cfg cur))
  | wake
  | exit

/-- `runStartupBackground`: `waitForAssignment`, `applyInitialAssignment`. -/
inductive StartPc where
  | wait
  | current
  | commit (initial : WorkerAssignment)
  | build (initial : WorkerAssignment) (commit : AssignmentCommit)
  | coldStore
  | coldCommitted
  | coldAck
  | coldMark
  | observe (commit : AssignmentCommit)
  | clear
  | finish (applyOK : Bool)

inductive Pc (cfg : Config) where
  | idle
  | legacy (a : WorkerAssignment) (pc : AliasPc a)
  | commit (c : AssignmentCommit) (pc : CommitPc c)
  | commitRelease (applied : WorkerAssignment)
  | commitDrain (applied : WorkerAssignment)
  | apply (caller : Caller) (a : WorkerAssignment) (pc : ApplyPc cfg a)
  | applyLoop (loop : Loop)
  | fetchLoop (loop : Loop)
  | fetch (c : AssignmentCommit) (pc : FetchPc c)
  | recover (pc : RecoverPc cfg)
  | start (pc : StartPc)

def Pc.isIdle {cfg : Config} : Pc cfg → Bool
  | .idle => true
  | _ => false

inductive Input (T : Type) where
  | go
  | legacy (a : WorkerAssignment)
  | commit (c : AssignmentCommit)
  | recover
  | boot
  | fetched (found : Option WorkerAssignment)
  | latest (found : Option AssignmentCommit)
  | payload (found : Option AssignmentPayload)
  | applied (ok : Bool)
  | gates (pass : Bool)
  | spawn (fresh : T)

/-! ## Steps -/

section Steps

variable {T : Type} {cfg : Config}

def move (cells : Cells T) (pc : Pc cfg) : Turn (Cells T) (Pc cfg) T := ⟨cells, pc, none⟩

def AliasPc.next (cells : Cells T) (a : WorkerAssignment) : AliasPc a → Turn (Cells T) (Pc cfg) T
  | .seen =>
    let lastSeen := cells.lastSeenLeaderRevision
    if a.leaderRevision ≠ 0 ∧ a.leaderRevision < lastSeen then move cells .idle
    else move cells (.legacy a (.current lastSeen))
  | .current lastSeen =>
    if a.version ≤ cells.assignment.version then move cells .idle
    else move cells (.legacy a (.raise lastSeen .load))
  | .raise lastSeen loop =>
    let turn := loop.turn (some a.target) cells.highestAcceptedTarget
    move { cells with highestAcceptedTarget := turn.1 }
      (match turn.2 with
      | .again loop => .legacy a (.raise lastSeen loop)
      | .kept => .legacy a (.record lastSeen false)
      | .replaced => .legacy a (.record lastSeen true))
  | .record lastSeen raised =>
    move { cells with lastSeenAlias := some a } (.legacy a (.authority lastSeen raised))
  | .authority lastSeen _ =>
    if selectAuthority cells.lastObservedCommit (some a) lastSeen = .legacyAlias then
      move cells (.apply .legacy a .enter)
    else move cells .idle

/-- Where the pipeline's caller goes on after an apply that returned `nil`,
with the assignment applied or dropped at a gate. -/
def Caller.returned (a : WorkerAssignment) : Caller → Pc cfg
  | .legacy => .idle
  | .commit => .commitRelease a
  | .applyRetry => .applyLoop .check
  | .fetchRetry => .fetchLoop .check
  | .startCommit c => .start (.observe c)
  | .startAlias => .start (.finish true)

/-- Where it goes on after an apply that failed and was scheduled for a retry. -/
def Caller.failed (a : WorkerAssignment) : Caller → Pc cfg
  | .legacy => .idle
  | .commit => .commitRelease a
  | .applyRetry => .applyLoop .wait
  | .fetchRetry => .fetchLoop .check
  | .startCommit _ => .start (.finish false)
  | .startAlias => .start (.finish false)

def Caller.rejected (a : WorkerAssignment) : Caller → Pc cfg
  | .legacy => .idle
  | .commit => .commitRelease a
  | .applyRetry => .applyLoop .wait
  | .fetchRetry => .fetchLoop .check
  | .startCommit _ => .start .clear
  | .startAlias => .start .clear

def wakeLoop (won : Bool) (cells : Cells T) (pc start : Pc cfg) : Input T →
    Option (Turn (Cells T) (Pc cfg) T)
  | .spawn fresh => some ⟨cells, pc, if won then some (fresh, start) else none⟩
  | _ => none

def CommitPc.next (cells : Cells T) (c : AssignmentCommit) (input : Input T) :
    CommitPc c → Option (Turn (Cells T) (Pc cfg) T)
  | .current =>
    if c.version ≤ cells.assignment.version then some (move cells (.commit c .noop))
    else some (move cells (.commit c .seen))
  | .noop => some (move { cells with lastObservedCommit := some c } (.commit c (.noopSeen .load)))
  | .noopSeen loop =>
    let turn := loop.turn c.leaderRevision cells.lastSeenLeaderRevision
    some (move { cells with lastSeenLeaderRevision := turn.1 }
      (match turn.2 with
      | .again loop => .commit c (.noopSeen loop)
      | .kept => .idle
      | .replaced => .idle))
  | .seen =>
    let lastSeen := cells.lastSeenLeaderRevision
    if c.leaderRevision < lastSeen then some (move cells .idle)
    else some (move cells (.commit c (.observe lastSeen)))
  | .observe lastSeen =>
    some (move { cells with lastObservedCommit := some c } (.commit c (.authority lastSeen)))
  | .authority lastSeen =>
    if selectAuthority (some c) cells.lastSeenAlias lastSeen = .commit then
      some (move cells (.commit c .claim))
    else some (move cells .idle)
  | .claim =>
    if cells.pendingApplyInFlight then some (move cells (.commit c (.coalesce .load)))
    else some (move { cells with pendingApplyInFlight := true } (.commit c (.raise .load)))
  | .coalesce loop =>
    let turn := loop.turn (some c) cells.stashedCommit
    some (move { cells with stashedCommit := turn.1 }
      (match turn.2 with
      | .again loop => .commit c (.coalesce loop)
      | .kept => .idle
      | .replaced => .idle))
  | .raise loop =>
    let turn := loop.turn (some (commitTarget c)) cells.highestAcceptedTarget
    some (move { cells with highestAcceptedTarget := turn.1 }
      (match turn.2 with
      | .again loop => .commit c (.raise loop)
      | .kept => .commit c .build
      | .replaced => .commit c .build))
  | .build =>
    match input with
    | .payload found =>
      match buildAssignmentFromCommit cfg c found with
      | some a => some (move cells (.apply .commit a .enter))
      | none => some (move cells (.commit c .unfetched))
    | _ => none
  | .unfetched => some (move { cells with pendingApplyInFlight := false } (.commit c .replace))
  | .replace =>
    some (move { cells with stashedCommit := none }
      (match cells.stashedCommit with
      | some pending =>
        if commitSupersedesForStash pending c then .commit pending .current
        else .commit c (.stash .load)
      | none => .commit c (.stash .load)))
  | .stash loop =>
    let turn := loop.turn (some c) cells.fetchRetry.stash
    some (move { cells with fetchRetry.stash := turn.1 }
      (match turn.2 with
      | .again loop => .commit c (.stash loop)
      | .kept => .commit c .wake
      | .replaced => .commit c .wake))
  | .wake =>
    wakeLoop cells.fetchRetry.activate.2 { cells with fetchRetry := cells.fetchRetry.activate.1 }
      .idle (.fetchLoop .wait) input

def ApplyPc.next (cells : Cells T) (t : T) (caller : Caller) (a : WorkerAssignment)
    (input : Input T) : ApplyPc cfg a → Option (Turn (Cells T) (Pc cfg) T)
  | .enter =>
    if labelIncarnationMismatch cfg a then some (move cells (caller.rejected a))
    else some (move cells (.apply caller a .lock))
  | .lock =>
    if cells.applyStoreMu = none then
      some (move { cells with applyStoreMu := some t } (.apply caller a .staleGate))
    else none
  | .staleGate =>
    if isApplyResultStale a.target cells.assignment.target then
      some (move cells (.apply caller a .dropped))
    else some (move cells (.apply caller a .fenceGate))
  | .fenceGate =>
    match cells.highestAcceptedTarget with
    | some fence =>
      if isApplyResultStale a.target fence then some (move cells (.apply caller a .dropped))
      else some (move cells (.apply caller a (.raise .load)))
    | none => some (move cells (.apply caller a (.raise .load)))
  | .raise loop =>
    let turn := loop.turn (some a.target) cells.highestAcceptedTarget
    some (move { cells with highestAcceptedTarget := turn.1 }
      (match turn.2 with
      | .again loop => .apply caller a (.raise loop)
      | .kept => .apply caller a .apply
      | .replaced => .apply caller a .apply))
  | .apply =>
    match input with
    | .applied true => some (move cells (.apply caller a (.seen .load)))
    | .applied false => some (move cells (.apply caller a .failed))
    | _ => none
  | .failed => some (move { cells with applyStoreMu := none } (.apply caller a (.stash .load)))
  | .stash loop =>
    let turn := loop.turn (some a) cells.applyRetry.stash
    some (move { cells with applyRetry.stash := turn.1 }
      (match turn.2 with
      | .again loop => .apply caller a (.stash loop)
      | .kept => .apply caller a .wake
      | .replaced => .apply caller a .wake))
  | .wake =>
    wakeLoop cells.applyRetry.activate.2 { cells with applyRetry := cells.applyRetry.activate.1 }
      (caller.failed a) (.applyLoop .wait) input
  | .seen loop =>
    let turn := loop.turn a.leaderRevision cells.lastSeenLeaderRevision
    some (move { cells with lastSeenLeaderRevision := turn.1 }
      (match turn.2 with
      | .again loop => .apply caller a (.seen loop)
      | .kept => .apply caller a .store
      | .replaced => .apply caller a .store))
  | .store => some (move { cells with assignment := a } (.apply caller a .committed))
  | .committed => some (move { cells with committedAssignment := some a } (.apply caller a .ack))
  | .ack =>
    some (move { cells with
      applied := setAppliedAssignment cfg a cells.applied, acknowledged := true }
      (.apply caller a .unlock))
  | .unlock => some (move { cells with applyStoreMu := none } (.apply caller a .mark))
  | .mark => some (move cells (caller.returned a))
  | .dropped => some (move { cells with applyStoreMu := none } (caller.returned a))

/-- A retry loop between two items. `slot` and `set` name its cell, `at_` its
program counters, and `work` where it goes on with an item. -/
def loopNext {α : Type} (slot : Cells T → Retry α) (set : Cells T → Retry α → Cells T)
    (at_ : Loop → Pc cfg) (work : α → Pc cfg) (cells : Cells T) (input : Input T) (loop : Loop) :
    Option (Turn (Cells T) (Pc cfg) T) :=
  let turn := loop.turn (slot cells)
  match turn.2 with
  | .goto loop => some (move (set cells turn.1) (at_ loop))
  | .work item => some (move (set cells turn.1) (work item))
  | .spawn => wakeLoop true (set cells turn.1) .idle (at_ .wait) input
  | .done => some (move (set cells turn.1) .idle)

/-- The goroutine of `activateApplyRetryLoop`. -/
def applyLoopNext : Cells T → Input T → Loop → Option (Turn (Cells T) (Pc cfg) T) :=
  loopNext Cells.applyRetry (fun cells r => { cells with applyRetry := r }) .applyLoop
    fun a => .apply .applyRetry a .enter

/-- The goroutine of `activateFetchRetryLoop`. -/
def fetchLoopNext : Cells T → Input T → Loop → Option (Turn (Cells T) (Pc cfg) T) :=
  loopNext Cells.fetchRetry (fun cells r => { cells with fetchRetry := r }) .fetchLoop
    fun c => .fetch c .fence

def FetchPc.next (cells : Cells T) (c : AssignmentCommit) (input : Input T) :
    FetchPc c → Option (Turn (Cells T) (Pc cfg) T)
  | .fence =>
    match cells.highestAcceptedTarget with
    | some accepted =>
      if isApplyResultStale (commitTarget c) accepted then some (move cells (.fetchLoop .check))
      else some (move cells (.fetch c .build))
    | none => some (move cells (.fetch c .build))
  | .build =>
    match input with
    | .payload found =>
      match buildAssignmentFromCommit cfg c found with
      | some a => some (move cells (.apply .fetchRetry a .enter))
      | none => some (move cells (.fetch c (.stash .load)))
    | _ => none
  | .stash loop =>
    let turn := loop.turn (some c) cells.fetchRetry.stash
    some (move { cells with fetchRetry.stash := turn.1 }
      (match turn.2 with
      | .again loop => .fetch c (.stash loop)
      | .kept => .fetchLoop .wait
      | .replaced => .fetchLoop .wait))

def RecoverPc.next (cells : Cells T) (t : T) (input : Input T) :
    RecoverPc cfg → Option (Turn (Cells T) (Pc cfg) T)
  | .get =>
    match input with
    | .fetched (some a) => some (move cells (.recover (.lock a)))
    | .fetched none => some (move cells .idle)
    | _ => none
  | .lock a =>
    if cells.applyStoreMu = none then
      some (move { cells with applyStoreMu := some t } (.recover (.gate a)))
    else none
  | .gate a =>
    if isApplyResultStale a.target cells.assignment.target then
      some (move cells (.recover .unlock))
    else some (move cells (.recover (.seen a .load)))
  | .seen a loop =>
    let turn := loop.turn a.leaderRevision cells.lastSeenLeaderRevision
    some (move { cells with lastSeenLeaderRevision := turn.1 }
      (match turn.2 with
      | .again loop => .recover (.seen a loop)
      | .kept => .recover (.store a)
      | .replaced => .recover (.store a)))
  | .store a => some (move { cells with assignment := a } (.recover .unlock))
  | .unlock => some (move { cells with applyStoreMu := none } (.recover .current))
  | .current => some (move cells (.recover (.committed cells.assignment)))
  | .committed cur =>
    if currentAssignmentApplied cfg cells.committedAssignment cur then
      some (move cells (.recover .exit))
    else some (move cells (.recover (.stash cur .load)))
  | .stash cur loop =>
    let turn := loop.turn (some cur) cells.applyRetry.stash
    some (move { cells with applyRetry.stash := turn.1 }
      (match turn.2 with
      | .again loop => .recover (.stash cur loop)
      | .kept => .recover .wake
      | .replaced => .recover .wake))
  | .wake =>
    wakeLoop cells.applyRetry.activate.2 { cells with applyRetry := cells.applyRetry.activate.1 }
      .idle (.applyLoop .wait) input
  | .exit =>
    match input with
    | .gates _ => some (move cells .idle)
    | _ => none

/-- The startup runner without a usable commit: an empty first assignment is
acknowledged as such, anything else is applied. -/
def startFromAlias (initial : WorkerAssignment) : Pc cfg :=
  if initial.version = 0 ∧ initial.partitions = [] then .start .coldStore
  else .apply .startAlias initial .enter

def StartPc.next (cells : Cells T) (input : Input T) : StartPc → Option (Turn (Cells T) (Pc cfg) T)
  | .wait =>
    match input with
    | .fetched (some a) => some (move { cells with assignment := a } (.start .current))
    | .fetched none => some (move cells (.start (.finish false)))
    | _ => none
  | .current => some (move cells (.start (.commit cells.assignment)))
  | .commit initial =>
    match input with
    | .latest (some c) =>
      if initial.version ≤ c.version then some (move cells (.start (.build initial c)))
      else some (move cells (startFromAlias initial))
    | .latest none => some (move cells (startFromAlias initial))
    | _ => none
  | .build initial c =>
    match input with
    | .payload found =>
      match buildAssignmentFromCommit cfg c found with
      | some a => some (move cells (.apply (.startCommit c) a .enter))
      | none => some (move cells (startFromAlias initial))
    | _ => none
  | .coldStore => some (move { cells with assignment := .empty } (.start .coldCommitted))
  | .coldCommitted =>
    some (move { cells with committedAssignment := some .empty } (.start .coldAck))
  | .coldAck =>
    some (move { cells with
      applied := setAppliedAssignment cfg .empty cells.applied, acknowledged := true }
      (.start .coldMark))
  | .coldMark => some (move cells (.start (.finish true)))
  | .observe c => some (move { cells with lastObservedCommit := some c } (.start (.finish true)))
  | .clear => some (move { cells with assignment := .empty } (.start (.finish true)))
  | .finish _ => some (move { cells with startup := .monitoring } .idle)

/-- A goroutine with nothing to do takes up what it is handed. The watchers and
the connection monitor run once startup is over. -/
def startHandler (cells : Cells T) : Input T → Option (Turn (Cells T) (Pc cfg) T)
  | .legacy a => if cells.startup = .monitoring then some (move cells (.legacy a .seen)) else none
  | .commit c => if cells.startup = .monitoring then some (move cells (.commit c .current)) else none
  | .recover => if cells.startup = .monitoring then some (move cells (.recover .get)) else none
  | .boot =>
    if cells.startup = .pending then
      some (move { cells with startup := .running } (.start .wait))
    else none
  | _ => none

/-- After an apply, handle the commit that came in meanwhile. -/
def drain (applied : WorkerAssignment) : Option AssignmentCommit → Pc cfg
  | some pending =>
    if commitSupersedesAppliedForDrain pending applied then .commit pending .current else .idle
  | none => .idle

def next (cells : Cells T) (t : T) (pc : Pc cfg) (input : Input T) :
    Option (Turn (Cells T) (Pc cfg) T) :=
  match pc with
  | .idle => startHandler cells input
  | .legacy a pc => some (pc.next cells a)
  | .commit c pc => pc.next cells c input
  | .commitRelease a => some (move { cells with pendingApplyInFlight := false } (.commitDrain a))
  | .commitDrain a => some (move { cells with stashedCommit := none } (drain a cells.stashedCommit))
  | .apply caller a pc => pc.next cells t caller a input
  | .applyLoop loop => applyLoopNext cells input loop
  | .fetchLoop loop => fetchLoopNext cells input loop
  | .fetch c pc => pc.next cells c input
  | .recover pc => pc.next cells t input
  | .start pc => pc.next cells input

end Steps

section System

variable (T : Type) [DecidableEq T] (cfg : Config)

def program : Program (Cells T) (Pc cfg) (Input T) T := ⟨Pc.isIdle, next⟩

/-- All interleavings of a worker's goroutines, from a manager just built. -/
def worker : System (Pool (Cells T) (Pc cfg) T) (T × Input T) :=
  (program T cfg).system (fun cells => cells = .initial) .idle

def startPool : Pool (Cells T) (Pc cfg) T := ⟨.initial, fun _ => .idle⟩

theorem startPool_init : (worker T cfg).init (startPool T cfg) := ⟨rfl, fun _ => rfl⟩

end System

/-! ## A worker to run -/

def plainConfig : Config where
  workerID := "w"
  workerLabels := []
  partitionSetDigest parts := parts.length.toUInt64

def plainAssignment (version : Int) (leaderRevision : Nat) : WorkerAssignment :=
  { WorkerAssignment.empty with
    version := version
    leaderRevision := leaderRevision
    partitions := [⟨[[112]], 1, []⟩] }

def plainCommit (version : Int) (leaderRevision : Nat) : AssignmentCommit where
  version := version
  leaderRevision := leaderRevision
  sourceRevision := 0
  sourceRevisionKnown := false
  publishedAt := 0
  workers := []
  payloads := ∅
  batchDigest := 0
  parkedCount := 0
  parkedDigest := 0
  prevCommitRev := 0
  lifecycle := ""

/-- `count` steps of one goroutine that need nothing of the environment. -/
def goes {T : Type} (t : T) (count : Nat) : List (T × Input T) := List.replicate count (t, .go)

/-- Goroutine `t` starts the worker with what it finds for it in the bucket, up
to the outcome of the first apply. -/
def startsWith {T : Type} (t : T) (a : WorkerAssignment) : List (T × Input T) :=
  [(t, .boot), (t, .fetched (some a)), (t, .go), (t, .latest none)] ++ goes t 6

/-- A start whose first apply succeeds, under a leader revision of at least one. -/
def startedWith {T : Type} (t : T) (a : WorkerAssignment) : List (T × Input T) :=
  startsWith t a ++ [(t, .applied true)] ++ goes t 8

/-- A start whose first apply fails: the startup runner stashes the assignment,
starts the retry loop in goroutine `loop` and ends. -/
def failedStart {T : Type} (t loop : T) (a : WorkerAssignment) : List (T × Input T) :=
  startsWith t a ++ [(t, .applied false)] ++ goes t 3 ++ [(t, .spawn loop)] ++ goes t 1

end Parti.Manager
