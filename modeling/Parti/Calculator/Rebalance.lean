/-
# Calculator.Rebalance — a rebalance step by step, beside polls and the label monitor

`rebalance` runs under `rebalanceMu` and has eleven ways out. It takes the confirmed
deaths, scans the workers (the scan may fall back to the cached list), takes a snapshot of
the source, checks the worker count against `lastKnownWorkerCount` and advances it, checks
the partition count, and then either answers from the cached observation or routes by label,
publishes, and arms the timer for the next expiry of a grace period.

Beside it run polls, which scan as well and confirm deaths, and the label monitor, which
takes the flag `pendingLabelRecheck`, checks for recovery grace, claims the state machine,
and runs a rebalance of its own. A timer that fires sets the flag.

The environment chooses what is scanned, listed and read, whether a claim succeeds, and
how a publish ends. The commits this calculator has published are recorded.
-/
import Parti.Assignment.Labels
import Parti.Calculator.Monitors
import Parti.Lib.Threads

namespace Parti.Calculator.Rebalance

open Parti.Types Lib Assignment.Labels Option

/-! ## Label state -/

structure LabelState where
  emptySince : AList fun _ : GoString => Int
  emptyStreak : AList fun _ : GoString => Nat
  unknownStreak : AList fun _ : GoString => Nat

namespace LabelState

/-- One label of `observeEmptyPools`; the third component says that it is deferred. -/
def observeEmpty (grace now : Int) (s : LabelState) (l : GoString) :
    LabelState × Option EmptyPoolAction × Bool :=
  let since := (s.emptySince.lookup l).getD now
  let streak := (s.emptyStreak.lookup l).getD 0 + 1
  let s := { s with emptySince := s.emptySince.insert l since
                    emptyStreak := s.emptyStreak.insert l streak }
  if streak < 2 then (s, none, true)
  else (s, some (if now - since < grace then .park else .spill), false)

def observeEmptyPools (grace now : Int) :
    List GoString → LabelState → LabelState × (AList fun _ : GoString => EmptyPoolAction) × Bool
  | [], s => (s, ∅, false)
  | l :: rest, s =>
    let (s, action, deferred) := s.observeEmpty grace now l
    let (s, actions, later) := observeEmptyPools grace now rest s
    (s, (match action with
      | some action => actions.insert l action
      | none => actions), deferred || later)

def observeNonEmpty (labels : List GoString) (s : LabelState) : LabelState :=
  { s with emptySince := labels.foldl (fun map l => map.erase l) s.emptySince
           emptyStreak := labels.foldl (fun map l => map.erase l) s.emptyStreak }

/-- Also says whether a worker is unreadable for the first time. -/
def observeUnknownWorkers (unknown : List GoString) (s : LabelState) : LabelState × Bool :=
  if unknown = [] then ({ s with unknownStreak := ∅ }, false)
  else
    let streaks := unknown.foldl
      (fun map w => map.insert w ((s.unknownStreak.lookup w).getD 0 + 1)) ∅
    ({ s with unknownStreak := streaks },
      unknown.any fun w => decide ((s.unknownStreak.lookup w).getD 0 + 1 < 2))

def prune (currentLabels : List GoString) (s : LabelState) : LabelState :=
  let gone := s.emptySince.keys.filter (· ∉ currentLabels)
  { s with emptySince := gone.foldl (fun map l => map.erase l) s.emptySince
           emptyStreak := gone.foldl (fun map l => map.erase l) s.emptyStreak }

/-- The shortest time until a clock crosses the grace, if a clock is running. -/
def minRemainingGrace (grace now : Int) (s : LabelState) : Option Int :=
  s.emptySince.entries.foldl (fun found entry =>
    let left := max 0 (grace - (now - entry.2))
    some (match found with
      | none => left
      | some least => min left least)) none

end LabelState

/-! ## The calculator -/

inductive Lifecycle where
  | emergency
  | partitionUpdate
  | partitionUpdateDeferred
  | labelRecheck
  /-- Startup, scaling, audit repair and manual refresh. -/
  | other (name : String)
deriving DecidableEq

def Lifecycle.isPartitionLifecycle : Lifecycle → Bool
  | .partitionUpdate | .partitionUpdateDeferred | .labelRecheck => true
  | _ => false

structure Config (S ε : Type) where
  workerShrinkConfirmationThresholdPct : Int
  workerShrinkConfirmationCount : Int
  partitionShrinkConfirmationThresholdPct : Int
  partitionShrinkConfirmationCount : Int
  labelGrace : Int
  policy : Policy
  strategy : Strategy S ε

/-- Distinct worker ids. -/
abbrev WorkerSet := { workers : List GoString // workers.Nodup }

def WorkerSet.without (ws : WorkerSet) (gone : List GoString) : WorkerSet :=
  ⟨ws.1.filter (· ∉ gone), ws.2.filter _⟩

/-- The labels of record: what was read, and whose labels could not be. -/
structure LabelRead where
  labels : AList fun _ : GoString => List GoString
  unknown : AList fun _ : GoString => Bool
  labels_distinct : ∀ w, (listAt labels w).Nodup
  unknown_set : ∀ w ∈ unknown, unknown.lookup w = some true

structure CommitView where
  workers : List GoString
  sourceRevision : Nat
  sourceRevisionKnown : Bool

/-- A commit this calculator has published. -/
structure Published where
  workers : Nat
  deaths : Bool
  parked : Nat
deriving DecidableEq

structure Calc (T : Type) where
  rebalanceMu : Option T
  lastKnownWorkerCount : Nat
  workerShrunkObservations : Nat
  cachedWorkers : Option WorkerSet
  disappearedWorkers : List GoString
  lastKnownPartitionCount : Nat
  partitionShrunkObservations : Nat
  labelState : LabelState
  lastCommit : Option CommitView
  lastPublishedPartitions : Option (List Partition)
  pendingLabelRecheck : Bool
  /-- The timer is armed: it has not fired and was not stopped. -/
  labelRecheckTimer : Bool
  /-- The commits published so far, newest first; for the record. -/
  published : List Published

section Functions

variable {T S ε : Type}

def shrinkSuspicious (observed lastKnown : Nat) (thresholdPct : Int) : Bool :=
  decide ((observed : Int) * 100 < lastKnown * thresholdPct)

def workerObservationSuspicious (cfg : Config S ε) (c : Calc T) (observed : Nat) : Bool :=
  c.lastKnownWorkerCount ≠ 0 &&
    shrinkSuspicious observed c.lastKnownWorkerCount cfg.workerShrinkConfirmationThresholdPct

inductive Judged where
  | healthy
  | accepted
  | ignored
deriving DecidableEq

def recordWorkerObservation (cfg : Config S ε) (c : Calc T) (observed : Nat) :
    Calc T × Judged :=
  if !workerObservationSuspicious cfg c observed then
    ({ c with workerShrunkObservations := 0 }, .healthy)
  else
    ({ c with workerShrunkObservations := c.workerShrunkObservations + 1 },
      if (c.workerShrunkObservations + 1 : Int) ≥ cfg.workerShrinkConfirmationCount then .accepted
      else .ignored)

/-- True when the observation is suspicious and the rebalance is skipped. -/
def partitionInputCredibilityGuard (cfg : Config S ε) (c : Calc T) (observed : Nat) :
    Calc T × Bool :=
  if c.lastKnownPartitionCount = 0 then (c, false)
  else if observed = 0 ∨ shrinkSuspicious observed c.lastKnownPartitionCount
      cfg.partitionShrinkConfirmationThresholdPct then
    ({ c with partitionShrunkObservations := c.partitionShrunkObservations + 1 },
      decide ((c.partitionShrunkObservations + 1 : Int) < cfg.partitionShrinkConfirmationCount))
  else ({ c with partitionShrunkObservations := 0 }, false)

structure Run where
  lifecycle : Lifecycle
  deathsConfirmed : Bool
  workers : WorkerSet
  fresh : Bool
  partitions : List Partition
  srcRev : Nat
  srcKnown : Bool

/-- A fresh enumeration, or survivors of confirmed deaths. -/
def Run.trusted (r : Run) : Bool :=
  r.fresh || (r.lifecycle = .emergency && r.deathsConfirmed)

def cachedObservationReplayable (c : Calc T) (r : Run) : Bool :=
  match c.lastCommit with
  | none => false
  | some commit =>
    commit.workers.length = r.workers.1.length && r.workers.1.all (· ∈ commit.workers) &&
      ((r.srcKnown && commit.sourceRevisionKnown && r.srcRev = commit.sourceRevision) ||
        c.lastPublishedPartitions = some r.partitions)

def topologyInput (cfg : Config S ε) (r : Run) (read : LabelRead) : TopologyInput where
  workers := r.workers.1
  labels := read.labels
  unknown := read.unknown
  partitions := r.partitions
  policy := cfg.policy
  distinct := r.workers.2
  labels_distinct := read.labels_distinct
  unknown_set := read.unknown_set

inductive Pipeline where
  | failed
  | deferred
  | routed (assignments : AList fun _ : GoString => List Partition) (parked : List Partition)

def labelRoutedAssignments (cfg : Config S ε) (now : Int) (state : S) (s : LabelState)
    (input : TopologyInput) : LabelState × Pipeline :=
  let topo := buildLabelTopology input
  let (s, unknownDeferred) := s.observeUnknownWorkers (sortStrings input.unknown.keys)
  let s := s.observeNonEmpty (topo.sortedLabels.filter fun l => listAt topo.pools l ≠ [])
  let (s, actions, emptyDeferred) := s.observeEmptyPools cfg.labelGrace now topo.emptyLabels
  let s := s.prune topo.sortedLabels
  (s, if unknownDeferred || emptyDeferred then .deferred
    else
      match computeLabelAssignments cfg.strategy state topo actions with
      | .error _ => .failed
      | .ok (assignments, parked) => .routed assignments parked)

def requestLabelRecheck (c : Calc T) : Calc T :=
  { c with pendingLabelRecheck := true }

def armLabelRecheckAfterRebalance (cfg : Config S ε) (now : Int) (c : Calc T)
    (parkedCount : Nat) : Calc T :=
  if parkedCount = 0 then
    if c.labelRecheckTimer && !c.pendingLabelRecheck then { c with labelRecheckTimer := false }
    else c
  else { c with labelRecheckTimer := (c.labelState.minRemainingGrace cfg.labelGrace now).isSome }

end Functions

/-! ## The goroutines -/

/-- Who called `getActiveWorkers`. -/
inductive Caller where
  | poll
  | rebalance (lifecycle : Lifecycle) (disappeared : List GoString) (deathsConfirmed : Bool)

/-- In front of the next step. From the worker floor on, `before` is the baseline it was
checked against. -/
inductive Pc where
  | idle
  /-- The label monitor: it has taken the flag; it is about to claim; its rebalance has
  returned. -/
  | drained
  | claiming
  | settling (outcome : Outcome)
  | waiting (lifecycle : Lifecycle)
  | collecting (lifecycle : Lifecycle)
  | scanning (caller : Caller)
  | fallback (caller : Caller)
  | caching (caller : Caller) (workers : WorkerSet)
  | snapshotting (lifecycle : Lifecycle) (deathsConfirmed : Bool) (workers : WorkerSet)
      (fresh : Bool)
  | floor (r : Run)
  | guarding (r : Run) (before : Nat)
  | cached (r : Run) (before : Nat)
  | labels (r : Run) (before : Nat)
  | routing (r : Run) (before : Nat) (read : LabelRead)
  | deferring (r : Run) (before : Nat)
  | checking (r : Run) (before : Nat) (parked : List Partition)
  | publishing (r : Run) (before : Nat) (parked : List Partition)
  | arming (r : Run) (parked : List Partition)
  | tracking (r : Run)
  | returning (lifecycle : Lifecycle) (outcome : Outcome)

inductive Scan where
  | workers (ws : WorkerSet)
  | connectivityError
  | otherError

inductive PublishResult where
  | ok
  | shuttingDown
  | failed

inductive Input (S : Type) where
  | rebalance (lifecycle : Lifecycle)
  | poll
  | confirm (deaths : List GoString)
  | drain
  | fire
  | request
  | grace (inGrace : Bool)
  | claim (ok : Bool)
  | scan (result : Scan)
  | snapshot (result : Option (List Partition × Nat × Bool))
  | labels (read : Option LabelRead)
  | route (now : Int) (state : S)
  | manager (shutdown : Bool)
  | published (result : PublishResult)
  | now (time : Int)
  | go

def Caller.observed (ws : WorkerSet) (fresh : Bool) : Caller → Pc
  | .poll => .idle
  | .rebalance lifecycle disappeared deaths =>
    .snapshotting lifecycle deaths (WorkerSet.without ws disappeared) fresh

def Caller.failed : Caller → Pc
  | .poll => .idle
  | .rebalance lifecycle _ _ => .returning lifecycle .failed

section System

variable {T S ε : Type}

def floorStep (cfg : Config S ε) (c : Calc T) (r : Run) : Calc T × Pc :=
  if !r.deathsConfirmed && workerObservationSuspicious cfg c r.workers.1.length then
    (c, .returning r.lifecycle .suspiciousWorkers)
  else ({ c with lastKnownWorkerCount := r.workers.1.length }, .guarding r c.lastKnownWorkerCount)

def guardStep (cfg : Config S ε) (c : Calc T) (r : Run) (before : Nat) :
    Calc T × Pc :=
  let (c, suspicious) := partitionInputCredibilityGuard cfg c r.partitions.length
  if suspicious then (c, .returning r.lifecycle .suspiciousPartitions)
  else
    ({ c with lastKnownPartitionCount := r.partitions.length },
      if r.trusted then .labels r before else .cached r before)

def scanStep (cfg : Config S ε) (c : Calc T) (caller : Caller) : Scan → Calc T × Pc
  | .connectivityError => (c, .fallback caller)
  | .otherError => (c, caller.failed)
  | .workers ws =>
    let (c, judged) := recordWorkerObservation cfg c ws.1.length
    (c, match judged with
      | .ignored => .fallback caller
      | .accepted => caller.observed ws true
      | .healthy => .caching caller ws)

def routeStep (cfg : Config S ε) (c : Calc T) (r : Run) (before : Nat) (read : LabelRead)
    (now : Int) (state : S) : Calc T × Pc :=
  let (s, result) := labelRoutedAssignments cfg now state c.labelState (topologyInput cfg r read)
  ({ c with labelState := s }, match result with
    | .failed => .returning r.lifecycle .failed
    | .deferred => .deferring r before
    | .routed _ parked => .checking r before parked)

def publishStep (c : Calc T) (r : Run) (parked : List Partition) :
    PublishResult → Calc T × Pc
  | .shuttingDown => (c, .returning r.lifecycle .shuttingDown)
  | .failed => (c, .returning r.lifecycle .failed)
  | .ok =>
    ({ c with
        lastCommit := some ⟨r.workers.1, r.srcRev, r.srcKnown⟩
        published := ⟨r.workers.1.length, r.deathsConfirmed, parked.length⟩ :: c.published },
      .arming r parked)

def turn (step : Calc T × Pc) : Option (Turn (Calc T) Pc T) :=
  some ⟨step.1, step.2, none⟩

def next (cfg : Config S ε) (c : Calc T) (t : T) :
    Pc → Input S → Option (Turn (Calc T) Pc T)
  -- the label re-check is run by its monitor only
  | .idle, .rebalance lifecycle =>
    if lifecycle = .labelRecheck then none else turn (c, .waiting lifecycle)
  | .idle, .poll => turn (c, .scanning .poll)
  | .idle, .confirm deaths => turn ({ c with disappearedWorkers := deaths }, .idle)
  | .idle, .request => turn (requestLabelRecheck c, .idle)
  | .idle, .fire =>
    if c.labelRecheckTimer then
      turn (requestLabelRecheck { c with labelRecheckTimer := false }, .idle)
    else none
  | .idle, .drain =>
    if c.pendingLabelRecheck then turn ({ c with pendingLabelRecheck := false }, .drained)
    else none
  | .drained, .grace inGrace =>
    turn (if inGrace then (requestLabelRecheck c, .idle) else (c, .claiming))
  | .claiming, .claim ok =>
    turn (if ok then (c, .waiting .labelRecheck) else (requestLabelRecheck c, .idle))
  | .waiting lifecycle, .grace inGrace =>
    if c.rebalanceMu.isSome then none
    else turn ({ c with rebalanceMu := some t },
      if lifecycle.isPartitionLifecycle && inGrace then .returning lifecycle .shuttingDown
      else .collecting lifecycle)
  | .collecting lifecycle, .go =>
    if lifecycle = .emergency then
      turn ({ c with disappearedWorkers := [] },
        .scanning (.rebalance lifecycle c.disappearedWorkers (c.disappearedWorkers ≠ [])))
    else turn (c, .scanning (.rebalance lifecycle [] (c.disappearedWorkers ≠ [])))
  | .scanning caller, .scan result => turn (scanStep cfg c caller result)
  | .fallback caller, .go =>
    match c.cachedWorkers with
    | some ws => turn (c, caller.observed ws false)
    | none => turn (c, caller.failed)
  | .caching caller ws, .go => turn ({ c with cachedWorkers := some ws }, caller.observed ws true)
  | .snapshotting lifecycle _ _ _, .snapshot none => turn (c, .returning lifecycle .failed)
  | .snapshotting lifecycle deaths ws fresh, .snapshot (some (partitions, srcRev, srcKnown)) =>
    if ws.1 = [] then turn (c, .returning lifecycle .noWorkers)
    else turn (c, .floor ⟨lifecycle, deaths, ws, fresh, partitions, srcRev, srcKnown⟩)
  | .floor r, .go => turn (floorStep cfg c r)
  | .guarding r before, .go => turn (guardStep cfg c r before)
  | .cached r _, .go =>
    turn (requestLabelRecheck c, .returning r.lifecycle
      (if cachedObservationReplayable c r then .replayed else .deferred))
  | .labels r _, .labels none => turn (c, .returning r.lifecycle .failed)
  | .labels r before, .labels (some read) => turn (c, .routing r before read)
  | .routing r before read, .route now state => turn (routeStep cfg c r before read now state)
  | .deferring r _, .go => turn (requestLabelRecheck c, .returning r.lifecycle .deferred)
  | .checking r before parked, .manager shutdown =>
    turn (c, if shutdown then .returning r.lifecycle .shuttingDown
      else .publishing r before parked)
  | .publishing r _ parked, .published result => turn (publishStep c r parked result)
  | .arming r parked, .now time =>
    turn (armLabelRecheckAfterRebalance cfg time c parked.length, .tracking r)
  | .tracking r, .go =>
    turn ({ c with lastPublishedPartitions := some r.partitions },
      .returning r.lifecycle .published)
  | .returning lifecycle outcome, .go =>
    turn ({ c with rebalanceMu := none },
      if lifecycle = .labelRecheck then .settling outcome else .idle)
  -- `restorePendingLabelOnGraceBail`
  | .settling outcome, .go =>
    turn (if outcome = .shuttingDown then requestLabelRecheck c else c, .idle)
  | _, _ => none

def Pc.isIdle : Pc → Bool
  | .idle => true
  | _ => false

def program (T : Type) (cfg : Config S ε) : Program (Calc T) Pc (Input S) T where
  idle := Pc.isIdle
  next := next cfg

/-- A calculator that has published nothing. Its last commit, if it has one, is another
leader's. -/
structure Fresh (c : Calc T) : Prop where
  unlocked : c.rebalanceMu = none
  unpublished : c.published = []

variable [DecidableEq T]

variable (T) in
def system (cfg : Config S ε) : System (Pool (Calc T) Pc T) (T × Input S) :=
  (program T cfg).system Fresh .idle

end System

/-! ## What a step can be -/

section Steps

variable {T S ε : Type} {cfg : Config S ε} {c c' : Calc T} {t : T} {pc pc' : Pc}

inductive Scanned (caller : Caller) : Pc → Prop
  | fallback : Scanned caller (.fallback caller)
  | caching (ws) : Scanned caller (.caching caller ws)
  | observed (ws fresh) : Scanned caller (caller.observed ws fresh)
  | failed : Scanned caller caller.failed

variable (cfg : Config S ε) (c : Calc T) (t : T) in
inductive Steps : Pc → Calc T → Pc → Prop
  | asks (lifecycle) (other : lifecycle ≠ .labelRecheck) : Steps .idle c (.waiting lifecycle)
  | polls : Steps .idle c (.scanning .poll)
  | confirms (deaths) : Steps .idle { c with disappearedWorkers := deaths } .idle
  | requests : Steps .idle (requestLabelRecheck c) .idle
  | fires (armed : c.labelRecheckTimer = true) :
      Steps .idle (requestLabelRecheck { c with labelRecheckTimer := false }) .idle
  | drains (pending : c.pendingLabelRecheck = true) :
      Steps .idle { c with pendingLabelRecheck := false } .drained
  | inGrace : Steps .drained (requestLabelRecheck c) .idle
  | clear : Steps .drained c .claiming
  | claims : Steps .claiming c (.waiting .labelRecheck)
  | busy : Steps .claiming (requestLabelRecheck c) .idle
  | locks (lifecycle) (free : c.rebalanceMu = none) :
      Steps (.waiting lifecycle) { c with rebalanceMu := some t } (.collecting lifecycle)
  | bails (lifecycle) (free : c.rebalanceMu = none) :
      Steps (.waiting lifecycle) { c with rebalanceMu := some t }
        (.returning lifecycle .shuttingDown)
  | collects (lifecycle left gone deaths) :
      Steps (.collecting lifecycle) { c with disappearedWorkers := left }
        (.scanning (.rebalance lifecycle gone deaths))
  | scans (caller shrunk) (pc' : Pc) (leads : Scanned caller pc') :
      Steps (.scanning caller) { c with workerShrunkObservations := shrunk } pc'
  | falls (caller) (pc' : Pc) (leads : Scanned caller pc') : Steps (.fallback caller) c pc'
  | caches (caller ws) :
      Steps (.caching caller ws) { c with cachedWorkers := some ws } (caller.observed ws true)
  | unlisted (lifecycle deaths ws fresh outcome) (is : outcome = .failed ∨ outcome = .noWorkers) :
      Steps (.snapshotting lifecycle deaths ws fresh) c (.returning lifecycle outcome)
  | listed (lifecycle deaths ws fresh partitions srcRev srcKnown) :
      Steps (.snapshotting lifecycle deaths ws fresh) c
        (.floor ⟨lifecycle, deaths, ws, fresh, partitions, srcRev, srcKnown⟩)
  | blocked (r) : Steps (.floor r) c (.returning r.lifecycle .suspiciousWorkers)
  | passes (r) (fits : r.deathsConfirmed = true ∨
        workerObservationSuspicious cfg c r.workers.1.length = false) :
      Steps (.floor r) { c with lastKnownWorkerCount := r.workers.1.length }
        (.guarding r c.lastKnownWorkerCount)
  | suspects (r before shrunk) :
      Steps (.guarding r before) { c with partitionShrunkObservations := shrunk }
        (.returning r.lifecycle .suspiciousPartitions)
  | credits (r before shrunk) (pc' : Pc) (leads : pc' = .labels r before ∨ pc' = .cached r before) :
      Steps (.guarding r before)
        { c with partitionShrunkObservations := shrunk
                 lastKnownPartitionCount := r.partitions.length } pc'
  | replays (r before outcome) (is : outcome = .replayed ∨ outcome = .deferred) :
      Steps (.cached r before) (requestLabelRecheck c) (.returning r.lifecycle outcome)
  | unread (r before) : Steps (.labels r before) c (.returning r.lifecycle .failed)
  | reads (r before read) : Steps (.labels r before) c (.routing r before read)
  | unrouted (r before read s) :
      Steps (.routing r before read) { c with labelState := s } (.returning r.lifecycle .failed)
  | defers (r before read s) :
      Steps (.routing r before read) { c with labelState := s } (.deferring r before)
  | routes (r before read s now state) (assignments : AList fun _ : GoString => List Partition)
      (parked)
      (routed : labelRoutedAssignments cfg now state c.labelState (topologyInput cfg r read) =
        (s, .routed assignments parked)) :
      Steps (.routing r before read) { c with labelState := s } (.checking r before parked)
  | rechecks (r before) : Steps (.deferring r before) (requestLabelRecheck c)
        (.returning r.lifecycle .deferred)
  | shutdown (r before parked) :
      Steps (.checking r before parked) c (.returning r.lifecycle .shuttingDown)
  | checked (r before parked) : Steps (.checking r before parked) c (.publishing r before parked)
  | unpublished (r before parked outcome) (is : outcome = .shuttingDown ∨ outcome = .failed) :
      Steps (.publishing r before parked) c (.returning r.lifecycle outcome)
  | publishes (r before parked) : Steps (.publishing r before parked) { c with
          lastCommit := some ⟨r.workers.1, r.srcRev, r.srcKnown⟩
          published := ⟨r.workers.1.length, r.deathsConfirmed, parked.length⟩ :: c.published }
        (.arming r parked)
  | arms (r parked time) :
      Steps (.arming r parked) (armLabelRecheckAfterRebalance cfg time c parked.length)
        (.tracking r)
  | tracks (r) : Steps (.tracking r) { c with lastPublishedPartitions := some r.partitions }
        (.returning r.lifecycle .published)
  | ends (lifecycle outcome) (other : lifecycle ≠ .labelRecheck) :
      Steps (.returning lifecycle outcome) { c with rebalanceMu := none } .idle
  | endsRecheck (outcome) :
      Steps (.returning .labelRecheck outcome) { c with rebalanceMu := none } (.settling outcome)
  | restores : Steps (.settling .shuttingDown) (requestLabelRecheck c) .idle
  | settles (outcome) (is : outcome ≠ .shuttingDown) : Steps (.settling outcome) c .idle

theorem scanStep_steps (caller : Caller) (result : Scan) :
    Steps cfg c t (.scanning caller) (scanStep cfg c caller result).1
      (scanStep cfg c caller result).2 := by
  cases result with
  | connectivityError => exact .scans caller c.workerShrunkObservations _ .fallback
  | otherError => exact .scans caller c.workerShrunkObservations _ .failed
  | workers ws =>
    simp only [scanStep, recordWorkerObservation]
    split_ifs
    · exact .scans caller _ _ (.caching ws)
    · exact .scans caller _ _ (.observed ws true)
    · exact .scans caller _ _ .fallback

theorem floorStep_steps (r : Run) :
    Steps cfg c t (.floor r) (floorStep cfg c r).1 (floorStep cfg c r).2 := by
  unfold floorStep
  split_ifs with blocks
  · exact .blocked r
  · refine .passes r ?_
    simpa [imp_iff_not_or] using blocks

theorem guardStep_steps (r : Run) (before : Nat) :
    Steps cfg c t (.guarding r before) (guardStep cfg c r before).1 (guardStep cfg c r before).2 := by
  have only : ∃ shrunk, (partitionInputCredibilityGuard cfg c r.partitions.length).1 =
      { c with partitionShrunkObservations := shrunk } := by
    unfold partitionInputCredibilityGuard
    split_ifs
    · exact ⟨c.partitionShrunkObservations, rfl⟩
    · exact ⟨_, rfl⟩
    · exact ⟨_, rfl⟩
  obtain ⟨shrunk, only⟩ := only
  simp only [guardStep, only]
  split_ifs
  · exact .suspects r before shrunk
  · exact .credits r before shrunk _ (.inl rfl)
  · exact .credits r before shrunk _ (.inr rfl)

theorem routeStep_steps (r : Run) (before : Nat) (read : LabelRead) (now : Int) (state : S) :
    Steps cfg c t (.routing r before read) (routeStep cfg c r before read now state).1
      (routeStep cfg c r before read now state).2 := by
  simp only [routeStep]
  generalize routed : labelRoutedAssignments cfg now state c.labelState (topologyInput cfg r read) =
    result
  obtain ⟨s, result⟩ := result
  cases result with
  | failed => exact .unrouted r before read s
  | deferred => exact .defers r before read s
  | routed assignments parked => exact .routes r before read s now state assignments parked routed

theorem publishStep_steps (r : Run) (before : Nat) (parked : List Partition)
    (result : PublishResult) :
    Steps cfg c t (.publishing r before parked) (publishStep c r parked result).1
      (publishStep c r parked result).2 := by
  cases result with
  | ok => exact .publishes r before parked
  | shuttingDown => exact .unpublished r before parked _ (.inl rfl)
  | failed => exact .unpublished r before parked _ (.inr rfl)

theorem next_steps {input} {turned} (moved : next cfg c t pc input = some turned) :
    Steps cfg c t pc turned.cells turned.pc ∧ turned.spawned = none := by
  unfold next at moved
  split at moved
  case h_1 =>
    split_ifs at moved with own
    cases moved
    exact ⟨.asks _ own, rfl⟩
  case h_2 => cases moved; exact ⟨.polls, rfl⟩
  case h_3 => cases moved; exact ⟨.confirms _, rfl⟩
  case h_4 => cases moved; exact ⟨.requests, rfl⟩
  case h_5 =>
    split_ifs at moved with armed
    cases moved
    exact ⟨.fires armed, rfl⟩
  case h_6 =>
    split_ifs at moved with pending
    cases moved
    exact ⟨.drains pending, rfl⟩
  case h_7 inGrace =>
    cases moved
    cases inGrace
    · exact ⟨.clear, rfl⟩
    · exact ⟨.inGrace, rfl⟩
  case h_8 ok =>
    cases moved
    cases ok
    · exact ⟨.busy, rfl⟩
    · exact ⟨.claims, rfl⟩
  case h_9 lifecycle inGrace =>
    split_ifs at moved with held bails
    · cases moved
      exact ⟨.bails _ (not_isSome_iff_eq_none.mp held), rfl⟩
    · cases moved
      exact ⟨.locks _ (not_isSome_iff_eq_none.mp held), rfl⟩
  case h_10 =>
    split_ifs at moved
    · cases moved
      exact ⟨.collects _ _ _ _, rfl⟩
    · cases moved
      exact ⟨.collects _ _ _ _, rfl⟩
  case h_11 => cases moved; exact ⟨scanStep_steps _ _, rfl⟩
  case h_12 =>
    split at moved
    · cases moved
      exact ⟨.falls _ _ (.observed _ _), rfl⟩
    · cases moved
      exact ⟨.falls _ _ .failed, rfl⟩
  case h_13 => cases moved; exact ⟨.caches _ _, rfl⟩
  case h_14 => cases moved; exact ⟨.unlisted _ _ _ _ _ (.inl rfl), rfl⟩
  case h_15 =>
    split_ifs at moved
    · cases moved
      exact ⟨.unlisted _ _ _ _ _ (.inr rfl), rfl⟩
    · cases moved
      exact ⟨.listed _ _ _ _ _ _ _, rfl⟩
  case h_16 => cases moved; exact ⟨floorStep_steps _, rfl⟩
  case h_17 => cases moved; exact ⟨guardStep_steps _ _, rfl⟩
  case h_18 r before =>
    cases moved
    refine ⟨.replays r before _ ?_, rfl⟩
    split_ifs
    · exact .inl rfl
    · exact .inr rfl
  case h_19 => cases moved; exact ⟨.unread _ _, rfl⟩
  case h_20 => cases moved; exact ⟨.reads _ _ _, rfl⟩
  case h_21 => cases moved; exact ⟨routeStep_steps _ _ _ _ _, rfl⟩
  case h_22 => cases moved; exact ⟨.rechecks _ _, rfl⟩
  case h_23 r before parked shutdown =>
    cases moved
    cases shutdown
    · exact ⟨.checked _ _ _, rfl⟩
    · exact ⟨.shutdown _ _ _, rfl⟩
  case h_24 => cases moved; exact ⟨publishStep_steps _ _ _ _, rfl⟩
  case h_25 => cases moved; exact ⟨.arms _ _ _, rfl⟩
  case h_26 => cases moved; exact ⟨.tracks _, rfl⟩
  case h_27 lifecycle outcome =>
    cases moved
    by_cases own : lifecycle = .labelRecheck
    · subst own
      exact ⟨.endsRecheck _, rfl⟩
    · simp only [own, if_false]
      exact ⟨.ends _ _ own, trivial⟩
  case h_28 outcome =>
    cases moved
    by_cases is : outcome = .shuttingDown
    · subst is
      exact ⟨.restores, rfl⟩
    · simp only [is, if_false]
      exact ⟨.settles _ is, trivial⟩
  case h_29 => cases moved

end Steps

/-! ## The lock -/

section Lock

variable {T S ε : Type} {cfg : Config S ε} {c c' : Calc T} {t : T} {pc pc' : Pc}

/-- Inside `rebalance`, with `rebalanceMu`. -/
def Pc.critical : Pc → Bool
  | .collecting _ | .snapshotting _ _ _ _ | .floor _ | .guarding _ _ | .cached _ _ | .labels _ _
  | .routing _ _ _ | .deferring _ _ | .checking _ _ _ | .publishing _ _ _ | .arming _ _
  | .tracking _ | .returning _ _ => true
  | .scanning (.rebalance _ _ _) | .fallback (.rebalance _ _ _)
  | .caching (.rebalance _ _ _) _ => true
  | _ => false

theorem armLabelRecheck_fields (cfg : Config S ε) (c : Calc T) (time : Int) (parkedCount : Nat) :
    (armLabelRecheckAfterRebalance cfg time c parkedCount).rebalanceMu = c.rebalanceMu ∧
      (armLabelRecheckAfterRebalance cfg time c parkedCount).lastKnownWorkerCount =
        c.lastKnownWorkerCount ∧
      (armLabelRecheckAfterRebalance cfg time c parkedCount).published = c.published := by
  unfold armLabelRecheckAfterRebalance
  split_ifs <;> exact ⟨rfl, rfl, rfl⟩

theorem Scanned.critical {caller : Caller} (leads : Scanned caller pc) :
    (Pc.scanning caller).critical = pc.critical ∧
      (Pc.fallback caller).critical = pc.critical := by
  cases leads <;> cases caller <;> exact ⟨rfl, rfl⟩

theorem Steps.outside (steps : Steps cfg c t pc c' pc') (out : pc.critical = false)
    (held : c.rebalanceMu ≠ none) :
    c'.rebalanceMu = c.rebalanceMu ∧ c'.lastKnownWorkerCount = c.lastKnownWorkerCount ∧
      c'.published = c.published ∧ c'.labelState = c.labelState := by
  cases steps with
  | locks _ free | bails _ free => exact absurd free held
  | _ => first | exact ⟨rfl, rfl, rfl, rfl⟩ | cases out

theorem Steps.beside {u : T} (steps : Steps cfg c t pc c' pc') (other : u ≠ t)
    (holds : pc.critical = true → c.rebalanceMu = some t) (held : c.rebalanceMu = some u) :
    c'.rebalanceMu = some u ∧ c'.lastKnownWorkerCount = c.lastKnownWorkerCount ∧
      c'.published = c.published ∧ c'.labelState = c.labelState := by
  have out : pc.critical = false := by
    rw [← Bool.not_eq_true]
    intro both
    rw [holds both] at held
    exact other (some.inj held).symm
  rw [← held]
  exact steps.outside out (by rw [held]; exact some_ne_none u)

theorem Steps.holds (steps : Steps cfg c t pc c' pc')
    (holds : pc.critical = true → c.rebalanceMu = some t) (inside : pc'.critical = true) :
    c'.rebalanceMu = some t := by
  cases steps with
  | locks | bails => rfl
  | scans caller shrunk pc' leads => exact holds (leads.critical.1.trans inside)
  | falls caller pc' leads => exact holds (leads.critical.2.trans inside)
  | caches caller ws =>
    refine holds ?_
    cases caller with
    | poll => cases inside
    | rebalance lifecycle gone deaths => rfl
  | arms r parked time =>
    exact (armLabelRecheck_fields cfg c time parked.length).1.trans (holds rfl)
  | _ => first | exact holds rfl | cases inside

end Lock

def noLabels : LabelRead where
  labels := ∅
  unknown := ∅
  labels_distinct := by simp
  unknown_set w mem := absurd mem (AList.notMem_empty w)

def emptyCalc {T : Type} : Calc T where
  rebalanceMu := none
  lastKnownWorkerCount := 0
  workerShrunkObservations := 0
  cachedWorkers := none
  disappearedWorkers := []
  lastKnownPartitionCount := 0
  partitionShrunkObservations := 0
  labelState := ⟨∅, ∅, ∅⟩
  lastCommit := none
  lastPublishedPartitions := none
  pendingLabelRecheck := false
  labelRecheckTimer := false
  published := []

def start (T : Type) : Pool (Calc T) Pc T := ⟨emptyCalc, fun _ => .idle⟩

theorem start_init {T S ε : Type} [DecidableEq T] (cfg : Config S ε) :
    (system T cfg).init (start T) :=
  ⟨⟨rfl, rfl⟩, fun _ => rfl⟩

end Parti.Calculator.Rebalance
