/-
# Heartbeat.Publisher — the goroutines of one heartbeat publisher

Heartbeats are written by three callers: `PublishNow`, `Start` (the first one, under
the lifecycle lock) and the goroutines the publish loop starts on its ticks, at most one
at a time. Each builds its value in one step and puts it in another.

`Start` makes the two channels anew. The loop evaluates `doneCh` once, when it begins
(the argument of its deferred close), and `stopCh` at every select; `Stop` evaluates
`doneCh` after it has released the lock. Channels are numbered, and `closed` lists
those that are closed.

The last fields of `Publisher` are for the record.

* `setAppliedAssignment_ack`: the publisher keeps what the manager's model says it
  keeps;
* `Steps`, `next_steps`: the steps in memory, one constructor for each.
-/
import Parti.Lib.Routine
import Parti.Lib.History
import Parti.Manager.Assignment

namespace Parti.Types

structure Heartbeat where
  workerID : GoString
  schemaVersion : Nat
  capabilities : UInt32
  labels : List GoString
  leaderRevision : Nat
  appliedVersion : Int
  appliedDigest : UInt64
  appliedSourceRevision : Nat
  appliedSourceRevKnown : Bool
  appliedAt : Int
  timestamp : Int
deriving DecidableEq

end Parti.Types

namespace Parti.Heartbeat

open Parti.Types Lib Lib.Kv Lib.Client

/-! ## Data -/

structure AppliedAssignment where
  leaderRevision : Nat
  appliedVersion : Int
  appliedDigest : UInt64
  appliedSourceRevision : Nat
  appliedSourceRevKnown : Bool
  appliedAt : Int
deriving DecidableEq

/-- The publisher's copy; `schemaVersion` is one from the first call on. -/
structure AppliedSnapshot extends AppliedAssignment where
  schemaVersion : Nat
deriving DecidableEq

def AppliedSnapshot.zero : AppliedSnapshot := ⟨⟨0, 0, 0, 0, false, 0⟩, 0⟩

def capAckV1 : UInt32 := 1

structure Config where
  keyPrefix : GoString
  workerID : GoString
  labels : List GoString

/-- `keyForWorker`: prefix, a dot, worker id. -/
def keyForWorker (cfg : Config) : GoString :=
  cfg.keyPrefix ++ 46 :: cfg.workerID

/-- Versions never go down; at an equal version the new snapshot is taken. -/
def setAppliedAssignment (snap : AppliedAssignment) (applied : AppliedSnapshot) :
    AppliedSnapshot :=
  if snap.appliedVersion < applied.appliedVersion then applied else ⟨snap, 1⟩

theorem appliedVersion_le_set (snap : AppliedAssignment) (applied : AppliedSnapshot) :
    applied.appliedVersion ≤ (setAppliedAssignment snap applied).appliedVersion := by
  unfold setAppliedAssignment
  split
  next => exact le_rfl
  next newer => exact not_lt.mp newer

/-- The manager's view of the snapshot, which has no wall-clock time. -/
def AppliedSnapshot.ack (applied : AppliedSnapshot) : Manager.AppliedSnapshot where
  schemaVersion := applied.schemaVersion
  leaderRevision := applied.leaderRevision
  appliedVersion := applied.appliedVersion
  appliedDigest := applied.appliedDigest
  appliedSourceRevision := applied.appliedSourceRevision
  appliedSourceRevKnown := applied.appliedSourceRevKnown

def ackOf (cfg : Manager.Config) (a : Manager.WorkerAssignment) (now : Int) :
    AppliedAssignment where
  leaderRevision := a.leaderRevision
  appliedVersion := a.version
  appliedDigest := cfg.partitionSetDigest a.partitions
  appliedSourceRevision := a.sourceRevision
  appliedSourceRevKnown := a.sourceRevisionKnown
  appliedAt := now

/-- The publisher refines the cell the manager's model keeps in its place. -/
theorem setAppliedAssignment_ack (cfg : Manager.Config) (a : Manager.WorkerAssignment) (now : Int)
    (applied : AppliedSnapshot) :
    (setAppliedAssignment (ackOf cfg a now) applied).ack =
      Manager.setAppliedAssignment cfg a applied.ack := by
  unfold setAppliedAssignment Manager.setAppliedAssignment
  by_cases older : a.version < applied.appliedVersion
  · rw [if_pos (show (ackOf cfg a now).appliedVersion < _ from older),
      if_pos (show a.version < applied.ack.appliedVersion from older)]
  · rw [if_neg (show ¬(ackOf cfg a now).appliedVersion < _ from older),
      if_neg (show ¬a.version < applied.ack.appliedVersion from older)]
    rfl

/-- `caps` is what the capabilities function answers, if there is one. -/
def build (cfg : Config) (applied : AppliedSnapshot) (caps : Option UInt32) (now : Int) :
    Heartbeat where
  workerID := cfg.workerID
  schemaVersion := 1
  capabilities := caps.getD 0 ||| capAckV1
  labels := cfg.labels
  leaderRevision := applied.leaderRevision
  appliedVersion := applied.appliedVersion
  appliedDigest := applied.appliedDigest
  appliedSourceRevision := applied.appliedSourceRevision
  appliedSourceRevKnown := applied.appliedSourceRevKnown
  appliedAt := applied.appliedAt
  timestamp := now

/-! ## The program -/

/-- The publisher's fields. `mu` is the lifecycle lock and who holds it between two
steps (only `Start` does); a `WaitGroup` is the list of the goroutines it counts. -/
structure Publisher (T : Type) where
  mu : Option T
  started : Bool
  stopCh : Nat
  doneCh : Nat
  channels : Nat
  closed : List Nat
  inFlight : Bool
  inFlightWG : List T
  applied : AppliedSnapshot
  -- for the record
  looping : Option T
  stopper : Option T
  stopped : Bool

/-- `New`. -/
def Publisher.new (T : Type) : Publisher T where
  mu := none
  started := false
  stopCh := 0
  doneCh := 1
  channels := 2
  closed := []
  inFlight := false
  inFlightWG := []
  applied := .zero
  looping := none
  stopper := none
  stopped := false

/-- Who runs `publish`. -/
inductive Caller where
  | now
  | start
  | loop
deriving DecidableEq

inductive Pc where
  | idle
  | publishNow
  | start
  | build (caller : Caller)
  | put (caller : Caller) (hb : Heartbeat)
  | published (caller : Caller) (ok : Bool)
  | finishing
  | loopStart
  | loop (done : Nat)
  | selecting (done stop : Nat)
  | draining (done : Nat)
  | stop
  | stopping
  | waiting (done : Nat)
  | delete
deriving DecidableEq

/-- Calls, and what the environment decides: the answer of the capabilities
function, ticks, and the names of goroutines. -/
inductive Input (T : Type) where
  | publishNow
  | start
  | stop
  | setApplied (snap : AppliedAssignment)
  | go
  | build (caps : Option UInt32)
  | marshalError
  | spawn (fresh : T)
  | tick (fresh : T)

variable {T : Type} [DecidableEq T]

def next (cfg : Config) (p : Publisher T) (t : T) (now : Int) :
    Pc → Input T → Option (Turn (Publisher T) Pc T)
  | .idle, .publishNow => some ⟨p, .publishNow, none⟩
  | .idle, .start => some ⟨p, .start, none⟩
  | .idle, .stop => some ⟨p, .stop, none⟩
  | .idle, .setApplied snap =>
    some ⟨{ p with applied := setAppliedAssignment snap p.applied }, .idle, none⟩
  | .publishNow, .go =>
    if p.mu.isSome then none
    else if p.started then some ⟨p, .build .now, none⟩
    else some ⟨p, .idle, none⟩                           -- ErrNotStarted
  | .start, .go =>
    if p.mu.isSome then none
    else if p.started then some ⟨p, .idle, none⟩         -- ErrAlreadyStarted
    else if cfg.workerID = [] then some ⟨p, .idle, none⟩ -- ErrNoWorkerID
    else some ⟨{ p with mu := some t, started := true, stopCh := p.channels,
                        doneCh := p.channels + 1, channels := p.channels + 2,
                        stopped := false }, .build .start, none⟩
  | .build caller, .build caps =>
    some ⟨p, .put caller (build cfg p.applied caps now), none⟩
  | .build caller, .marshalError => some ⟨p, .published caller false, none⟩
  | .published .now _, .go => some ⟨p, .idle, none⟩
  | .published .start true, .spawn fresh =>
    some ⟨{ p with mu := none, looping := some fresh }, .idle, some (fresh, .loopStart)⟩
  | .published .start false, .go =>
    some ⟨{ p with mu := none, started := false }, .idle, none⟩
  | .published .loop _, .go =>
    -- the metric is recorded under the lock
    if p.mu.isSome then none else some ⟨{ p with inFlight := false }, .finishing, none⟩
  | .finishing, .go => some ⟨{ p with inFlightWG := p.inFlightWG.erase t }, .idle, none⟩
  | .loopStart, .go => some ⟨p, .loop p.doneCh, none⟩
  | .loop done, .go => some ⟨p, .selecting done p.stopCh, none⟩
  | .selecting done stop, .go =>
    if stop ∈ p.closed then some ⟨p, .draining done, none⟩ else none
  | .selecting done _, .tick fresh =>
    if p.inFlight then some ⟨p, .loop done, none⟩
    else some ⟨{ p with inFlight := true, inFlightWG := fresh :: p.inFlightWG }, .loop done,
               some (fresh, .build .loop)⟩
  | .draining done, .go =>
    -- closing a closed channel would panic
    if p.inFlightWG = [] ∧ done ∉ p.closed then
      some ⟨{ p with closed := done :: p.closed, looping := none }, .idle, none⟩
    else none
  | .stop, .go =>
    if p.mu.isSome then none
    else if !p.started then some ⟨p, .idle, none⟩        -- ErrNotStarted
    else if p.stopCh ∈ p.closed then none
    else some ⟨{ p with closed := p.stopCh :: p.closed, started := false, stopper := some t },
               .stopping, none⟩
  | .stopping, .go => some ⟨p, .waiting p.doneCh, none⟩
  | .waiting done, .go => if done ∈ p.closed then some ⟨p, .delete, none⟩ else none
  | _, _ => none

def asks (cfg : Config) : Pc → Option (Request GoString Heartbeat)
  | .put _ hb => some (.write (.put (keyForWorker cfg) hb))
  | .delete => some (.write (.remove (keyForWorker cfg)))
  | _ => none

def told (p : Publisher T) : Pc → Answer GoString Heartbeat → Option (Publisher T × Pc)
  | .put caller _, .written _ => some (p, .published caller true)
  | .put caller _, .failed => some (p, .published caller false)
  | .delete, .written _ => some ({ p with stopper := none, stopped := true }, .idle)
  | .delete, .failed => some ({ p with stopper := none }, .idle)
  | _, _ => none

def publisher (cfg : Config) : Routine (Publisher T) Pc (Input T) T GoString Heartbeat where
  idle pc := decide (pc = .idle)
  asks := asks cfg
  told p _ _ pc answer := told p pc answer
  next := next cfg

variable (T) in
/-- Every interleaving, from a new publisher. Whatever its key holds then is not of
its writing and is left out. -/
def system (cfg : Config) :
    System (State (Pool (Publisher T) Pc T) GoString Heartbeat) (Action T (T × Input T)) :=
  (publisher cfg).system
    (fun w => w.bucket = .empty ∧ w.pending = [] ∧ w.locals = Publisher.new T) .idle

variable (T) in
def fresh : State (Pool (Publisher T) Pc T) GoString Heartbeat :=
  ⟨.empty, [], 0, ⟨Publisher.new T, fun _ => .idle⟩⟩

theorem fresh_init (cfg : Config) : (system T cfg).init (fresh T) :=
  ⟨⟨rfl, rfl, rfl⟩, fun _ => rfl⟩

/-! ## What a step can be -/

variable (cfg : Config) (p : Publisher T) (t : T) (now : Int) in
inductive Steps : Pc → Publisher T → Pc → Option (T × Pc) → Prop
  | call (pc) (call : pc = .publishNow ∨ pc = .start ∨ pc = .stop) : Steps .idle p pc none
  | setApplied (snap) :
      Steps .idle { p with applied := setAppliedAssignment snap p.applied } .idle none
  | returns (pc)
      (call : pc = .publishNow ∨ pc = .start ∨ pc = .stop ∨ ∃ ok, pc = .published .now ok) :
      Steps pc p .idle none
  | publishNow (free : p.mu = none) (running : p.started = true) :
      Steps .publishNow p (.build .now) none
  | start (free : p.mu = none) (rests : p.started = false) : Steps .start
        { p with mu := some t, started := true, stopCh := p.channels, doneCh := p.channels + 1,
                 channels := p.channels + 2, stopped := false } (.build .start) none
  | build (caller caps) : Steps (.build caller) p (.put caller (build cfg p.applied caps now)) none
  | marshalError (caller) : Steps (.build caller) p (.published caller false) none
  | begun (fresh) :
      Steps (.published .start true) { p with mu := none, looping := some fresh } .idle
        (some (fresh, .loopStart))
  | unbegun : Steps (.published .start false) { p with mu := none, started := false } .idle none
  | published (ok) : Steps (.published .loop ok) { p with inFlight := false } .finishing none
  | finish : Steps .finishing { p with inFlightWG := p.inFlightWG.erase t } .idle none
  | loopStart : Steps .loopStart p (.loop p.doneCh) none
  | loop (done) : Steps (.loop done) p (.selecting done p.stopCh) none
  | signalled (done stop) : Steps (.selecting done stop) p (.draining done) none
  | skip (done stop) : Steps (.selecting done stop) p (.loop done) none
  | tick (done stop fresh) : Steps (.selecting done stop)
        { p with inFlight := true, inFlightWG := fresh :: p.inFlightWG } (.loop done)
        (some (fresh, .build .loop))
  | drained (done) (none_ : p.inFlightWG = []) :
      Steps (.draining done) { p with closed := done :: p.closed, looping := none } .idle none
  | stop (free : p.mu = none) (running : p.started = true) : Steps .stop
        { p with closed := p.stopCh :: p.closed, started := false, stopper := some t } .stopping none
  | stopping : Steps .stopping p (.waiting p.doneCh) none
  | waited (done) (closed : done ∈ p.closed) : Steps (.waiting done) p .delete none

theorem next_steps {cfg : Config} {p} {t : T} {now : Int} {pc : Pc} {input}
    {turn} (moved : next cfg p t now pc input = some turn) :
    Steps cfg p t now pc turn.cells turn.pc turn.spawned := by
  unfold next at moved
  split at moved
  case h_1 | h_2 | h_3 => cases moved; exact .call _ (by simp)
  case h_4 => cases moved; exact .setApplied _
  case h_5 =>
    split_ifs at moved with held running <;> cases moved
    · exact .publishNow (by simpa using held) running
    · exact .returns _ (by simp)
  case h_6 =>
    split_ifs at moved with held running unnamed <;> cases moved
    · exact .returns _ (by simp)
    · exact .returns _ (by simp)
    · exact .start (by simpa using held) (by simpa using running)
  case h_7 => cases moved; exact .build _ _
  case h_8 => cases moved; exact .marshalError _
  case h_9 => cases moved; exact .returns _ (by simp)
  case h_10 => cases moved; exact .begun _
  case h_11 => cases moved; exact .unbegun
  case h_12 => split_ifs at moved; cases moved; exact .published _
  case h_13 => cases moved; exact .finish
  case h_14 => cases moved; exact .loopStart
  case h_15 => cases moved; exact .loop _
  case h_16 => split_ifs at moved; cases moved; exact .signalled _ _
  case h_17 =>
    split_ifs at moved <;> cases moved
    · exact .skip _ _
    · exact .tick _ _ _
  case h_18 =>
    split_ifs at moved with drained
    cases moved
    exact .drained _ drained.1
  case h_19 =>
    split_ifs at moved with held rests closed <;> cases moved
    · exact .returns _ (by simp)
    · exact .stop (by simpa using held) (by simpa using rests)
  case h_20 => cases moved; exact .stopping
  case h_21 =>
    split_ifs at moved with closed
    cases moved
    exact .waited _ closed
  case h_22 => cases moved

omit [DecidableEq T] in
theorem asks_put {cfg : Config} {pc : Pc} {w} (asked : asks cfg pc = some (.write w)) :
    (∃ caller hb, pc = .put caller hb ∧ w = .put (keyForWorker cfg) hb) ∨
      pc = .delete ∧ w = .remove (keyForWorker cfg) := by
  unfold asks at asked
  split at asked
  next caller hb => cases asked; exact .inl ⟨caller, hb, rfl, rfl⟩
  next => cases asked; exact .inr ⟨rfl, rfl⟩
  next => cases asked

/-! ## Parts of runs -/

/-- A worker `w` without labels. -/
def plainConfig : Config := ⟨[104, 98], [119], []⟩

variable {T : Type}

def starts (t loop : T) : List (Action T (T × Input T)) :=
  [.call (t, .start), .call (t, .go), .call (t, .build none), .step t .served,
    .call (t, .spawn loop)]

/-- `PublishNow`, up to its put. -/
def builds (t : T) : List (Action T (T × Input T)) :=
  [.call (t, .publishNow), .call (t, .go), .call (t, .build none)]

/-- `SetAppliedAssignment`. -/
def applies (t : T) (version : Int) : List (Action T (T × Input T)) :=
  [.call (t, .setApplied ⟨1, version, 0, 0, true, 0⟩)]

end Parti.Heartbeat
