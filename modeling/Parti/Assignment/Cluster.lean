/-
# Assignment.Cluster — publishers and collectors on one bucket

Any number of publishers, each with its mutex, and any number of threads, each
running one method of one publisher: `Publish`, `DiscoverHighestVersion`,
`BootstrapLastCommit`, or a collector sweep. The bucket starts without protocol
keys; it may hold aliases that leaders of the legacy format left there.

Clocks: the store stamps entries with its own clock; a thread's process is off
from it by a fixed `skew`.
-/
import Parti.Assignment.CommitGC

namespace Parti.Assignment

open Parti.Types Lib Option
open Lib.Client (Request Answer Protocol State Action Reply)

inductive Pc where
  | publish (pc : PublishPc)
  | discover (pc : DiscoverPc)
  | bootstrap (pc : BootstrapPc)
  | sweep (pc : SweepPc)

inductive Method where
  | publish (input : PublishInput)
  | discoverHighestVersion
  | bootstrapLastCommit
  | runOnce

inductive Call (P T : Type) where
  | start (thread : T) (publisher : P) (method : Method)
  | proceed (thread : T) (choice : Choice)

/-- Publishers, their mutexes, and what each thread is doing. -/
structure Locals (P T : Type) where
  pubs : P → Publisher
  mu : P → Option T
  threads : T → Option (P × Pc)

structure Config (T : Type) where
  codec : Codec
  gc : GCConfig
  skew : T → Int

variable {P T : Type} [DecidableEq P] [DecidableEq T] {l' l : Locals P T} {cfg : Config T}
  {now : Int}

/-- Continue a `Publish` call of thread `t`, which keeps the mutex until it
returns, leaving publisher `p` as `pub`. -/
def Locals.publishing (l : Locals P T) (t : T) (p : P) (pub : Publisher) (r : PublishProgress) :
    Locals P T where
  pubs := Function.update l.pubs p pub
  mu := Function.update l.mu p (r.pc?.map fun _ => t)
  threads := Function.update l.threads t (r.pc?.map fun pc => (p, .publish pc))

/-- Continue a method that holds the mutex only inside single steps. -/
def Locals.going {Pc' R : Type} (l : Locals P T) (t : T) (p : P) (pub : Publisher)
    (wrap : Pc' → Pc) (r : Progress Pc' R) : Locals P T where
  pubs := Function.update l.pubs p pub
  mu := l.mu
  threads := Function.update l.threads t (r.pc?.map fun pc => (p, wrap pc))

def request (cfg : Config T) (l : Locals P T) (t : T) : Option (Request Key Value) :=
  match l.threads t with
  | none => none
  | some (p, .publish pc) => publishRequest cfg.codec (l.pubs p) pc
  | some (_, .discover pc) => discoverRequest pc
  | some (_, .bootstrap pc) => bootstrapRequest pc
  | some (_, .sweep pc) => sweepRequest pc

def resume (cfg : Config T) (l : Locals P T) (t : T) (_now : Int) (answer : Answer Key Value) :
    Option (Locals P T) :=
  match l.threads t with
  | none => none
  | some (p, .publish pc) =>
    (publishResume cfg.codec (l.pubs p) pc answer).map fun r => l.publishing t p r.1 r.2
  | some (p, .discover pc) =>
    (discoverResume pc answer).map fun r => l.going t p (l.pubs p) .discover r
  | some (p, .bootstrap pc) =>
    (bootstrapResume pc answer).map fun r => l.going t p (l.pubs p) .bootstrap r
  | some (p, .sweep pc) =>
    (sweepResume cfg.gc pc answer).map fun r => l.going t p (l.pubs p) .sweep r

/-- Run a section of a method that takes the mutex, once it is free. -/
def Locals.locked {α : Type} (l : Locals P T) (p : P) (result : Option α) : Option α :=
  if l.mu p = none then result else none

def start (l : Locals P T) (t : T) (p : P) : Method → Option (Locals P T)
  | .publish input =>
    l.locked p (some (l.publishing t p (l.pubs p) (beginPublish (l.pubs p) input)))
  | .discoverHighestVersion => some (l.going t p (l.pubs p) .discover (.waits .list : Progress DiscoverPc Unit))
  | .bootstrapLastCommit => some (l.going t p (l.pubs p) .bootstrap (.waits .get : Progress BootstrapPc Unit))
  | .runOnce => some (l.going t p (l.pubs p) .sweep (.waits .commit : Progress SweepPc Unit))

def proceed (cfg : Config T) (l : Locals P T) (t : T) (now : Int) (choice : Choice) :
    Option (Locals P T) :=
  match l.threads t with
  | none => none
  | some (p, .publish pc) =>
    (publishProceed cfg.codec (l.pubs p) (now + cfg.skew t) pc choice).map fun r =>
      l.publishing t p r.1 r.2
  | some (p, .discover pc) =>
    l.locked p ((discoverLocked (l.pubs p) pc).map fun r => l.going t p r.1 .discover r.2)
  | some (p, .bootstrap pc) =>
    l.locked p ((bootstrapLocked (l.pubs p) pc).map fun r => l.going t p r.1 .bootstrap r.2)
  | some (p, .sweep pc) =>
    (sweepProceed (l.pubs p) (now + cfg.skew t) pc).map fun r =>
      l.going t p (l.pubs p) .sweep r

def call (cfg : Config T) (l : Locals P T) : Call P T → Int → Option (Locals P T)
  | .start t p method, _ =>
    match l.threads t with
    | none => start l t p method
    | some _ => none
  | .proceed t choice, now => proceed cfg l t now choice

/-- The publishers and collectors as clients of the assignment bucket. -/
def protocol (cfg : Config T) : Protocol (Locals P T) T (Call P T) Key Value where
  request := request cfg
  resume := resume cfg
  call := call cfg

abbrev ClusterState (P T : Type) := State (Locals P T) Key Value

/-- A bucket without protocol keys and publishers that have not started. -/
structure Fresh (s : ClusterState P T) : Prop where
  aliases : ∀ r ∈ s.bucket.log, ∃ worker, r.key = .alias worker
  timed : s.bucket.Timed s.clock
  quiet : s.pending = []
  pubs : ∀ p, s.locals.pubs p = .new
  unlocked : ∀ p, s.locals.mu p = none
  idle : ∀ t, s.locals.threads t = none

def cluster (P : Type) [DecidableEq P] (cfg : Config T) :
    System (ClusterState P T) (Action T (Call P T)) :=
  (protocol cfg).system Fresh

/-! ## What a thread's step can do -/

/-- The step of thread `t` on an answer of the store, method by method. -/
inductive Resumed (cfg : Config T) (l : Locals P T) (t : T) (answer : Answer Key Value) :
    Locals P T → Prop
  | publish (p pc pub r) (at_ : l.threads t = some (p, .publish pc))
      (moved : publishResume cfg.codec (l.pubs p) pc answer = some (pub, r)) :
      Resumed cfg l t answer (l.publishing t p pub r)
  | discover (p pc r) (at_ : l.threads t = some (p, .discover pc))
      (moved : discoverResume pc answer = some r) :
      Resumed cfg l t answer (l.going t p (l.pubs p) .discover r)
  | bootstrap (p pc r) (at_ : l.threads t = some (p, .bootstrap pc))
      (moved : bootstrapResume pc answer = some r) :
      Resumed cfg l t answer (l.going t p (l.pubs p) .bootstrap r)
  | sweep (p pc r) (at_ : l.threads t = some (p, .sweep pc))
      (moved : sweepResume cfg.gc pc answer = some r) :
      Resumed cfg l t answer (l.going t p (l.pubs p) .sweep r)

variable (cfg : Config T) (l : Locals P T) (now : Int) in
inductive Called : Call P T → Locals P T → Prop
  | startPublish (t p input) (idle : l.threads t = none) (free : l.mu p = none) :
      Called (.start t p (.publish input))
        (l.publishing t p (l.pubs p) (beginPublish (l.pubs p) input))
  | startDiscover (t p) (idle : l.threads t = none) : Called (.start t p .discoverHighestVersion)
        (l.going t p (l.pubs p) .discover (.waits .list : Progress DiscoverPc Unit))
  | startBootstrap (t p) (idle : l.threads t = none) : Called (.start t p .bootstrapLastCommit)
        (l.going t p (l.pubs p) .bootstrap (.waits .get : Progress BootstrapPc Unit))
  | startSweep (t p) (idle : l.threads t = none) : Called (.start t p .runOnce)
        (l.going t p (l.pubs p) .sweep (.waits .commit : Progress SweepPc Unit))
  | publish (t choice p pc pub r) (at_ : l.threads t = some (p, .publish pc))
      (moved : publishProceed cfg.codec (l.pubs p) (now + cfg.skew t) pc choice = some (pub, r)) :
      Called (.proceed t choice) (l.publishing t p pub r)
  | discover (t choice p pc pub r) (at_ : l.threads t = some (p, .discover pc))
      (free : l.mu p = none) (moved : discoverLocked (l.pubs p) pc = some (pub, r)) :
      Called (.proceed t choice) (l.going t p pub .discover r)
  | bootstrap (t choice p pc pub r) (at_ : l.threads t = some (p, .bootstrap pc))
      (free : l.mu p = none) (moved : bootstrapLocked (l.pubs p) pc = some (pub, r)) :
      Called (.proceed t choice) (l.going t p pub .bootstrap r)
  | sweep (t choice p pc r) (at_ : l.threads t = some (p, .sweep pc))
      (moved : sweepProceed (l.pubs p) (now + cfg.skew t) pc = some r) :
      Called (.proceed t choice) (l.going t p (l.pubs p) .sweep r)

theorem resume_resumed {t : T} {answer}
    (moved : (protocol cfg).resume l t now answer = some l') : Resumed cfg l t answer l' := by
  change resume cfg l t now answer = some l' at moved
  unfold resume at moved
  split at moved
  next => cases moved
  next p pc at_ =>
    obtain ⟨⟨pub, r⟩, ran, rfl⟩ := map_eq_some_iff.mp moved
    exact .publish p pc pub r at_ ran
  next p pc at_ =>
    obtain ⟨r, ran, rfl⟩ := map_eq_some_iff.mp moved
    exact .discover p pc r at_ ran
  next p pc at_ =>
    obtain ⟨r, ran, rfl⟩ := map_eq_some_iff.mp moved
    exact .bootstrap p pc r at_ ran
  next p pc at_ =>
    obtain ⟨r, ran, rfl⟩ := map_eq_some_iff.mp moved
    exact .sweep p pc r at_ ran

omit [DecidableEq P] [DecidableEq T] in
theorem Locals.locked_eq_some {α : Type} {p : P} {result} {x : α} :
    l.locked p result = some x ↔ l.mu p = none ∧ result = some x := by
  unfold Locals.locked
  split <;> simp_all

theorem call_called {c} (moved : (protocol cfg).call l c now = some l') :
    Called cfg l now c l' := by
  change call cfg l c now = some l' at moved
  cases c with
  | start t p method =>
    simp only [call] at moved
    split at moved
    next idle =>
      cases method with
      | publish input =>
        simp only [start, Locals.locked_eq_some, some.injEq] at moved
        exact moved.2 ▸ .startPublish t p input idle moved.1
      | discoverHighestVersion =>
        simp only [start, some.injEq] at moved
        exact moved ▸ .startDiscover t p idle
      | bootstrapLastCommit =>
        simp only [start, some.injEq] at moved
        exact moved ▸ .startBootstrap t p idle
      | runOnce =>
        simp only [start, some.injEq] at moved
        exact moved ▸ .startSweep t p idle
    next => cases moved
  | proceed t choice =>
    simp only [call, proceed] at moved
    split at moved
    next => cases moved
    next p pc at_ =>
      obtain ⟨⟨pub, r⟩, ran, rfl⟩ := map_eq_some_iff.mp moved
      exact .publish t choice p pc pub r at_ ran
    next p pc at_ =>
      obtain ⟨free, moved⟩ := Locals.locked_eq_some.mp moved
      obtain ⟨⟨pub, r⟩, ran, rfl⟩ := map_eq_some_iff.mp moved
      exact .discover t choice p pc pub r at_ free ran
    next p pc at_ =>
      obtain ⟨free, moved⟩ := Locals.locked_eq_some.mp moved
      obtain ⟨⟨pub, r⟩, ran, rfl⟩ := map_eq_some_iff.mp moved
      exact .bootstrap t choice p pc pub r at_ free ran
    next p pc at_ =>
      obtain ⟨r, ran, rfl⟩ := map_eq_some_iff.mp moved
      exact .sweep t choice p pc r at_ ran

/-! ## Concrete runs

An empty cluster, and the actions of one undisturbed `Publish` call whose batch
has no legacy worker. -/

def emptyCluster (P T : Type) : ClusterState P T where
  bucket := .empty
  pending := []
  clock := 0
  locals := ⟨fun _ => .new, fun _ => none, fun _ => none⟩

omit [DecidableEq P] [DecidableEq T] in
theorem emptyCluster_fresh : Fresh (emptyCluster P T) where
  aliases := by simp [emptyCluster, Kv.Bucket.empty]
  timed := ⟨by simp [emptyCluster, Kv.Bucket.empty], .nil⟩
  quiet := rfl
  pubs _ := rfl
  unlocked _ := rfl
  idle _ := rfl

/-- Write the payload keys: one step per worker when none of them exists. -/
def payloadSteps (t : T) (p : P) (input : PublishInput) : List (Action T (Call P T)) :=
  .call (.start t p (.publish input)) :: input.workers.map fun _ => .step t .served

/-- From the registration of the references up to the commit write. -/
def fenceSteps (P : Type) (t : T) : List (Action T (Call P T)) :=
  [.call (.proceed t .go), .call (.proceed t .go), .call (.proceed t (.legacy [])),
    .call (.proceed t .go), .call (.proceed t .go), .call (.proceed t .go)]

/-- An encoding in which a payload's bytes are its canonical ids. -/
def plainCodec : Codec where
  marshal payload := payload.partitions.flatMap Partition.canonicalID
  sha256 := id
  gzipCompress := id
  gzipDecompress _ := none
  partitionSetDigest parts := parts.length.toUInt64

def plainConfig (T : Type) : Config T where
  codec := plainCodec
  gc := ⟨5, 10, by decide⟩
  skew _ := 0

/-- A partition with the one-letter key `a`. -/
def partitionA : Partition := ⟨[[97]], 0, []⟩

/-- A batch that gives each listed worker what the map says, for the source
`source`, with nothing parked. -/
def batchInput (workers : List String) (assignments : GoMap (List Partition))
    (source : List Partition) : PublishInput where
  workers := workers
  assignments := assignments
  sourcePartitions := source
  sourceRevision := 0
  sourceRevisionKnown := false
  leaderRevision := 1
  lifecycle := "stable"
  workersToRemove := []
  parkedPartitions := []
  workerLabels := ∅

def soloInput : PublishInput :=
  batchInput ["w"] (AList.insert "w" [partitionA] ∅) [partitionA]

end Parti.Assignment
