/-
# Source.NatsKV — the partition list of a KV key, cached and watched

The in-memory side of the source. Everything here runs under the source's mutex, so
each function is one step.

`applyLocal` is the way a list gets into the cache: dropped if its revision is
behind the cached one, sorted, compared with the cache, and announced to the
listeners if it differs. The exceptions are visible in the signatures:
`refreshFromKV` passes `notify = false`, `applyReconcileReset` forgets the
cached revision first, and `applyEmptyPreservingKnown` keeps it.

A listener's record has, beside the channel, what the client at the other end
has done: whether it still has to list, and what it saw when it last did.
-/
import Parti.Types.Validate

namespace Parti.Source

open Parti.Types

/-- The wire format; both directions may fail. -/
structure Codec (B : Type) where
  encode : List Partition → Option B
  decode : B → Option (List Partition)

/-- A list that passes is returned unchanged (a deep copy). -/
def validateAndDedupe (ps : List Partition) : Except PartitionsError (List Partition) := do
  validatePartitions ps
  return ps

/-- Element by element; both lists are sorted. -/
def partitionsEqual : List Partition → List Partition → Bool
  | [], [] => true
  | a :: as, b :: bs =>
    a.weight = b.weight && a.label = b.label && a.keys = b.keys && partitionsEqual as bs
  | _, _ => false

@[simp] theorem partitionsEqual_iff : ∀ {as bs : List Partition},
    partitionsEqual as bs = true ↔ as = bs
  | [], [] => by simp [partitionsEqual]
  | [], _ :: _ => by simp [partitionsEqual]
  | _ :: _, [] => by simp [partitionsEqual]
  | ⟨_, _, _⟩ :: as, ⟨_, _, _⟩ :: bs => by
      simp only [partitionsEqual, Bool.and_eq_true, decide_eq_true_eq, partitionsEqual_iff,
        List.cons.injEq, Types.Partition.mk.injEq]
      tauto

structure Listener where
  /-- The channel holds a signal. -/
  signal : Bool
  /-- The client has registered or received since it last listed. -/
  due : Bool
  /-- What it saw then. -/
  seen : List Partition
deriving DecidableEq

structure NatsKV (L : Type) where
  partitions : List Partition
  revision : Nat
  applyGen : Nat
  known : Bool
  running : Bool
  listeners : L → Option Listener
  reconcileRev : Nat
  reconcileCreated : Int
  reconcileKnown : Bool

/-- A source as `NewNatsKV` makes it. -/
def newNatsKV (L : Type) : NatsKV L :=
  ⟨[], 0, 0, false, false, fun _ => none, 0, 0, false⟩

namespace NatsKV

variable {L : Type}

/-- A non-blocking send to every listener: a full channel stays full. -/
def notify (s : NatsKV L) : NatsKV L :=
  { s with listeners := fun l => (s.listeners l).map fun x => { x with signal := true } }

theorem notify_listeners (s : NatsKV L) (l : L) :
    s.notify.listeners l = (s.listeners l).map fun x => { x with signal := true } := rfl

/-- A revision behind the cached one; zero is the never-written seed. -/
def stale (s : NatsKV L) (revision : Nat) : Bool := revision ≠ 0 && revision < s.revision

/-- Returns the state and whether the list changed. -/
def applyLocalLocked (s : NatsKV L) (partitions : List Partition) (revision : Nat)
    (known : Bool) : NatsKV L × Bool :=
  if s.stale revision then (s, false)
  else
    let sorted := sortPartitions partitions
    let changed := !partitionsEqual s.partitions sorted
    ({ s with
        partitions := if changed then sorted else s.partitions
        revision := revision
        known := known
        applyGen := s.applyGen + 1 }, changed)

/-- Returns the state and whether the entry was accepted. -/
def applyLocal (s : NatsKV L) (partitions : List Partition) (revision : Nat) (notify : Bool) :
    NatsKV L × Bool :=
  let applied := s.applyLocalLocked partitions revision true
  (if notify && applied.2 then applied.1.notify else applied.1,
    revision = 0 || s.revision ≤ revision)

variable {s : NatsKV L} {revision : Nat}

theorem applyLocalLocked_stale (old : s.stale revision = true) (partitions : List Partition)
    (known : Bool) :
    s.applyLocalLocked partitions revision known = (s, false) := by
  rw [applyLocalLocked, if_pos old]

theorem applyLocalLocked_fresh (fresh : s.stale revision = false) (partitions : List Partition)
    (known : Bool) :
    (s.applyLocalLocked partitions revision known).1 =
      { s with
        partitions := sortPartitions partitions
        revision := revision
        known := known
        applyGen := s.applyGen + 1 } := by
  rw [applyLocalLocked, if_neg (by simp [fresh])]
  by_cases same : s.partitions = sortPartitions partitions
  · simp [← same]
  · simp [Bool.eq_false_iff.mpr fun equal => same (partitionsEqual_iff.mp equal)]

theorem applyLocal_stale (old : s.stale revision = true) (partitions : List Partition)
    (notify : Bool) :
    s.applyLocal partitions revision notify = (s, false) := by
  have behind : revision ≠ 0 ∧ revision < s.revision := by simpa [stale] using old
  simp only [applyLocal, applyLocalLocked_stale old, Bool.and_false, Bool.false_eq_true, if_false,
    Prod.mk.injEq, true_and]
  simp [behind.1, behind.2]

theorem applyLocal_fresh (fresh : s.stale revision = false) (partitions : List Partition)
    (notify : Bool) :
    ∃ listeners, s.applyLocal partitions revision notify =
      ({ s with
          partitions := sortPartitions partitions
          revision := revision
          known := true
          applyGen := s.applyGen + 1
          listeners := listeners }, true) := by
  have accepted : revision = 0 ∨ s.revision ≤ revision := by
    have behind : ¬ (revision ≠ 0 ∧ revision < s.revision) := by simpa [stale] using fresh
    omega
  have state := applyLocalLocked_fresh fresh partitions true
  simp only [applyLocal, state]
  split
  · exact ⟨_, Prod.ext rfl (by simpa using accepted)⟩
  · exact ⟨s.listeners, Prod.ext rfl (by simpa using accepted)⟩

/-- A confirmed new incarnation: the baseline is dropped, unless something was
accepted since it was read. -/
def applyReconcileReset (s : NatsKV L) (partitions : List Partition)
    (revision baseline gen : Nat) : NatsKV L × Bool :=
  let s := if s.revision = baseline ∧ s.applyGen = gen then { s with revision := 0 } else s
  s.applyLocal partitions revision true

/-- The key is gone; the delete marker's revision will come with the watcher. -/
def applyEmptyPreservingKnown (s : NatsKV L) : NatsKV L :=
  if s.known then
    if partitionsEqual s.partitions [] then s else { s with partitions := [] }.notify
  else s

theorem applyEmptyPreservingKnown_known (known : s.known = true) :
    ∃ listeners, s.applyEmptyPreservingKnown =
      { s with partitions := [], listeners := listeners } := by
  rw [applyEmptyPreservingKnown, if_pos known]
  split
  next empty =>
    rw [partitionsEqual_iff] at empty
    exact ⟨s.listeners, by rw [← empty]⟩
  next => exact ⟨_, rfl⟩

theorem applyEmptyPreservingKnown_unknown (unknown : s.known = false) :
    s.applyEmptyPreservingKnown = s := by
  rw [applyEmptyPreservingKnown, if_neg (by simp [unknown])]

def markReconcileApplied (s : NatsKV L) (revision : Nat) (created : Int) : NatsKV L :=
  { s with reconcileRev := revision, reconcileCreated := created, reconcileKnown := true }

/-- `Stop` closes every listener. -/
def stop (s : NatsKV L) : NatsKV L :=
  { s with running := false, listeners := fun _ => none }

variable [DecidableEq L]

def setListener (s : NatsKV L) (l : L) (x : Option Listener) : NatsKV L :=
  { s with listeners := Function.update s.listeners l x }

end NatsKV

end Parti.Source
