/-
# Manager.Assignment — what a worker decides about an assignment

The functions of the worker's manager that look at assignments and commits and
touch no shared cell.

Targets are compared by version and then by leader revision. `AcceptedTarget`
carries this as its linear order, and the comparisons of the source are read in
it: `isApplyResultStale_iff` away from version zero, and the three stash
comparisons (`assignmentSupersedesForStash_le` and its companions).
-/
import Parti.Types.Partition
import Mathlib.Data.Prod.Lex
import Mathlib.Order.Lattice

namespace Parti.Manager

open Parti.Types

/-! ## Data -/

/-- An assignment as the worker holds it: the published one, with the revision
of the partition source it was computed from (unknown for a legacy alias). -/
structure WorkerAssignment extends Types.Assignment where
  sourceRevision : Nat
  sourceRevisionKnown : Bool
deriving DecidableEq

/-- `Assignment{}`. -/
def WorkerAssignment.empty : WorkerAssignment where
  version := 0
  lifecycle := ""
  partitions := []
  leaderRevision := 0
  totalWorkers := 0
  workerLabels := []
  workerLabelsKnown := false
  sourceRevision := 0
  sourceRevisionKnown := false

structure AcceptedTarget where
  version : Int
  leaderRevision : Nat
deriving DecidableEq

def WorkerAssignment.target (a : WorkerAssignment) : AcceptedTarget :=
  ⟨a.version, a.leaderRevision⟩

def commitTarget (c : AssignmentCommit) : AcceptedTarget := ⟨c.version, c.leaderRevision⟩

/-- What the worker knows of itself, and the digest of a partition set. -/
structure Config where
  workerID : String
  workerLabels : List GoString
  partitionSetDigest : List Partition → UInt64

/-! ## The order of targets -/

/-- Version first, then leader revision. -/
def AcceptedTarget.coordinates (t : AcceptedTarget) : Int ×ₗ Nat :=
  toLex (t.version, t.leaderRevision)

theorem AcceptedTarget.coordinates_injective : Function.Injective AcceptedTarget.coordinates := by
  rintro ⟨v, lr⟩ ⟨v', lr'⟩ same
  simp only [coordinates, EmbeddingLike.apply_eq_iff_eq, Prod.mk.injEq] at same
  rw [same.1, same.2]

instance targetOrder : LinearOrder AcceptedTarget :=
  LinearOrder.lift' AcceptedTarget.coordinates AcceptedTarget.coordinates_injective

variable {a b candidate cur : AcceptedTarget} {cfg : Config}

theorem AcceptedTarget.lt_iff :
    a < b ↔ a.version < b.version ∨ a.version = b.version ∧ a.leaderRevision < b.leaderRevision :=
  Prod.Lex.toLex_lt_toLex

theorem AcceptedTarget.le_iff :
    a ≤ b ↔ a.version < b.version ∨ a.version = b.version ∧ a.leaderRevision ≤ b.leaderRevision :=
  Prod.Lex.toLex_le_toLex

theorem AcceptedTarget.version_le (le : a ≤ b) : a.version ≤ b.version := by
  rw [le_iff] at le
  omega

/-! ## Comparisons of the source -/

/-- Is the candidate older than the current target? Version zero is older than
every other version and than no version zero. -/
def isApplyResultStale (candidate cur : AcceptedTarget) : Bool :=
  if candidate.version = 0 then cur.version != 0
  else if candidate.version ≠ cur.version then decide (candidate.version < cur.version)
  else decide (candidate.leaderRevision < cur.leaderRevision)

theorem isApplyResultStale_iff (named : candidate.version ≠ 0) :
    isApplyResultStale candidate cur = true ↔ candidate < cur := by
  rw [isApplyResultStale, if_neg named, AcceptedTarget.lt_iff]
  split
  next differ =>
    rw [decide_eq_true_iff]
    omega
  next same =>
    rw [decide_eq_true_iff]
    omega

theorem isApplyResultStale_eq_false (named : candidate.version ≠ 0) :
    isApplyResultStale candidate cur = false ↔ cur ≤ candidate := by
  rw [← not_lt, ← isApplyResultStale_iff named, Bool.not_eq_true]

theorem isApplyResultStale_self (target : AcceptedTarget) :
    isApplyResultStale target target = false := by
  unfold isApplyResultStale
  split <;> simp [*]

theorem isApplyResultStale_trans {next : AcceptedTarget}
    (stale : isApplyResultStale candidate cur = true)
    (fresh : isApplyResultStale next cur = false) : isApplyResultStale candidate next = true := by
  unfold isApplyResultStale at *
  split_ifs at * <;> simp at * <;> omega

/-- Equal on the identity an acknowledgement carries, the coordinates apart. -/
def sameAppliedIdentity (cfg : Config) (a b : WorkerAssignment) : Bool :=
  cfg.partitionSetDigest a.partitions == cfg.partitionSetDigest b.partitions &&
    a.sourceRevisionKnown == b.sourceRevisionKnown && a.sourceRevision == b.sourceRevision

def assignmentSupersedesForStash (cfg : Config) (candidate cur : WorkerAssignment) : Bool :=
  if candidate.version ≠ cur.version then decide (cur.version < candidate.version)
  else if candidate.leaderRevision ≠ cur.leaderRevision then
    decide (cur.leaderRevision < candidate.leaderRevision)
  else !sameAppliedIdentity cfg candidate cur

def commitSupersedesForStash (candidate cur : AssignmentCommit) : Bool :=
  if candidate.version ≠ cur.version then decide (cur.version < candidate.version)
  else if candidate.leaderRevision ≠ cur.leaderRevision then
    decide (cur.leaderRevision < candidate.leaderRevision)
  else candidate.batchDigest != cur.batchDigest ||
    candidate.sourceRevisionKnown != cur.sourceRevisionKnown ||
    candidate.sourceRevision != cur.sourceRevision

/-- Should a commit that waited while `applied` was handled be handled next? -/
def commitSupersedesAppliedForDrain (pending : AssignmentCommit) (applied : WorkerAssignment) : Bool :=
  if pending.version ≠ applied.version then decide (applied.version < pending.version)
  else if pending.leaderRevision ≠ applied.leaderRevision then
    decide (applied.leaderRevision < pending.leaderRevision)
  else pending.sourceRevisionKnown != applied.sourceRevisionKnown ||
    pending.sourceRevision != applied.sourceRevision

/-- The shape the stash comparisons share: the coordinates decide, and only at
equal coordinates does the rest. -/
theorem supersedes_le {rest : Bool} :
    ((if candidate.version ≠ cur.version then decide (cur.version < candidate.version)
      else if candidate.leaderRevision ≠ cur.leaderRevision then
        decide (cur.leaderRevision < candidate.leaderRevision)
      else rest) = true → cur ≤ candidate) ∧
    ((if candidate.version ≠ cur.version then decide (cur.version < candidate.version)
      else if candidate.leaderRevision ≠ cur.leaderRevision then
        decide (cur.leaderRevision < candidate.leaderRevision)
      else rest) = false → candidate ≤ cur) := by
  rw [AcceptedTarget.le_iff, AcceptedTarget.le_iff]
  split
  next differ =>
    rw [decide_eq_true_iff, decide_eq_false_iff_not]
    omega
  next same =>
    split
    next differ =>
      rw [decide_eq_true_iff, decide_eq_false_iff_not]
      omega
    next equal =>
      constructor <;> intro _ <;> omega

theorem assignmentSupersedesForStash_le {candidate cur}
    (wins : assignmentSupersedesForStash cfg candidate cur = true) :
    cur.target ≤ candidate.target :=
  supersedes_le.1 wins

theorem le_of_not_assignmentSupersedes {candidate cur}
    (loses : assignmentSupersedesForStash cfg candidate cur = false) :
    candidate.target ≤ cur.target :=
  supersedes_le.2 loses

theorem commitSupersedesForStash_le {candidate cur}
    (wins : commitSupersedesForStash candidate cur = true) :
    commitTarget cur ≤ commitTarget candidate :=
  supersedes_le.1 wins

theorem le_of_not_commitSupersedes {candidate cur}
    (loses : commitSupersedesForStash candidate cur = false) :
    commitTarget candidate ≤ commitTarget cur :=
  supersedes_le.2 loses

/-! ## Decisions -/

inductive AuthorityChoice where
  | none
  | commit
  | legacyAlias
deriving DecidableEq

/-- The dual-read rule: the commit unless the alias is of a later leader term. -/
def selectAuthority (commit : Option AssignmentCommit) (legacyEntry : Option WorkerAssignment)
    (lastSeen : Nat) : AuthorityChoice :=
  match commit, legacyEntry with
  | none, none => .none
  | some _, none => .commit
  | none, some legacy => if lastSeen ≤ legacy.leaderRevision then .legacyAlias else .none
  | some commit, some legacy =>
    if legacy.leaderRevision ≤ commit.leaderRevision then .commit
    else if lastSeen ≤ legacy.leaderRevision then .legacyAlias
    else .none

/-- The assignment of this worker in a commit, given what came back for its
payload. A worker the commit does not list is revoked. -/
def buildAssignmentFromCommit (cfg : Config) (commit : AssignmentCommit)
    (payload : Option AssignmentPayload) : Option WorkerAssignment :=
  if cfg.workerID ∈ commit.workers then
    match commit.payloads.lookup cfg.workerID, payload with
    | some _, some payload =>
      some {
        version := commit.version
        lifecycle := commit.lifecycle
        partitions := payload.partitions
        leaderRevision := commit.leaderRevision
        totalWorkers := commit.workers.length
        workerLabels := payload.workerLabels
        workerLabelsKnown := payload.workerLabelsKnown
        sourceRevision := commit.sourceRevision
        sourceRevisionKnown := commit.sourceRevisionKnown }
    | _, _ => none
  else
    some {
      version := commit.version
      lifecycle := commit.lifecycle
      partitions := []
      leaderRevision := commit.leaderRevision
      totalWorkers := commit.workers.length
      workerLabels := []
      workerLabelsKnown := false
      sourceRevision := commit.sourceRevision
      sourceRevisionKnown := commit.sourceRevisionKnown }

theorem buildAssignmentFromCommit_target {commit} {payload} {a}
    (built : buildAssignmentFromCommit cfg commit payload = some a) :
    a.target = commitTarget commit := by
  unfold buildAssignmentFromCommit at built
  split at built
  next =>
    split at built
    next => cases built; rfl
    next => cases built
  next => cases built; rfl

/-- The payload was computed for another incarnation of this worker ID. -/
def labelIncarnationMismatch (cfg : Config) (a : WorkerAssignment) : Bool :=
  a.workerLabelsKnown && a.workerLabels != cfg.workerLabels

/-- Is the snapshot `cur` what was last applied and acknowledged? A snapshot
without a known source revision matches any. -/
def currentAssignmentApplied (cfg : Config) (committed : Option WorkerAssignment)
    (cur : WorkerAssignment) : Bool :=
  let c := committed.getD .empty
  c.version == cur.version && c.leaderRevision == cur.leaderRevision &&
    (!cur.sourceRevisionKnown ||
      (c.sourceRevisionKnown && c.sourceRevision == cur.sourceRevision)) &&
    cfg.partitionSetDigest c.partitions == cfg.partitionSetDigest cur.partitions

/-! ## The acknowledgement -/

/-- The applied assignment as heartbeats carry it; `schemaVersion` is zero until
the first acknowledgement. -/
structure AppliedSnapshot where
  schemaVersion : Nat
  leaderRevision : Nat
  appliedVersion : Int
  appliedDigest : UInt64
  appliedSourceRevision : Nat
  appliedSourceRevKnown : Bool
deriving DecidableEq

def AppliedSnapshot.zero : AppliedSnapshot := ⟨0, 0, 0, 0, 0, false⟩

def AppliedSnapshot.target (p : AppliedSnapshot) : AcceptedTarget :=
  ⟨p.appliedVersion, p.leaderRevision⟩

/-- Versions never go down; at an equal version the new snapshot is taken. -/
def setAppliedAssignment (cfg : Config) (a : WorkerAssignment) (applied : AppliedSnapshot) :
    AppliedSnapshot :=
  if a.version < applied.appliedVersion then applied
  else
    { schemaVersion := 1
      leaderRevision := a.leaderRevision
      appliedVersion := a.version
      appliedDigest := cfg.partitionSetDigest a.partitions
      appliedSourceRevision := a.sourceRevision
      appliedSourceRevKnown := a.sourceRevisionKnown }

/-- The publisher compares versions only: its pair goes up when the caller
keeps the leader revisions in order. -/
theorem setAppliedAssignment_target {a} {applied}
    (le : applied.target ≤ a.target) : (setAppliedAssignment cfg a applied).target = a.target := by
  have version_le : applied.appliedVersion ≤ a.version := AcceptedTarget.version_le le
  rw [setAppliedAssignment, if_neg (by omega)]
  rfl

end Parti.Manager
