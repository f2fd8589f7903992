/-
# Handoff.Claims — ownership claims and the transitions written to them

A claim records who owns a partition and whether a handoff is under way. Every
writer of claims is a transform of the claim it read, or of its absence.

A `Draft` is what a transform produces: the next claim, with the branch of the
code and the worker it comes from. `Written` is a draft together with the claim
and the revision it was made from. Only the claim is marshalled; the rest is for
the record.

* `Transform.apply_none`: over an absent claim only `prepare` writes, and it
  writes its own worker's initial claim;
* `Transform.apply_some`: over a claim, a transform keeps the epoch exactly in the
  branches `keepsEpoch` lists and increments it in all others, and it keeps the
  owner except where a commit promotes the pending owner.
-/
import Parti.Types.Partition

namespace Parti.Handoff

open Parti.Types

/-- A claim is keyed by the subject key of its partition. -/
abbrev Pid := GoString

inductive ClaimState where
  | stable
  | prepare
  | commit
  | abort
  | unknown
deriving DecidableEq

/-- Ownership and in-flight handoff of one partition. Times are nanoseconds. -/
structure Claim where
  partitionID : Pid
  owner : String
  pendingOwner : String
  state : ClaimState
  epoch : Int
  lastUpdated : Int
  ttlSeconds : Int
  conflictCount : Int
deriving DecidableEq

def newInitialClaim (partitionID : Pid) (owner : String) (now ttlSeconds : Int) : Claim where
  partitionID := partitionID
  owner := owner
  pendingOwner := ""
  state := .stable
  epoch := 1
  lastUpdated := now
  ttlSeconds := ttlSeconds
  conflictCount := 0

namespace Claim

def nextPrepare (c : Claim) (pendingOwner : String) (now : Int) : Claim :=
  { c with pendingOwner := pendingOwner, state := .prepare, epoch := c.epoch + 1,
           lastUpdated := now }

/-- Enter commit: a recorded pending owner becomes the owner. -/
def nextCommit (c : Claim) (now : Int) : Claim :=
  let next := if c.pendingOwner ≠ "" then { c with owner := c.pendingOwner, pendingOwner := "" }
    else c
  { next with state := .commit, epoch := c.epoch + 1, lastUpdated := now }

def nextStable (c : Claim) (now : Int) : Claim :=
  { c with state := .stable, epoch := c.epoch + 1, lastUpdated := now }

def isExpired (c : Claim) (now : Int) : Bool :=
  0 < c.ttlSeconds && c.lastUpdated + c.ttlSeconds * 1000000000 < now

/-- Back to stable with no pending owner, at the same epoch. -/
def reset (c : Claim) (now : Int) : Claim :=
  { c with state := .stable, pendingOwner := "", lastUpdated := now }

/-- The reset `preparePhase` writes when the owner re-acquires the partition. -/
def resetStale (c : Claim) (now : Int) : Claim :=
  { c with pendingOwner := "", state := .stable, epoch := c.epoch + 1, lastUpdated := now }

end Claim

inductive Branch where
  | initial
  | prepare
  | resetStale
  | commit
  | recommit
  | stabilize
  | finalize
  | expire
  | hygiene
  | resume
deriving DecidableEq

/-- The writes that leave the epoch as it was: the two expiry resets, and the
commit phase writing a claim that is already committed. -/
def Branch.keepsEpoch : Branch → Bool
  | .recommit | .expire | .hygiene => true
  | _ => false

structure Draft where
  claim : Claim
  branch : Branch
  worker : String
deriving DecidableEq

/-- A draft on its way to the store, with the claim and revision its transform
was given; `none` when it was given no claim. -/
structure Written extends Draft where
  given : Option (Claim × Nat)
deriving DecidableEq

inductive Transform where
  | prepare (worker : String)
  | commit (worker : String)
  | stabilize (worker : String)
  | sweep
  | hygiene
  | resume (worker : String)
deriving DecidableEq

def sweepReconcile (c : Claim) (now : Int) : Option Draft :=
  if c.state = .stable ∨ c.state = .abort then none
  else if c.state = .commit ∧ c.pendingOwner = "" then some ⟨c.nextStable now, .finalize, ""⟩
  else if c.isExpired now then some ⟨c.reset now, .expire, ""⟩
  else none

def prepareExisting (worker : String) (c : Claim) (now : Int) : Option Draft :=
  if c.owner ≠ worker then some ⟨c.nextPrepare worker now, .prepare, worker⟩
  else if c.state ≠ .stable ∨ c.pendingOwner ≠ "" then
    some ⟨c.resetStale now, .resetStale, worker⟩
  else none

def commitExisting (worker : String) (c : Claim) (now : Int) : Option Draft :=
  if c.owner = worker ∧ c.state = .stable then none
  else if c.pendingOwner = worker ∨ c.owner ≠ worker then
    if c.state ≠ .commit then some ⟨c.nextCommit now, .commit, worker⟩
    else some ⟨c, .recommit, worker⟩
  else none

def stabilizeExisting (worker : String) (c : Claim) (now : Int) : Option Draft :=
  if c.owner ≠ worker then none
  else if c.state ≠ .commit then none
  else some ⟨c.nextStable now, .stabilize, worker⟩

def hygieneExisting (c : Claim) (now : Int) : Option Draft :=
  if c.state = .stable then none
  else if !c.isExpired now then none
  else some ⟨c.reset now, .hygiene, ""⟩

def resumeExisting (worker : String) (c : Claim) (now : Int) : Option Draft :=
  if c.owner ≠ worker then none
  else if c.state ≠ .commit then none
  else some ⟨c.nextStable now, .resume, worker⟩

/-- The transform of a writer: from the claim read, or its absence, to what it
writes, or to nothing. -/
def Transform.apply (pid : Pid) (now ttlSeconds : Int) :
    Transform → Option Claim → Option Draft
  | .prepare worker, none => some ⟨newInitialClaim pid worker now ttlSeconds, .initial, worker⟩
  | _, none => none
  | .prepare worker, some c => prepareExisting worker c now
  | .commit worker, some c => commitExisting worker c now
  | .stabilize worker, some c => stabilizeExisting worker c now
  | .sweep, some c => sweepReconcile c now
  | .hygiene, some c => hygieneExisting c now
  | .resume worker, some c => resumeExisting worker c now

/-! ## What a transform can write -/

structure Follows (c : Claim) (d : Draft) : Prop where
  epoch : d.claim.epoch = if d.branch.keepsEpoch then c.epoch else c.epoch + 1
  owner : d.claim.owner = c.owner ∨
    d.branch = .commit ∧ c.pendingOwner ≠ "" ∧ d.claim.owner = c.pendingOwner

variable {now ttlSeconds : Int} {d : Draft} {worker : String} {c : Claim} {pid : Pid}
  {t : Transform}

theorem Transform.apply_none (wrote : t.apply pid now ttlSeconds none = some d) :
    d.branch = .initial ∧ d.claim.owner = d.worker ∧ d.claim.epoch = 1 := by
  cases t with
  | prepare worker =>
    cases wrote
    exact ⟨rfl, rfl, rfl⟩
  | _ => cases wrote

theorem nextCommit_owner (c : Claim) (now : Int) :
    (c.nextCommit now).owner = if c.pendingOwner ≠ "" then c.pendingOwner else c.owner := by
  unfold Claim.nextCommit
  split <;> rfl

theorem commitExisting_follows (wrote : commitExisting worker c now = some d) :
    Follows c d ∧ d.worker = worker := by
  unfold commitExisting at wrote
  split at wrote
  · cases wrote
  · split at wrote
    · split at wrote <;> cases wrote
      · refine ⟨⟨rfl, ?_⟩, rfl⟩
        -- the owner moves only if a pending owner is recorded
        by_cases pending : c.pendingOwner = ""
        · exact .inl (by simp [nextCommit_owner, pending])
        · exact .inr ⟨rfl, pending, by simp [nextCommit_owner, pending]⟩
      · exact ⟨⟨rfl, .inl rfl⟩, rfl⟩
    · cases wrote

theorem Transform.apply_some (wrote : t.apply pid now ttlSeconds (some c) = some d) :
    Follows c d ∧ (d.branch = .commit → t = .commit d.worker) := by
  cases t with
  | commit worker =>
    obtain ⟨follows, same⟩ := commitExisting_follows wrote
    exact ⟨follows, fun _ => congrArg Transform.commit same.symm⟩
  | prepare | stabilize | sweep | hygiene | resume =>
    -- every other writer leaves the owner alone
    simp only [apply, prepareExisting, stabilizeExisting, sweepReconcile, hygieneExisting,
      resumeExisting] at wrote
    split_ifs at wrote <;> cases wrote <;> exact ⟨⟨rfl, .inl rfl⟩, nofun⟩

end Parti.Handoff
