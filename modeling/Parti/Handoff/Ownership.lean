/-
# Handoff.Ownership — who may change the owner of a claim

The owner of an existing claim changes only where a commit promotes the pending
owner. The commit phase runs for every partition of the new assignment, and its
condition is that the worker is the pending owner or is not the owner. A worker
whose own preparation has meanwhile been overwritten by a third worker's meets
the second half, and its commit promotes the third.

`owner_changes_by_own_commit` is the guarantee without that case: in runs where
every commit is given a claim with no pending owner or with its own worker
pending, and in which no claim is reaped and created again under a write that
has read it, an owner changes only by its own commit, after its own consumer
update. `commit_promotes_third_worker` is the run with the case.
-/
import Parti.Handoff.ClaimWrites

namespace Parti.Handoff

open Parti.Types Lib Option
open Lib.Kv (Bucket Entry Write Op)
open Lib.Client (Protocol State Action)

/-- A value written over another does not lower the epoch, and keeps the owner if
it keeps the epoch. -/
def Keeps (v v' : Written) : Prop :=
  v.claim.epoch ≤ v'.claim.epoch ∧
    (v.claim.epoch = v'.claim.epoch → v.claim.owner = v'.claim.owner)

theorem Keeps.trans {v v' v''} (first : Keeps v v') (second : Keeps v' v'') :
    Keeps v v'' := by
  refine ⟨first.1.trans second.1, fun same => ?_⟩
  have low : v.claim.epoch = v'.claim.epoch := le_antisymm first.1 (same ▸ second.1)
  exact (first.2 low).trans (second.2 (low.symm.trans same))

theorem keeps_path {Q : Written → Prop} {v v'}
    (path : Relation.TransGen (fun v v' => Keeps v v' ∧ Q v') v v') : Keeps v v' := by
  induction path with
  | single step => exact step.1
  | tail _ step ih => exact ih.trans step.1

/-- No delete of the key since revision `n`. -/
def Unreaped (b : Bucket Pid Written) (pid : Pid) (n : Nat) : Prop :=
  ∀ r ∈ b.log, r.key = pid → n < r.revision → r.op ≠ .delete

instance (b : Bucket Pid Written) (pid : Pid) (n : Nat) : Decidable (Unreaped b pid n) :=
  inferInstanceAs (Decidable (∀ r ∈ b.log, _))

/-- Between deletes, a claim that was read and a live claim of the same epoch have
the same owner. -/
theorem owner_of_epoch {b} {pid : Pid} (chain : b.Chained Keeps pid)
    {e live} (stored : b.Stored pid e) (current : b.get pid = some live)
    (unreaped : Unreaped b pid e.revision) (epoch : live.value.claim.epoch = e.value.claim.epoch) :
    live.value.claim.owner = e.value.claim.owner := by
  have span := chain.span (Q := fun _ => True) stored current fun r member key newer => by
    cases op : r.op with
    | delete => exact absurd op (unreaped r member key newer)
    | put v => exact ⟨v, rfl, trivial⟩
  rcases span with rfl | path
  · rfl
  · exact ((keeps_path path).2 epoch.symm).symm

section Runs

variable {A J : Type} [DecidableEq A] [DecidableEq J]

/-- A put that is in order: a commit was given a claim without a pending owner, or
with its own worker pending, and the key was not deleted since. -/
def PutInOrder (b : Bucket Pid Written) (pid : Pid) (v : Written) : Prop :=
  ∀ g ∈ v.given,
    (v.branch = .commit → g.1.pendingOwner = "" ∨ g.1.pendingOwner = v.worker) ∧
      Unreaped b pid g.2

instance (b : Bucket Pid Written) (pid : Pid) (v : Written) : Decidable (PutInOrder b pid v) :=
  inferInstanceAs (Decidable (∀ g ∈ v.given, _))

def InOrder (cfg : Config) (s : StoreState A J) (a : Action (Tid A J) (Call A J)) : Prop :=
  ∀ w ∈ (protocol A J cfg).writes s a, ∀ v ∈ putValue w.op, PutInOrder s.bucket w.key v

instance (cfg : Config) (s : StoreState A J) (a : Action (Tid A J) (Call A J)) :
    Decidable (InOrder cfg s a) :=
  inferInstanceAs (Decidable (∀ w ∈ (protocol A J cfg).writes s a, _))

omit [DecidableEq A] [DecidableEq J] in
theorem WriteSound.owner {b} {u} {w} {v} {live} (sound : WriteSound b u w)
    (accepted : b.accepts w = true) (puts : w.op = .put v) (inOrder : PutInOrder b w.key v)
    (chain : b.Chained Keeps w.key) (current : b.get w.key = some live) :
    Keeps live.value v ∧
      (v.claim.owner ≠ live.value.claim.owner → v.branch = .commit ∧ v.worker = v.claim.owner) := by
  rcases sound.replaces accepted puts with ⟨_, absent⟩ |
    ⟨c, n, live', given, found, epoch, follows, e, stored, revision, claim⟩
  · rw [current] at absent
    cases absent
  rw [current, some.injEq] at found
  subst found
  obtain ⟨ownPending, unreaped⟩ := inOrder (c, n) given
  have owner : live.value.claim.owner = c.owner :=
    claim ▸ owner_of_epoch chain stored current (revision ▸ unreaped) (claim ▸ epoch)
  have kept : v.branch.keepsEpoch = true → v.claim.owner = c.owner := fun keeps =>
    follows.owner.resolve_right fun ⟨commit, _⟩ => by simp [commit, Branch.keepsEpoch] at keeps
  refine ⟨⟨?_, fun same => ?_⟩, fun changed => ?_⟩
  · rw [epoch, follows.epoch]
    split <;> omega
  · rw [epoch, follows.epoch] at same
    split at same
    next keeps => rw [owner, kept keeps]
    next => omega
  · rcases follows.owner with same | ⟨commit, pending, promoted⟩
    · exact absurd (same.trans owner.symm) changed
    · exact ⟨commit, ((ownPending commit).resolve_left pending ▸ promoted).symm⟩

variable {cfg : Config}

theorem owners_chained {s} (reached : Reachable (claimStore A J cfg) (InOrder cfg) s) :
    ∀ pid, s.bucket.Chained Keeps pid := by
  refine Reachable.invariant_with (K := Sound) (I := fun s => ∀ pid, s.bucket.Chained Keeps pid)
    (fun _ reached => sound reached) ?_ ?_ reached
  · intro s fresh pid
    exact Bucket.chained_of_empty fresh.bucket
  · intro s a s' sound chain inOrder taken pid
    rcases Protocol.step_bucket taken with same | ⟨w, writes, appended⟩
    · exact same ▸ chain pid
    rw [appended]
    refine (chain pid).append _ _ _ fun live v key current puts => ?_
    subst key
    obtain ⟨accepted, authored⟩ := sound.writes writes
    have put : PutInOrder s.bucket w.key v := inOrder w writes v (by simp [puts, putValue])
    exact (authored.owner accepted puts put (chain w.key) current).1

theorem owner_changes_by_own_commit {s : StoreState A J} {a : Action (Tid A J) (Call A J)}
    {w : Write Pid Written} {v : Written} {live : Entry Written}
    (reached : Reachable (claimStore A J cfg) (InOrder cfg) s) (inOrder : InOrder cfg s a)
    (writes : (protocol A J cfg).writes s a = some w) (puts : w.op = .put v)
    (current : s.bucket.get w.key = some live) (changes : v.claim.owner ≠ live.value.claim.owner) :
    v.branch = .commit ∧ v.worker = v.claim.owner ∧
      Assigned s.locals.updated v.claim.owner w.key := by
  obtain ⟨accepted, authored⟩ := (sound reached).writes writes
  have put : PutInOrder s.bucket w.key v := inOrder w writes v (by simp [puts, putValue])
  obtain ⟨commit, own⟩ :=
    (authored.owner accepted puts put (owners_chained reached w.key) current).2 changes
  exact ⟨commit, own, own ▸ (authored.authored puts).committer commit⟩

end Runs

def ownCommit : Write Pid Written :=
  .update partitionP.subjectKey
    ⟨⟨preparedClaim.nextCommit 0, .commit, "B"⟩, some (preparedClaim, 2)⟩ 2

theorem owner_changes_by_own_commit_prepared :
    ∃ s live, Reachable (claimStore Bool Bool plainConfig) (InOrder plainConfig) s ∧
      (protocol Bool Bool plainConfig).writes s (.step (.job true 0) .served) = some ownCommit ∧
      s.bucket.get partitionP.subjectKey = some live ∧ live.value.claim.owner = "A" ∧
      (preparedClaim.nextCommit 0).owner = "B" ∧
      Assigned s.locals.updated "B" partitionP.subjectKey := by
  obtain ⟨s, reached, writes, inOrder, found⟩ : ∃ s,
      Reachable (claimStore Bool Bool plainConfig) (InOrder plainConfig) s ∧
      (protocol Bool Bool plainConfig).writes s (.step (.job true 0) .served) = some ownCommit ∧
      InOrder plainConfig s (.step (.job true 0) .served) ∧
      (s.bucket.get partitionP.subjectKey).map (fun e => e.value.claim.owner) = some "A" :=
    exists_reachable _ emptyStore_fresh (commitReadRun ++ [.step (.job true 0) .served]) _
      (by decide)
  obtain ⟨live, current, owner⟩ := map_eq_some_iff.mp found
  have changes : (preparedClaim.nextCommit 0).owner ≠ live.value.claim.owner := by
    rw [owner]
    decide
  exact ⟨s, live, reached, writes, current, owner, rfl,
    (owner_changes_by_own_commit reached inOrder writes rfl current changes).2.2⟩

def thirdWorkerRun : List (Action (Tid Nat Bool) (Call Nat Bool)) :=
  prepareSteps 0 "A" (assignmentOf 0 []) (assignmentOf 1 [partitionP]) ++
    prepareSteps 1 "B" (assignmentOf 0 []) (assignmentOf 2 [partitionP]) ++
    prepareSteps 2 "C" (assignmentOf 0 []) (assignmentOf 3 [partitionP]) ++
    updateSteps 1 ++ List.replicate 2 (.step (.job 1 0) .served)

def foreignCommit : Write Pid Written :=
  .update partitionP.subjectKey
    ⟨⟨(preparedClaim.nextPrepare "C" 0).nextCommit 0, .commit, "B"⟩,
      some (preparedClaim.nextPrepare "C" 0, 3)⟩ 3

theorem commit_promotes_third_worker :
    ∃ s a live, Reachable (claimStore Nat Bool plainConfig) Free s ∧
      (protocol Nat Bool plainConfig).writes s a = some foreignCommit ∧
      s.bucket.get partitionP.subjectKey = some live ∧ live.value.claim.owner = "A" ∧
      ((preparedClaim.nextPrepare "C" 0).nextCommit 0).owner = "C" ∧
      ¬ Assigned s.locals.updated "C" partitionP.subjectKey := by
  obtain ⟨s, reached, writes, found, updated⟩ : ∃ s,
      Reachable (claimStore Nat Bool plainConfig) Free s ∧
      (protocol Nat Bool plainConfig).writes s (.step (.job 1 0) .served) = some foreignCommit ∧
      (s.bucket.get partitionP.subjectKey).map (fun e => e.value.claim.owner) = some "A" ∧
      s.locals.updated.map Prod.fst = ["B"] :=
    exists_reachable _ emptyStore_fresh thirdWorkerRun _ (by decide)
  obtain ⟨live, current, owner⟩ := map_eq_some_iff.mp found
  refine ⟨s, .step (.job 1 0) .served, live, reached, writes, current, owner, rfl,
    fun assigned => ?_⟩
  have worker := assigned.worker
  rw [updated] at worker
  exact absurd worker (by decide)

end Parti.Handoff
