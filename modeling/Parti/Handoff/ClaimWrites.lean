/-
# Handoff.ClaimWrites — what a successful `PutIfEpoch` replaces

`PutIfEpoch` compares the epoch of the claim it re-reads with the epoch of the
claim the transform was given. The writes of the three phases raise the epoch. The
expiry resets of the sweep and of startup hygiene keep it on purpose, and so does the
commit phase over a claim that is already committed; a reaped claim starts again from
epoch one.

`put_replaces_given` is what the comparison does give: the absence of a claim
exactly, the epoch always, and the whole claim if none of those writes came in
between. `expiry_reset_overwritten` is a run in which a commit replaces the reset
of a sweep, having been computed from the claim before the reset.
-/
import Parti.Lib.History
import Parti.Handoff.Provenance

namespace Parti.Handoff

open Parti.Types Lib
open Lib.Kv (Bucket Entry Write Op)
open Lib.Client (Protocol State Action)

def putValue : Op Written → Option Written
  | .put v => some v
  | .delete => none

def advances : Op Written → Bool
  | .put w => !w.branch.keepsEpoch
  | .delete => false

theorem WriteSound.replaces {b} {u} {w} {v} (sound : WriteSound b u w)
    (accepted : b.accepts w = true) (puts : w.op = .put v) :
    (v.given = none ∧ b.get w.key = none) ∨
      ∃ c n live, v.given = some (c, n) ∧ b.get w.key = some live ∧
        live.value.claim.epoch = c.epoch ∧ Follows c v.toDraft ∧
        ∃ e, b.Stored w.key e ∧ e.revision = n ∧ e.value.claim = c := by
  cases w with
  | create pid v' =>
    cases puts
    exact .inl ⟨sound.2, Bucket.accepts_create.mp accepted⟩
  | update pid v' revision =>
    cases puts
    obtain ⟨authored, ⟨c, n, live, given, _, stored, at_, epoch⟩⟩ := sound
    obtain ⟨follows, old⟩ := authored.changed c n given
    have current := stored.get_of_lastRevision (at_ ▸ Bucket.accepts_update.mp accepted)
    exact .inr ⟨c, n, live, given, current, epoch, follows, old⟩
  | delete pid revision => cases puts
  | put | remove => exact sound.elim

section Runs

variable {A J : Type} [DecidableEq A] [DecidableEq J] {cfg : Config}

theorem Sound.writes {s} {a}
    {w} (sound : Sound s) (writes : (protocol A J cfg).writes s a = some w) :
    s.bucket.accepts w = true ∧ WriteSound s.bucket s.locals.updated w := by
  obtain ⟨accepted, ⟨t, asked⟩ | pending⟩ := Protocol.writes_eq_some writes
  · obtain ⟨j, at_, asked⟩ := requestOf_write asked
    exact ⟨accepted, (sound.jobs.jobAt at_).asks asked⟩
  · exact ⟨accepted, sound.pending w pending⟩

/-- A value written over another raises the epoch, unless it is of a kind that
keeps it. -/
def Raises (v v' : Written) : Prop :=
  v'.branch.keepsEpoch = false → v.claim.epoch < v'.claim.epoch

theorem epochs_chained {ok} {s} (reached : Reachable (claimStore A J cfg) ok s) (pid : Pid) :
    s.bucket.Chained Raises pid := by
  refine Reachable.invariant_with (K := Sound) (I := fun s => s.bucket.Chained Raises pid)
    (fun _ reached => sound reached) ?_ ?_ reached
  · intro s fresh
    exact Bucket.chained_of_empty fresh.bucket
  · intro s a s' sound chain _ taken
    rcases Protocol.step_bucket taken with same | ⟨w, writes, appended⟩
    · exact same ▸ chain
    rw [appended]
    refine chain.append _ _ _ fun live v key current puts advance => ?_
    obtain ⟨accepted, authored⟩ := sound.writes writes
    rcases authored.replaces accepted puts with ⟨_, absent⟩ | ⟨c, n, live', _, found, epoch, follows, _⟩
    · rw [key, current] at absent
      cases absent
    · rw [key, current, Option.some.injEq] at found
      subst found
      have raised := follows.epoch
      simp only [advance, Bool.false_eq_true, if_false] at raised
      omega

theorem raises_path {v v'}
    (path : Relation.TransGen (fun v v' => Raises v v' ∧ v'.branch.keepsEpoch = false) v v') :
    v.claim.epoch < v'.claim.epoch := by
  induction path with
  | single step => exact step.1 step.2
  | tail _ step ih => exact ih.trans (step.1 step.2)

theorem put_replaces_given {s : StoreState A J} {a : Action (Tid A J) (Call A J)}
    {w : Write Pid Written} {v : Written} (reached : Reachable (claimStore A J cfg) Free s)
    (writes : (protocol A J cfg).writes s a = some w) (puts : w.op = .put v) :
    (v.given = none → s.bucket.get w.key = none) ∧
    ∀ c n, v.given = some (c, n) → ∃ live, s.bucket.get w.key = some live ∧
      live.value.claim.epoch = c.epoch ∧
      ((∀ r ∈ s.bucket.log, r.key = w.key → n < r.revision → advances r.op = true) →
        live.value.claim = c) := by
  obtain ⟨accepted, authored⟩ := (sound reached).writes writes
  rcases authored.replaces accepted puts with ⟨none_, absent⟩ |
    ⟨c, n, live, given, current, epoch, _, e, stored, revision, claim⟩
  · exact ⟨fun _ => absent, fun c n given => by simp [none_] at given⟩
  refine ⟨fun none_ => by simp [given] at none_, fun c' n' given' => ?_⟩
  rw [given, Option.some.injEq, Prod.mk.injEq] at given'
  obtain ⟨rfl, rfl⟩ := given'
  refine ⟨live, current, epoch, fun undisturbed => ?_⟩
  have span := (epochs_chained reached w.key).span
    (Q := fun v => v.branch.keepsEpoch = false) stored current fun r member key newer => by
      have advance := undisturbed r member key (revision ▸ newer)
      cases op : r.op with
      | delete => simp [advances, op] at advance
      | put v' => exact ⟨v', rfl, by simpa [advances, op] using advance⟩
  rcases span with rfl | path
  · exact claim
  · have raised := raises_path path
    rw [claim, epoch] at raised
    exact absurd raised (lt_irrefl _)

def replacement (cfg : Config) (s : StoreState A J) (a : Action (Tid A J) (Call A J)) :
    Option (Option Claim × Option Claim) :=
  ((protocol A J cfg).writes s a).bind fun w =>
    match w.op with
    | .put v => some (v.given.map Prod.fst, (s.bucket.get w.key).map fun e => e.value.claim)
    | .delete => none

end Runs

/-- Worker A creates the claim of the partition, B prepares it, updates its
consumer and reads the claim for its commit. -/
def commitReadRun : List (Action (Tid Bool Bool) (Call Bool Bool)) :=
  prepareSteps false "A" (assignmentOf 0 []) (assignmentOf 1 [partitionP]) ++
    prepareSteps true "B" (assignmentOf 0 []) (assignmentOf 2 [partitionP]) ++
    updateSteps true ++ [.step (.job true 0) .served]

def preparedClaim : Claim := (newInitialClaim partitionP.subjectKey "A" 0 1).nextPrepare "B" 0

theorem put_replaces_given_commit :
    ∃ s live, Reachable (claimStore Bool Bool plainConfig) Free s ∧
      (protocol Bool Bool plainConfig).writes s (.step (.job true 0) .served) =
        some (.update partitionP.subjectKey
          ⟨⟨preparedClaim.nextCommit 0, .commit, "B"⟩, some (preparedClaim, 2)⟩ 2) ∧
      s.bucket.get partitionP.subjectKey = some live ∧ live.value.claim = preparedClaim := by
  obtain ⟨s, reached, writes, later⟩ : ∃ s, Reachable (claimStore Bool Bool plainConfig) Free s ∧
      (protocol Bool Bool plainConfig).writes s (.step (.job true 0) .served) =
        some (.update partitionP.subjectKey
          ⟨⟨preparedClaim.nextCommit 0, .commit, "B"⟩, some (preparedClaim, 2)⟩ 2) ∧
      ∀ r ∈ s.bucket.log, r.key = partitionP.subjectKey → 2 < r.revision →
        advances r.op = true :=
    exists_reachable _ emptyStore_fresh (commitReadRun ++ [.step (.job true 0) .served]) _
      (by decide)
  obtain ⟨live, current, _, same⟩ := (put_replaces_given reached writes rfl).2 preparedClaim 2 rfl
  exact ⟨s, live, reached, writes, current, same later⟩

/-- The same, with a sweep that resets the expired claim between B's read and the
read inside its put. -/
def expiryRun : List (Action (Tid Bool Bool) (Call Bool Bool)) :=
  commitReadRun ++
    .call (.start false partitionP.subjectKey .sweep 2000000000) ::
    List.replicate 3 (.step (.task false) .served) ++ [.step (.job true 0) .served]

theorem expiry_reset_overwritten :
    ∃ s a given live, Reachable (claimStore Bool Bool plainConfig) Free s ∧
      replacement plainConfig s a = some (given, live) ∧ given ≠ live := by
  obtain ⟨s, reached, result⟩ : ∃ s, Reachable (claimStore Bool Bool plainConfig) Free s ∧
      replacement plainConfig s (.step (.job true 0) .served) =
        some (some preparedClaim, some (preparedClaim.reset 2000000000)) :=
    exists_reachable _ emptyStore_fresh expiryRun _ (by decide)
  exact ⟨s, _, _, _, reached, result, by decide⟩

end Parti.Handoff
