/-
# Calculator.Replay — what a replayed commit covers

A rebalance on a cached observation is skipped when the last commit provably covers it. The
last commit is the publisher's, and a lost race or a bootstrap replaces it by another
leader's; the snapshot it is compared with is the calculator's, and only an own publish
replaces it. `replay_sound` holds as long as what is inherited after a publish of this
calculator was computed from the same partitions; `replay_of_foreign_commit` is what happens
otherwise. Rebalances run one at a time, so a history is a sequence of whole publishes.
-/
import Mathlib.Data.List.Perm.Subperm
import Parti.Calculator.WorkerFloor

namespace Parti.Calculator.Rebalance

open Parti.Types Lib

/-- A calculator with its publisher, and the snapshot its last commit was computed from;
the snapshot is for the record. -/
structure Replay where
  cells : Calc Unit
  source : Option (List Partition)

/-- A commit that is read from the bucket, of another leader or an own one. -/
structure Foreign where
  view : CommitView
  source : List Partition

inductive Replay.Event where
  | published (r : Run) (parked : List Partition)
  | failed (r : Run)
  /-- A lost race, with the reseed from the winner's commit. -/
  | lost (r : Run) (winner : Foreign)
  | bootstrapped (commit : Foreign)

def Replay.inherit (s : Replay) (commit : Foreign) : Replay :=
  ⟨{ s.cells with lastCommit := some commit.view }, some commit.source⟩

def Replay.step (s : Replay) : Replay.Event → Option Replay
  | .published r parked =>
    let c := (publishStep s.cells r parked .ok).1
    some ⟨{ c with lastPublishedPartitions := some r.partitions }, some r.partitions⟩
  | .failed r => some { s with cells := (publishStep s.cells r [] .failed).1 }
  | .lost r winner =>
    some (Replay.inherit { s with cells := (publishStep s.cells r [] .failed).1 } winner)
  | .bootstrapped commit => some (s.inherit commit)

def replaySystem : System Replay Replay.Event where
  init s := s.cells.lastCommit = none ∧ s.cells.lastPublishedPartitions = none
  step := Replay.step

def Run.Revised (content : Nat → List Partition) (r : Run) : Prop :=
  r.srcKnown = true → r.partitions = content r.srcRev

/-- Known revisions stand for their content, and a commit that is inherited after a publish was
computed from what was published. -/
def InheritsSame (content : Nat → List Partition) (s : Replay) : Replay.Event → Prop
  | .published r _ => r.Revised content
  | .failed _ => True
  | .lost _ commit | .bootstrapped commit =>
    (∀ p ∈ s.cells.lastPublishedPartitions, commit.source = p) ∧
      (commit.view.sourceRevisionKnown = true →
        commit.source = content commit.view.sourceRevision)

structure Agrees (content : Nat → List Partition) (s : Replay) : Prop where
  known : ∀ v ∈ s.cells.lastCommit, v.sourceRevisionKnown = true →
    s.source = some (content v.sourceRevision)
  own : ∀ p ∈ s.cells.lastPublishedPartitions, s.source = some p

variable {content : Nat → List Partition} {s s' : Replay}

theorem Agrees.inherit {commit : Foreign}
    (same : ∀ p ∈ s.cells.lastPublishedPartitions, commit.source = p)
    (revised : commit.view.sourceRevisionKnown = true →
      commit.source = content commit.view.sourceRevision) :
    Agrees content (s.inherit commit) where
  known v is known := by
    cases is
    exact congrArg some (revised known)
  own p is := congrArg some (same p is)

theorem Agrees.step {e} (agrees : Agrees content s)
    (ok : InheritsSame content s e) (taken : s.step e = some s') : Agrees content s' := by
  cases e with
  | published r parked =>
    cases taken
    refine ⟨fun v is known => ?_, fun p is => is⟩
    cases is
    exact congrArg some (ok known)
  | failed r =>
    cases taken
    exact agrees
  | lost r winner =>
    cases taken
    exact .inherit ok.1 ok.2
  | bootstrapped commit =>
    cases taken
    exact .inherit ok.1 ok.2

theorem replay_sound (reached : Reachable replaySystem (InheritsSame content) s) {r : Run}
    (revised : r.Revised content) (replays : cachedObservationReplayable s.cells r = true) :
    ∃ v, s.cells.lastCommit = some v ∧ v.workers.Perm r.workers.1 ∧ s.source = some r.partitions := by
  have agrees : Agrees content s := by
    refine reached.invariant (fun s fresh => ⟨?_, ?_⟩) fun _ _ _ agrees ok taken =>
      agrees.step ok taken
    · simp [fresh.1]
    · simp [fresh.2]
  unfold cachedObservationReplayable at replays
  split at replays
  next => cases replays
  next v commit =>
    simp only [Bool.and_eq_true, Bool.or_eq_true, decide_eq_true_eq, List.all_eq_true] at replays
    obtain ⟨⟨count, all⟩, source⟩ := replays
    have sub : r.workers.1.Subperm v.workers := List.subperm_of_subset r.workers.2 all
    refine ⟨v, commit, (sub.perm_of_length_le count.le).symm, ?_⟩
    obtain ⟨⟨known, committed⟩, same⟩ | same := source
    · rw [agrees.known v commit committed, ← same, ← revised known]
    · exact agrees.own _ same

/-- A cached observation of one worker and one partition, at an unknown revision. -/
def cachedRun : Run where
  lifecycle := .partitionUpdate
  deathsConfirmed := false
  workers := ⟨[[97]], nodup_a⟩
  fresh := false
  partitions := [⟨[[112]], 0, []⟩]
  srcRev := 0
  srcKnown := false

/-- The commit of another leader for the same worker and another partition. -/
def foreignCommit : Foreign := ⟨⟨[[97]], 0, false⟩, [⟨[[113]], 0, []⟩]⟩

def unpublished : Replay := ⟨emptyCalc, none⟩

theorem replay_sound_published :
    ∃ s, Reachable replaySystem (InheritsSame fun _ => []) s ∧
      cachedObservationReplayable s.cells cachedRun = true ∧
      s.source = some cachedRun.partitions := by
  have unknown {r : Run} (is : r.srcKnown = false) : r.Revised fun _ => [] := by
    simp [Run.Revised, is]
  have published : Reachable replaySystem (InheritsSame fun _ => []) _ :=
    Reachable.next (a := .published cachedRun []) (.initial (s := unpublished) ⟨rfl, rfl⟩)
      (unknown rfl) rfl
  have reached : Reachable replaySystem (InheritsSame fun _ => []) _ :=
    Reachable.next (a := .bootstrapped ⟨⟨[[97]], 0, false⟩, cachedRun.partitions⟩) published
      (And.intro (fun p is => Option.some.inj is) fun known => by cases known) rfl
  obtain ⟨_, _, _, source⟩ := replay_sound reached (unknown rfl) (r := cachedRun) (by decide)
  exact ⟨_, reached, by decide, source⟩

/-- After an own publish the race for the next one is lost to a commit for another
partition. The cached observation of the first publish is still taken to be covered. -/
theorem replay_of_foreign_commit :
    (replaySystem.run unpublished [.published cachedRun [], .lost cachedRun foreignCommit]).map
        (fun s => (cachedObservationReplayable s.cells cachedRun, s.source)) =
      some (true, some foreignCommit.source) ∧
    foreignCommit.source ≠ cachedRun.partitions := by
  decide

end Parti.Calculator.Rebalance
