/-
# Assignment.CommitCoverage — what the payloads of a commit cover

`checkCoverage` looks at every entry of the assignment map; payloads and
references are built for the listed workers only. A slice the map holds for a
worker that is not listed passes the check and reaches no payload.

* `commit_covers_iff`: at every write of `_commit` the payloads of its workers, with
  the parked partitions, are the source, each partition once, if and only if every
  worker with a non-empty slice is listed.
* `unlisted_slice_uncovered`: a batch that commits a source partition into no
  payload.
-/
import Parti.Assignment.Invariant

namespace Parti.Assignment

open Parti.Types Lib List Partition
open Lib.Kv (Bucket Entry Write Op)
open Lib.Client (Request Answer Action Reply)

/-- The ids in the payloads of the commit's workers, worker by worker. -/
def payloadIDs (batch : Batch) (commit : AssignmentCommit) : List GoString :=
  commit.workers.dedup.flatMap fun worker =>
    (((batch.payloads.lookup worker).map AssignmentPayload.partitions).getD []).map
      canonicalID

/-- Payloads and parked partitions make up the source, each partition once among
the payloads. -/
def CoversSource (batch : Batch) (commit : AssignmentCommit) : Prop :=
  (payloadIDs batch commit).Nodup ∧
    (∀ id ∈ payloadIDs batch commit,
      id ∈ batch.input.sourcePartitions.map canonicalID) ∧
    (∀ id ∈ batch.input.parkedPartitions.map canonicalID,
      id ∈ batch.input.sourcePartitions.map canonicalID) ∧
    ∀ id ∈ batch.input.sourcePartitions.map canonicalID,
      id ∈ payloadIDs batch commit ∨
        id ∈ batch.input.parkedPartitions.map canonicalID

instance (batch : Batch) (commit : AssignmentCommit) : Decidable (CoversSource batch commit) :=
  inferInstanceAs (Decidable (_ ∧ _))

/-- Every worker the map gives a partition to is listed. -/
def SlicesListed (input : PublishInput) : Prop :=
  ∀ slice ∈ input.assignments.entries, slice.2 ≠ [] → slice.1 ∈ input.workers

/-! ## The map against the list -/

section Slices

variable {α β γ : Type}

theorem flatMap_owner {f} {xs : List α} (nodup : (xs.flatMap f).Nodup) {x y : α}
    (hx : x ∈ xs) (hy : y ∈ xs) {a : γ} (ax : a ∈ f x) (ay : a ∈ f y) : x = y := by
  induction xs with
  | nil => cases hx
  | cons head rest ih =>
    rw [flatMap_cons, nodup_append] at nodup
    obtain ⟨_, restNodup, apart⟩ := nodup
    have crossed : ∀ {z : α}, z ∈ rest → a ∈ f head → a ∈ f z → False := fun member here there =>
      apart a here a (mem_flatMap.mpr ⟨_, member, there⟩) rfl
    rcases mem_cons.mp hx with rfl | laterX
    · rcases mem_cons.mp hy with rfl | laterY
      · rfl
      · exact (crossed laterY ax ay).elim
    · rcases mem_cons.mp hy with rfl | laterY
      · exact (crossed laterX ay ax).elim
      · exact ih restNodup laterX laterY

theorem flatMap_nodup_of_owner {f : β → List γ} {xs : List β} (distinct : xs.Nodup)
    (blocks : ∀ x ∈ xs, (f x).Nodup)
    (owner : ∀ x ∈ xs, ∀ y ∈ xs, ∀ a, a ∈ f x → a ∈ f y → x = y) : (xs.flatMap f).Nodup := by
  rw [nodup_flatMap]
  refine ⟨blocks, distinct.imp_of_mem fun {x y} hx hy differ a ax ay => ?_⟩
  exact differ (owner x hx y hy a ax ay)

end Slices

def sliceIDs (input : PublishInput) (worker : String) : List GoString :=
  ((input.assignments.lookup worker).getD []).map canonicalID

variable {input : PublishInput} {id : GoString}

theorem mem_sliceIDs {worker : String} :
    id ∈ sliceIDs input worker ↔
      ∃ slice ∈ input.assignments.entries, slice.1 = worker ∧
        id ∈ slice.2.map canonicalID := by
  unfold sliceIDs
  constructor
  · intro member
    cases found : input.assignments.lookup worker with
    | none => simp [found] at member
    | some parts =>
      rw [found, Option.getD_some] at member
      exact ⟨⟨worker, parts⟩, AList.mem_lookup_iff.mp found, rfl, member⟩
  · rintro ⟨⟨worker', parts⟩, entry, rfl, member⟩
    rw [AList.mem_lookup_iff.mpr entry]
    exact member

theorem mem_coveredIDs :
    id ∈ coveredIDs input.assignments input.parkedPartitions ↔
      (∃ slice ∈ input.assignments.entries, id ∈ slice.2.map canonicalID) ∨
        id ∈ input.parkedPartitions.map canonicalID := by
  rw [coveredIDs, map_append, mem_append, unionPartitions, map_flatMap,
    mem_flatMap]

/-- With a passing check, the listed slices and the parked partitions are the
source exactly when every non-empty slice is listed. -/
theorem listed_cover_iff {workers : List String} (same : ∀ w, w ∈ workers ↔ w ∈ input.workers)
    (passed : checkCoverage input.sourcePartitions input.assignments input.parkedPartitions =
      .ok ()) :
    ((workers.dedup.flatMap (sliceIDs input)).Nodup ∧
      (∀ id ∈ workers.dedup.flatMap (sliceIDs input),
        id ∈ input.sourcePartitions.map canonicalID) ∧
      (∀ id ∈ input.parkedPartitions.map canonicalID,
        id ∈ input.sourcePartitions.map canonicalID) ∧
      ∀ id ∈ input.sourcePartitions.map canonicalID,
        id ∈ workers.dedup.flatMap (sliceIDs input) ∨
          id ∈ input.parkedPartitions.map canonicalID) ↔ SlicesListed input := by
  obtain ⟨nodup, covered⟩ := (checkCoverage_ok_iff _ _ _).mp passed
  rw [coveredIDs, map_append, nodup_append] at nodup
  obtain ⟨unionNodup, _, apart⟩ := nodup
  rw [unionPartitions, map_flatMap] at unionNodup apart
  -- an id belongs to one slice of the map
  have owner : ∀ {w w' : String} {id : GoString}, id ∈ sliceIDs input w →
      id ∈ sliceIDs input w' → w = w' := by
    intro w w' id here there
    obtain ⟨slice, entry, rfl, member⟩ := mem_sliceIDs.mp here
    obtain ⟨slice', entry', rfl, member'⟩ := mem_sliceIDs.mp there
    exact congrArg Sigma.fst (flatMap_owner unionNodup entry entry' member member')
  constructor
  · rintro ⟨_, _, _, complete⟩ slice entry nonempty
    obtain ⟨part, inSlice⟩ := exists_mem_of_ne_nil _ nonempty
    have isID : part.canonicalID ∈ slice.2.map canonicalID :=
      mem_map.mpr ⟨part, inSlice, rfl⟩
    have inSource := (covered _).mp (mem_coveredIDs.mpr (.inl ⟨slice, entry, isID⟩))
    rcases complete _ inSource with listed | parked
    · obtain ⟨w, member, here⟩ := mem_flatMap.mp listed
      have one := owner here (mem_sliceIDs.mpr ⟨slice, entry, rfl, isID⟩)
      exact one ▸ (same w).mp (mem_dedup.mp member)
    · exact absurd rfl (apart _ (mem_flatMap.mpr ⟨slice, entry, isID⟩) _ parked)
  · intro listed
    refine ⟨?_, fun id member => ?_, fun id member => ?_, fun id member => ?_⟩
    · refine flatMap_nodup_of_owner (nodup_dedup _) (fun w _ => ?_)
        fun w _ w' _ id here there => owner here there
      unfold sliceIDs
      cases found : input.assignments.lookup w with
      | none => simp
      | some parts =>
        exact (nodup_flatMap.mp unionNodup).1 ⟨w, parts⟩ (AList.mem_lookup_iff.mp found)
    · obtain ⟨w, _, here⟩ := mem_flatMap.mp member
      obtain ⟨slice, entry, _, isID⟩ := mem_sliceIDs.mp here
      exact (covered id).mp (mem_coveredIDs.mpr (.inl ⟨slice, entry, isID⟩))
    · exact (covered id).mp (mem_coveredIDs.mpr (.inr member))
    · rcases mem_coveredIDs.mp ((covered id).mpr member) with ⟨slice, entry, isID⟩ | parked
      · have nonempty : slice.2 ≠ [] := by
          intro empty
          simp [empty] at isID
        have inWorkers := (same slice.1).mpr (listed slice entry nonempty)
        exact .inl (mem_flatMap.mpr ⟨slice.1, mem_dedup.mpr inWorkers,
          mem_sliceIDs.mpr ⟨slice, entry, rfl, isID⟩⟩)
      · exact .inr parked

/-! ## The batch a `Publish` call builds -/

/-- The check passed, and each listed worker is still to do or has its payload
and a reference to it. -/
structure Built (codec : Codec) (batch : Batch) (todo : List String) : Prop where
  passed : checkCoverage batch.input.sourcePartitions batch.input.assignments
    batch.input.parkedPartitions = .ok ()
  done : ∀ worker ∈ batch.input.workers, worker ∈ todo ∨
    (batch.payloads.lookup worker = some (buildPayload batch.input worker) ∧
      ∃ revision, batch.refs.lookup worker =
        some (codec.payloadRef (buildPayload batch.input worker) revision))

def BuiltAt (codec : Codec) : PublishPc → Prop
  | .create batch todo _ | .verifyBack batch todo _ | .touch batch todo _ _ =>
    Built codec batch todo
  | .preAlias batch | .classify batch | .aliasBarrier batch _ _ _ | .postAlias batch _ =>
    Built codec batch []
  | .shutdownGate batch _ commit | .cas batch _ commit =>
    Built codec batch [] ∧ ∃ rev now, commit = batch.commit codec rev now
  | .bestEffort _ _ | .ensureView _ | .reseed _ => True

section Programs

variable {codec : Codec}

variable {batch : Batch} {pc pc' : PublishPc} {pub pub' : Publisher} {r : PublishProgress}

theorem BuiltAt.job {todo} (job : pc.payloadJob = some (batch, todo)) :
    BuiltAt codec pc ↔ Built codec batch todo := by
  cases PublishPc.writes job <;> exact Iff.rfl

theorem BuiltAt.fence (fence : pc.fence = some batch) :
    BuiltAt codec pc ↔ Built codec batch [] := by
  cases PublishPc.fences fence <;> exact Iff.rfl

theorem startBatch_built {input} (waits : (startBatch pub input).pc? = some pc) :
    BuiltAt codec pc := by
  unfold startBatch at waits
  split at waits
  · cases waits
  next passed =>
    cases waits
    refine ⟨passed, fun worker member => .inl ?_⟩
    exact (perm_insertionSort _ _).mem_iff.mpr member

theorem Built.addRef {worker : String} {rest}
    (built : Built codec batch (worker :: rest)) (revision : Nat) :
    Built codec (batch.addRef codec worker revision) rest where
  passed := built.passed
  done := fun w member => by
    by_cases same : w = worker
    · subst same
      exact .inr ⟨AList.lookup_insert _, revision, AList.lookup_insert _⟩
    · rcases built.done w member with todo | ⟨payload, rev, ref⟩
      · exact .inl ((mem_cons.mp todo).resolve_left same)
      · refine .inr ⟨?_, rev, ?_⟩
        · exact (AList.lookup_insert_ne same).trans payload
        · exact (AList.lookup_insert_ne same).trans ref

theorem publishResume_built {answer} (built : BuiltAt codec pc)
    (ran : publishResume codec pub pc answer = some (pub', r)) (waits : r.pc? = some pc') :
    BuiltAt codec pc' := by
  cases publishResume_resumed ran with
  | started input seen winner decoded => exact startBatch_built waits
  | referenced pc batch worker rest revision job =>
    cases waits
    exact ((BuiltAt.job job).mp built).addRef revision
  | retried pc next answer batch todo job job' =>
    cases waits
    exact (BuiltAt.job job').mpr ((BuiltAt.job job).mp built)
  | aliased batch legacy todo todo' attempt attempt' answer =>
    cases waits
    exact built
  | committed | lost | bestEffort =>
    cases waits
    trivial
  | reseeded | gaveUp => cases waits

theorem publishProceed_built {at_ : Int} {choice : Choice} (built : BuiltAt codec pc)
    (ran : publishProceed codec pub at_ pc choice = some (pub', r)) (waits : r.pc? = some pc') :
    BuiltAt codec pc' := by
  cases publishProceed_proceeded ran with
  | registered | opened =>
    cases waits
    exact built
  | passed pc next batch fence fence' =>
    cases waits
    exact (BuiltAt.fence fence').mpr ((BuiltAt.fence fence).mp built)
  | built batch legacy =>
    cases waits
    exact ⟨built, _, _, rfl⟩
  | returned pc pub' result same => cases waits

end Programs

section Cluster

variable {P T : Type}

theorem payloadIDs_perm {codec : Codec} {batch : Batch} (built : Built codec batch [])
    (rev : Nat) (now : Int) :
    (payloadIDs batch (batch.commit codec rev now)).Perm
      (batch.sortedWorkers.dedup.flatMap (sliceIDs batch.input)) := by
  refine List.Perm.flatMap_left _ fun worker member => ?_
  have listed : worker ∈ batch.input.workers :=
    (perm_insertionSort _ _).mem_iff.mp (mem_dedup.mp member)
  obtain ⟨payload, _⟩ := (built.done worker listed).resolve_left (by simp)
  rw [payload]
  exact (perm_insertionSort _ _).map _

variable [DecidableEq P] [DecidableEq T]

theorem built_of_reachable {cfg : Config T} {s : ClusterState P T}
    (reached : Reachable (cluster P cfg) Free s) {t : T} {p : P} {batch : Batch}
    {legacy : List String} {commit : AssignmentCommit}
    (writes : s.locals.threads t = some (p, .publish (.cas batch legacy commit))) :
    Built cfg.codec batch [] ∧ ∃ rev now, commit = batch.commit cfg.codec rev now := by
  have start (pub : Publisher) (input : PublishInput) (pc : PublishPc)
      (waits : (beginPublish pub input).pc? = some pc) : BuiltAt cfg.codec pc := by
    rcases beginPublish_pc waits with rfl | started
    · trivial
    · exact startBatch_built started
  exact publish_invariant (Q := fun _ pc => BuiltAt cfg.codec pc) start
    (fun _ _ _ _ _ _ built _ ran _ => publishResume_built built ran)
    (fun _ _ _ _ _ _ built ran _ => publishProceed_built built ran) reached writes

theorem commit_covers_iff (cfg : Config T) {s : ClusterState P T}
    (reached : Reachable (cluster P cfg) Free s) {t : T} {p : P} {batch : Batch}
    {legacy : List String} {commit : AssignmentCommit}
    (writes : s.locals.threads t = some (p, .publish (.cas batch legacy commit))) :
    (∀ worker ∈ commit.workers, ∃ payload revision,
      batch.payloads.lookup worker = some payload ∧
        commit.payloads.lookup worker = some (cfg.codec.payloadRef payload revision)) ∧
      (CoversSource batch commit ↔ SlicesListed batch.input) := by
  obtain ⟨built, rev, now, rfl⟩ := built_of_reachable reached writes
  have sorted : ∀ w, w ∈ batch.sortedWorkers ↔ w ∈ batch.input.workers :=
    fun w => (perm_insertionSort _ _).mem_iff
  constructor
  · intro worker member
    obtain ⟨payload, revision, ref⟩ :=
      (built.done worker ((sorted worker).mp member)).resolve_left (by simp)
    exact ⟨_, revision, payload, ref⟩
  · have perm := payloadIDs_perm built rev now
    rw [CoversSource, ← listed_cover_iff sorted built.passed, perm.nodup_iff]
    simp only [perm.mem_iff]

end Cluster

/-! ## Two batches -/

def committing {P T : Type} (l : Locals P T) (t : T) :
    Option (P × Batch × List String × AssignmentCommit) :=
  match l.threads t with
  | some (p, .publish (.cas batch legacy commit)) => some (p, batch, legacy, commit)
  | _ => none

theorem committing_eq_some {P T : Type} {l} {t : T} {p : P} {batch : Batch} {legacy} {commit}
    (found : committing l t = some (p, batch, legacy, commit)) :
    l.threads t = some (p, .publish (.cas batch legacy commit)) := by
  unfold committing at found
  split at found
  next at_ =>
    cases found
    exact at_
  next => cases found

/-- The map gives the only partition to a worker that is not listed. -/
def strayInput : PublishInput :=
  batchInput ["w"] (AList.insert "x" [partitionA] (AList.insert "w" [] ∅)) [partitionA]

def commitRun (input : PublishInput) : List (Action Unit (Call Unit Unit)) :=
  payloadSteps () () input ++ fenceSteps Unit ()

set_option maxRecDepth 4000 in
theorem commit_covers_iff_solo :
    ∃ (s : ClusterState Unit Unit) (batch : Batch) (legacy : List String)
        (commit : AssignmentCommit), Reachable (cluster Unit (plainConfig Unit)) Free s ∧
      s.locals.threads () = some ((), .publish (.cas batch legacy commit)) ∧
      CoversSource batch commit ∧ (CoversSource batch commit ↔ SlicesListed batch.input) := by
  obtain ⟨s, ran, ⟨p, batch, legacy, commit⟩, found, covers⟩ :
      ∃ s ∈ (cluster Unit (plainConfig Unit)).run (emptyCluster Unit Unit) (commitRun soloInput),
        ∃ found ∈ committing s.locals (), CoversSource found.2.1 found.2.2.2 := by decide
  have reached : Reachable (cluster Unit (plainConfig Unit)) Free s :=
    run_reachable emptyCluster_fresh ran
  have writes := committing_eq_some found
  exact ⟨s, batch, legacy, commit, reached, writes, covers,
    (commit_covers_iff _ reached writes).2⟩

set_option maxRecDepth 4000 in
theorem unlisted_slice_uncovered :
    ∃ (s : ClusterState Unit Unit) (batch : Batch) (legacy : List String)
        (commit : AssignmentCommit), Reachable (cluster Unit (plainConfig Unit)) Free s ∧
      s.locals.threads () = some ((), .publish (.cas batch legacy commit)) ∧
      ¬ CoversSource batch commit := by
  obtain ⟨s, ran, ⟨p, batch, legacy, commit⟩, found, uncovered⟩ :
      ∃ s ∈ (cluster Unit (plainConfig Unit)).run (emptyCluster Unit Unit) (commitRun strayInput),
        ∃ found ∈ committing s.locals (), ¬CoversSource found.2.1 found.2.2.2 := by decide
  exact ⟨s, batch, legacy, commit, run_reachable emptyCluster_fresh ran,
    committing_eq_some found, uncovered⟩

end Parti.Assignment
