/-
# Assignment.CommitVersion — no version is committed twice

The revision a publisher conditions its commit on and the version it proposes
live in one process; the winner of a race lives in the bucket. `Seen` ties them
together: the commit stored under the revision a publisher has observed has at most
the version it has observed. A stale read can lower the revision, never the version.

* `commit_versions_rise`: in every run of any number of publishers, the versions
  stored under `_commit` strictly increase from write to write.
-/
import Parti.Assignment.Invariant

namespace Parti.Assignment

open Parti.Types Lib List
open Lib.Kv (Bucket Entry Write Op)
open Lib.Client (Request Answer Action Reply Told)

variable {P T : Type} [DecidableEq P] [DecidableEq T]

def CommitAt (b : Bucket Key Value) (rev : Nat) (c : AssignmentCommit) : Prop :=
  ∃ created, b.Stored .commit ⟨.commit c, rev, created⟩

/-- What a publisher that observed revision `rev` and version `version` knows. -/
def Seen (b : Bucket Key Value) (rev : Nat) (version : Int) : Prop :=
  rev = 0 ∨ ∃ c, CommitAt b rev c ∧ c.version ≤ version

/-- `_commit` is never deleted, always decodes, and its version only rises. -/
structure Rising (b : Bucket Key Value) : Prop where
  decodes : ∀ r ∈ b.log, r.key = .commit → ∃ c, r.op = .put (.commit c)
  rises : ∀ rev rev' c c', CommitAt b rev c → CommitAt b rev' c' → rev < rev' →
    c.version < c'.version

/-- A write of `_commit` either needs the key absent, or is conditioned on the
revision of a commit with a smaller version. -/
def CommitWrite (b : Bucket Key Value) (w : Write Key Value) : Prop :=
  w.key = .commit → ∃ c, w = .create .commit (.commit c) ∨
    ∃ rev c', w = .update .commit (.commit c) rev ∧ CommitAt b rev c' ∧ c'.version < c.version

/-- A batch proposes the version after the one its publisher observed. -/
def Proposes (pub : Publisher) : PublishPc → Prop
  | .create batch _ _ | .verifyBack batch _ _ | .touch batch _ _ _ | .preAlias batch
  | .classify batch | .aliasBarrier batch _ _ _ | .postAlias batch _ =>
    batch.proposedVersion = pub.currentVersion + 1
  | .shutdownGate batch _ commit | .cas batch _ commit =>
    batch.proposedVersion = pub.currentVersion + 1 ∧ commit.version = batch.proposedVersion
  | .bestEffort _ todo => ∀ w ∈ todo, w.key ≠ .commit
  | .ensureView _ | .reseed _ => True

def DeletesPayloads : SweepPc → Prop
  | .visit todo _ => ∀ key ∈ todo, Key.isPayload key = true
  | .recheck todo _ key _ | .delete todo _ key _ =>
    Key.isPayload key = true ∧ ∀ key ∈ todo, Key.isPayload key = true
  | _ => True

def versionPieces : Piecewise T where
  bucket b _ := Rising b
  write b _ w := CommitWrite b w
  pub b _ pub := Seen b pub.lastCommitRev pub.currentVersion
  publish _ _ pub pc := Proposes pub pc
  discover b _
    | .seed _ revision commit => CommitAt b revision commit
    | _ => True
  bootstrap b _
    | .seed revision commit => CommitAt b revision commit
    | _ => True
  sweep _ _ _ pc := DeletesPayloads pc

section Buckets

variable {b : Bucket Key Value}

variable {rev : Nat} {c : AssignmentCommit} {version now : Int}

theorem CommitAt.append (stored : CommitAt b rev c) (k : Key) (op : Op Value) (now : Int) :
    CommitAt (b.append k op now) rev c := by
  obtain ⟨created, stored⟩ := stored
  exact ⟨created, stored.append k op now⟩

theorem Seen.append (seen : Seen b rev version) (k : Key) (op : Op Value) (now : Int) :
    Seen (b.append k op now) rev version := by
  rcases seen with zero | ⟨c, stored, le⟩
  · exact .inl zero
  · exact .inr ⟨c, stored.append k op now, le⟩

theorem Seen.mono {version' : Int} (seen : Seen b rev version) (le : version ≤ version') :
    Seen b rev version' := by
  rcases seen with zero | ⟨c, stored, below⟩
  · exact .inl zero
  · exact .inr ⟨c, stored, le_trans below le⟩

theorem CommitAt.seen (stored : CommitAt b rev c) (version : Int) :
    Seen b rev (max version c.version) :=
  .inr ⟨c, stored, le_max_right _ _⟩

theorem Seen.max {rev' : Nat} (seen : Seen b rev version) (stored : CommitAt b rev' c) :
    Seen b (Max.max rev rev') (Max.max version c.version) := by
  rcases Nat.le_total rev rev' with le | le
  · rw [Nat.max_eq_right le]
    exact stored.seen version
  · rw [Nat.max_eq_left le]
    exact seen.mono (le_max_left _ _)

theorem commitAt_of_get {e} (live : b.get .commit = some e)
    (decoded : e.value.asCommit = some c) : CommitAt b e.revision c := by
  refine ⟨e.created, ?_⟩
  have value : e.value = .commit c := by
    cases shape : e.value <;> simp_all [Value.asCommit]
  have stored := Bucket.get_stored live
  obtain ⟨v, rev, created⟩ := e
  exact value ▸ stored

theorem Rising.above (rising : Rising b) {w} (ok : CommitWrite b w)
    (accepted : b.accepts w = true) (key : w.key = .commit) :
    ∃ c, w.op = .put (.commit c) ∧ ∀ rev c', CommitAt b rev c' → c'.version < c.version := by
  obtain ⟨c, rfl | ⟨rev, c', rfl, stored, below⟩⟩ := ok key
  · refine ⟨c, rfl, fun rev c' stored => ?_⟩
    -- nothing is stored: the newest record would be a put, hence live
    obtain ⟨created, stored⟩ := stored
    have absent := Bucket.accepts_create.mp accepted
    cases newest : b.last .commit with
    | none => exact absurd rfl (Bucket.last_eq_none.mp newest _ stored)
    | some r =>
      obtain ⟨member, isCommit, _⟩ := Bucket.last_spec newest
      obtain ⟨c'', put⟩ := rising.decodes r member isCommit
      simp [Bucket.get, newest, Kv.Record.entry?, put] at absent
  · refine ⟨c, rfl, fun rev' c'' stored' => ?_⟩
    have live : b.lastRevision .commit = rev := Bucket.accepts_update.mp accepted
    obtain ⟨created, stored⟩ := stored
    have current := stored.get_of_lastRevision live
    obtain ⟨created', older⟩ := stored'
    rcases Nat.lt_or_eq_of_le (older.le_get current) with lt | same
    · exact lt_trans (rising.rises _ _ _ _ ⟨_, older⟩ ⟨_, stored⟩ lt) below
    · have one := (older.unique stored same).2
      simp only [Entry.mk.injEq, Value.commit.injEq] at one
      exact one.1 ▸ below

theorem commitAt_append {k : Key} {op} (stored : CommitAt (b.append k op now) rev c) :
    CommitAt b rev c ∨ k = .commit ∧ op = .put (.commit c) ∧ rev = b.seq + 1 := by
  obtain ⟨created, stored⟩ := stored
  rcases mem_cons.mp stored with new | old
  · simp only [Kv.Record.mk.injEq] at new
    exact .inr ⟨new.1.symm, new.2.1.symm, new.2.2.1⟩
  · exact .inl ⟨created, old⟩

theorem Rising.store (rising : Rising b) {w} (ok : CommitWrite b w)
    (accepted : b.accepts w = true) : Rising (b.append w.key w.op now) where
  decodes := fun r member key => by
    rcases mem_cons.mp member with rfl | old
    · obtain ⟨c, put, _⟩ := rising.above ok accepted key
      exact ⟨c, put⟩
    · exact rising.decodes r old key
  rises := fun rev rev' c c' stored stored' lt => by
    rcases commitAt_append stored with old | ⟨_, _, rfl⟩
    · rcases commitAt_append stored' with old' | ⟨key, put, _⟩
      · exact rising.rises rev rev' c c' old old' lt
      · obtain ⟨c'', put', above⟩ := rising.above ok accepted key
        have same : c'' = c' := by simpa [put'] using put
        exact same ▸ above rev c old
    · -- the new revision is the largest
      rcases commitAt_append stored' with ⟨created, old'⟩ | ⟨_, _, rfl⟩
      · exact absurd lt (by simpa using Nat.le_succ_of_le (b.revision_le_seq old'))
      · exact absurd lt (lt_irrefl _)

end Buckets

/-! ## The programs keep it -/

variable {b : Bucket Key Value} {now : Int} {pub pub' : Publisher} {pc : PublishPc} {batch : Batch}
  {codec : Codec} {answer : Answer Key Value} {commit : AssignmentCommit}

theorem told_commitAt {e} {c}
    (told : Told b now (.read .commit) (.entry (some e))) (decoded : e.value.asCommit = some c) :
    CommitAt b e.revision c := by
  obtain ⟨k, eq, live⟩ := told.entry
  cases eq
  exact commitAt_of_get live decoded

theorem startBatch_proposes {input} (waits : (startBatch pub input).pc? = some pc) :
    Proposes pub pc := by
  unfold startBatch at waits
  split at waits
  · cases waits
  · cases waits
    rfl

theorem afterCommit_key {legacy} :
    ∀ w ∈ batch.afterCommit legacy commit, w.key ≠ .commit := by
  intro w member
  simp only [Batch.afterCommit, cons_append, mem_cons, mem_append,
    mem_map] at member
  rcases member with rfl | ⟨_, _, rfl⟩ | ⟨_, _, rfl⟩ <;> simp [Write.key]

theorem casWriteCommit_ok {rev : Nat} {version : Int} (seen : Seen b rev version)
    (above : version < commit.version) : CommitWrite b (casWriteCommit rev commit) := by
  intro _
  refine ⟨commit, ?_⟩
  unfold casWriteCommit
  split
  next => exact .inl rfl
  next nonzero =>
    rcases seen with zero | ⟨c', stored, le⟩
    · exact absurd zero nonzero
    · exact .inr ⟨rev, c', rfl, stored, lt_of_le_of_lt le above⟩

theorem publishWrite_ok {w} (seen : Seen b pub.lastCommitRev pub.currentVersion)
    (proposes : Proposes pub pc) (asks : publishRequest codec pub pc = some (.write w)) :
    CommitWrite b w := by
  unfold publishRequest at asks
  split at asks <;>
    simp only [Option.some.injEq, Request.write.injEq, reduceCtorEq] at asks <;> subst asks
  · simp [CommitWrite, Write.key, Codec.payloadKey]
  · simp [CommitWrite, Write.key, Codec.payloadKey]
  · simp [CommitWrite, Write.key]
  · obtain ⟨next, version⟩ := proposes
    exact casWriteCommit_ok seen (by omega)
  · intro key
    exact absurd key (proposes _ mem_cons_self)

theorem Proposes.job {todo} (job : pc.payloadJob = some (batch, todo)) :
    Proposes pub pc ↔ batch.proposedVersion = pub.currentVersion + 1 := by
  cases PublishPc.writes job <;> exact Iff.rfl

theorem Proposes.fence (fence : pc.fence = some batch) :
    Proposes pub pc ↔ batch.proposedVersion = pub.currentVersion + 1 := by
  cases PublishPc.fences fence <;> exact Iff.rfl

theorem publishResume_version {asked} {r}
    (seen : Seen b pub.lastCommitRev pub.currentVersion) (proposes : Proposes pub pc)
    (asks : publishRequest codec pub pc = some asked) (told : Told b now asked answer)
    (ran : publishResume codec pub pc answer = some (pub', r)) :
    Seen b pub'.lastCommitRev pub'.currentVersion ∧
      ∀ pc', r.pc? = some pc' → Proposes pub' pc' := by
  cases publishResume_resumed ran with
  | started input e winner decoded =>
    cases asks
    exact ⟨seen.max (told_commitAt told decoded), fun pc' => startBatch_proposes⟩
  | referenced pc batch worker rest revision job =>
    refine ⟨seen, fun pc' waits => ?_⟩
    cases waits
    exact (Proposes.job job).mp proposes
  | retried pc next answer batch todo job job' =>
    refine ⟨seen, fun pc' waits => ?_⟩
    cases waits
    exact (Proposes.job job').mpr ((Proposes.job job).mp proposes)
  | aliased batch legacy todo todo' attempt attempt' answer =>
    refine ⟨seen, fun pc' waits => ?_⟩
    cases waits
    exact proposes
  | committed batch legacy commit revision =>
    -- what was just written is the commit of the version just proposed
    obtain ⟨_, version⟩ := proposes
    refine ⟨?_, fun pc' waits => ?_⟩
    · obtain ⟨w, before, rfl, eq, rfl⟩ := told.wrote
      cases asks
      refine .inr ⟨commit, ⟨now, ?_⟩, version.le⟩
      have key : (casWriteCommit pub.lastCommitRev commit).key = .commit := by
        unfold casWriteCommit; split <;> rfl
      have op : (casWriteCommit pub.lastCommitRev commit).op = .put (.commit commit) := by
        unfold casWriteCommit; split <;> rfl
      rw [eq, key, op]
      exact Bucket.stored_append_put _ _ _ _
    · cases waits
      exact afterCommit_key
  | lost batch legacy commit =>
    refine ⟨seen, fun pc' waits => ?_⟩
    cases waits
    trivial
  | reseeded batch e winner decoded =>
    cases asks
    exact ⟨seen.max (told_commitAt told decoded), fun pc' waits => by cases waits⟩
  | bestEffort batch w rest answer =>
    refine ⟨seen, fun pc' waits => ?_⟩
    cases waits
    exact fun w' member => proposes w' (.tail _ member)
  | gaveUp pc answer pub' result same =>
    rw [same.1, same.2]
    exact ⟨seen, fun pc' waits => by cases waits⟩

theorem publishProceed_version {at_ : Int} {choice : Choice} {r}
    (seen : Seen b pub.lastCommitRev pub.currentVersion) (proposes : Proposes pub pc)
    (ran : publishProceed codec pub at_ pc choice = some (pub', r)) :
    Seen b pub'.lastCommitRev pub'.currentVersion ∧
      ∀ pc', r.pc? = some pc' → Proposes pub' pc' := by
  cases publishProceed_proceeded ran with
  | registered | opened =>
    refine ⟨seen, fun pc' waits => ?_⟩
    cases waits
    exact proposes
  | passed pc next batch fence fence' =>
    refine ⟨seen, fun pc' waits => ?_⟩
    cases waits
    exact (Proposes.fence fence').mpr ((Proposes.fence fence).mp proposes)
  | built batch legacy =>
    refine ⟨seen, fun pc' waits => ?_⟩
    cases waits
    exact ⟨proposes, rfl⟩
  | returned pc pub' result same =>
    rw [same.1, same.2]
    exact ⟨seen, fun pc' waits => by cases waits⟩

theorem sweepWrite_ok {pc} {w} (payloads : DeletesPayloads pc)
    (asks : sweepRequest pc = some (.write w)) :
    CommitWrite b w := by
  unfold sweepRequest at asks
  split at asks
  case h_5 todo now key seen =>
    cases asks
    intro commit
    have payload := payloads.1
    rw [show key = .commit from commit] at payload
    cases payload
  case h_2 => split at asks <;> cases asks
  all_goals cases asks

theorem candidates_payload {live keys} :
    ∀ key ∈ candidates live keys, Key.isPayload key = true := by
  intro key member
  simp only [candidates, mem_filter, Bool.and_eq_true] at member
  exact member.2.1

theorem sweepResume_payloads {gc} {pc pc'} {r}
    (payloads : DeletesPayloads pc) (ran : sweepResume gc pc answer = some r)
    (waits : r.pc? = some pc') : DeletesPayloads pc' := by
  cases sweepResume_resumed ran with
  | aged key rest now seen old =>
    cases waits
    exact ⟨payloads key mem_cons_self,
      fun key member => payloads key (.tail _ member)⟩
  | passed key rest now answer =>
    cases waits
    exact fun key member => payloads key (.tail _ member)
  | tried rest now key seen answer =>
    cases waits
    exact payloads.2
  | _ => cases waits <;> trivial

theorem sweepProceed_payloads {pc pc'} {r}
    (payloads : DeletesPayloads pc) (ran : sweepProceed pub now pc = some r)
    (waits : r.pc? = some pc') :
    DeletesPayloads pc' := by
  cases sweepProceed_proceeded ran with
  | sampled live keys => cases waits; exact candidates_payload
  | spared rest at_ key seen => cases waits; exact payloads.2
  | doomed rest at_ key seen => cases waits; exact payloads
  | _ => cases waits <;> trivial

omit [DecidableEq T] in
theorem version_obligations (cfg : Config T) :
    Obligations (fun _ _ _ => True) (fun _ _ _ _ => True) cfg (versionPieces (T := T)) where
  tick b now d := ⟨id, fun _ => id, fun _ => id, fun t pub pc holds => by cases pc <;> exact holds⟩
  append b now k op := by
    refine ⟨fun w ok key => ?_, fun pub seen => seen.append k op now, fun t pub pc holds => ?_⟩
    · obtain ⟨c, created | ⟨rev, c', updated, stored, below⟩⟩ := ok key
      · exact ⟨c, .inl created⟩
      · exact ⟨c, .inr ⟨rev, c', updated, stored.append k op now, below⟩⟩
    · cases pc with
      | publish | sweep => exact holds
      | discover pc | bootstrap pc =>
        cases pc <;> first | exact CommitAt.append holds k op now | trivial
  store b now w rising ok accepted _ := rising.store ok accepted
  publishWrite b now pub pc w _ seen proposes asks := publishWrite_ok seen proposes asks
  sweepWrite b now t pc w _ payloads asks := sweepWrite_ok payloads asks
  publishStart b now pub input pc _ _ waits := by
    rcases beginPublish_pc waits with rfl | started
    · trivial
    · exact startBatch_proposes started
  discoverStart _ _ := trivial
  bootstrapStart _ _ := trivial
  sweepStart _ _ _ := trivial
  publishResume b now pub pc asked answer pub' r _ seen proposes asks told ran :=
    publishResume_version seen proposes asks told ran
  publishProceed b now at_ pub pc choice pub' r _ seen proposes ran :=
    publishProceed_version seen proposes ran
  discoverResume b now pc asked answer r _ _ asks told ran pc' waits := by
    unfold discoverResume at ran
    split at ran
    case h_3 keys e =>
      split at ran <;> cases ran <;> cases waits
      next commit decoded =>
        cases asks
        exact told_commitAt told decoded
      next => trivial
    case h_6 => split at ran <;> cases ran <;> cases waits <;> trivial
    all_goals cases ran <;> cases waits <;> trivial
  discoverLocked b now pub pc pub' r _ seen piece ran := by
    unfold discoverLocked at ran
    split at ran
    · cases ran
      exact ⟨CommitAt.seen piece _, fun pc' waits => by cases waits; trivial⟩
    · cases ran
      exact ⟨seen.mono (le_max_left _ _), nofun⟩
    · cases ran
      exact ⟨seen.mono (le_max_left _ _), nofun⟩
    · cases ran
  bootstrapResume b now pc asked answer r _ _ asks told ran pc' waits := by
    unfold bootstrapResume at ran
    split at ran
    case h_1 e =>
      split at ran <;> cases ran <;> cases waits
      next commit decoded =>
        cases asks
        exact told_commitAt told decoded
    all_goals cases ran <;> cases waits
  bootstrapLocked b now pub pc pub' r _ seen piece ran := by
    cases pc with
    | get => cases ran
    | seed revision commit =>
      cases ran
      exact ⟨seen.max piece, nofun⟩
  sweepResume b now t pc asked answer r _ payloads _ _ ran pc' waits :=
    sweepResume_payloads payloads ran waits
  sweepProceed b now t pub pc r _ payloads _ ran pc' waits :=
    sweepProceed_payloads payloads ran waits

omit [DecidableEq P] [DecidableEq T] in
theorem fresh_version (s : ClusterState P T) (fresh : Fresh s) : (versionPieces (T := T)).Holds s where
  bucket := by
    refine ⟨fun r member key => ?_, fun rev rev' c c' stored => ?_⟩
    · obtain ⟨worker, isAlias⟩ := fresh.aliases r member
      rw [isAlias] at key
      cases key
    · obtain ⟨created, stored⟩ := stored
      obtain ⟨worker, isAlias⟩ := fresh.aliases _ stored
      cases isAlias
  pending := by simp [fresh.quiet]
  pubs := fun p => by rw [fresh.pubs p]; exact .inl rfl
  threads := fun t p pc at_ => by rw [fresh.idle t] at at_; cases at_

def commitVersions (b : Bucket Key Value) : List Int :=
  b.log.filterMap fun r =>
    match r.key, r.op with
    | .commit, .put (.commit c) => some c.version
    | _, _ => none

theorem Rising.commitVersions (rising : Rising b) :
    (commitVersions b).Pairwise (· > ·) := by
  rw [Assignment.commitVersions, pairwise_filterMap]
  refine b.numbered.imp_of_mem fun {newer older} member member' lt version eq version' eq' => ?_
  -- both records carry a commit
  have carried : ∀ {r : Kv.Record Key Value} {v : Int}, r ∈ b.log →
      (match r.key, r.op with
        | .commit, .put (.commit c) => some c.version
        | _, _ => none) = some v → ∃ c, CommitAt b r.revision c ∧ c.version = v := by
    intro r v mem eq
    obtain ⟨key, op, rev, created⟩ := r
    split at eq
    next c isKey isOp =>
      simp only at isKey isOp
      subst isKey isOp
      exact ⟨c, ⟨created, mem⟩, by simpa using eq⟩
    next => cases eq
  obtain ⟨c, stored, rfl⟩ := carried member eq
  obtain ⟨c', stored', rfl⟩ := carried member' eq'
  exact rising.rises _ _ _ _ stored' stored lt

theorem commit_versions_rise (cfg : Config T) {s : ClusterState P T}
    (reached : Reachable (cluster P cfg) Free s) :
    (∀ r ∈ s.bucket.log, r.key = .commit → ∃ c, r.op = .put (.commit c)) ∧
      (commitVersions s.bucket).Pairwise (· > ·) := by
  obtain ⟨_, holds⟩ := (version_obligations cfg).holds fresh_version (unguarded reached)
  exact ⟨holds.bucket.decodes, holds.bucket.commitVersions⟩

/-- One publisher commits; a second one discovers that commit, adopts the payload
and commits on top of it. -/
def takeoverRun : List (Action Bool (Call Bool Bool)) :=
  payloadSteps false false soloInput ++ fenceSteps Bool false ++ [.step false .served] ++
    [.call (.start true true .discoverHighestVersion), .step true .served, .step true .served,
      .call (.proceed true .go), .call (.proceed true .go)] ++
    payloadSteps true true soloInput ++ [.step true .served, .step true .served] ++
    fenceSteps Bool true ++ [.step true .served]

set_option maxRecDepth 4000 in
theorem commit_versions_rise_takeover :
    ∃ s, Reachable (cluster Bool (plainConfig Bool)) Free s ∧ commitVersions s.bucket = [2, 1] ∧
      (commitVersions s.bucket).Pairwise (· > ·) :=
  exists_reachable_and emptyCluster_fresh takeoverRun (by decide)
    fun _ reached _ => (commit_versions_rise _ reached).2

end Parti.Assignment
