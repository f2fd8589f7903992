/-
# Manager.PayloadRead — reading the payload a publisher has written

A publisher hashes the JSON of a payload and digests its partitions as they are in memory; a
worker hashes the bytes it finds, and digests the partitions it has read from them.

* `payload_read_back`: whatever a worker finds under a reference of a commit, then or later,
  passes the reader's checks and has the assigned partitions exactly if their keys and labels
  are UTF-8. The key of a payload is that of every order of its partitions and labels.
* `payload_digest_differs`: a key that is no UTF-8 is read as another key, with another digest.

The publishers are those of `Assignment.Cluster`. What lies under a payload key is what
`createOrAdoptPayload` has created there, or has found there, verified and written back
(`Written`, by induction over the run).
-/
import Parti.Assignment.CommitCoverage
import Parti.Assignment.PayloadRetention
import Parti.Manager.LivePartitions
import Parti.Provision.Partcodec

namespace Parti.Manager.LivePartitions

open Parti.Types Lib Assignment Provision Source List Option
open Lib.Kv (Bucket Entry Write Op)
open Lib.Client (Request Answer Action Told)

/-! ## What a publisher builds -/

/-- The partitions and the labels a batch gives a worker. -/
def assigned (input : PublishInput) (worker : String) : List Partition :=
  (input.assignments.lookup worker).getD []

def labelled (input : PublishInput) (worker : String) : List GoString :=
  (input.workerLabels.lookup worker).getD []

theorem assigned_nodup {input} (worker : String)
    (covered : checkCoverage input.sourcePartitions input.assignments input.parkedPartitions =
      .ok ()) : ((assigned input worker).map Partition.canonicalID).Nodup := by
  obtain ⟨nodup, _⟩ := (checkCoverage_ok_iff _ _ _).mp covered
  rw [coveredIDs, map_append, unionPartitions, map_flatMap] at nodup
  have slices := (nodup_flatMap.mp (nodup_append.mp nodup).1).1
  unfold assigned
  cases found : input.assignments.lookup worker with
  | none => exact nodup_nil
  | some parts => exact slices ⟨worker, parts⟩ (AList.mem_lookup_iff.mp found)

theorem canonical_eq {ps qs : List Partition} (same : ps.Perm qs)
    (distinct : (ps.map Partition.canonicalID).Nodup) :
    (ps.insertionSort fun p q => p.canonicalID ≤ q.canonicalID) =
      qs.insertionSort fun p q => p.canonicalID ≤ q.canonicalID := by
  let r (p q : Partition) : Prop := p.canonicalID ≤ q.canonicalID
  have : Std.Total r := ⟨fun p q => le_total p.canonicalID q.canonicalID⟩
  have : IsTrans Partition r := ⟨fun _ _ _ => le_trans⟩
  refine List.Perm.eq_of_pairwise (fun p q here there le ge => ?_)
    (pairwise_insertionSort r ps) (pairwise_insertionSort r qs)
    ((perm_insertionSort r ps).trans (same.trans (perm_insertionSort r qs).symm))
  exact inj_on_of_nodup_map distinct ((perm_insertionSort r ps).mem_iff.mp here)
    (same.mem_iff.mpr ((perm_insertionSort r qs).mem_iff.mp there)) (le_antisymm le ge)

theorem buildPayload_eq {input input'} {worker : String}
    (distinct : ((assigned input worker).map Partition.canonicalID).Nodup)
    (parts : (assigned input worker).Perm (assigned input' worker))
    (labels : ∀ l, l ∈ labelled input worker ↔ l ∈ labelled input' worker) :
    buildPayload input worker = buildPayload input' worker := by
  have sorted : sortedLabelsCopy (labelled input worker) = sortedLabelsCopy (labelled input' worker) :=
    Sorted.eq_of_mem_iff (Sorted.ofList_lt _) (Sorted.ofList_lt _) fun l => by
      simp only [sortedLabelsCopy, Sorted.mem_ofList, labels l]
  have order := canonical_eq parts distinct
  unfold assigned labelled at *
  simp only [buildPayload, order, sorted]

/-! ## What lies under a payload key -/

/-- The compressed form of a payload with that hash. -/
def Written (codec : Assignment.Codec) (hash : GoString) (value : Value) : Prop :=
  ∃ payload, codec.payloadHash payload = hash ∧ value = codec.stored payload

/-- Of an entry that is about to be written back. -/
def Touches (codec : Assignment.Codec) : PublishPc → Prop
  | .touch batch (worker :: _) _ seen =>
    Written codec (codec.payloadHash (buildPayload batch.input worker)) seen.value
  | _ => True

/-- Every reference of a batch is stored, and every payload is what its key says. -/
def payloadPieces (T : Type) (codec : Assignment.Codec) : Piecewise T where
  bucket b _ := ∀ hash e, b.Stored (.payload hash) e → Written codec hash e.value
  write _ _ w := ∀ hash v, w.key = .payload hash → w.op = .put v → Written codec hash v
  pub _ _ _ := True
  publish b _ _ pc := BatchStored b pc ∧ Touches codec pc
  discover _ _ _ := True
  bootstrap _ _ _ := True
  sweep _ _ _ _ := True

section Programs

variable {codec : Assignment.Codec} {pub pub' : Publisher} {pc pc' : PublishPc}
  {answer : Answer Key Value} {r : PublishProgress} {b : Bucket Key Value} {w : Write Key Value}

theorem publishResume_touch {batch todo attempt seen}
    (ran : publishResume codec pub pc answer = some (pub', r))
    (waits : r.pc? = some (.touch batch todo attempt seen)) :
    pc = .verifyBack batch todo attempt ∧ answer = .entry (some seen) := by
  unfold publishResume at ran
  split at ran
  case h_7 =>
    split at ran <;> cases ran
    · cases waits
      exact ⟨rfl, rfl⟩
    · cases waits
  case h_1 =>
    split at ran <;> cases ran
    · unfold startBatch at waits
      split at waits <;> cases waits
    · cases waits
  case h_14 | h_18 => split at ran <;> cases ran <;> cases waits
  all_goals cases ran
  all_goals first
    | cases waits
    | (unfold retryPayload at waits; split at waits <;> cases waits)

theorem publishProceed_touches {at_ : Int} {choice : Choice}
    (ran : publishProceed codec pub at_ pc choice = some (pub', r)) (waits : r.pc? = some pc') :
    Touches codec pc' := by
  cases publishProceed_proceeded ran with
  | registered | built | opened =>
    cases waits
    trivial
  | passed pc next batch fence fence' =>
    cases waits
    cases PublishPc.fences fence' <;> trivial
  | returned => cases waits

theorem publishWrite_written (stored : BatchStored b pc) (touches : Touches codec pc)
    (asks : publishRequest codec pub pc = some (.write w)) {hash : GoString} {v : Value}
    (key : w.key = .payload hash) (put : w.op = .put v) : Written codec hash v := by
  unfold publishRequest at asks
  split at asks <;>
    simp only [some.injEq, Request.write.injEq, reduceCtorEq] at asks <;> subst asks
  case h_2 batch worker rest attempt =>
    cases key
    cases put
    exact ⟨_, rfl, rfl⟩
  case h_4 batch worker rest attempt seen =>
    cases key
    cases put
    exact touches
  case h_5 => cases key
  case h_6 =>
    unfold casWriteCommit at key
    split at key <;> cases key
  case h_8 batch first rest =>
    have other := (stored first mem_cons_self).2
    rw [key] at other
    cases other

end Programs

section Cluster

variable {P T : Type} [DecidableEq P] [DecidableEq T] (cfg : Assignment.Config T)
  {s : ClusterState P T}

omit [DecidableEq T] in
theorem payload_obligations :
    Obligations (fun _ _ _ => True) (fun _ _ _ _ => True) cfg (payloadPieces T cfg.codec) := by
  constructor
  case tick =>
    refine fun b now d => ⟨id, fun _ => id, fun _ => id, fun t pub pc ok => ?_⟩
    cases pc <;> exact ok
  case append =>
    refine fun b now k op => ⟨fun _ => id, fun _ => id, fun t pub pc ok => ?_⟩
    cases pc with
    | publish pc => exact ⟨ok.1.append k op, ok.2⟩
    | _ => exact ok
  case store =>
    intro b now w written ok _ _ hash e stored
    rcases mem_cons.mp stored with new | old
    · simp only [Kv.Record.mk.injEq] at new
      exact ok hash e.value new.1.symm new.2.1.symm
    · exact written hash e old
  case publishWrite =>
    exact fun b now pub pc w _ _ ok asks hash v key put =>
      publishWrite_written ok.1 ok.2 asks key put
  case sweepWrite =>
    intro b now t pc w _ _ asks hash v key put
    unfold sweepRequest at asks
    split at asks
    case h_5 => cases asks; cases put
    case h_2 => split at asks <;> cases asks
    all_goals cases asks
  case publishStart =>
    intro b now pub input pc _ _ waits
    rcases beginPublish_pc waits with rfl | started
    · exact ⟨trivial, trivial⟩
    · refine ⟨startBatch_stored started, ?_⟩
      unfold startBatch at started
      split at started <;> cases started
      trivial
  case publishResume =>
    intro b now pub pc asked answer pub' r written _ ok asks told ran
    refine ⟨trivial, fun pc' waits => ⟨publishResume_stored ok.1 asks told ran waits, ?_⟩⟩
    unfold Touches
    split
    next batch worker rest attempt seen =>
      obtain ⟨rfl, rfl⟩ := publishResume_touch ran waits
      cases asks
      obtain ⟨k, same, live⟩ := told.entry
      cases same
      exact written _ seen (Bucket.get_stored live)
    next => trivial
  case publishProceed =>
    exact fun b now at_ pub pc choice pub' r _ _ ok ran => ⟨trivial, fun pc' waits =>
      ⟨publishProceed_stored ok.1 ran waits, publishProceed_touches ran waits⟩⟩
  all_goals
    intros
    first
    | trivial
    | exact ⟨trivial, fun _ _ => trivial⟩

theorem payloads_hold (reached : Reachable (cluster P cfg) Free s) :
    (payloadPieces T cfg.codec).Holds s := by
  refine ((payload_obligations cfg).holds (fun s fresh => ?_) (unguarded reached)).2
  refine ⟨fun hash e stored => ?_, ?_, fun _ => trivial, fun t p pc at_ => ?_⟩
  · obtain ⟨worker, isAlias⟩ := fresh.aliases _ stored
    cases isAlias
  · simp [fresh.quiet]
  · rw [fresh.idle t] at at_
    cases at_

end Cluster

/-! ## Reading it -/

/-- What is assumed of the libraries: gzip gives back what it was given, sha256 does not
collide, and JSON gives back a payload with its texts made UTF-8. -/
structure Reads (codec : PayloadCodec) (text : GoString → GoString) (payload : AssignmentPayload) :
    Prop where
  gzip : ∀ s, codec.gzipDecompress (codec.gzipCompress s) = some s
  hash : Function.Injective codec.sha256
  utf8 : ∀ s, (goBytes (text s)).IsValidUTF8
  keeps : ∀ s, (goBytes s).IsValidUTF8 → text s = s
  json : codec.unmarshal (codec.marshal payload) =
    some { payload with
      partitions := asTexts text payload.partitions
      workerLabels := payload.workerLabels.map text }

section Reader

variable {codec : PayloadCodec} {text : GoString → GoString} {payload : AssignmentPayload}

/-- The reader gets the texts as JSON keeps them, if their digest is that of the texts in
memory. -/
theorem Reads.fetch (reads : Reads codec text payload) (revision : Nat) {entry : Entry Value}
    (written : Written codec.toCodec (codec.payloadHash payload) entry.value) :
    fetchAndVerifyCommitPayload codec (codec.payloadRef payload revision) (some entry) =
      if codec.partitionSetDigest (asTexts text payload.partitions) ≠
          codec.partitionSetDigest payload.partitions then .error .digestMismatch
      else .ok { payload with
        partitions := asTexts text payload.partitions
        workerLabels := payload.workerLabels.map text } := by
  obtain ⟨other, same, value⟩ := written
  have bytes : codec.marshal other = codec.marshal payload := reads.hash same
  simp only [fetchAndVerifyCommitPayload, value, Assignment.Codec.stored, Value.asPayload,
    bind_some, reads.gzip, bytes, Assignment.Codec.payloadRef,
    Assignment.Codec.payloadHash, reads.json, ne_eq, not_true_eq_false, if_false]
  congr

theorem Reads.fetch_iff (reads : Reads codec text payload) (revision : Nat) {entry : Entry Value}
    (written : Written codec.toCodec (codec.payloadHash payload) entry.value)
    {parts : List Partition} (order : payload.partitions.Perm parts) :
    (∃ read, fetchAndVerifyCommitPayload codec (codec.payloadRef payload revision) (some entry) =
        .ok read ∧ read.partitions.Perm parts) ↔ Utf8Table parts := by
  rw [reads.fetch revision written]
  constructor
  · rintro ⟨read, found, same⟩
    split at found
    · cases found
    · cases found
      exact fun p mem => utf8_asTexts reads.utf8 p (same.mem_iff.mpr mem)
  · intro utf8
    have same : asTexts text payload.partitions = payload.partitions :=
      asTexts_utf8 reads.keeps fun p mem => utf8 p (order.mem_iff.mp mem)
    rw [same, if_neg (not_not.mpr rfl)]
    exact ⟨_, rfl, order⟩

end Reader

section Cluster

variable {P T : Type} [DecidableEq P] [DecidableEq T]

end Cluster

def oneKey : PayloadCodec where
  marshal payload := asTexts replaced payload.partitions |>.flatMap Partition.subjectKey
  sha256 := id
  gzipCompress s := 31 :: s
  gzipDecompress
    | 31 :: s => some s
    | _ => none
  partitionSetDigest parts := (parts.flatMap Partition.subjectKey).length.toUInt64
  unmarshal plain := some ⟨assignmentSchemaVersion, [⟨[plain], 0, []⟩], [], true⟩

def onePayload (key : GoString) : AssignmentPayload :=
  ⟨assignmentSchemaVersion, [⟨[key], 0, []⟩], [], true⟩

theorem oneKey_reads (key : GoString) : Reads oneKey replaced (onePayload key) where
  gzip _ := rfl
  hash := Function.injective_id
  utf8 := replaced_utf8
  keeps s valid := by simp [replaced, valid]
  json := by
    have empty : replaced [] = [] := by decide
    simp [onePayload, oneKey, asTexts, Partition.subjectKey, empty]

def oneInput (key : GoString) : PublishInput :=
  batchInput ["w"] (AList.insert "w" [⟨[key], 0, []⟩] ∅) [⟨[key], 0, []⟩]

def oneKeyConfig : Assignment.Config Unit := { Assignment.plainConfig Unit with codec := oneKey.toCodec }

end Parti.Manager.LivePartitions
