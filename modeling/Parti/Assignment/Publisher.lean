/-
# Assignment.Publisher — the refs-always commit flow, store operation by store operation

`Publish` builds one payload per listed worker, makes sure each payload key
exists (`createOrAdoptPayload`), passes the leadership fences and the legacy
alias barrier, and then writes `_commit` conditioned on the revision of the
commit it last observed. The version it proposes is local: the highest version
observed, plus one. Four paths move the pair (`lastCommitRev`,
`currentVersion`): a successful commit, the reseed after a lost one,
`DiscoverHighestVersion` and `BootstrapLastCommit`.

A program counter says where a method waits, with the locals it still needs: for
the store (`request`, `resume`) or for something else (`proceed`), such as a
leadership check, a heartbeat classification, the mutex or a shutdown flag.
`Publish` holds the mutex from entry to return; the two bootstrap methods read
outside it and take it only to apply what they read.
-/
import Parti.Lib.Client
import Parti.Assignment.Coverage

namespace Parti.Assignment

open Parti.Types Lib
open Lib.Kv (Entry Write)
open Lib.Client (Request Answer)

inductive Value where
  | commit (c : AssignmentCommit)
  | commitLog (entry : AssignmentCommitLog)
  | payload (stored : GoString)
  | assignment (a : Assignment)
deriving DecidableEq

def Value.asCommit : Value → Option AssignmentCommit
  | .commit c => some c
  | _ => none

def Value.asCommitLog : Value → Option AssignmentCommitLog
  | .commitLog entry => some entry
  | _ => none

def Value.asAssignment : Value → Option Assignment
  | .assignment a => some a
  | _ => none

def Value.asPayload : Value → Option GoString
  | .payload stored => some stored
  | _ => none

structure Codec where
  marshal : AssignmentPayload → GoString
  sha256 : GoString → GoString
  gzipCompress : GoString → GoString
  gzipDecompress : GoString → Option GoString
  partitionSetDigest : List Partition → UInt64

structure PublishInput where
  workers : List String
  assignments : GoMap (List Partition)
  sourcePartitions : List Partition
  sourceRevision : Nat
  sourceRevisionKnown : Bool
  leaderRevision : Nat
  lifecycle : String
  workersToRemove : List String
  parkedPartitions : List Partition
  workerLabels : GoMap (List GoString)

/-- The mutex-guarded fields of a publisher and its in-flight references. -/
structure Publisher where
  currentVersion : Int
  lastCommitRev : Nat
  lastCommit : Option AssignmentCommit
  commitReseedPending : Bool
  inflightRefs : List Key

def Publisher.new : Publisher := ⟨0, 0, none, false, []⟩

inductive PublishError where
  | coverageMismatch (counts : CoverageMismatch)
  | leadershipLostPreAlias
  | aliasBarrierFailed (worker : String)
  | leadershipLostPostAlias
  | shuttingDown
  | commitCASFailed
  | payloadHashCollisionOrCorruption
  | payloadWrite (worker : String)

def payloadAdoptMaxAttempts : Nat := 3

def aliasBarrierMaxAttempts : Nat := 3

/-! ## Payloads -/

def sortedLabelsCopy (labels : List GoString) : List GoString := Sorted.ofList labels

/-- The payload `writePayloads` builds for one worker: its partitions in
canonical order and its sorted labels. -/
def buildPayload (input : PublishInput) (worker : String) : AssignmentPayload where
  schemaVersion := assignmentSchemaVersion
  partitions := ((input.assignments.lookup worker).getD []).insertionSort fun p q =>
    p.canonicalID ≤ q.canonicalID
  workerLabels := sortedLabelsCopy ((input.workerLabels.lookup worker).getD [])
  workerLabelsKnown := true

def Codec.payloadHash (codec : Codec) (payload : AssignmentPayload) : GoString :=
  codec.sha256 (codec.marshal payload)

def Codec.payloadKey (codec : Codec) (payload : AssignmentPayload) : Key :=
  .payload (codec.payloadHash payload)

def Codec.stored (codec : Codec) (payload : AssignmentPayload) : Value :=
  .payload (codec.gzipCompress (codec.marshal payload))

/-- Verify-back: what is stored, decompressed if it can be, has the hash. -/
def Codec.verifies (codec : Codec) (value : Value) (hash : GoString) : Bool :=
  match value.asPayload with
  | some stored => codec.sha256 ((codec.gzipDecompress stored).getD stored) = hash
  | none => false

def Codec.payloadRef (codec : Codec) (payload : AssignmentPayload) (revision : Nat) :
    AssignmentPayloadRef where
  key := codec.payloadKey payload
  payloadHash := codec.payloadHash payload
  setDigest := codec.partitionSetDigest payload.partitions
  revision := revision

def buildLegacyAlias (payload : AssignmentPayload) (version : Int) (leaderRevision : Nat)
    (lifecycle : String) (totalWorkers : Nat) : Assignment where
  version := version
  lifecycle := lifecycle
  partitions := payload.partitions
  leaderRevision := leaderRevision
  totalWorkers := totalWorkers
  workerLabels := payload.workerLabels
  workerLabelsKnown := payload.workerLabelsKnown

/-- A key component that is a protocol marker and never a worker id. -/
def isProtocolSubcomponent (sub : String) : Bool := sub.toList.head? = some '_'

/-! ## Publish -/

structure Batch where
  input : PublishInput
  proposedVersion : Int
  refs : GoMap AssignmentPayloadRef
  payloads : GoMap AssignmentPayload

/-- Where a `Publish` call waits. -/
inductive PublishPc where
  | ensureView (input : PublishInput)
  | create (batch : Batch) (todo : List String) (attempt : Nat)
  | verifyBack (batch : Batch) (todo : List String) (attempt : Nat)
  | touch (batch : Batch) (todo : List String) (attempt : Nat) (seen : Entry Value)
  | preAlias (batch : Batch)
  | classify (batch : Batch)
  | aliasBarrier (batch : Batch) (legacy todo : List String) (attempt : Nat)
  | postAlias (batch : Batch) (legacy : List String)
  | shutdownGate (batch : Batch) (legacy : List String) (commit : AssignmentCommit)
  | cas (batch : Batch) (legacy : List String) (commit : AssignmentCommit)
  | reseed (batch : Batch)
  | bestEffort (batch : Batch) (todo : List (Write Key Value))

inductive Progress (Pc R : Type) where
  | waits (pc : Pc)
  | returned (result : R)

def Progress.pc? {Pc R : Type} : Progress Pc R → Option Pc
  | .waits pc => some pc
  | .returned _ => none

abbrev PublishProgress := Progress PublishPc (Except PublishError Unit)

/-- Payload of one worker of the batch, or the revoke fallback of the barrier. -/
def Batch.aliasOf (batch : Batch) (worker : String) : Assignment :=
  let payload := (batch.payloads.lookup worker).getD
    ⟨assignmentSchemaVersion, [], [], true⟩
  buildLegacyAlias payload batch.proposedVersion batch.input.leaderRevision batch.input.lifecycle
    batch.input.workers.length

def Batch.sortedWorkers (batch : Batch) : List String :=
  batch.input.workers.insertionSort (· ≤ ·)

def Batch.addRef (codec : Codec) (batch : Batch) (worker : String) (revision : Nat) : Batch :=
  let payload := buildPayload batch.input worker
  { batch with refs := batch.refs.insert worker (codec.payloadRef payload revision)
               payloads := batch.payloads.insert worker payload }

def Batch.refKeys (batch : Batch) : List Key :=
  batch.refs.entries.map fun entry => entry.2.key

def Batch.commit (codec : Codec) (batch : Batch) (prevCommitRev : Nat) (now : Int) :
    AssignmentCommit where
  version := batch.proposedVersion
  leaderRevision := batch.input.leaderRevision
  sourceRevision := batch.input.sourceRevision
  sourceRevisionKnown := batch.input.sourceRevisionKnown
  publishedAt := now
  workers := batch.sortedWorkers
  payloads := batch.refs
  batchDigest := codec.partitionSetDigest batch.input.sourcePartitions
  parkedCount := batch.input.parkedPartitions.length
  parkedDigest := codec.partitionSetDigest batch.input.parkedPartitions
  prevCommitRev := prevCommitRev
  lifecycle := batch.input.lifecycle

/-- What follows the commit point, all of it best effort: the commit log, the
aliases of commit-capable workers, the aliases of removed workers. -/
def Batch.afterCommit (batch : Batch) (legacy : List String) (commit : AssignmentCommit) :
    List (Write Key Value) :=
  .create (.commitLog commit.version) (.commitLog
      ⟨commit.version, commit.leaderRevision, commit.publishedAt, batch.refKeys.dedup⟩) ::
    (batch.sortedWorkers.filter (· ∉ legacy)).map
        (fun worker => .put (.alias worker) (.assignment (batch.aliasOf worker))) ++
    (batch.input.workersToRemove.filter fun worker => !isProtocolSubcomponent worker).map
        fun worker => .remove (.alias worker)

/-- `casWriteCommitLocked`: create when no commit was ever observed, else update
at the observed revision. -/
def casWriteCommit (lastCommitRev : Nat) (commit : AssignmentCommit) : Write Key Value :=
  if lastCommitRev = 0 then .create .commit (.commit commit)
  else .update .commit (.commit commit) lastCommitRev

/-- Advance revision and version together from a commit read under the mutex. -/
def Publisher.reseed (pub : Publisher) (revision : Nat) (winner : AssignmentCommit) : Publisher :=
  { pub with lastCommitRev := max pub.lastCommitRev revision
             currentVersion := max pub.currentVersion winner.version
             lastCommit := some winner
             commitReseedPending := false }

/-- Drop the in-flight references of a batch, as `Publish` does on return. -/
def Publisher.release (pub : Publisher) (batch : Batch) : Publisher :=
  { pub with inflightRefs := pub.inflightRefs.filter (· ∉ batch.refKeys) }

/-- Coverage check and version proposal, once the commit view is current. -/
def startBatch (pub : Publisher) (input : PublishInput) : PublishProgress :=
  match checkCoverage input.sourcePartitions input.assignments input.parkedPartitions with
  | .error counts => .returned (.error (.coverageMismatch counts))
  | .ok () =>
    .waits (.create ⟨input, pub.currentVersion + 1, ∅, ∅⟩
      (input.workers.insertionSort (· ≤ ·)) 0)

/-- Entry of `Publish`, with the mutex held. -/
def beginPublish (pub : Publisher) (input : PublishInput) : PublishProgress :=
  if input.workers = [] then .returned (.ok ())
  else if pub.commitReseedPending then .waits (.ensureView input)
  else startBatch pub input

def publishRequest (codec : Codec) (pub : Publisher) : PublishPc → Option (Request Key Value)
  | .ensureView _ => some (.read .commit)
  | .create batch (worker :: _) _ =>
    let payload := buildPayload batch.input worker
    some (.write (.create (codec.payloadKey payload) (codec.stored payload)))
  | .verifyBack batch (worker :: _) _ =>
    some (.read (codec.payloadKey (buildPayload batch.input worker)))
  | .touch batch (worker :: _) _ seen =>
    some (.write (.update (codec.payloadKey (buildPayload batch.input worker)) seen.value
      seen.revision))
  | .aliasBarrier batch _ (worker :: _) _ =>
    some (.write (.put (.alias worker) (.assignment (batch.aliasOf worker))))
  | .cas _ _ commit => some (.write (casWriteCommit pub.lastCommitRev commit))
  | .reseed _ => some (.read .commit)
  | .bestEffort _ (w :: _) => some (.write w)
  | _ => none

def retryPayload (batch : Batch) (todo : List String) (attempt : Nat) (worker : String) :
    PublishProgress :=
  if attempt + 1 < payloadAdoptMaxAttempts then .waits (.create batch todo (attempt + 1))
  else .returned (.error (.payloadWrite worker))

def publishResume (codec : Codec) (pub : Publisher) :
    PublishPc → Answer Key Value → Option (Publisher × PublishProgress)
  | .ensureView input, .entry (some seen) =>
    match seen.value.asCommit with
    | some winner =>
      let pub := pub.reseed seen.revision winner
      some (pub, startBatch pub input)
    | none => some (pub, .returned (.error .commitCASFailed))
  | .ensureView _, .entry none | .ensureView _, .failed =>
    some (pub, .returned (.error .commitCASFailed))
  | .create batch (worker :: rest) _, .written revision =>
    some (pub, .waits (.create (batch.addRef codec worker revision) rest 0))
  | .create batch (worker :: rest) attempt, .conflict =>
    some (pub, .waits (.verifyBack batch (worker :: rest) attempt))
  | .create _ (worker :: _) _, .failed =>
    some (pub, .returned (.error (.payloadWrite worker)))
  | .verifyBack batch (worker :: rest) attempt, .entry (some seen) =>
    if codec.verifies seen.value (codec.payloadHash (buildPayload batch.input worker)) then
      some (pub, .waits (.touch batch (worker :: rest) attempt seen))
    else some (pub, .returned (.error .payloadHashCollisionOrCorruption))
  | .verifyBack batch (worker :: rest) attempt, .entry none
  | .verifyBack batch (worker :: rest) attempt, .failed =>
    some (pub, retryPayload batch (worker :: rest) attempt worker)
  | .touch batch (worker :: rest) _ _, .written revision =>
    some (pub, .waits (.create (batch.addRef codec worker revision) rest 0))
  | .touch batch (worker :: rest) attempt _, .conflict =>
    some (pub, retryPayload batch (worker :: rest) attempt worker)
  | .touch _ (worker :: _) _ _, .failed =>
    some (pub, .returned (.error (.payloadWrite worker)))
  | .aliasBarrier batch legacy (_ :: rest) _, .written _ =>
    some (pub, .waits (.aliasBarrier batch legacy rest 0))
  | .aliasBarrier batch legacy (worker :: rest) attempt, .failed =>
    if attempt + 1 < aliasBarrierMaxAttempts then
      some (pub, .waits (.aliasBarrier batch legacy (worker :: rest) (attempt + 1)))
    else some (pub.release batch, .returned (.error (.aliasBarrierFailed worker)))
  | .cas batch legacy commit, .written revision =>
    some ({ pub with lastCommitRev := revision
                     currentVersion := batch.proposedVersion
                     lastCommit := some commit },
      .waits (.bestEffort batch (batch.afterCommit legacy commit)))
  | .cas batch _ _, .conflict =>
    some ({ pub with commitReseedPending := true }, .waits (.reseed batch))
  | .cas batch _ _, .failed => some (pub.release batch, .returned (.error .commitCASFailed))
  | .reseed batch, .entry (some seen) =>
    match seen.value.asCommit with
    | some winner =>
      some ((pub.reseed seen.revision winner).release batch,
        .returned (.error .commitCASFailed))
    | none => some (pub.release batch, .returned (.error .commitCASFailed))
  | .reseed batch, .entry none | .reseed batch, .failed =>
    some (pub.release batch, .returned (.error .commitCASFailed))
  | .bestEffort batch (_ :: rest), .written _
  | .bestEffort batch (_ :: rest), .conflict
  | .bestEffort batch (_ :: rest), .failed => some (pub, .waits (.bestEffort batch rest))
  | _, _ => none

inductive Choice where
  | go
  | stop
  | legacy (workers : List String)

/-- The moves of a `Publish` call between store operations: the fences, the
heartbeat classification, the cancellation checks, and its plain local steps. -/
def publishProceed (codec : Codec) (pub : Publisher) (now : Int) :
    PublishPc → Choice → Option (Publisher × PublishProgress)
  | .create _ (worker :: _) _, .stop => some (pub, .returned (.error (.payloadWrite worker)))
  | .create batch [] _, .go =>
    some ({ pub with inflightRefs := batch.refKeys ++ pub.inflightRefs },
      .waits (.preAlias batch))
  | .preAlias batch, .go => some (pub, .waits (.classify batch))
  | .preAlias batch, .stop =>
    some (pub.release batch, .returned (.error .leadershipLostPreAlias))
  | .classify batch, .legacy workers =>
    let legacy := batch.input.workers.filter (· ∈ workers)
    some (pub, .waits (.aliasBarrier batch legacy legacy 0))
  | .aliasBarrier batch _ (worker :: _) _, .stop =>
    some (pub.release batch, .returned (.error (.aliasBarrierFailed worker)))
  | .aliasBarrier batch legacy [] _, .go => some (pub, .waits (.postAlias batch legacy))
  | .postAlias batch legacy, .go =>
    some (pub, .waits (.shutdownGate batch legacy (batch.commit codec pub.lastCommitRev now)))
  | .postAlias batch _, .stop =>
    some (pub.release batch, .returned (.error .leadershipLostPostAlias))
  | .shutdownGate batch legacy commit, .go => some (pub, .waits (.cas batch legacy commit))
  | .shutdownGate batch _ _, .stop => some (pub.release batch, .returned (.error .shuttingDown))
  | .bestEffort batch [], .go => some (pub.release batch, .returned (.ok ()))
  | _, _ => none

/-! ### What a step of `Publish` can do -/

/-- The batch and the workers whose payload keys are still to be written. -/
def PublishPc.payloadJob : PublishPc → Option (Batch × List String)
  | .create batch todo _ | .verifyBack batch todo _ | .touch batch todo _ _ => some (batch, todo)
  | _ => none

/-- The batch of a call between its payload writes and its commit record. -/
def PublishPc.fence : PublishPc → Option Batch
  | .preAlias batch | .classify batch | .aliasBarrier batch _ _ _ | .postAlias batch _ => some batch
  | _ => none

inductive PublishPc.Writes (batch : Batch) (todo : List String) : PublishPc → Prop
  | create (attempt) : Writes batch todo (.create batch todo attempt)
  | verifyBack (attempt) : Writes batch todo (.verifyBack batch todo attempt)
  | touch (attempt seen) : Writes batch todo (.touch batch todo attempt seen)

variable {batch : Batch} {pc : PublishPc} {codec : Codec} {todo : List String}

theorem PublishPc.writes (job : pc.payloadJob = some (batch, todo)) : Writes batch todo pc := by
  cases pc with
  | create _ _ attempt => cases job; exact .create attempt
  | verifyBack _ _ attempt => cases job; exact .verifyBack attempt
  | touch _ _ attempt seen => cases job; exact .touch attempt seen
  | _ => cases job

inductive PublishPc.Fences (batch : Batch) : PublishPc → Prop
  | preAlias : Fences batch (.preAlias batch)
  | classify : Fences batch (.classify batch)
  | aliasBarrier (legacy todo : List String) (attempt) :
      Fences batch (.aliasBarrier batch legacy todo attempt)
  | postAlias (legacy) : Fences batch (.postAlias batch legacy)

theorem PublishPc.fences (fence : pc.fence = some batch) :
    Fences batch pc := by
  cases pc with
  | preAlias => cases fence; exact .preAlias
  | classify => cases fence; exact .classify
  | aliasBarrier _ legacy todo attempt => cases fence; exact .aliasBarrier legacy todo attempt
  | postAlias _ legacy => cases fence; exact .postAlias legacy
  | _ => cases fence

def SameView (pub pub' : Publisher) : Prop :=
  pub'.lastCommitRev = pub.lastCommitRev ∧ pub'.currentVersion = pub.currentVersion

theorem SameView.refl (pub : Publisher) : SameView pub pub := ⟨rfl, rfl⟩

theorem SameView.release (pub : Publisher) (batch : Batch) : SameView pub (pub.release batch) :=
  ⟨rfl, rfl⟩

variable {pub pub' : Publisher} {r : PublishProgress} {answer : Answer Key Value}

theorem beginPublish_pc {input} (waits : (beginPublish pub input).pc? = some pc) :
    pc = .ensureView input ∨ (startBatch pub input).pc? = some pc := by
  unfold beginPublish at waits
  split at waits
  · cases waits
  · split at waits
    · exact .inl (Option.some.inj waits).symm
    · exact .inr waits

variable (codec : Codec) (pub : Publisher) in
/-- The outcomes of `publishResume`. -/
inductive PublishResumed : PublishPc → Answer Key Value → Publisher → PublishProgress → Prop
  | started (input seen winner) (decoded : seen.value.asCommit = some winner) :
      PublishResumed (.ensureView input) (.entry (some seen))
        (pub.reseed seen.revision winner) (startBatch (pub.reseed seen.revision winner) input)
  | referenced (pc : PublishPc) (batch : Batch) (worker rest revision)
      (job : pc.payloadJob = some (batch, worker :: rest)) :
      PublishResumed pc (.written revision) pub
        (.waits (.create (batch.addRef codec worker revision) rest 0))
  | retried (pc pc' : PublishPc) (answer : Answer Key Value) (batch : Batch) (todo : List String)
      (job : pc.payloadJob = some (batch, todo)) (job' : pc'.payloadJob = some (batch, todo)) :
      PublishResumed pc answer pub (.waits pc')
  | aliased (batch : Batch) (legacy todo todo' : List String) (attempt attempt')
      (answer : Answer Key Value) :
      PublishResumed (.aliasBarrier batch legacy todo attempt) answer pub
        (.waits (.aliasBarrier batch legacy todo' attempt'))
  | committed (batch : Batch) (legacy commit revision) :
      PublishResumed (.cas batch legacy commit) (.written revision)
        { pub with lastCommitRev := revision, currentVersion := batch.proposedVersion,
                   lastCommit := some commit }
        (.waits (.bestEffort batch (batch.afterCommit legacy commit)))
  | lost (batch : Batch) (legacy commit) : PublishResumed (.cas batch legacy commit) .conflict
        { pub with commitReseedPending := true } (.waits (.reseed batch))
  | reseeded (batch : Batch) (seen winner) (decoded : seen.value.asCommit = some winner) :
      PublishResumed (.reseed batch) (.entry (some seen))
        ((pub.reseed seen.revision winner).release batch) (.returned (.error .commitCASFailed))
  | bestEffort (batch : Batch) (w rest) (answer : Answer Key Value) :
      PublishResumed (.bestEffort batch (w :: rest)) answer pub
        (.waits (.bestEffort batch rest))
  | gaveUp (pc : PublishPc) (answer : Answer Key Value) (pub' : Publisher) (result)
      (same : SameView pub pub') : PublishResumed pc answer pub' (.returned result)

theorem retryPayload_resumed {attempt : Nat} {worker : String}
    (job : pc.payloadJob = some (batch, todo)) :
    PublishResumed codec pub pc answer pub (retryPayload batch todo attempt worker) := by
  unfold retryPayload
  split
  · exact .retried pc _ answer batch todo job rfl
  · exact .gaveUp pc answer pub _ (.refl pub)

theorem publishResume_resumed (ran : publishResume codec pub pc answer = some (pub', r)) :
    PublishResumed codec pub pc answer pub' r := by
  unfold publishResume at ran
  split at ran
  case h_24 => cases ran
  case h_1 input seen =>
    split at ran
    next winner decoded =>
      cases ran
      exact .started input seen winner decoded
    next =>
      cases ran
      exact .gaveUp _ _ _ _ (.refl pub)
  case h_7 batch worker rest attempt seen =>
    split at ran
    · cases ran
      exact .retried _ _ _ batch (worker :: rest) rfl rfl
    · cases ran
      exact .gaveUp _ _ _ _ (.refl pub)
  case h_14 batch legacy worker rest attempt =>
    split at ran
    · cases ran
      exact .aliased ..
    · cases ran
      exact .gaveUp _ _ _ _ (.release pub batch)
  case h_18 batch seen =>
    split at ran
    next winner decoded =>
      cases ran
      exact .reseeded batch seen winner decoded
    next =>
      cases ran
      exact .gaveUp _ _ _ _ (.release pub batch)
  -- the remaining branches are single results
  all_goals cases ran
  all_goals first
    | exact .referenced _ _ _ _ _ rfl
    | exact retryPayload_resumed rfl
    | exact .committed ..
    | exact .lost ..
    | exact .bestEffort ..
    | exact .gaveUp _ _ _ _ (.refl _)
    | exact .gaveUp _ _ _ _ (.release _ _)
    | exact .aliased ..
    | exact .retried _ _ _ _ _ rfl rfl

variable (codec : Codec) (pub : Publisher) (now : Int) in
/-- The outcomes of `publishProceed`. -/
inductive PublishProceeded : PublishPc → Publisher → PublishProgress → Prop
  | registered (batch : Batch) (attempt) : PublishProceeded (.create batch [] attempt)
        { pub with inflightRefs := batch.refKeys ++ pub.inflightRefs } (.waits (.preAlias batch))
  | passed (pc pc' : PublishPc) (batch : Batch) (fence : pc.fence = some batch)
      (fence' : pc'.fence = some batch) : PublishProceeded pc pub (.waits pc')
  | built (batch : Batch) (legacy) : PublishProceeded (.postAlias batch legacy) pub
        (.waits (.shutdownGate batch legacy (batch.commit codec pub.lastCommitRev now)))
  | opened (batch : Batch) (legacy commit) :
      PublishProceeded (.shutdownGate batch legacy commit) pub (.waits (.cas batch legacy commit))
  | returned (pc : PublishPc) (pub' : Publisher) (result) (same : SameView pub pub') :
      PublishProceeded pc pub' (.returned result)

theorem publishProceed_proceeded {now : Int} {choice : Choice}
    (ran : publishProceed codec pub now pc choice = some (pub', r)) :
    PublishProceeded codec pub now pc pub' r := by
  unfold publishProceed at ran
  split at ran
  all_goals first
    | cases ran; exact .registered ..
    | cases ran; exact .built ..
    | cases ran; exact .opened ..
    | cases ran; exact .passed _ _ _ rfl rfl
    | cases ran; exact .returned _ _ _ (.release _ _)
    | cases ran; exact .returned _ _ _ (.refl _)
    | cases ran

/-! ## DiscoverHighestVersion and BootstrapLastCommit -/

inductive DiscoverPc where
  | list
  | commit (keys : List Key)
  | seed (keys : List Key) (revision : Nat) (commit : AssignmentCommit)
  | aliases (todo : List Key) (highest : Int) (workers : List String)
  | finish (highest : Int) (workers : List String)

def aliasWorkers (keys : List Key) : List String :=
  keys.filterMap fun
    | .alias worker => if isProtocolSubcomponent worker then none else some worker
    | _ => none

/-- Seed from a commit read outside the mutex: the revision is taken as read,
the version only moves forward. -/
def Publisher.discover (pub : Publisher) (revision : Nat) (commit : AssignmentCommit) :
    Publisher :=
  { pub with lastCommitRev := revision
             currentVersion := max pub.currentVersion commit.version }

def discoverRequest : DiscoverPc → Option (Request Key Value)
  | .list => some .keys
  | .commit _ => some (.read .commit)
  | .aliases (key :: _) _ _ => some (.read key)
  | _ => none

def scanAliases (keys : List Key) : DiscoverPc :=
  .aliases ((aliasWorkers keys).map .alias) 0 []

def discoverResume :
    DiscoverPc → Answer Key Value → Option (Progress DiscoverPc (Option (List String)))
  | .list, .keys keys => some (.waits (.commit keys))
  | .list, .failed => some (.returned none)
  | .commit keys, .entry (some seen) =>
    match seen.value.asCommit with
    | some commit => some (.waits (.seed keys seen.revision commit))
    | none => some (.waits (scanAliases keys))
  | .commit keys, .entry none | .commit keys, .failed => some (.waits (scanAliases keys))
  | .aliases (key :: rest) highest workers, .entry (some seen) =>
    match key, seen.value.asAssignment with
    | .alias worker, some a =>
      some (.waits (.aliases rest (max highest a.version) (worker :: workers)))
    | _, _ => some (.waits (.aliases rest highest workers))
  | .aliases (_ :: rest) highest workers, .entry none
  | .aliases (_ :: rest) highest workers, .failed =>
    some (.waits (.aliases rest highest workers))
  | _, _ => none

/-- The two sections of `DiscoverHighestVersion` that hold the mutex. Once the
commit seeded the version, the aliases are listed and not read. -/
def discoverLocked (pub : Publisher) :
    DiscoverPc → Option (Publisher × Progress DiscoverPc (Option (List String)))
  | .seed keys revision commit =>
    some (pub.discover revision commit, .waits (.finish 0 (aliasWorkers keys)))
  | .aliases [] highest workers | .finish highest workers =>
    some ({ pub with currentVersion := max pub.currentVersion highest },
      .returned (some (workers.insertionSort (· ≤ ·))))
  | _ => none

/-- Where a `BootstrapLastCommit` call waits. -/
inductive BootstrapPc where
  | get
  | seed (revision : Nat) (commit : AssignmentCommit)

/-- Seed the commit cache: revision and version only move forward. -/
def Publisher.bootstrap (pub : Publisher) (revision : Nat) (commit : AssignmentCommit) :
    Publisher :=
  { pub with lastCommit := some commit
             lastCommitRev := max pub.lastCommitRev revision
             currentVersion := max pub.currentVersion commit.version }

def bootstrapRequest : BootstrapPc → Option (Request Key Value)
  | .get => some (.read .commit)
  | .seed _ _ => none

def bootstrapResume : BootstrapPc → Answer Key Value → Option (Progress BootstrapPc Unit)
  | .get, .entry (some seen) =>
    match seen.value.asCommit with
    | some commit => some (.waits (.seed seen.revision commit))
    | none => some (.returned ())
  | .get, .entry none | .get, .failed => some (.returned ())
  | _, _ => none

def bootstrapLocked (pub : Publisher) : BootstrapPc → Option (Publisher × Progress BootstrapPc Unit)
  | .get => none
  | .seed revision commit => some (pub.bootstrap revision commit, .returned ())

/-! The two bootstrap methods only read. -/

theorem discoverRequest_ne_write (pc : DiscoverPc) (w : Write Key Value) :
    discoverRequest pc ≠ some (.write w) := by
  unfold discoverRequest
  split <;> simp

theorem bootstrapRequest_ne_write (pc : BootstrapPc) (w : Write Key Value) :
    bootstrapRequest pc ≠ some (.write w) := by
  unfold bootstrapRequest
  split <;> simp

end Parti.Assignment
