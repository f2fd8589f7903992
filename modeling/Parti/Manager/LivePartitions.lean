/-
# Manager.LivePartitions — the partitions the leader vouches for

`livePartitionSet` is the union of the source's list and of the partitions of the live
commit. It reads `_commit`, and `currentCommitPartitionSet` reads it again: only a commit
of the version read first is fanned out, and for any other the batch is empty, without
an error. The batch is cached by version and revision; the removal guard calls
`currentCommitPartitionSet` too and shares the cache.

`vouched_set_omits_commit`: when a commit lands between the two reads, the set has the
source's partitions only. `vouched_set_complete`: in every run in which the second read
finds a commit of the version of the first, a vouched set holds the source's partitions and
all partitions of a commit that was live at an instant of the call, or there was an instant
without a commit.

Writers of the bucket are left to the environment, as are leadership, the source and the
order in which a map is walked.
-/
import Parti.Assignment.Publisher
import Parti.Lib.Routine

namespace Parti.Manager.LivePartitions

open Parti.Types Assignment Lib Lib.Kv Lib.Client Option Partition

/-! ## Payloads -/

structure PayloadCodec extends Codec where
  unmarshal : GoString → Option AssignmentPayload

inductive PayloadError where
  | fetch
  | decompress
  | hashMismatch
  | decode
  | digestMismatch
deriving DecidableEq

def fetchAndVerifyCommitPayload (codec : PayloadCodec) (ref : AssignmentPayloadRef) :
    Option (Entry Value) → Except PayloadError AssignmentPayload
  | none => .error .fetch
  | some entry =>
    match entry.value.asPayload.bind codec.gzipDecompress with
    | none => .error .decompress
    | some plain =>
      if codec.sha256 plain ≠ ref.payloadHash then .error .hashMismatch
      else
        match codec.unmarshal plain with
        | none => .error .decode
        | some payload =>
          if codec.partitionSetDigest payload.partitions ≠ ref.setDigest then
            .error .digestMismatch
          else .ok payload

def payloadRefs (commit : AssignmentCommit) : List AssignmentPayloadRef :=
  commit.payloads.entries.map fun entry => entry.2

/-- A payload that verifies is stored under the reference, and the set has all its
partitions. -/
def coversRef (codec : PayloadCodec) (b : Bucket Key Value) (set : List GoString)
    (ref : AssignmentPayloadRef) : Bool :=
  b.log.any fun r => r.key = ref.key &&
    match fetchAndVerifyCommitPayload codec ref r.entry? with
    | .ok payload => payload.partitions.all fun p => p.subjectKey ∈ set
    | .error _ => false

/-- The set has every partition in the payloads of the commit. -/
def covers (codec : PayloadCodec) (b : Bucket Key Value) (set : List GoString)
    (commit : AssignmentCommit) : Bool :=
  (payloadRefs commit).all (coversRef codec b set)

/-! ## The calls -/

structure CommitBatchEntry where
  version : Int
  rev : Nat
  batch : List GoString
deriving DecidableEq

/-- Who called `currentCommitPartitionSet`: `livePartitionSet`, with the partitions the
source has listed, or the removal guard. -/
inductive Job where
  | live (parts : List Partition)
  | guard
deriving DecidableEq

inductive Pc where
  | idle
  | foreign (write : Write Key Value)
  | leader
  | list
  | commit (parts : List Partition)
  | recheck (job : Job) (version : Int)
  | load (job : Job) (version : Int) (commit : AssignmentCommit) (rev : Nat)
  | range (job : Job) (version : Int) (commit : AssignmentCommit) (rev : Nat)
  | fetch (job : Job) (version : Int) (commit : AssignmentCommit) (rev : Nat)
      (refs : List AssignmentPayloadRef) (batch : List GoString)
  | store (job : Job) (version : Int) (commit : AssignmentCommit) (rev : Nat)
      (batch : List GoString)
  /-- `livePartitionSet` has returned a set and true; what the source listed is for the
  record. -/
  | vouched (parts : List Partition) (set : List GoString)
  | unvouched
  | guarded (batch : Option (List GoString))
deriving DecidableEq

inductive Input where
  | foreign (write : Write Key Value)
  | livePartitionSet
  | currentCommitPartitionSet (version : Int)
  | leader (isLeader : Bool)
  | listed (parts : Option (List Partition))
  | range (order : List AssignmentPayloadRef)
  | go

def Job.finish (batch : List GoString) : Job → Pc
  | .live parts => .vouched parts (parts.map subjectKey ++ batch)
  | .guard => .guarded (some batch)

def Job.fail : Job → Pc
  | .live _ => .unvouched
  | .guard => .guarded none

section System

variable {T : Type} [DecidableEq T]

def next (cache : Option CommitBatchEntry) :
    Pc → Input → Option (Turn (Option CommitBatchEntry) Pc T)
  | .idle, .foreign write => some ⟨cache, .foreign write, none⟩
  | .idle, .livePartitionSet => some ⟨cache, .leader, none⟩
  | .idle, .currentCommitPartitionSet version => some ⟨cache, .recheck .guard version, none⟩
  | .leader, .leader isLeader => some ⟨cache, if isLeader then .list else .unvouched, none⟩
  | .list, .listed none => some ⟨cache, .unvouched, none⟩
  | .list, .listed (some parts) => some ⟨cache, .commit parts, none⟩
  | .load job version commit rev, .go =>
    match cache with
    | some entry =>
      if entry.version = version ∧ entry.rev = rev then
        some ⟨cache, job.finish entry.batch, none⟩
      else some ⟨cache, .range job version commit rev, none⟩
    | none => some ⟨cache, .range job version commit rev, none⟩
  | .range job version commit rev, .range order =>
    if order.isPerm (payloadRefs commit) then
      some ⟨cache, .fetch job version commit rev order [], none⟩
    else none
  | .fetch job version commit rev [] batch, .go =>
    some ⟨cache, .store job version commit rev batch, none⟩
  | .store job version _ rev batch, .go =>
    some ⟨some ⟨version, rev, batch⟩, job.finish batch, none⟩
  | .vouched _ _, .go | .unvouched, .go | .guarded _, .go => some ⟨cache, .idle, none⟩
  | _, _ => none

def asks : Pc → Option (Request Key Value)
  | .foreign write => some (.write write)
  | .commit _ | .recheck _ _ => some (.read .commit)
  | .fetch _ _ _ _ (ref :: _) _ => some (.read ref.key)
  | _ => none

/-- What is done with an answer; nothing but the counter changes. -/
def told (codec : PayloadCodec) : Pc → Answer Key Value → Option Pc
  | .foreign _, _ => some .idle
  | .commit parts, .entry none => some (.vouched parts (parts.map subjectKey))
  | .commit parts, .entry (some entry) =>
    match entry.value.asCommit with
    | none => some .unvouched
    | some commit => some (.recheck (.live parts) commit.version)
  | .commit _, .failed => some .unvouched
  | .recheck job _, .entry none => some (job.finish [])
  | .recheck job version, .entry (some entry) =>
    match entry.value.asCommit with
    | none => some job.fail
    | some commit =>
      if commit.version ≠ version then some (job.finish [])
      else some (.load job version commit entry.revision)
  | .recheck job _, .failed => some job.fail
  | .fetch job version commit rev (ref :: rest) batch, .entry live =>
    match fetchAndVerifyCommitPayload codec ref live with
    | .ok payload =>
      some (.fetch job version commit rev rest (payload.partitions.map subjectKey ++ batch))
    | .error _ => some job.fail
  | .fetch job _ _ _ _ _, .failed => some job.fail
  | _, _ => none

variable (T) in
def calls (codec : PayloadCodec) :
    Routine (Option CommitBatchEntry) Pc Input T Key Value where
  idle pc := decide (pc = .idle)
  asks := asks
  told cache _ _ pc answer := (told codec pc answer).map fun pc => (cache, pc)
  next cache _ _ pc input := next cache pc input

variable (T) in
def system (codec : PayloadCodec) :
    System (Client.State (Pool (Option CommitBatchEntry) Pc T) Key Value) (Action T (T × Input)) :=
  (calls T codec).system (fun w => w.pending = [] ∧ w.locals = none) .idle

def Pc.inside : Pc → Bool
  | .leader | .list | .commit _ | .vouched _ _ | .unvouched => true
  | .recheck job _ | .load job _ _ _ | .range job _ _ _ | .fetch job _ _ _ _ _
  | .store job _ _ _ _ => job ≠ .guard
  | _ => false

variable (T) in
/-- With a record, for every call, of the live entry of `_commit` at each of its
instants. -/
def watched (codec : PayloadCodec) :
    System (Watched (Client.State (Pool (Option CommitBatchEntry) Pc T) Key Value) T
        (Option (Entry Value)))
      (Action T (T × Input)) :=
  (system T codec).watch (fun s t => (s.locals.pcs t).inside) fun s => s.bucket.get .commit

/-- What the second read of a call finds is a commit of the version read first, if it is
a commit that can be read. -/
def steadyAt : Pc → Option (Entry Value) → Bool
  | .recheck (.live _) version, live =>
    live.any fun entry => entry.value.asCommit.all fun commit => commit.version = version
  | _, _ => true

/-- No commit of another version is found by a second read, and the commit is there. -/
def Steady (s : Client.State (Pool (Option CommitBatchEntry) Pc T) Key Value) :
    Action T (T × Input) → Prop
  | .step t .served => steadyAt (s.locals.pcs t) (s.bucket.get .commit) = true
  | _ => True

end System

/-! ## What a step can be -/

section Steps

variable {T : Type} {cache cache' : Option CommitBatchEntry} {codec : PayloadCodec} {pc pc' : Pc}
  {answer : Answer Key Value}

variable (cache : Option CommitBatchEntry) in
inductive Steps : Pc → Option CommitBatchEntry → Pc → Prop
  | foreign (write) : Steps .idle cache (.foreign write)
  | called : Steps .idle cache .leader
  | guards (version) : Steps .idle cache (.recheck .guard version)
  | leads : Steps .leader cache .list
  | unvouched (pc : Pc) : Steps pc cache .unvouched
  | listed (parts) : Steps .list cache (.commit parts)
  | hit (job version commit entry) (found : cache = some entry) :
      Steps (.load job version commit entry.rev) cache (job.finish entry.batch)
  | miss (job version commit rev) :
      Steps (.load job version commit rev) cache (.range job version commit rev)
  | range (job version commit rev order) (all : ∀ ref ∈ payloadRefs commit, ref ∈ order) :
      Steps (.range job version commit rev) cache (.fetch job version commit rev order [])
  | fetched (job version commit rev batch) :
      Steps (.fetch job version commit rev [] batch) cache (.store job version commit rev batch)
  | stored (job version commit rev batch) :
      Steps (.store job version commit rev batch) (some ⟨version, rev, batch⟩) (job.finish batch)
  | returned (pc : Pc) : Steps pc cache .idle

theorem next_steps {input : Input} {turn : Turn (Option CommitBatchEntry) Pc T}
    (moved : next cache pc input = some turn) :
    Steps cache pc turn.cells turn.pc ∧ turn.spawned = none := by
  unfold next at moved
  split at moved
  case h_1 => cases moved; exact ⟨.foreign _, rfl⟩
  case h_2 => cases moved; exact ⟨.called, rfl⟩
  case h_3 => cases moved; exact ⟨.guards _, rfl⟩
  case h_4 =>
    cases moved
    split
    · exact ⟨.leads, rfl⟩
    · exact ⟨.unvouched _, rfl⟩
  case h_5 => cases moved; exact ⟨.unvouched _, rfl⟩
  case h_6 => cases moved; exact ⟨.listed _, rfl⟩
  case h_7 =>
    split at moved
    · split_ifs at moved with same <;> cases moved
      · obtain ⟨_, rfl⟩ := same
        exact ⟨.hit _ _ _ _ rfl, rfl⟩
      · exact ⟨.miss _ _ _ _, rfl⟩
    · cases moved
      exact ⟨.miss _ _ _ _, rfl⟩
  case h_8 =>
    split_ifs at moved with perm
    cases moved
    exact ⟨.range _ _ _ _ _ fun ref mem => (List.isPerm_iff.mp perm).mem_iff.mpr mem, rfl⟩
  case h_9 => cases moved; exact ⟨.fetched _ _ _ _ _, rfl⟩
  case h_10 => cases moved; exact ⟨.stored _ _ _ _ _, rfl⟩
  case h_11 => cases moved; exact ⟨.returned _, rfl⟩
  case h_12 => cases moved; exact ⟨.returned _, rfl⟩
  case h_13 => cases moved; exact ⟨.returned _, rfl⟩
  case h_14 => cases moved

inductive Tells (codec : PayloadCodec) : Pc → Answer Key Value → Pc → Prop
  | foreign (write) (answer : Answer Key Value) : Tells codec (.foreign write) answer .idle
  | absent (parts) :
      Tells codec (.commit parts) (.entry none) (.vouched parts (parts.map subjectKey))
  | found (parts) (answer : Answer Key Value) (version) :
      Tells codec (.commit parts) answer (.recheck (.live parts) version)
  | failed (pc : Pc) (answer : Answer Key Value) (job : Job) : Tells codec pc answer job.fail
  | changed (job version live) (other : ∀ entry, live = some entry →
        ∃ commit, entry.value.asCommit = some commit ∧ commit.version ≠ version) :
      Tells codec (.recheck job version) (.entry live) (job.finish [])
  | same (job commit entry) (decoded : entry.value.asCommit = some commit) :
      Tells codec (.recheck job commit.version) (.entry (some entry))
        (.load job commit.version commit entry.revision)
  | fetched (job version commit rev ref rest batch live payload)
      (verified : fetchAndVerifyCommitPayload codec ref live = .ok payload) :
      Tells codec (.fetch job version commit rev (ref :: rest) batch) (.entry live)
        (.fetch job version commit rev rest (payload.partitions.map subjectKey ++ batch))

theorem told_tells (moved : told codec pc answer = some pc') : Tells codec pc answer pc' := by
  unfold told at moved
  split at moved
  case h_1 => cases moved; exact .foreign _ _
  case h_2 => cases moved; exact .absent _
  case h_3 =>
    split at moved <;> cases moved
    · exact .failed _ _ (.live [])
    · exact .found _ _ _
  case h_4 => cases moved; exact .failed _ _ (.live [])
  case h_5 => cases moved; exact .changed _ _ none nofun
  case h_6 =>
    split at moved
    next => cases moved; exact .failed _ _ _
    next commit decoded =>
      split_ifs at moved with other <;> cases moved
      · exact .changed _ _ _ (by rintro _ ⟨⟩; exact ⟨commit, decoded, other⟩)
      · obtain rfl := not_not.mp other
        exact .same _ commit _ decoded
  case h_7 => cases moved; exact .failed _ _ _
  case h_8 =>
    split at moved
    next payload verified => cases moved; exact .fetched _ _ _ _ _ _ _ _ payload verified
    next => cases moved; exact .failed _ _ _
  case h_9 => cases moved; exact .failed _ _ _
  case h_10 => cases moved

end Steps

/-! ## Batches -/

section Batches

variable {codec : PayloadCodec} {b b' : Bucket Key Value} {set set' : List GoString}
  {ref : AssignmentPayloadRef}

theorem coversRef_mono (covered : coversRef codec b set ref = true)
    (logged : ∀ r ∈ b.log, r ∈ b'.log) (more : ∀ k ∈ set, k ∈ set') :
    coversRef codec b' set' ref = true := by
  simp only [coversRef, List.any_eq_true, Bool.and_eq_true, decide_eq_true_eq] at covered ⊢
  obtain ⟨r, mem, key, verified⟩ := covered
  refine ⟨r, logged r mem, key, ?_⟩
  split at verified
  next payload ok =>
    simp only [List.all_eq_true, decide_eq_true_eq] at verified ⊢
    exact fun p listed => more _ (verified p listed)
  next => cases verified

variable {commit : AssignmentCommit} {rev : Nat}

theorem covers_mono (covered : covers codec b set commit = true) (logged : ∀ r ∈ b.log, r ∈ b'.log)
    (more : ∀ k ∈ set, k ∈ set') :
    covers codec b' set' commit = true := by
  simp only [covers, List.all_eq_true] at covered ⊢
  exact fun ref mem => coversRef_mono (covered ref mem) logged more

theorem coversRef_fetched {payload}
    (verified : fetchAndVerifyCommitPayload codec ref (b.get ref.key) = .ok payload)
    (batch : List GoString) :
    coversRef codec b (payload.partitions.map subjectKey ++ batch) ref = true := by
  simp only [coversRef, List.any_eq_true, Bool.and_eq_true, decide_eq_true_eq]
  cases newest : b.last ref.key with
  | none =>
    rw [Bucket.get, newest] at verified
    cases verified
  | some r =>
    obtain ⟨mem, key, _⟩ := Bucket.last_spec newest
    rw [Bucket.get, newest] at verified
    refine ⟨r, mem, key, ?_⟩
    rw [show r.entry? = (some r).bind Record.entry? from rfl, verified]
    simp only [List.all_eq_true, decide_eq_true_eq]
    exact fun p listed => List.mem_append_left _ (List.mem_map_of_mem listed)

def Read (b : Bucket Key Value) (commit : AssignmentCommit) (rev : Nat) : Prop :=
  ∃ e, b.Stored .commit e ∧ e.revision = rev ∧ e.value.asCommit = some commit

theorem Read.mono (read : Read b commit rev) (logged : ∀ r ∈ b.log, r ∈ b'.log) :
    Read b' commit rev := by
  obtain ⟨e, stored, rest⟩ := read
  exact ⟨e, logged _ stored, rest⟩

theorem Read.unique {commit'} (read : Read b commit rev)
    (read' : Read b commit' rev) : commit = commit' := by
  obtain ⟨e, stored, revision, decoded⟩ := read
  obtain ⟨e', stored', revision', decoded'⟩ := read'
  obtain ⟨_, rfl⟩ := stored.unique stored' (revision.trans revision'.symm)
  exact Option.some.inj (decoded.symm.trans decoded')

end Batches

/-! ## What is known of a call -/

section Calls

variable {T : Type} {codec : PayloadCodec}

def Cached (codec : PayloadCodec) (w : Client.State (Option CommitBatchEntry) Key Value) : Prop :=
  ∀ entry, w.locals = some entry →
    ∃ commit, Read w.bucket commit entry.rev ∧ covers codec w.bucket entry.batch commit = true

def Place (codec : PayloadCodec) (b : Bucket Key Value) : Pc → Prop
  | .load _ _ commit rev | .range _ _ commit rev => Read b commit rev
  | .fetch _ _ commit rev refs batch => Read b commit rev ∧
      ∀ ref ∈ payloadRefs commit, ref ∈ refs ∨ coversRef codec b batch ref = true
  | .store _ _ commit rev batch => Read b commit rev ∧ covers codec b batch commit = true
  | .vouched parts set => ∀ p ∈ parts, p.subjectKey ∈ set
  | _ => True

variable {b b' : Bucket Key Value} {pc pc' : Pc} {t : T}

theorem Place.mono (place : Place codec b pc) (logged : ∀ r ∈ b.log, r ∈ b'.log) :
    Place codec b' pc := by
  unfold Place at place ⊢
  split
  · exact Read.mono place logged
  · exact Read.mono place logged
  · exact ⟨place.1.mono logged, fun ref mem =>
      (place.2 ref mem).imp_right fun covered => coversRef_mono covered logged fun _ => id⟩
  · exact ⟨place.1.mono logged, covers_mono place.2 logged fun _ => id⟩
  · exact place
  · trivial

variable {w w' : Client.State (Option CommitBatchEntry) Key Value} {answer : Answer Key Value}
  {a : Action T (T × Input)} {cache' : Option CommitBatchEntry}
  {s : Client.State (Pool (Option CommitBatchEntry) Pc T) Key Value}

theorem Cached.mono (cached : Cached codec w) (logged : ∀ r ∈ w.bucket.log, r ∈ w'.bucket.log)
    (same : w'.locals = w.locals) :
    Cached codec w' := by
  intro entry found
  obtain ⟨commit, read, covered⟩ := cached entry (same ▸ found)
  exact ⟨commit, read.mono logged, covers_mono covered logged fun _ => id⟩

theorem place_finish (job : Job) (batch : List GoString) : Place codec b (job.finish batch) := by
  cases job with
  | live parts => exact fun p listed => List.mem_append_left _ (List.mem_map_of_mem listed)
  | guard => trivial

theorem place_fail (job : Job) : Place codec b job.fail := by
  cases job <;> trivial

theorem Steps.place (steps : Steps w.locals pc cache' pc') (cached : Cached codec w)
    (place : Place codec w.bucket pc) :
    Cached codec { w with locals := cache' } ∧ Place codec w.bucket pc' := by
  cases steps with
  | hit job version commit entry found => exact ⟨cached, place_finish job _⟩
  | miss job version commit rev => exact ⟨cached, place⟩
  | range job version commit rev order all =>
    exact ⟨cached, place, fun ref mem => .inl (all ref mem)⟩
  | fetched job version commit rev batch =>
    refine ⟨cached, place.1, ?_⟩
    simp only [covers, List.all_eq_true]
    exact fun ref mem => (place.2 ref mem).resolve_left List.not_mem_nil
  | stored job version commit rev batch =>
    refine ⟨?_, place_finish job _⟩
    rintro _ ⟨⟩
    exact ⟨commit, place⟩
  | _ => exact ⟨cached, trivial⟩

theorem Tells.place (tells : Tells codec pc answer pc') (place : Place codec b pc)
    (read : ∀ k live, asks pc = some (.read k) → answer = .entry live → b.get k = live) :
    Place codec b pc' := by
  cases tells with
  | foreign | found => trivial
  | absent parts => exact fun p listed => List.mem_map_of_mem listed
  | failed _ _ job => exact place_fail job
  | changed job version live other => exact place_finish job []
  | same job commit entry decoded =>
    exact ⟨entry, Bucket.get_stored (read .commit _ rfl rfl), rfl, decoded⟩
  | fetched job version commit rev ref rest batch live payload verified =>
    refine ⟨place.1, fun ref' mem => ?_⟩
    have here := read ref.key live rfl rfl
    obtain this | covered := place.2 ref' mem
    · obtain rfl | later := List.mem_cons.mp this
      · exact .inr (coversRef_fetched (here ▸ verified) batch)
      · exact .inl later
    · exact .inr (coversRef_mono covered (fun _ => id) fun _ => List.mem_append_right _)

theorem hears_read (hears : Hears (calls T codec) w t pc a answer) :
    ∀ k live, asks pc = some (.read k) → answer = .entry live → w.bucket.get k = live := by
  rintro k live asked rfl
  obtain ⟨k', asked', here⟩ := hears.entry
  obtain rfl : k = k' := by simpa using asked.symm.trans asked'
  exact here

variable [DecidableEq T]

theorem places_of_reachable {ok} (reached : Reachable (system T codec) ok s) :
    Cached codec (world s) ∧ ∀ t, Place codec s.bucket (s.locals.pcs t) := by
  refine Reachable.routine (F := fun _ => True) (I := Cached codec)
    (N := fun w _ pc => Place codec w.bucket pc) (fun _ _ => trivial) ?_ ?_ ?_ reached
  · rintro w ⟨_, empty⟩
    refine ⟨fun entry found => ?_, fun _ => trivial⟩
    rw [empty] at found
    cases found
  · intro s t a w' pc' spawned _ _ cached places does
    cases does with
    | next input turn moved =>
      obtain ⟨steps, none_⟩ := next_steps moved
      obtain ⟨cached', own⟩ := steps.place cached (places t)
      exact ⟨cached', own, fun u _ => places u, fun _ _ some_ => by rw [none_] at some_; cases some_⟩
    | wrote write cells pc' asked accepted told =>
      obtain ⟨pc, told, same⟩ := map_eq_some_iff.mp told
      cases same
      have logged : ∀ r ∈ s.bucket.log, r ∈ (s.bucket.append write.key write.op s.clock).log :=
        fun r mem => .tail _ mem
      refine ⟨cached.mono logged rfl, Place.mono ?_ logged, fun u _ => (places u).mono logged, by rintro _ _ ⟨⟩⟩
      exact (told_tells told).place (places t) (by rintro k live _ ⟨⟩)
    | heard _ answer cells pc' hears told =>
      obtain ⟨pc, told, same⟩ := map_eq_some_iff.mp told
      cases same
      exact ⟨cached, (told_tells told).place (places t) (hears_read hears), fun u _ => places u, by rintro _ _ ⟨⟩⟩
    | late write cells pc' asked told =>
      obtain ⟨pc, told, same⟩ := map_eq_some_iff.mp told
      cases same
      refine ⟨cached, (told_tells told).place (places t) ?_, fun u _ => places u, by rintro _ _ ⟨⟩⟩
      rintro k live _ ⟨⟩
  · intro s a w' _ _ cached places passes
    refine ⟨?_, fun t => (places t).mono passes.logged⟩
    cases passes with
    | tick elapsed => exact cached
    | land index write waiting accepted =>
      exact cached.mono (fun r mem => .tail _ mem) rfl

/-! ## What was live during the call -/

/-- The record has an instant without a commit, or one with a commit the set covers. -/
def Complete (codec : PayloadCodec) (b : Bucket Key Value) (set : List GoString)
    (seen : List (Option (Entry Value))) : Prop :=
  ∃ live ∈ seen, live = none ∨ ∃ entry commit, live = some entry ∧
    entry.value.asCommit = some commit ∧ covers codec b set commit = true

/-- The commit a call works on was live at one of its instants. -/
def WasLive (seen : List (Option (Entry Value))) (commit : AssignmentCommit) : Prop :=
  ∃ entry, some entry ∈ seen ∧ entry.value.asCommit = some commit

def Seen (codec : PayloadCodec) (b : Bucket Key Value) (seen : List (Option (Entry Value))) :
    Pc → Prop
  | .load (.live _) _ commit _ | .range (.live _) _ commit _ | .fetch (.live _) _ commit _ _ _
  | .store (.live _) _ commit _ _ => WasLive seen commit
  | .vouched _ set => Complete codec b set seen
  | _ => True

variable {seen seen' : List (Option (Entry Value))} {commit : AssignmentCommit}
  {spawned : Option (T × Pc)}

theorem WasLive.complete {set} (live : WasLive seen commit)
    (covered : covers codec b set commit = true) : Complete codec b set seen := by
  obtain ⟨entry, mem, decoded⟩ := live
  exact ⟨some entry, mem, .inr ⟨entry, commit, rfl, decoded, covered⟩⟩

theorem Seen.mono (known : Seen codec b seen pc) (logged : ∀ r ∈ b.log, r ∈ b'.log)
    (more : ∀ live ∈ seen, live ∈ seen') : Seen codec b' seen' pc := by
  have stays {commit : AssignmentCommit} (live : WasLive seen commit) : WasLive seen' commit := by
    obtain ⟨entry, mem, decoded⟩ := live
    exact ⟨entry, more _ mem, decoded⟩
  unfold Seen at known ⊢
  split
  · exact stays known
  · exact stays known
  · exact stays known
  · exact stays known
  · obtain ⟨live, mem, is⟩ := known
    refine ⟨live, more _ mem, is.imp_right ?_⟩
    rintro ⟨entry, commit, here, decoded, covered⟩
    exact ⟨entry, commit, here, decoded, covers_mono covered logged fun _ => id⟩
  · trivial

theorem Seen.finish {job : Job} {batch} (live : ∀ parts, job = .live parts → WasLive seen commit)
    (covered : covers codec b batch commit = true) : Seen codec b seen (job.finish batch) := by
  cases job with
  | guard => trivial
  | live parts =>
    exact (live parts rfl).complete (covers_mono covered (fun _ => id) fun _ => List.mem_append_right _)

theorem Steps.seen_of (steps : Steps w.locals pc cache' pc') (cached : Cached codec w)
    (place : Place codec w.bucket pc) (known : Seen codec w.bucket seen pc) :
    Seen codec w.bucket seen pc' := by
  cases steps with
  | hit job version commit entry found =>
    obtain ⟨commit', read, covered⟩ := cached entry found
    obtain rfl := Read.unique place read
    exact Seen.finish (by rintro parts rfl; exact known) covered
  | miss job | range job | fetched job =>
    cases job with
    | live parts => exact known
    | guard => trivial
  | stored job version commit rev batch =>
    exact Seen.finish (by rintro parts rfl; exact known) place.2
  | _ => trivial

theorem Tells.seen_of (tells : Tells codec pc answer pc') (known : Seen codec b seen pc)
    (now : pc.inside = true → b.get .commit ∈ seen)
    (read : ∀ k live, asks pc = some (.read k) → answer = .entry live → b.get k = live)
    (steady : ∀ live, answer = .entry live → steadyAt pc (b.get .commit) = true) :
    Seen codec b seen pc' := by
  cases tells with
  | absent parts =>
    refine ⟨none, ?_, .inl rfl⟩
    rw [← read .commit none rfl rfl]
    exact now rfl
  | failed _ _ job => cases job <;> trivial
  | changed job version live other =>
    cases job with
    | guard => trivial
    | live parts =>
      have here := read .commit live rfl rfl
      have holds := steady live rfl
      rw [here] at holds
      -- the second read was steady, so this branch is not taken
      cases live with
      | none => cases holds
      | some entry =>
        obtain ⟨commit, decoded, differs⟩ := other entry rfl
        simp [steadyAt, decoded] at holds
        exact absurd holds differs
  | same job commit entry decoded =>
    cases job with
    | guard => trivial
    | live parts =>
      refine ⟨entry, ?_, decoded⟩
      rw [← read .commit _ rfl rfl]
      exact now rfl
  | fetched job version commit rev ref rest batch live payload verified =>
    cases job with
    | live parts => exact known
    | guard => trivial
  | _ => trivial

theorem Seen.recorded (known : Seen codec b seen pc) (live : Option (Entry Value)) :
    Seen codec b (if pc.inside then live :: seen else []) pc := by
  split
  next => exact known.mono (fun _ => id) fun _ => List.mem_cons_of_mem _
  next outside =>
    cases pc with
    | vouched parts set => exact absurd rfl outside
    | load job | range job | fetch job | store job => cases job <;> trivial
    | _ => trivial

omit [DecidableEq T] in
theorem Does.starts_none (does : Does (calls T codec) w t pc a w' pc' spawned) :
    spawned = none := by
  cases does with
  | next input turn moved => exact (next_steps moved).2
  | _ => rfl

omit [DecidableEq T] in
theorem Does.seen_of (steady : Steady s a) (cached : Cached codec (world s))
    (place : Place codec s.bucket (s.locals.pcs t))
    (does : Does (calls T codec) (world s) t (s.locals.pcs t) a w' pc' spawned)
    (now : (s.locals.pcs t).inside = true → s.bucket.get .commit ∈ seen)
    (known : Seen codec s.bucket seen (s.locals.pcs t)) : Seen codec w'.bucket seen pc' := by
  refine Seen.mono (b := s.bucket) ?_ does.logged fun _ => id
  cases does with
  | next input turn moved => exact (next_steps moved).1.seen_of cached place known
  | wrote _ _ _ _ _ told | late _ _ _ _ told =>
    obtain ⟨pc, told, same⟩ := map_eq_some_iff.mp told
    cases same
    refine (told_tells told).seen_of known now ?_ ?_
    · rintro k live _ ⟨⟩
    · rintro live ⟨⟩
  | heard _ answer cells pc' hears told =>
    obtain ⟨pc, told, same⟩ := map_eq_some_iff.mp told
    cases same
    refine (told_tells told).seen_of known now (hears_read hears) ?_
    rintro live rfl
    cases hears
    exact steady

theorem seen_of_reachable {w}
    (reached : Reachable (watched T codec) (fun w a => Steady w.state a) w) (t : T) :
    Seen codec w.state.bucket (w.seen t) (w.state.locals.pcs t) := by
  refine Reachable.watched (J := fun s t seen => Seen codec s.bucket seen (s.locals.pcs t))
    (fun s reached => places_of_reachable reached) ?_ ?_ reached t
  · intro s t starts
    rw [starts.2 t]
    trivial
  · intro s a s' t seen facts steady taken now known
    refine Seen.recorded ?_ _
    cases Routine.step_moves taken with
    | passes _ w' passes => exact known.mono passes.logged fun _ => id
    | does u _ w' pc' spawned does fits =>
      show Seen codec w'.bucket seen (((Turn.mk w'.locals pc' spawned).pool s.locals.pcs u).pcs t)
      obtain ⟨rfl, at_⟩ | ⟨_, _, new⟩ | ⟨_, at_⟩ := Turn.pool_pcs fits t
      · rw [at_]
        exact Does.seen_of steady facts.1 (facts.2 t) does now known
      · exact nomatch new.symm.trans (Does.starts_none does)
      · rw [at_]
        exact known.mono does.logged fun _ => id

theorem vouched_set_complete
    {w : Watched (Client.State (Pool (Option CommitBatchEntry) Pc T) Key Value) T
      (Option (Entry Value))}
    (reached : Reachable (watched T codec) (fun w a => Steady w.state a) w) {parts : List Partition}
    {set : List GoString} (here : w.state.locals.pcs t = .vouched parts set) :
    (∀ p ∈ parts, p.subjectKey ∈ set) ∧
      ∃ live ∈ w.seen t, live = none ∨ ∃ entry commit, live = some entry ∧
        entry.value.asCommit = some commit ∧ covers codec w.state.bucket set commit = true := by
  have place := (places_of_reachable reached.unwatch).2 t
  have seen := seen_of_reachable reached t
  rw [here] at place seen
  exact ⟨place, seen⟩

end Calls

/-! ## Runs -/

variable {T : Type} [DecidableEq T]

/-- An encoding in which a payload's bytes are the key of its one partition. -/
def keyCodec : PayloadCodec where
  marshal payload := payload.partitions.flatMap subjectKey
  sha256 := id
  gzipCompress := id
  gzipDecompress := some
  partitionSetDigest _ := 0
  unmarshal plain := some ⟨assignmentSchemaVersion, [⟨[plain], 0, []⟩], [], false⟩

def commitOfA (version : Int) : AssignmentCommit where
  version := version
  leaderRevision := 1
  sourceRevision := 0
  sourceRevisionKnown := false
  publishedAt := 0
  workers := ["w"]
  payloads := AList.insert "w" ⟨.payload [97], [97], 0, 1⟩ ∅
  batchDigest := 0
  parkedCount := 0
  parkedDigest := 0
  prevCommitRev := 0
  lifecycle := "stable"

variable (T) in
def fresh : Watched (Client.State (Pool (Option CommitBatchEntry) Pc T) Key Value) T
    (Option (Entry Value)) :=
  ⟨⟨.empty, [], 0, ⟨none, fun _ => .idle⟩⟩, fun _ => []⟩

theorem fresh_init (codec : PayloadCodec) : (watched T codec).init (fresh T) :=
  ⟨⟨⟨rfl, rfl⟩, fun _ => rfl⟩, fun _ => rfl⟩

def writes (u : T) (write : Write Key Value) : List (Action T (T × Input)) :=
  [.call (u, .foreign write), .step u .served]

/-- The payload of `a` and a first commit are stored; the leader lists nothing and reads
the commit. -/
def reads (t u : T) : List (Action T (T × Input)) :=
  writes u (.put (.payload [97]) (.payload [97])) ++ writes u (.put .commit (.commit (commitOfA 1))) ++
    [.call (t, .livePartitionSet), .call (t, .leader true), .call (t, .listed (some [])),
      .step t .served]

def vouches (t u : T) : List (Action T (T × Input)) :=
  reads t u ++ [.step t .served, .call (t, .go),
    .call (t, .range (payloadRefs (commitOfA 1))), .step t .served, .call (t, .go), .call (t, .go)]

def overtaken (t u : T) : List (Action T (T × Input)) :=
  reads t u ++ writes u (.put .commit (.commit (commitOfA 2))) ++ [.step t .served]

instance (s : Client.State (Pool (Option CommitBatchEntry) Pc T) Key Value) (a : Action T (T × Input)) :
    Decidable (Steady s a) :=
  match a with
  | .step _ .served => inferInstanceAs (Decidable (_ = _))
  | .step _ .failed => isTrue trivial
  | .step _ .unanswered => isTrue trivial
  | .land _ => isTrue trivial
  | .tick _ => isTrue trivial
  | .call _ => isTrue trivial

theorem vouched_set_complete_fanned_out :
    ∃ w, Reachable (watched Bool keyCodec) (fun w a => Steady w.state a) w ∧
      w.state.locals.pcs true = .vouched [] [[97]] ∧ none ∉ w.seen true ∧
      ∃ live ∈ w.seen true, live = none ∨ ∃ entry commit, live = some entry ∧
        entry.value.asCommit = some commit ∧
          covers keyCodec w.state.bucket [[97]] commit = true := by
  obtain ⟨w, reached, here, present⟩ := exists_reachable (fun w a => Steady w.state a)
    (fresh_init keyCodec) (vouches true false) (fun w =>
      w.state.locals.pcs true = .vouched [] [[97]] ∧ none ∉ w.seen true) (by decide)
  exact ⟨w, reached, here, present, (vouched_set_complete reached here).2⟩

/-- The set vouched for is empty, though every commit that was live during the call has
partition `a` in its payload. -/
theorem vouched_set_omits_commit :
    ∃ w, Reachable (watched Bool keyCodec) Free w ∧
      w.state.locals.pcs true = .vouched [] [] ∧ none ∉ w.seen true ∧
      ∀ live ∈ w.seen true, ∀ entry commit, live = some entry →
        entry.value.asCommit = some commit →
          covers keyCodec w.state.bucket [] commit = false ∧
            covers keyCodec w.state.bucket [[97]] commit = true := by
  obtain ⟨w, reached, here, present, omits⟩ := exists_reachable Free (fresh_init keyCodec)
    (overtaken true false) (fun w => w.state.locals.pcs true = .vouched [] [] ∧ none ∉ w.seen true ∧
      ∀ live ∈ w.seen true, ∀ commit ∈ live.bind fun entry => entry.value.asCommit,
      covers keyCodec w.state.bucket [] commit = false ∧
      covers keyCodec w.state.bucket [[97]] commit = true) (by decide)
  refine ⟨w, reached, here, present, ?_⟩
  rintro live mem entry commit rfl decoded
  exact omits _ mem commit decoded

end Parti.Manager.LivePartitions
