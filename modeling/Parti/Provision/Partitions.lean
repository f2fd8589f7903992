/-
# Provision.Partitions — writing the partition table is a guarded compare-and-swap

`PlanPartitions` compares the declared table with the one it has read and plans at most one
write. `ApplyPartitions` reads the key again: a table that is the declared one already is a
success; one that is not the planned `Before` is refused, and so is a removal without `prune`.
Then it writes, under the revision it has read or by creating the key.

A `Session` is one call of `ApplyPartitions` among writers who may put, replace or delete the key
at any moment. Its own write may be lost, that is reach the key after the call has given up
(`late`). `moments` records the entries the key had during the call; nothing reads it.

* `partitionTablesEqual_mem`: the comparison by id, weight and label is equality of tables as sets,
  because an id names its keys and the tables have no duplicates.
* `apply_partitions_cas`: what a write of the call replaces and what it leaves.

A table is written as JSON, where a text that is no UTF-8 does not survive. Keys and labels are
therefore both taken to be UTF-8 (`Utf8Table`): under a label that is not, the table that is
written is not the declared one (`label_not_written`).
-/
import Parti.Source.Calls
import Parti.Types.CanonicalID

namespace Parti.Provision

open Parti.Types Lib Lib.Kv Source List
open Lib.Client (Reply)

/-! ## The plan -/

/-- The part of the configuration that is read here. -/
structure PartitionSource where
  bucket : String
  key : String
  partitions : List Partition

inductive PartitionSetError where
  /-- Text: "no partitions declared in partitionSource.partitions". -/
  | noPartitions
  /-- Text: "partitionSource.partitions[%d]: %w" or "... duplicates an earlier record". -/
  | record (cause : PartitionsError)
deriving DecidableEq

def validatePartitionSet (partitions : List Partition) : Except PartitionSetError Unit :=
  if partitions = [] then .error .noPartitions
  else (validatePartitions partitions).mapError .record

/-- A table as the map the source builds of it: the last record under an id is the one found. -/
def byID (partitions : List Partition) (id : GoString) : Option Partition :=
  partitions.reverse.find? (·.canonicalID = id)

/-- The ids of a table, in the order the lists of a plan are sorted by. -/
def sortedIDs (partitions : List Partition) : List GoString :=
  (partitions.map Partition.canonicalID).dedup.insertionSort (· ≤ ·)

structure PartitionWeightChange where
  keys : List GoString
  oldWeight : Int
  newWeight : Int
  oldLabel : GoString
  newLabel : GoString
deriving DecidableEq

/-- The records of `b` whose id is not in `a`. -/
def absentFrom (a b : List Partition) : List Partition :=
  (sortedIDs b).filterMap fun id => if (byID a id).isNone then byID b id else none

def changedRecords (live desired : List Partition) : List PartitionWeightChange :=
  (sortedIDs desired).filterMap fun id => do
    let l ← byID live id
    let d ← byID desired id
    if l.weight ≠ d.weight || l.label ≠ d.label then
      some ⟨d.keys, l.weight, d.weight, l.label, d.label⟩
    else none

/-- What `ActionWritePartitions` carries. -/
structure WritePartitionsResource where
  bucket : String
  key : String
  added : List Partition
  removed : List Partition
  changed : List PartitionWeightChange
  before : List Partition
  after : List Partition
deriving DecidableEq

/-- The plan for a declared table and the table that was read; `none` for an empty diff. -/
def planPartitions (source : PartitionSource) (live : List Partition) :
    Except PartitionSetError (Option WritePartitionsResource) := do
  validatePartitionSet source.partitions
  let desired := source.partitions
  let added := absentFrom live desired
  let removed := absentFrom desired live
  let changed := changedRecords live desired
  if added = [] ∧ removed = [] ∧ changed = [] then return none
  else return some ⟨source.bucket, source.key, added, removed, changed, live, desired⟩

/-! ## The comparison of tables -/

def partitionTablesEqual (a b : List Partition) : Bool :=
  a.length = b.length && b.all fun p =>
    match byID a p.canonicalID with
    | some found => found.weight = p.weight && found.label = p.label
    | none => false

def countRemovals (current target : List Partition) : Nat :=
  current.countP fun p => (byID target p.canonicalID).isNone

variable {partitions : List Partition}

theorem byID_eq_some {id} {p} (found : byID partitions id = some p) :
    p ∈ partitions ∧ p.canonicalID = id := by
  refine ⟨?_, by simpa using find?_some found⟩
  have mem : p ∈ partitions.reverse := mem_of_find?_eq_some found
  simpa using mem

theorem partitionTablesEqual_mem {a b} (unique : b.Nodup)
    (equal : partitionTablesEqual a b = true) (p : Partition) : p ∈ a ↔ p ∈ b := by
  simp only [partitionTablesEqual, Bool.and_eq_true, decide_eq_true_eq, all_eq_true] at equal
  obtain ⟨length, all⟩ := equal
  have subset : b ⊆ a := by
    intro q mem
    have compared := all q mem
    split at compared
    next found here =>
      simp only [Bool.and_eq_true, decide_eq_true_eq] at compared
      obtain ⟨member, id⟩ := byID_eq_some here
      have same : found = q := by
        have keys := Partition.canonicalID_injective id
        obtain ⟨keys', weight, label⟩ := found
        obtain ⟨keys'', weight', label'⟩ := q
        simp_all
      exact same ▸ member
    next => cases compared
  exact ((subperm_of_subset unique subset).perm_of_length_le length.le).mem_iff.symm

theorem validateFrom_nodup {i : Nat} {seen} (passed : validateFrom i seen partitions = .ok ()) :
    (partitions.map Partition.canonicalID).Nodup ∧
      ∀ p ∈ partitions, p.canonicalID ∉ seen := by
  induction partitions generalizing i seen with
  | nil => simp
  | cons p rest ih =>
    simp only [validateFrom] at passed
    split at passed
    next => cases passed
    next =>
      split at passed
      next => cases passed
      next fresh =>
        obtain ⟨unique, apart⟩ := ih passed
        refine ⟨nodup_cons.mpr ⟨?_, unique⟩, ?_⟩
        · intro again
          obtain ⟨q, mem, same⟩ := mem_map.mp again
          exact apart q mem (by simp [same])
        · intro q mem
          rcases mem_cons.mp mem with rfl | mem
          · exact fresh
          · exact fun known => apart q mem (.tail _ known)

theorem validatePartitions_nodup (passed : validatePartitions partitions = .ok ()) :
    partitions.Nodup :=
  (validateFrom_nodup passed).1.of_map _

theorem validatePartitionSet_passed (passed : validatePartitionSet partitions = .ok ()) :
    validatePartitions partitions = .ok () := by
  rw [validatePartitionSet] at passed
  split at passed
  next => cases passed
  next =>
    cases verdict : validatePartitions partitions with
    | ok done => rfl
    | error cause => simp [verdict, Except.mapError] at passed

theorem planPartitions_eq_some {source} {live}
    {res} (planned : planPartitions source live = .ok (some res)) :
    validatePartitionSet source.partitions = .ok () ∧ res.before = live ∧
      res.after = source.partitions := by
  cases verdict : validatePartitionSet source.partitions with
  | error cause => simp [planPartitions, verdict, bind, Except.bind] at planned
  | ok done =>
    simp only [planPartitions, verdict, bind, Except.bind] at planned
    split at planned
    next => cases planned
    next =>
      cases planned
      exact ⟨rfl, rfl, rfl⟩

/-! ## The call -/

inductive PartitionFailure where
  /-- Text: "re-read partition source %q/%q: %v". -/
  | reRead
  /-- Text: "partition source changed since plan; re-run partictl partitions plan". -/
  | stale
  /-- Text: "apply would remove %d partition(s); re-run with --prune to apply removals". -/
  | removals (count : Nat)
  /-- Text: "encode partition table: %v". -/
  | encode
  /-- Text: "partition source %q key %q changed concurrently during apply; ...". -/
  | concurrent
  /-- Text: "write partition source %q/%q: %v". -/
  | write
deriving DecidableEq

/-- How the call returns. Only `executed` comes with a nil error. -/
inductive Outcome where
  | executed (raced : Bool)
  | invalid (cause : PartitionSetError)
  /-- The bucket is missing or could not be opened. -/
  | unopened
  | cancelled
  | failed (cause : PartitionFailure)
deriving DecidableEq

inductive Pc (B : Type) where
  | opening
  | reading
  | writing (w : Write Unit B)
  | returned (outcome : Outcome)
deriving DecidableEq

section Call

variable {B : Type} (codec : Codec B) (res : WritePartitionsResource) (prune : Bool)

/-- `Update` at the revision that was read, `Create` where there was nothing. -/
def writeRequest (entry : Option (Entry B)) (data : B) : Write Unit B :=
  match entry with
  | some e => .update () data e.revision
  | none => .create () data

def decideWrite (entry : Option (Entry B)) (current : List Partition) : Pc B :=
  if partitionTablesEqual current res.after then
    .returned (.executed (!partitionTablesEqual current res.before))
  else if !partitionTablesEqual current res.before then .returned (.failed .stale)
  else if 0 < countRemovals current res.after ∧ prune = false then
    .returned (.failed (.removals (countRemovals current res.after)))
  else
    match codec.encode res.after with
    | none => .returned (.failed .encode)
    | some data => .writing (writeRequest entry data)

/-- An error is reported as the context's own once that is done. -/
def failWith (cancelled : Bool) (outcome : Outcome) : Pc B :=
  .returned (if cancelled then .cancelled else outcome)

/-- One request of the call: the key after it, a write still under way, and the next point. -/
def applyStep (b : Bucket Unit B) (cancelled : Bool) :
    Pc B → Reply → Option (Bucket Unit B × List (Write Unit B) × Pc B)
  | .opening, reply =>
    match validatePartitionSet res.after, reply with
    | .error cause, _ => some (b, [], .returned (.invalid cause))
    | .ok (), .served => some (b, [], .reading)
    | .ok (), _ => some (b, [], failWith cancelled .unopened)
  | .reading, .served =>
    match held codec (b.get ()) with
    | none => some (b, [], failWith cancelled (.failed .reRead))
    | some current => some (b, [], decideWrite codec res prune (b.get ()) current)
  | .reading, _ => some (b, [], failWith cancelled (.failed .reRead))
  | .writing w, .served =>
    match b.write 0 w with
    | some b' => some (b', [], .returned (.executed false))
    | none => some (b, [], failWith cancelled (.failed .concurrent))
  | .writing _, .failed => some (b, [], failWith cancelled (.failed .write))
  | .writing w, .unanswered => some (b, [w], failWith cancelled (.failed .write))
  | .returned _, _ => none

structure Session (B : Type) where
  bucket : Bucket Unit B
  late : List (Write Unit B)
  pc : Pc B
  moments : List (Option (Entry B))

inductive SessionEvent (B : Type) where
  | own (reply : Reply) (cancelled : Bool)
  /-- Another writer's request. -/
  | other (w : Write Unit B)
  /-- A write of the call arrives after all. -/
  | land (index : Nat)

/-- The entry of the key is noted as long as the call goes on. -/
def Session.note (x : Session B) (b : Bucket Unit B) : List (Option (Entry B)) :=
  match x.pc with
  | .returned _ => x.moments
  | _ => b.get () :: x.moments

def applyPartitions : System (Session B) (SessionEvent B) where
  init x := x.late = [] ∧ x.pc = .opening ∧ x.moments = [x.bucket.get ()]
  step x
    | .own reply cancelled =>
      (applyStep codec res prune x.bucket cancelled x.pc reply).map fun (b, late, pc) =>
        ⟨b, late ++ x.late, pc, x.note b⟩
    | .other w => (x.bucket.write 0 w).map fun b => { x with bucket := b, moments := x.note b }
    | .land index =>
      (x.late[index]?).bind fun w => (x.bucket.write 0 w).map fun b =>
        { x with bucket := b, late := x.late.eraseIdx index, moments := x.note b }

end Call

/-! ## What holds in every session -/

/-- What `partcodec` does: a table that is read passes the checks, and one that is written can be
read back. -/
structure TableCodec {B : Type} (codec : Codec B) : Prop where
  checked : ∀ data partitions, codec.decode data = some partitions →
    validatePartitions partitions = .ok ()
  faithful : ∀ partitions data, validatePartitions partitions = .ok () → Utf8Table partitions →
    codec.encode partitions = some data → codec.decode data = some partitions

section Invariant

variable {B : Type} {codec : Codec B} {res : WritePartitionsResource} {prune : Bool}

theorem TableCodec.held_nodup (table : TableCodec codec) {entry}
    {current} (read : held codec entry = some current) : current.Nodup := by
  cases entry with
  | none =>
    cases read
    exact nodup_nil
  | some e => exact validatePartitions_nodup (table.checked e.value current read)

structure Asked (codec : Codec B) (res : WritePartitionsResource) (prune : Bool)
    (b : Bucket Unit B) (w : Write Unit B) (entry : Option (Entry B)) (current : List Partition)
    (data : B) : Prop where
  request : w = writeRequest entry data
  stored : ∀ e, entry = some e → b.Stored () e
  read : held codec entry = some current
  encoded : codec.encode res.after = some data
  planned : partitionTablesEqual current res.before = true
  pruned : prune = false → countRemovals current res.after = 0

variable {b : Bucket Unit B} {w : Write Unit B} {entry : Option (Entry B)}
  {current : List Partition} {data : B}

variable {b' : Bucket Unit B} {now : Int} {x : Session B} {late : List (Write Unit B)} {pc : Pc B}
  {v : Write Unit B}

theorem Asked.write (asked : Asked codec res prune b w entry current data)
    (written : b.write now v = some b') : Asked codec res prune b' w entry current data := by
  obtain ⟨-, rfl⟩ := Bucket.write_eq_some.mp written
  exact { asked with stored := fun e is => (asked.stored e is).append _ _ _ }

theorem Asked.live (asked : Asked codec res prune b w entry current data)
    (accepted : b.accepts w = true) : b.get () = entry := by
  rw [asked.request] at accepted
  cases entry with
  | none => exact Bucket.accepts_create.mp accepted
  | some e =>
    exact (asked.stored e rfl).get_of_lastRevision (Bucket.accepts_update.mp accepted)

theorem Asked.puts (asked : Asked codec res prune b w entry current data) :
    w.key = () ∧ w.op = .put data := by
  rw [asked.request]
  cases entry <;> exact ⟨rfl, rfl⟩

theorem decideWrite_asked (read : held codec (b.get ()) = some current)
    (decided : decideWrite codec res prune (b.get ()) current = pc) :
    (∀ w, pc = .writing w → ∃ data, Asked codec res prune b w (b.get ()) current data) ∧
      ∀ raced, pc = .returned (.executed raced) → partitionTablesEqual current res.after = true := by
  subst decided
  rw [decideWrite]
  split_ifs with equal stale removal
  · exact ⟨by simp, fun _ _ => equal⟩
  · exact ⟨by simp, by simp⟩
  · exact ⟨by simp, by simp⟩
  · cases encoded : codec.encode res.after with
    | none => exact ⟨by simp, by simp⟩
    | some data =>
      refine ⟨?_, by simp⟩
      rintro w ⟨⟩
      refine ⟨data, rfl, fun e is => Bucket.get_stored is, read, encoded, by simpa using stale, ?_⟩
      intro noPrune
      simpa [noPrune] using removal

/-- The invariant: where the writes come from, and what a nil error has seen. -/
structure Guarded (codec : Codec B) (res : WritePartitionsResource) (prune : Bool)
    (x : Session B) : Prop where
  writing : ∀ w, x.pc = .writing w → ∃ entry current data,
    Asked codec res prune x.bucket w entry current data
  late : ∀ w ∈ x.late, ∃ entry current data, Asked codec res prune x.bucket w entry current data
  seen : ∀ raced, x.pc = .returned (.executed raced) → ∃ moment ∈ x.moments, ∃ current,
    held codec moment = some current ∧ ∀ p, p ∈ current ↔ p ∈ res.after

theorem Guarded.write (guarded : Guarded codec res prune x)
    (written : x.bucket.write now v = some b') (fewer : ∀ w ∈ late, w ∈ x.late) :
    Guarded codec res prune { x with bucket := b', late := late, moments := x.note b' } where
  writing w at_ := by
    obtain ⟨entry, current, data, asked⟩ := guarded.writing w at_
    exact ⟨entry, current, data, asked.write written⟩
  late w mem := by
    obtain ⟨entry, current, data, asked⟩ := guarded.late w (fewer w mem)
    exact ⟨entry, current, data, asked.write written⟩
  seen raced at_ := by
    have same : x.note b' = x.moments := by
      simp only [Session.note, show x.pc = .returned (.executed raced) from at_]
    rw [same]
    exact guarded.seen raced at_

variable (table : TableCodec codec) (valid : validatePartitions res.after = .ok ())
  (utf8 : Utf8Table res.after)

include table valid utf8

theorem Asked.swaps (unique : res.before.Nodup)
    (asked : Asked codec res prune b w entry current data) (written : b.write now w = some b') :
    held codec (b.get ()) = some current ∧ (∀ p, p ∈ current ↔ p ∈ res.before) ∧
      held codec (b'.get ()) = some res.after ∧
      (prune = false → ∀ p ∈ current, ∃ q ∈ res.after, q.keys = p.keys) := by
  obtain ⟨accepted, rfl⟩ := Bucket.write_eq_some.mp written
  refine ⟨?_, partitionTablesEqual_mem unique asked.planned, ?_, ?_⟩
  · rw [asked.live accepted]
    exact asked.read
  · rw [asked.puts.2, Bucket.get_append_put]
    exact table.faithful _ _ valid utf8 asked.encoded
  · intro noPrune p mem
    have kept := countP_eq_zero.mp (asked.pruned noPrune) p mem
    rw [Bool.not_eq_true, Option.isNone_eq_false_iff, Option.isSome_iff_exists] at kept
    obtain ⟨q, found⟩ := kept
    obtain ⟨member, id⟩ := byID_eq_some found
    exact ⟨q, member, Partition.canonicalID_injective id⟩

theorem Guarded.own {cancelled : Bool} {reply : Reply} (unique : res.before.Nodup)
    (guarded : Guarded codec res prune x)
    (taken : applyStep codec res prune x.bucket cancelled x.pc reply = some (b', late, pc)) :
    Guarded codec res prune ⟨b', late ++ x.late, pc, x.note b'⟩ := by
  -- Most steps leave the key alone and end the call with an error.
  have ends (outcome : Outcome) (notNil : ∀ raced, outcome ≠ .executed raced)
      (late : List (Write Unit B)) (same : ∀ w ∈ late, x.pc = .writing w) :
      Guarded codec res prune ⟨x.bucket, late ++ x.late, .returned outcome, x.note x.bucket⟩ := by
    refine ⟨by simp, ?_, ?_⟩
    · intro w mem
      rcases mem_append.mp mem with mem | mem
      · exact guarded.writing w (same w mem)
      · exact guarded.late w mem
    · rintro raced ⟨⟩
      exact absurd rfl (notNil raced)
  have unsent : ∀ w ∈ ([] : List (Write Unit B)), x.pc = .writing w := by simp
  have fails (cancelled : Bool) (outcome : Outcome) (notNil : ∀ raced, outcome ≠ .executed raced) :
      ∀ raced, (if cancelled then Outcome.cancelled else outcome) ≠ .executed raced := by
    cases cancelled
    · exact notNil
    · intro raced is
      cases is
  cases here : x.pc with
  | returned outcome => simp [applyStep, here] at taken
  | opening =>
    simp only [applyStep, here] at taken
    split at taken <;> cases taken
    · exact ends (.invalid _) (by simp) [] unsent
    · exact ⟨by simp, guarded.late, by simp⟩
    · exact ends _ (fails cancelled .unopened (by simp)) [] unsent
  | reading =>
    have unread (cancelled : Bool) :=
      ends _ (fails cancelled (.failed .reRead) (by simp)) [] unsent
    cases reply with
    | failed | unanswered =>
      cases (show some _ = some _ by simpa only [applyStep, here] using taken)
      exact unread cancelled
    | served =>
      simp only [applyStep, here] at taken
      split at taken
      next =>
        cases taken
        exact unread cancelled
      next current read =>
        cases taken
        obtain ⟨asks, nil⟩ := decideWrite_asked read rfl
        refine ⟨?_, guarded.late, ?_⟩
        · intro w at_
          obtain ⟨data, asked⟩ := asks w at_
          exact ⟨_, current, data, asked⟩
        · intro raced at_
          refine ⟨x.bucket.get (), by simp [Session.note, here], current, read, ?_⟩
          exact partitionTablesEqual_mem (validatePartitions_nodup valid) (nil raced at_)
  | writing w =>
    have refused (late : List (Write Unit B)) (same : ∀ v ∈ late, v = w)
        (cause : PartitionFailure) :=
      ends _ (fails cancelled (.failed cause) (by simp)) late fun v mem =>
        (same v mem) ▸ here
    cases reply with
    | failed =>
      cases (show some _ = some _ by simpa only [applyStep, here] using taken)
      exact refused [] (by simp) .write
    | unanswered =>
      cases (show some _ = some _ by simpa only [applyStep, here] using taken)
      exact refused [w] (by simp) .write
    | served =>
      simp only [applyStep, here] at taken
      split at taken
      next b'' written =>
        cases taken
        obtain ⟨entry, current, data, asked⟩ := guarded.writing w here
        have swaps := asked.swaps table valid utf8 unique written
        refine ⟨by simp, ?_, ?_⟩
        · intro v mem
          obtain ⟨entry, current, data, asked⟩ := guarded.late v mem
          exact ⟨entry, current, data, asked.write written⟩
        · intro raced at_
          refine ⟨b'.get (), by simp [Session.note, here], res.after, swaps.2.2.1, ?_⟩
          exact fun p => Iff.rfl
      next =>
        cases taken
        exact refused [] (by simp) .concurrent

theorem reachable_guarded (unique : res.before.Nodup)
    (reached : Reachable (applyPartitions codec res prune) Free x) :
    Guarded codec res prune x := by
  refine reached.invariant (I := Guarded codec res prune) ?_ ?_
  · rintro x ⟨late, pc, -⟩
    refine ⟨by simp [pc], by simp [late], by simp [pc]⟩
  · intro x event x' guarded _ taken
    cases event with
    | own reply cancelled =>
      obtain ⟨⟨b', late, pc⟩, stepped, rfl⟩ := Option.map_eq_some_iff.mp taken
      exact guarded.own table valid utf8 unique stepped
    | other w =>
      obtain ⟨b', written, rfl⟩ := Option.map_eq_some_iff.mp taken
      exact guarded.write written fun _ mem => mem
    | land index =>
      obtain ⟨w, waiting, landed⟩ := Option.bind_eq_some_iff.mp taken
      obtain ⟨b', written, rfl⟩ := Option.map_eq_some_iff.mp landed
      exact guarded.write written fun _ mem => mem_of_mem_eraseIdx mem

end Invariant

theorem apply_partitions_cas {B : Type} {codec : Codec B} (table : TableCodec codec)
    {source : PartitionSource} {entry : Option (Entry B)} {live : List Partition}
    {res : WritePartitionsResource} (read : held codec entry = some live)
    (planned : planPartitions source live = .ok (some res)) (utf8 : Utf8Table source.partitions)
    (prune : Bool) {x : Session B}
    (reached : Reachable (applyPartitions codec res prune) Free x) :
    (∀ event x', (∀ w, event ≠ .other w) →
      (applyPartitions codec res prune).step x event = some x' →
      x'.bucket.seq ≠ x.bucket.seq → ∃ current, held codec (x.bucket.get ()) = some current ∧
        (∀ p, p ∈ current ↔ p ∈ res.before) ∧ held codec (x'.bucket.get ()) = some res.after ∧
        (prune = false → ∀ p ∈ current, ∃ q ∈ res.after, q.keys = p.keys)) ∧
    (∀ raced, x.pc = .returned (.executed raced) → ∃ moment ∈ x.moments, ∃ current,
      held codec moment = some current ∧ ∀ p, p ∈ current ↔ p ∈ res.after) := by
  obtain ⟨passed, rfl, after⟩ := planPartitions_eq_some planned
  rw [← after] at passed utf8
  have valid := validatePartitionSet_passed passed
  have unique := table.held_nodup read
  have guarded := reachable_guarded table valid utf8 unique reached
  refine ⟨?_, guarded.seen⟩
  intro event x' ours taken changed
  -- The write is the one at the program counter, or one that arrives late.
  have swapped (w : Write Unit B) (b' : Bucket Unit B) (written : x.bucket.write 0 w = some b')
      (asks : ∃ entry current data, Asked codec res prune x.bucket w entry current data)
      (is : x'.bucket = b') : ∃ current, held codec (x.bucket.get ()) = some current ∧
        (∀ p, p ∈ current ↔ p ∈ res.before) ∧ held codec (x'.bucket.get ()) = some res.after ∧
        (prune = false → ∀ p ∈ current, ∃ q ∈ res.after, q.keys = p.keys) := by
    obtain ⟨entry, current, data, asked⟩ := asks
    exact ⟨current, is ▸ asked.swaps table valid utf8 unique written⟩
  cases event with
  | other w => exact absurd rfl (ours w)
  | land index =>
    obtain ⟨w, waiting, landed⟩ := Option.bind_eq_some_iff.mp taken
    obtain ⟨b', written, rfl⟩ := Option.map_eq_some_iff.mp landed
    exact swapped w b' written (guarded.late w (mem_of_getElem? waiting)) rfl
  | own reply cancelled =>
    obtain ⟨⟨b', late, pc⟩, stepped, rfl⟩ := Option.map_eq_some_iff.mp taken
    have wrote : ∃ w, x.pc = .writing w ∧ x.bucket.write 0 w = some b' := by
      cases here : x.pc <;> cases reply <;> simp only [applyStep, here] at stepped
      all_goals (try split at stepped) <;> cases stepped
      all_goals first
        | exact absurd rfl changed
        | exact ⟨_, rfl, ‹_›⟩
    obtain ⟨w, here, written⟩ := wrote
    exact swapped w b' written (guarded.writing w here) rfl

/-! ## A run, and a label that is no UTF-8 -/

/-- A text with a byte that starts nothing, as JSON writes it: with `U+FFFD` in its place. -/
def asWritten (label : GoString) : GoString := if label = [255] then [239, 191, 189] else label

/-- Tables as they are, up to such a label. -/
def plainCodec : Codec (List Partition) where
  encode partitions := some (partitions.map fun p => { p with label := asWritten p.label })
  decode data :=
    match validatePartitions data with
    | .ok () => some data
    | .error _ => none

theorem plainCodec_table : TableCodec plainCodec where
  checked data partitions decoded := by
    simp only [plainCodec] at decoded
    split at decoded
    next passed =>
      cases decoded
      exact passed
    next => cases decoded
  faithful partitions data passed utf8 encoded := by
    have same : partitions.map (fun p => { p with label := asWritten p.label }) = partitions := by
      refine (map_congr_left fun p mem => ?_).trans (map_id _)
      have label := (utf8 p mem).2
      have other : p.label ≠ [255] := by
        intro is
        rw [is] at label
        exact absurd label (by decide)
      simp [asWritten, other]
    simp only [plainCodec, same, Option.some.injEq] at encoded
    subst encoded
    simp [plainCodec, passed]

def declared (label : GoString) : PartitionSource :=
  ⟨"parti-source", "partitions", [⟨[[97]], 1, label⟩]⟩

def firstWrite (label : GoString) : WritePartitionsResource :=
  ⟨"parti-source", "partitions", [⟨[[97]], 1, label⟩], [], [], [], [⟨[[97]], 1, label⟩]⟩

def freshSession : Session (List Partition) := ⟨.empty, [], .opening, [none]⟩

/-- Another writer's table comes and goes before the re-read; the call is about to write. -/
def untilWrite : List (SessionEvent (List Partition)) :=
  [.own .served false, .other (.put () []), .other (.remove ()), .own .served false]

theorem utf8_declared : Utf8Table (declared [103]).partitions := by
  unfold Utf8Table
  decide

/-- The plan of a table, the write that the call makes, and what the theorem says of both. -/
theorem apply_partitions_cas_first :
    planPartitions (declared [103]) [] = .ok (some (firstWrite [103])) ∧
      ∃ x x', (applyPartitions plainCodec (firstWrite [103]) false).run freshSession untilWrite =
          some x ∧
        (applyPartitions plainCodec (firstWrite [103]) false).step x (.own .served false) =
          some x' ∧
        (∃ current, held plainCodec (x.bucket.get ()) = some current ∧
          (∀ p, p ∈ current ↔ p ∈ (firstWrite [103]).before) ∧
          held plainCodec (x'.bucket.get ()) = some (firstWrite [103]).after ∧
          (false = false → ∀ p ∈ current, ∃ q ∈ (firstWrite [103]).after, q.keys = p.keys)) ∧
        ∃ moment ∈ x'.moments, ∃ current, held plainCodec moment = some current ∧
          ∀ p, p ∈ current ↔ p ∈ (firstWrite [103]).after := by
  have planned : planPartitions (declared [103]) [] = .ok (some (firstWrite [103])) := by decide
  have read : held plainCodec none = some [] := rfl
  obtain ⟨x, run, x', taken, returned, grown⟩ :
      ∃ x ∈ (applyPartitions plainCodec (firstWrite [103]) false).run freshSession untilWrite,
        ∃ x' ∈ (applyPartitions plainCodec (firstWrite [103]) false).step x (.own .served false),
          x'.pc = .returned (.executed false) ∧ x.bucket.seq < x'.bucket.seq := by decide
  have starts : (applyPartitions plainCodec (firstWrite [103]) false).init freshSession :=
    ⟨rfl, rfl, rfl⟩
  have reached := run_reachable starts run
  refine ⟨planned, x, x', run, taken, ?_, ?_⟩
  · exact (apply_partitions_cas plainCodec_table read planned utf8_declared false reached).1
      (.own .served false) x' nofun taken (by omega)
  · exact (apply_partitions_cas plainCodec_table read planned utf8_declared false
      (reached.next trivial taken)).2 false returned

theorem label_not_written :
    planPartitions (declared [255]) [] = .ok (some (firstWrite [255])) ∧
      (∀ p ∈ (declared [255]).partitions, ∀ key ∈ p.keys, (goBytes key).IsValidUTF8) ∧
      ∃ x, Reachable (applyPartitions plainCodec (firstWrite [255]) false) Free x ∧
        x.pc = .returned (.executed false) ∧
        ¬ ∃ moment ∈ x.moments, ∃ current, held plainCodec moment = some current ∧
          ∀ p, p ∈ current ↔ p ∈ (firstWrite [255]).after := by
  have planned : planPartitions (declared [255]) [] = .ok (some (firstWrite [255])) := by decide
  obtain ⟨x, reached, returned, moments⟩ := exists_reachable
    (M := applyPartitions plainCodec (firstWrite [255]) false) (s := freshSession) Free
    ⟨rfl, rfl, rfl⟩ [.own .served false, .own .served false, .own .served false]
    (fun x => x.pc = .returned (.executed false) ∧ ∀ moment ∈ x.moments,
      ∀ current ∈ held plainCodec moment, ⟨[[97]], 1, [255]⟩ ∉ current) (by decide)
  refine ⟨planned, by decide, x, reached, returned, ?_⟩
  rintro ⟨moment, mem, current, holds, same⟩
  exact moments moment mem current holds ((same _).mpr (by decide))

end Parti.Provision
