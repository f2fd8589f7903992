/-
# Assignment.SweepReads — one collector sweep whose reads go wrong

`RunOnce` promises never to delete a payload key that `_commit` or one of the
last `KeepCommits` commit logs references. A failed read of `_commit` ends the
sweep, but a `_commit` that does not decode counts as no commit at all, and a log
that cannot be read or decoded is left out of the live set.

The sweep runs alone here, over any bucket. Each of its reads is answered from
the bucket, fails, or returns bytes that do not decode (`Arrival`). Its clock and
its in-flight references are arbitrary.

* `referenced_payloads_kept`: if the commit that was read decodes and every log
  of the window that is in the bucket is read and decodes (`Answered`), no key
  that is referenced loses its entry.
* `unread_log_loses_payload`: one log read that fails, and a payload that only
  this log references is deleted.
-/
import Parti.Assignment.CommitGC

namespace Parti.Assignment.SweepReads

open Parti.Types Lib List Option Progress
open Lib.Kv (Bucket Entry Write)
open Lib.Client (Request Answer Action Reply Protocol State Move)

/-! ## The sweep alone -/

inductive Arrival where
  | intact
  | garbled
deriving DecidableEq

/-- The answer the sweep decodes. No decoder of a sweep takes the value of a
garbled one; its revision and its time are the server's. -/
def Arrival.bytes : Arrival → Answer Key Value → Answer Key Value
  | .garbled, .entry (some seen) => .entry (some { seen with value := .payload [] })
  | _, answer => answer

/-- What a sweep reads in its own process: its publisher, and its clock. -/
structure Machine where
  pub : Publisher
  now : Int

def sweepAlone (gc : GCConfig) : Protocol (Option SweepPc) Arrival Machine Key Value where
  request at_ _ := at_.bind sweepRequest
  resume at_ arrival _ answer :=
    at_.bind fun pc => (sweepResume gc pc (arrival.bytes answer)).map pc?
  call at_ machine _ :=
    at_.bind fun pc => (sweepProceed machine.pub machine.now pc).map pc?

/-- One `RunOnce` over the bucket `b`. -/
def system (gc : GCConfig) (b : Bucket Key Value) :
    System (State (Option SweepPc) Key Value) (Action Arrival Machine) :=
  (sweepAlone gc).system fun s => s.bucket = b ∧ s.pending = [] ∧ s.locals = some .commit

/-! ## What the bucket references -/

def liveCommit (b : Bucket Key Value) : Option AssignmentCommit :=
  (b.get .commit).bind fun seen => seen.value.asCommit

def liveLog (b : Bucket Key Value) (version : Int) : Option AssignmentCommitLog :=
  (b.get (.commitLog version)).bind fun seen => seen.value.asCommitLog

def logVersions (b : Bucket Key Value) : List Int :=
  b.keys.filterMap fun key =>
    match key with
    | .commitLog version => some version
    | _ => none

/-- The newest version the bucket knows of: that of the commit, and of the
newest log when no commit can be decoded. -/
def currentVersion (b : Bucket Key Value) : Int :=
  match liveCommit b with
  | some commit => commit.version
  | none => (logVersions b).foldl max 0

/-- The last `KeepCommits` versions. Versions are positive. -/
def Recent (gc : GCConfig) (b : Bucket Key Value) (version : Int) : Prop :=
  0 < version ∧ currentVersion b - gc.keepCommits < version ∧ version ≤ currentVersion b

def Referenced (gc : GCConfig) (b : Bucket Key Value) (key : Key) : Prop :=
  (∃ commit ∈ liveCommit b, key ∈ commit.refKeys) ∨
    ∃ version, Recent gc b version ∧ ∃ entry ∈ liveLog b version, key ∈ entry.payloadKeys

/-- The reads the promise depends on. The read of `_commit` may fail, but what it
returns decodes, unless there is nothing to keep; a log that is in the bucket is
read and decodes. -/
def Answered (s : State (Option SweepPc) Key Value) : Action Arrival Machine → Prop
  | .step arrival reply =>
    match s.locals with
    | some .commit => reply = .served →
        arrival = .intact ∧ (liveCommit s.bucket = none → currentVersion s.bucket ≤ 0)
    | some (.logs version _ _) => (liveLog s.bucket version).isSome = true →
        arrival = .intact ∧ reply = .served
    | _ => True
  | _ => True

instance (s : State (Option SweepPc) Key Value) (a : Action Arrival Machine) :
    Decidable (Answered s a) := by
  unfold Answered
  split
  · split <;> infer_instance
  · infer_instance

/-! ## What the sweep holds -/

section Kept

variable {gc : GCConfig} {b : Bucket Key Value}

def Deletable (gc : GCConfig) (b : Bucket Key Value) (key : Key) : Prop :=
  Key.isPayload key = true ∧ ¬ Referenced gc b key

/-- What the live set of a sweep covers, by place. During the walk it covers the
commit and the logs above the next version to read, and the versions still to be
read reach down to the end of the window. -/
def Place (gc : GCConfig) (b : Bucket Key Value) : SweepPc → Prop
  | .commit => True
  | .logs version remaining live =>
    (∀ commit ∈ liveCommit b, commit.refKeys ⊆ live) ∧
      ∀ v, Recent gc b v → version - remaining < v ∧
        (version < v → ∀ entry ∈ liveLog b v, entry.payloadKeys ⊆ live)
  | .refs live | .keys live | .clock live _ => ∀ key, Referenced gc b key → key ∈ live
  | .visit todo _ => ∀ key ∈ todo, Deletable gc b key
  | .recheck todo _ key _ | .delete todo _ key _ => ∀ k ∈ key :: todo, Deletable gc b k

/-- The bucket under a sweep: everything but the deletable keys is as it was. -/
structure Kept (gc : GCConfig) (b : Bucket Key Value) (s : State (Option SweepPc) Key Value) :
    Prop where
  same : ∀ key, ¬ Deletable gc b key → s.bucket.get key = b.get key
  pending : ∀ w ∈ s.pending, Deletable gc b w.key
  place : ∀ pc ∈ s.locals, Place gc b pc
  fresh : s.locals = some .commit → s.bucket = b ∧ s.pending = []

theorem Kept.log {s} (kept : Kept gc b s) (version : Int) :
    liveLog s.bucket version = liveLog b version := by
  rw [liveLog, liveLog, kept.same _ fun deletable => Bool.noConfusion deletable.1]

variable {now version : Int} {w : Write Key Value} {remaining : Nat} {pc pc' : SweepPc}
  {answer : Answer Key Value} {arrival : Arrival} {request : Request Key Value}
  {at_ : Option SweepPc} {pub : Publisher} {live : List Key}

theorem same_append {before : Bucket Key Value}
    (same : ∀ key, ¬ Deletable gc b key → before.get key = b.get key)
    (deletable : Deletable gc b w.key) :
    ∀ key, ¬ Deletable gc b key → (before.append w.key w.op now).get key = b.get key := by
  intro key kept
  have other : key ≠ w.key := fun eq => kept (eq ▸ deletable)
  rw [Bucket.get_append_ne _ _ _ other]
  exact same key kept

/-! ## The walk -/

theorem place_of_commit {commit} (live : liveCommit b = some commit) :
    Place gc b (.logs commit.version gc.keepCommits commit.refKeys) := by
  have version : currentVersion b = commit.version := by simp [currentVersion, live]
  refine ⟨fun other found => ?_, fun v recent => ⟨version ▸ recent.2.1, fun above => ?_⟩⟩
  · cases live.symm.trans found
    exact fun key named => named
  · exact absurd above (by have := recent.2.2; omega)

theorem place_of_nothing {start : Int} (absent : liveCommit b = none)
    (none_recent : currentVersion b ≤ 0) : Place gc b (.logs start remaining []) := by
  refine ⟨fun commit found => ?_, fun v recent => ?_⟩
  · rw [absent] at found
    cases found
  · have := recent.1
    have := recent.2.2
    omega

theorem Place.down {live'} (place : Place gc b (.logs version (remaining + 1) live))
    (more : live ⊆ live') (read : ∀ entry ∈ liveLog b version, entry.payloadKeys ⊆ live') :
    Place gc b (.logs (version - 1) remaining live') := by
  refine ⟨fun commit found key named => more (place.1 commit found named), fun v recent => ?_⟩
  obtain ⟨below, covered⟩ := place.2 v recent
  refine ⟨by push_cast at below; omega, fun above entry found => ?_⟩
  by_cases here : v = version
  · subst here
    exact read entry found
  · exact fun key named => more (covered (by omega) entry found named)

theorem Place.walked (place : Place gc b (.logs version remaining live))
    (ended : remaining = 0 ∨ version ≤ 0) : Place gc b (.refs live) := by
  rintro key (⟨commit, found, named⟩ | ⟨v, recent, entry, found, named⟩)
  · exact place.1 commit found named
  · obtain ⟨below, covered⟩ := place.2 v recent
    have above : version < v := by
      have := recent.1
      rcases ended with rfl | negative
      · simpa using below
      · omega
    exact covered above entry found named

/-! ## The steps -/

theorem proceed_place (place : Place gc b pc)
    (moved : (sweepProceed pub now pc).map pc? = some (some pc')) : Place gc b pc' := by
  obtain ⟨r, ran, waits⟩ := map_eq_some_iff.mp moved
  cases sweepProceed_proceeded ran with
  | walked version remaining live last => cases waits; exact place.walked last
  | folded live =>
    cases waits
    exact fun key referenced => mem_append_right _ (place key referenced)
  | sampled live keys =>
    cases waits
    intro key listed
    obtain ⟨-, chosen⟩ := mem_filter.mp listed
    simp only [Bool.and_eq_true, Bool.not_eq_true', decide_eq_false_iff_not] at chosen
    exact ⟨chosen.1, fun referenced => chosen.2 (place key referenced)⟩
  | spared rest at_ key seen =>
    cases waits
    exact fun k listed => place k (.tail _ listed)
  | doomed rest at_ key seen => cases waits; exact place
  | ended at_ => cases waits

/-- What the sweep decodes of what it was told: the commit the bucket holds, or
none where none is needed; a log the bucket holds, or none where it holds none. -/
structure Decodes (b : Bucket Key Value) (pc : SweepPc) (answer : Answer Key Value) : Prop where
  commit : ∀ live, pc = .commit → answer = .entry live →
    (live.bind fun seen => seen.value.asCommit) = liveCommit b ∧
      (liveCommit b = none → currentVersion b ≤ 0)
  log : ∀ version remaining live entry, pc = .logs version remaining live →
    liveLog b version = some entry → ∃ seen, answer = .entry (some seen) ∧
      seen.value.asCommitLog = some entry

theorem resume_place (place : Place gc b pc) (decodes : Decodes b pc answer)
    (moved : (sweepResume gc pc answer).map pc? = some (some pc')) : Place gc b pc' := by
  obtain ⟨r, ran, waits⟩ := map_eq_some_iff.mp moved
  cases sweepResume_resumed ran with
  | committed seen commit decoded =>
    cases waits
    obtain ⟨same, -⟩ := decodes.commit _ rfl rfl
    exact place_of_commit (same.symm.trans decoded)
  | uncommitted live undecoded =>
    cases waits
    obtain ⟨same, nothing⟩ := decodes.commit live rfl rfl
    have absent := same.symm.trans undecoded
    exact place_of_nothing absent (nothing absent)
  | logged version remaining live seen entry decoded =>
    cases waits
    refine place.down (fun key named => mem_append_right _ named) fun held found => ?_
    obtain ⟨read, eq, same⟩ := decodes.log _ _ _ held rfl found
    cases eq
    cases decoded.symm.trans same
    exact fun key named => mem_append_left _ named
  | unlogged version remaining live answer undecoded =>
    cases waits
    refine place.down (fun key named => named) fun held found => ?_
    obtain ⟨read, eq, same⟩ := decodes.log _ _ _ held rfl found
    cases (undecoded read eq).symm.trans same
  | listed | aged => cases waits; exact place
  | passed | tried =>
    cases waits
    exact fun k listed => place k (.tail _ listed)
  | ended pc => cases waits

theorem deletes_deletable (place : Place gc b pc) (asked : sweepRequest pc = some (.write w)) :
    Deletable gc b w.key := by
  unfold sweepRequest at asked
  split at asked
  case h_5 todo now key seen =>
    cases asked
    exact place key mem_cons_self
  case h_2 => split at asked <;> cases asked
  all_goals cases asked

variable {s : State (Option SweepPc) Key Value} {after : Bucket Key Value}
  {late : List (Write Key Value)} {reply : Reply}

theorem resume_left :
    (sweepResume gc pc answer).map pc? ≠ some (some .commit) := by
  intro moved
  obtain ⟨r, ran, waits⟩ := map_eq_some_iff.mp moved
  cases sweepResume_resumed ran <;> cases waits

theorem proceed_left : (sweepProceed pub now pc).map pc? ≠ some (some .commit) := by
  intro moved
  obtain ⟨r, ran, waits⟩ := map_eq_some_iff.mp moved
  cases sweepProceed_proceeded ran <;> cases waits

theorem decodes_of_read {key : Key} (kept : Kept gc b s) (here : s.locals = some pc)
    (asked : sweepRequest pc = some (.read key)) (allowed : Answered s (.step arrival .served)) :
    Decodes b pc (arrival.bytes (.entry (s.bucket.get key))) where
  commit := by
    rintro live rfl told
    cases asked
    simp only [Answered, here] at allowed
    obtain ⟨rfl, nothing⟩ := allowed trivial
    obtain ⟨rfl, -⟩ := kept.fresh here
    cases told
    exact ⟨rfl, nothing⟩
  log := by
    rintro version remaining live entry rfl held
    have present : liveLog s.bucket version = some entry := (kept.log version).trans held
    simp only [Answered, here, present, isSome_some, forall_const] at allowed
    obtain ⟨rfl, -⟩ := allowed
    have named : key = .commitLog version := by
      cases remaining with
      | zero => cases asked
      | succ _ =>
        simp only [sweepRequest] at asked
        split at asked <;> cases asked
        rfl
    obtain ⟨seen, read, decoded⟩ := bind_eq_some_iff.mp present
    exact ⟨seen, by rw [named, read]; rfl, decoded⟩

theorem decodes_of_quiet (kept : Kept gc b s) (here : s.locals = some pc)
    (asked : sweepRequest pc = some request) (quiet : ∀ live, answer ≠ .entry live)
    (unserved : ∀ key, request = .read key → reply ≠ .served)
    (allowed : Answered s (.step arrival reply)) : Decodes b pc answer where
  commit := fun live _ told => absurd told (quiet live)
  log := by
    rintro version remaining live entry rfl held
    have present : liveLog s.bucket version = some entry := (kept.log version).trans held
    simp only [Answered, here, present, isSome_some, forall_const] at allowed
    obtain ⟨-, rfl⟩ := allowed
    cases remaining with
    | zero => cases asked
    | succ _ =>
      simp only [sweepRequest] at asked
      split at asked <;> cases asked
      exact absurd rfl (unserved _ rfl)

theorem Kept.resumed (kept : Kept gc b s) (here : s.locals = some pc)
    (decodes : Decodes b pc answer) (same : ∀ key, ¬ Deletable gc b key → after.get key = b.get key)
    (pending : ∀ w ∈ late, Deletable gc b w.key)
    (moved : (sweepResume gc pc answer).map pc? = some at_) :
    Kept gc b { s with bucket := after, pending := late, locals := at_ } where
  same := same
  pending := pending
  place := by
    rintro pc' rfl
    exact resume_place (kept.place pc here) decodes moved
  fresh := by
    rintro rfl
    exact absurd moved resume_left

theorem asks_at (asked : (sweepAlone gc).request s.locals arrival = some request)
    (moved : (sweepAlone gc).resume s.locals arrival now answer = some at_) :
    ∃ pc, s.locals = some pc ∧ sweepRequest pc = some request ∧
      (sweepResume gc pc (arrival.bytes answer)).map pc? = some at_ := by
  obtain ⟨pc, here, asked⟩ := bind_eq_some_iff.mp asked
  obtain ⟨pc', here', moved⟩ := bind_eq_some_iff.mp moved
  cases here.symm.trans here'
  exact ⟨pc, here, asked, moved⟩

theorem bytes_quiet (quiet : ∀ live, answer ≠ .entry live) : arrival.bytes answer = answer := by
  cases arrival with
  | intact => rfl
  | garbled =>
    cases answer with
    | entry live => exact absurd rfl (quiet live)
    | _ => rfl

theorem Kept.quiet (kept : Kept gc b s)
    (asked : (sweepAlone gc).request s.locals arrival = some request)
    (moved : (sweepAlone gc).resume s.locals arrival now answer = some at_)
    (allowed : Answered s (.step arrival reply)) (quiet : ∀ live, answer ≠ .entry live)
    (unserved : ∀ key, request = .read key → reply ≠ .served)
    (same : ∀ key, ¬ Deletable gc b key → after.get key = b.get key)
    (pending : ∀ w ∈ late, Deletable gc b w.key) :
    Kept gc b { s with bucket := after, pending := late, locals := at_ } := by
  obtain ⟨pc, here, asked, moved⟩ := asks_at asked moved
  rw [bytes_quiet quiet] at moved
  exact kept.resumed here (decodes_of_quiet kept here asked quiet unserved allowed) same pending
    moved

theorem Kept.writes (kept : Kept gc b s)
    (asked : (sweepAlone gc).request s.locals arrival = some (.write w)) :
    Deletable gc b w.key := by
  obtain ⟨pc, here, asked⟩ := bind_eq_some_iff.mp asked
  exact deletes_deletable (kept.place pc here) asked

theorem Kept.step {s'} {a}
    (kept : Kept gc b s) (allowed : Answered s a) (taken : (sweepAlone gc).step s a = some s') :
    Kept gc b s' := by
  cases Protocol.step_move taken with
  | tick elapsed => exact ⟨kept.same, kept.pending, kept.place, kept.fresh⟩
  | call machine at_ moved =>
    obtain ⟨pc, here, moved⟩ := bind_eq_some_iff.mp moved
    refine ⟨kept.same, kept.pending, ?_, ?_⟩
    · rintro pc' rfl
      exact proceed_place (kept.place pc here) moved
    · rintro rfl
      exact absurd moved proceed_left
  | land index w waiting accepted =>
    have member : w ∈ s.pending := mem_of_getElem? waiting
    refine ⟨same_append kept.same (kept.pending w member),
      fun other left => kept.pending other (mem_of_mem_eraseIdx left), kept.place,
      fun here => ?_⟩
    rw [(kept.fresh here).2] at member
    cases member
  | read arrival key at_ asked moved =>
    obtain ⟨pc, here, asked, moved⟩ := asks_at asked moved
    exact kept.resumed here (decodes_of_read kept here asked allowed) kept.same kept.pending moved
  | listed _ _ asked moved | refused _ _ _ asked _ moved =>
    exact kept.quiet asked moved allowed nofun nofun kept.same kept.pending
  | wrote arrival w at_ asked accepted moved =>
    exact kept.quiet asked moved allowed nofun nofun
      (same_append kept.same (kept.writes asked)) kept.pending
  | failed arrival request at_ asked moved =>
    exact kept.quiet asked moved allowed nofun (fun _ _ => nofun) kept.same kept.pending
  | late arrival w at_ asked moved =>
    refine kept.quiet asked moved allowed nofun nofun kept.same fun other queued => ?_
    rcases mem_cons.mp queued with rfl | waiting
    · exact kept.writes asked
    · exact kept.pending other waiting

end Kept

/-! ## The sweep -/

theorem referenced_payloads_kept (gc : GCConfig) (b : Bucket Key Value)
    {s : State (Option SweepPc) Key Value} (reached : Reachable (system gc b) Answered s)
    {key : Key} (referenced : Referenced gc b key) : s.bucket.get key = b.get key := by
  have kept : Kept gc b s := by
    refine Reachable.invariant (I := Kept gc b) ?_ (fun _ _ _ => Kept.step) reached
    rintro _ ⟨rfl, clear, start⟩
    refine ⟨fun _ _ => rfl, fun w queued => ?_, fun pc here => ?_, fun _ => ⟨rfl, clear⟩⟩
    · rw [clear] at queued
      cases queued
    · cases start.symm.trans here
      trivial
  exact kept.same key fun deletable => deletable.2 referenced

/-! ## Two commits, and a sweep long after them -/

def payloadOf (version : Fin 256) : Key := .payload [version]

def secondCommit : AssignmentCommit where
  version := 2
  leaderRevision := 1
  sourceRevision := 0
  sourceRevisionKnown := false
  publishedAt := 0
  workers := ["w"]
  payloads := AList.insert "w" ⟨payloadOf 2, [2], 0, 3⟩ ∅
  batchDigest := 0
  parkedCount := 0
  parkedDigest := 0
  prevCommitRev := 0
  lifecycle := "stable"

def published : Bucket Key Value :=
  Bucket.empty
    |>.append (payloadOf 1) (.put (.payload [1])) 0
    |>.append (.commitLog 1) (.put (.commitLog ⟨1, 1, 0, [payloadOf 1]⟩)) 0
    |>.append (payloadOf 2) (.put (.payload [2])) 0
    |>.append (.commitLog 2) (.put (.commitLog ⟨2, 1, 0, [payloadOf 2]⟩)) 0
    |>.append .commit (.put (.commit secondCommit)) 0

def keepTwo : GCConfig := ⟨2, 10, Int.natCast_pos.mpr (Nat.succ_pos 9)⟩

def sweepStart (b : Bucket Key Value) : State (Option SweepPc) Key Value :=
  ⟨b, [], 100, some .commit⟩

def idleMachine : Machine := ⟨Publisher.new, 100⟩

theorem payloadOf_one_referenced : Referenced keepTwo published (payloadOf 1) :=
  .inr ⟨1, by unfold Recent; decide, ⟨1, 1, 0, [payloadOf 1]⟩, by decide, .head _⟩

/-- The walk over both logs, with the reply to the read of the first one, and the
rest of the sweep up to its first visit. -/
def walk (reply : Reply) : List (Action Arrival Machine) :=
  [.step .intact .served, .step .intact .served, .step .intact reply,
    .call idleMachine, .call idleMachine, .step .intact .served, .call idleMachine]

/-- Both logs are read: the sweep runs to its end, and the first payload stays. -/
theorem referenced_payloads_kept_two_logs :
    ∃ s, Reachable (system keepTwo published) Answered s ∧ s.locals.isNone = true ∧
      s.bucket.get (payloadOf 1) = published.get (payloadOf 1) :=
  exists_reachable_and (s := sweepStart published) ⟨rfl, rfl, rfl⟩
    (walk .served ++ [.call idleMachine]) (by decide) fun _ reached _ =>
      referenced_payloads_kept _ _ reached payloadOf_one_referenced

theorem unread_log_loses_payload :
    Referenced keepTwo published (payloadOf 1) ∧
      (published.get (payloadOf 1)).isSome = true ∧
      ∃ s, Reachable (system keepTwo published) Free s ∧
        s.bucket.get (payloadOf 1) = none := by
  refine ⟨payloadOf_one_referenced, by decide, ?_⟩
  exact exists_reachable (M := system keepTwo published) (s := sweepStart published) _
    ⟨rfl, rfl, rfl⟩
    (walk .failed ++ [.step .intact .served, .call idleMachine, .step .intact .served]) _ (by decide)

end Parti.Assignment.SweepReads
