/-
# Source.Reconcile — when the reconciler may skip

The reconciler remembers the identity, revision and creation time, of the entry it
applied last, and returns early when it reads that entry again. That is right if the
cache still holds the entry's list. Two things can have taken it away without the
reconciler's knowledge:

* something of an earlier incarnation of the bucket, with a higher revision, has
  passed the gate since;
* a refresh that found no key, before the entry was written, is applied after it:
  it empties the list and leaves the revision (`late_refresh_skipped`).

`InTime` excludes both, and `skip_is_sound` is the result for the runs it allows.
-/
import Parti.Source.Snapshot

namespace Parti.Source

open Parti.Types Lib Lib.Kv Lib.Client NatsKV List Option

/-! ## Entries and their identity -/

section Entries

variable {B : Type} (codec : Codec B)

def listOf (r : Record Unit B) : Option (List Partition) :=
  match r.op with
  | .delete => some []
  | .put value => codec.decode value

def InKey (b : Bucket Unit B) (parts : List Partition) (rev : Nat) : Prop :=
  ∃ r ∈ b.log, r.revision = rev ∧ listOf codec r = some parts

variable {codec} {b : Bucket Unit B}

theorem InKey.live {parts} {rev : Nat} (inKey : InKey codec b parts rev)
    {e} (live : b.get () = some e) (forward : e.revision ≤ rev) :
    rev = e.revision ∧ codec.decode e.value = some parts := by
  obtain ⟨r, member, rfl, list⟩ := inKey
  have same : r.revision = e.revision := le_antisymm (le_get_revision live member) forward
  have one := b.record_unique member (Bucket.get_stored live) same
  subst one
  exact ⟨rfl, list⟩

end Entries

section Identity

variable {T L B : Type}

/-- No two records, of this incarnation or an earlier one, share revision and
creation time. -/
def Distinct (s : World T L B) : Prop :=
  ((s.bucket.log ++ s.past).map fun r => (r.revision, r.created)).Nodup

theorem Distinct.unique {s : World T L B} (distinct : Distinct s) {r r'}
    (member : r ∈ s.bucket.log ++ s.past) (member' : r' ∈ s.bucket.log ++ s.past)
    (revision : r.revision = r'.revision) (created : r.created = r'.created) : r = r' :=
  inj_on_of_nodup_map distinct member member' (Prod.ext revision created)

variable (codec : Codec B)

def Remembers (s : NatsKV L) (e : Entry B) : Prop :=
  s.reconcileKnown = true ∧ e.revision = s.reconcileRev ∧ e.created = s.reconcileCreated

def Holds (s : NatsKV L) (e : Entry B) : Prop :=
  ∃ parts, codec.decode e.value = some parts ∧ s.partitions = sortPartitions parts ∧
    s.revision = e.revision

def Read (s : World T L B) (parts : List Partition) (rev : Nat) (created : Int) : Prop :=
  ∃ value, (⟨(), .put value, rev, created⟩ : Record Unit B) ∈ s.bucket.log ++ s.past ∧
    codec.decode value = some parts

def Reads (s : World T L B) : Pc B → Prop
  | .reconcileEntry parts rev created | .reconcileApply parts rev created
  | .reconcileReset parts rev created _ _ => Read codec s parts rev created
  | _ => True

structure Skips (s : World T L B) : Prop where
  tasks : ∀ g pc, s.tasks g = some pc → Reads codec s pc
  marked : s.source.reconcileKnown = true → ∃ r ∈ s.bucket.log ++ s.past,
    r.revision = s.source.reconcileRev ∧ r.created = s.source.reconcileCreated
  sound : Distinct s → ∀ e, s.bucket.get () = some e → Remembers s.source e →
    Holds codec s.source e

/-- What a goroutine is about to apply is dropped, or the current bucket has it; and
that there is no key is applied only while there is none. -/
def Pc.inTime (s : World T L B) : Pc B → Prop
  | .updateApply clean rev | .modifyApply clean rev | .refreshApply _ _ _ (some (clean, rev)) =>
    s.source.stale rev = true ∨ InKey codec s.bucket clean rev
  | .refreshApply _ _ _ none => s.bucket.get () = none
  | _ => True

/-- Nothing reaches the cache late: no record of an earlier incarnation passes the
gate, no call's list of one, and no refresh finds the key gone that is there again.
Identities are distinct. -/
def InTime (s : World T L B) (event : SourceEvent T L B) : Prop :=
  Distinct s ∧
    match event with
    | .deliver index => ∀ r ∈ (s.bucket.log ++ s.past)[index]?,
        r ∈ s.bucket.log ∨ s.source.stale r.revision = true
    | .locked g => ∀ pc ∈ s.tasks g, pc.inTime codec s
    | _ => True

end Identity

/-! ## The writers of the cache -/

section Cache

variable {L B : Type} {codec : Codec B} {b : Bucket Unit B} {s s' : NatsKV L} {e : Entry B}
  {watching : Bool} {parts : List Partition} {rev : Nat}

theorem Holds.applied (holds : Holds codec s e) (live : b.get () = some e)
    (timely : s.stale rev = true ∨ InKey codec b parts rev) (notify : Bool) :
    Holds codec (s.applyLocal parts rev notify).1 e := by
  cases gate : s.stale rev with
  | true =>
    rw [applyLocal_stale gate]
    exact holds
  | false =>
    obtain ⟨listeners, state⟩ := applyLocal_fresh gate parts notify
    rw [state]
    rw [gate] at timely
    have inKey : InKey codec b parts rev := by simpa using timely
    obtain ⟨-, -, -, at_⟩ := holds
    have forward : e.revision ≤ rev := by
      have positive : 0 < rev := by
        obtain ⟨r, member, rfl, -⟩ := inKey
        exact b.positive r member
      have behind : ¬ (rev ≠ 0 ∧ rev < s.revision) := by simpa [stale] using gate
      omega
    obtain ⟨same, decoded⟩ := inKey.live live forward
    exact ⟨parts, decoded, rfl, same⟩

theorem applyLocal_remembers {notify : Bool} :
    Remembers (s.applyLocal parts rev notify).1 e ↔ Remembers s e := by
  cases gate : s.stale rev with
  | true => rw [applyLocal_stale gate]
  | false =>
    obtain ⟨listeners, state⟩ := applyLocal_fresh gate parts notify
    rw [state]
    exact Iff.rfl

theorem recorded_applyLocal (s : NatsKV L) (parts : List Partition) (rev : Nat) (created : Int) :
    recorded (s.applyLocal parts rev true) rev created = s ∨
      ∃ s' : NatsKV L, recorded (s.applyLocal parts rev true) rev created = s' ∧
        s'.partitions = sortPartitions parts ∧ s'.revision = rev ∧ s'.reconcileRev = rev ∧
        s'.reconcileCreated = created ∧ s'.reconcileKnown = true := by
  cases gate : s.stale rev with
  | true =>
    rw [applyLocal_stale gate]
    exact .inl rfl
  | false =>
    obtain ⟨listeners, state⟩ := applyLocal_fresh gate parts true
    rw [state]
    exact .inr ⟨_, rfl, rfl, rfl, rfl, rfl, rfl⟩

theorem recorded_applyReconcileReset (s : NatsKV L) (parts : List Partition) (rev : Nat)
    (created : Int) (baseline gen : Nat) :
    recorded (s.applyReconcileReset parts rev baseline gen) rev created = s ∨
      ∃ s' : NatsKV L,
        recorded (s.applyReconcileReset parts rev baseline gen) rev created = s' ∧
        s'.partitions = sortPartitions parts ∧ s'.revision = rev ∧ s'.reconcileRev = rev ∧
        s'.reconcileCreated = created ∧ s'.reconcileKnown = true := by
  unfold applyReconcileReset
  dsimp only
  split
  · have gate : ({ s with revision := 0 } : NatsKV L).stale rev = false := by
      simp [stale]
    obtain ⟨listeners, state⟩ := applyLocal_fresh gate parts true
    rw [state]
    exact .inr ⟨_, rfl, rfl, rfl, rfl, rfl, rfl⟩
  · exact recorded_applyLocal s parts rev created

theorem started_holds (live : b.get () = some e)
    (seeded : started codec s (b.get ()) watching = some s') (holds : Holds codec s e) :
    Holds codec s' e := by
  rw [live] at seeded
  obtain ⟨parts, decoded, rfl⟩ := map_eq_some_iff.mp seeded
  obtain ⟨-, -, -, at_⟩ := holds
  have gate : s.stale e.revision = false := by simp [stale, at_]
  rw [applyLocalLocked_fresh gate]
  exact ⟨parts, decoded, sortPartitions_idem parts, rfl⟩

theorem started_remembers {live} (seeded : started codec s live watching = some s') :
    s'.reconcileKnown = s.reconcileKnown ∧ s'.reconcileRev = s.reconcileRev ∧
      s'.reconcileCreated = s.reconcileCreated := by
  have locked : ∀ parts rev known, (s.applyLocalLocked parts rev known).1.reconcileKnown =
      s.reconcileKnown ∧ (s.applyLocalLocked parts rev known).1.reconcileRev = s.reconcileRev ∧
      (s.applyLocalLocked parts rev known).1.reconcileCreated = s.reconcileCreated := by
    intro parts rev known
    cases gate : s.stale rev with
    | true =>
      rw [applyLocalLocked_stale gate]
      exact ⟨rfl, rfl, rfl⟩
    | false =>
      rw [applyLocalLocked_fresh gate]
      exact ⟨rfl, rfl, rfl⟩
  cases live with
  | none =>
    cases seeded
    exact locked _ _ _
  | some e =>
    obtain ⟨parts, -, rfl⟩ := map_eq_some_iff.mp seeded
    exact locked _ _ _

end Cache

/-! ## Every run -/

section Runs

variable {T L B : Type} {codec : Codec B} {retries : Nat}

variable {s s' : World T L B} {parts : List Partition} {event : SourceEvent T L B}

theorem step_records [DecidableEq T] [DecidableEq L] (took : s.step codec retries event = some s') :
    ∀ r ∈ s.bucket.log ++ s.past, r ∈ s'.bucket.log ++ s'.past := by
  intro r member
  cases step_moves took with
  | wrote | foreign | land => exact .tail _ member
  | recreate => exact member
  | _ => exact member

variable {pc : Pc B} {answer : Answer Unit B} {e : Entry B} {op : Op B} {rev : Nat}
  {source : NatsKV L}

theorem Reads.mono (reads : Reads codec s pc)
    (records : ∀ r ∈ s.bucket.log ++ s.past, r ∈ s'.bucket.log ++ s'.past) :
    Reads codec s' pc := by
  have read : ∀ {parts rev created}, Read codec s parts rev created →
      Read codec s' parts rev created := by
    rintro parts rev created ⟨value, member, decoded⟩
    exact ⟨value, records _ member, decoded⟩
  cases pc with
  | reconcileEntry | reconcileApply | reconcileReset => exact read reads
  | _ => trivial

theorem read_of_get (live : s.bucket.get () = some e) (decoded : codec.decode e.value = some parts) :
    Read codec s parts e.revision e.created :=
  ⟨e.value, mem_append_left _ (Bucket.get_stored live), decoded⟩

theorem reads_resume (told : ∀ live, answer = .entry live → live = s.bucket.get ()) :
    Reads codec s (pc.resume codec s.source answer) := by
  generalize moved : pc.resume codec s.source answer = pc'
  cases Pc.resumes moved with
  | entry decoded | reset decoded | confirmed decoded =>
    exact read_of_get (told _ rfl).symm decoded
  | _ => trivial

theorem Skips.keep (skips : Skips codec s)
    (tasks : ∀ g pc, s'.tasks g = some pc → Reads codec s' pc)
    (records : ∀ r ∈ s.bucket.log ++ s.past, r ∈ s'.bucket.log ++ s'.past)
    (known : s'.source.reconcileKnown = true → s.source.reconcileKnown = true ∧
      s'.source.reconcileRev = s.source.reconcileRev ∧
      s'.source.reconcileCreated = s.source.reconcileCreated)
    (sound : Distinct s' → ∀ e, s'.bucket.get () = some e → Remembers s'.source e →
      Holds codec s'.source e)
    : Skips codec s' where
  tasks := tasks
  marked := fun on => by
    obtain ⟨on', rev, created⟩ := known on
    obtain ⟨r, member, revision, at_⟩ := skips.marked on'
    exact ⟨r, records r member, revision.trans rev.symm, at_.trans created.symm⟩
  sound := sound

theorem Skips.appended (skips : Skips codec s)
    (distinct : ((⟨(), op, s.bucket.seq + 1, s.clock⟩ :: (s.bucket.log ++ s.past)).map
      fun r : Record Unit B => (r.revision, r.created)).Nodup)
    (live : (s.bucket.append () op s.clock).get () = some e) : ¬ Remembers s.source e := by
  rintro ⟨known, rev, created⟩
  obtain ⟨r, member, revision, at_⟩ := skips.marked known
  have identity : e.revision = s.bucket.seq + 1 ∧ e.created = s.clock := by
    cases op with
    | put value =>
      rw [Bucket.get_append_put] at live
      cases live
      exact ⟨rfl, rfl⟩
    | delete =>
      rw [Bucket.get_append_delete] at live
      cases live
  rw [map_cons, nodup_cons] at distinct
  refine distinct.1 (mem_map.mpr ⟨r, member, ?_⟩)
  rw [revision, at_, ← rev, ← created, identity.1, identity.2]

theorem Skips.quiet (skips : Skips codec s)
    (tasks : ∀ g pc, s'.tasks g = some pc → Reads codec s' pc) (source : s'.source = s.source)
    (bucket : s'.bucket = s.bucket) (past : s'.past = s.past) : Skips codec s' := by
  refine skips.keep tasks (fun r member => ?_) (fun on => ?_) ?_
  · rw [bucket, past]
    exact member
  · rw [source] at on ⊢
    exact ⟨on, rfl, rfl⟩
  · unfold Distinct
    rw [source, bucket, past]
    exact skips.sound

theorem Skips.grew (skips : Skips codec s)
    (tasks : ∀ g pc, s'.tasks g = some pc → Reads codec s' pc) (source : s'.source = s.source)
    (bucket : s'.bucket = s.bucket.append () op s.clock) (past : s'.past = s.past) :
    Skips codec s' := by
  refine skips.keep tasks (fun r member => ?_) (fun on => ?_) ?_
  · rw [bucket, past]
    exact .tail _ member
  · rw [source] at on ⊢
    exact ⟨on, rfl, rfl⟩
  · intro distinct e live remembers
    unfold Distinct at distinct
    rw [bucket, past] at distinct
    rw [bucket] at live
    rw [source] at remembers
    exact absurd remembers (skips.appended distinct live)

variable (codec) in
/-- What the invariant says of the cache, for a source in the place of the world's. -/
structure Marks (s : World T L B) (source : NatsKV L) : Prop where
  marked : source.reconcileKnown = true → ∃ r ∈ s.bucket.log ++ s.past,
    r.revision = source.reconcileRev ∧ r.created = source.reconcileCreated
  sound : Distinct s → ∀ e, s.bucket.get () = some e → Remembers source e → Holds codec source e

theorem Skips.marks (skips : Skips codec s) : Marks codec s s.source :=
  ⟨skips.marked, skips.sound⟩

theorem Skips.applied (skips : Skips codec s)
    (timely : s.source.stale rev = true ∨ InKey codec s.bucket parts rev) (notify : Bool) :
    Marks codec s (s.source.applyLocal parts rev notify).1 where
  marked := by
    cases gate : s.source.stale rev with
    | true =>
      rw [applyLocal_stale gate]
      exact skips.marked
    | false =>
      obtain ⟨listeners, state⟩ := applyLocal_fresh gate parts notify
      rw [state]
      exact skips.marked
  sound := fun distinct e live remembers =>
    (skips.sound distinct e live (applyLocal_remembers.mp remembers)).applied live timely notify

theorem Read.marks {created : Int} (read : Read codec s parts rev created)
    (partitions : source.partitions = sortPartitions parts) (revision : source.revision = rev)
    (markedRev : source.reconcileRev = rev) (markedCreated : source.reconcileCreated = created) :
    Marks codec s source := by
  obtain ⟨value, member, decoded⟩ := read
  refine ⟨fun _ => ⟨_, member, markedRev.symm, markedCreated.symm⟩, ?_⟩
  rintro distinct e live ⟨-, rev', created'⟩
  have stored := mem_append_left s.past (Bucket.get_stored live)
  have one := distinct.unique stored member (rev'.trans markedRev) (created'.trans markedCreated)
  simp only [Record.mk.injEq, Op.put.injEq] at one
  obtain ⟨-, sameValue, sameRev, -⟩ := one
  refine ⟨parts, ?_, partitions, revision.trans sameRev.symm⟩
  rw [sameValue]
  exact decoded

theorem Skips.locked {g} {pc' : Pc B} (skips : Skips codec s)
    (at_ : s.tasks g = some pc) (moved : pc.locked s.source = some (source, pc'))
    (timely : pc.inTime codec s) : Reads codec s pc' ∧ Marks codec s source := by
  have reads := skips.tasks g pc at_
  cases pc with simp only [Pc.locked, some.injEq, Prod.mk.injEq, reduceCtorEq] at moved
  | update clean data left =>
    obtain ⟨rfl, rfl⟩ := moved
    exact ⟨trivial, skips.marks⟩
  | updateApply clean newRev =>
    obtain ⟨rfl, rfl⟩ := moved
    exact ⟨trivial, skips.applied timely true⟩
  | refreshApply clean data left found =>
    obtain ⟨rfl, rfl⟩ := moved
    refine ⟨?_, ?_⟩
    · unfold updateRetry
      split <;> trivial
    · cases found with
      | some read => exact skips.applied timely false
      | none =>
        have gone : s.bucket.get () = none := timely
        refine ⟨?_, fun _ e live => ?_⟩
        · unfold refreshFromKV
          cases known : s.source.known with
          | false =>
            dsimp only
            rw [applyEmptyPreservingKnown_unknown known]
            exact skips.marked
          | true =>
            obtain ⟨listeners, state⟩ := applyEmptyPreservingKnown_known known
            dsimp only
            rw [state]
            exact skips.marked
        · rw [gone] at live
          cases live
  | modifyApply clean newRev =>
    obtain ⟨rfl, rfl⟩ := moved
    exact ⟨trivial, skips.applied timely true⟩
  | reconcileEmpty =>
    obtain ⟨rfl, rfl⟩ := moved
    refine ⟨trivial, ?_, ?_⟩
    · intro off
      cases off
    · intro _ e _ remembers
      cases remembers.1
  | reconcileEntry parts rev created =>
    split at moved
    · cases moved
      exact ⟨reads, skips.marks⟩
    · cases moved
      exact ⟨trivial, skips.marks⟩
  | reconcileApply parts rev created =>
    obtain ⟨rfl, rfl⟩ := moved
    refine ⟨trivial, ?_⟩
    rcases recorded_applyLocal s.source parts rev created with
      same | ⟨source, same, partitions, revision, markedRev, markedCreated, -⟩
    · rw [same]
      exact skips.marks
    · rw [same]
      exact Read.marks reads partitions revision markedRev markedCreated
  | reconcileReset parts rev created cachedRev cachedGen =>
    obtain ⟨rfl, rfl⟩ := moved
    refine ⟨trivial, ?_⟩
    rcases recorded_applyReconcileReset s.source parts rev created cachedRev cachedGen with
      same | ⟨source, same, partitions, revision, markedRev, markedCreated, -⟩
    · rw [same]
      exact skips.marks
    · rw [same]
      exact Read.marks reads partitions revision markedRev markedCreated

theorem Skips.watched (skips : Skips codec s) {r}
    (timely : r ∈ s.bucket.log ∨ s.source.stale r.revision = true) :
    Marks codec s (watched codec s.source r) := by
  have apply : ∀ parts, listOf codec r = some parts →
      Marks codec s (s.source.applyLocal parts r.revision true).1 := by
    intro parts list
    refine skips.applied ?_ true
    rcases timely with member | stale
    · exact .inr ⟨r, member, rfl, list⟩
    · exact .inl stale
  unfold Source.watched
  split
  next deleted => exact apply [] (by simp [listOf, deleted])
  next value put =>
    split
    next => exact skips.marks
    next parts decoded => exact apply parts (by simp [listOf, put, decoded])

theorem Skips.step [DecidableEq T] [DecidableEq L] (skips : Skips codec s)
    (allowed : InTime codec s event) (took : s.step codec retries event = some s') :
    Skips codec s' := by
  have records := step_records took
  have others : ∀ g pc, s.tasks g = some pc → Reads codec s' pc :=
    fun g pc at_ => (skips.tasks g pc at_).mono records
  have set : ∀ {g : Goroutine T} {pc' : Pc B}, Reads codec s' pc' →
      ∀ g' pc, (s.set g (some pc')).tasks g' = some pc → Reads codec s' pc :=
    fun reads => World.set_tasks (R := fun _ => Reads codec s')
      (fun pc at_ => some.inj at_ ▸ reads) (fun g' pc _ at_ => others g' pc at_)
  cases step_moves took with
  | update t parts free =>
    refine skips.quiet (set ?_) rfl rfl rfl
    unfold Pc.ofUpdate
    split
    · trivial
    · split <;> trivial
  | modify | reconcile => exact skips.quiet (set trivial) rfl rfl rfl
  | wrote g pc w at_ asked accepted =>
    refine skips.grew (set ?_) rfl rfl rfl
    exact (reads_resume (s := s) (fun live wrong => by cases wrong)).mono records
  | refused | failed =>
    exact skips.quiet (set (reads_resume (s := s) (nofun))) rfl rfl rfl
  | read g pc at_ asked =>
    refine skips.quiet (set (reads_resume (s := s) ?_)) rfl rfl rfl
    intro live told
    cases told
    rfl
  | late g pc w at_ asked =>
    refine skips.quiet (set ?_) rfl rfl rfl
    exact (reads_resume (s := s) (fun live wrong => by cases wrong)).mono records
  | locked g pc pc' source at_ moved =>
    obtain ⟨reads, marks⟩ := skips.locked at_ moved (allowed.2 pc at_)
    exact ⟨set (reads.mono records), marks.marked, marks.sound⟩
  | done g result at_ =>
    refine skips.quiet (World.set_tasks (R := fun _ => Reads codec s) ?_ ?_) rfl rfl rfl
    · intro pc off
      cases off
    · exact fun g' pc _ at_ => others g' pc at_
  | deliver index r found =>
    have marks := skips.watched (allowed.2 r found)
    exact ⟨others, marks.marked, marks.sound⟩
  | start watching source idle seeded =>
    obtain ⟨known, rev, created⟩ := started_remembers seeded
    refine skips.keep others records (fun on => ⟨known ▸ on, rev, created⟩) ?_
    rintro distinct e live ⟨on, rev', created'⟩
    exact started_holds live seeded
      (skips.sound distinct e live ⟨known ▸ on, rev'.trans rev, created'.trans created⟩)
  | stop =>
    refine skips.keep others records (fun on => ⟨on, rfl, rfl⟩) ?_
    exact skips.sound
  | watch _ on | unwatch | receive | list =>
    exact skips.keep others records (fun on => ⟨on, rfl, rfl⟩) skips.sound
  | foreign | land => exact skips.grew others rfl rfl rfl
  | recreate =>
    refine skips.keep others records (fun on => ⟨on, rfl, rfl⟩) ?_
    intro _ e live
    cases live
  | running watching on => exact skips
  | tick elapsed => exact skips.quiet others rfl rfl rfl

theorem skips [DecidableEq T] [DecidableEq L]
    (reached : Reachable (natsKV T L codec retries) (InTime codec) s) :
    Skips codec s := by
  refine reached.invariant ?_ fun _ _ _ skips allowed took => skips.step allowed took
  intro s unused
  refine ⟨fun g pc at_ => ?_, ?_, ?_⟩
  · rw [unused.tasks g] at at_
    cases at_
  · rw [unused.source]
    exact nofun
  · rw [unused.source]
    exact fun _ e _ remembers => by cases remembers.1

theorem resume_skipped {s : NatsKV L} (skipped : pc.resume codec s answer = .returned .skipped) :
    ∃ e, answer = .entry (some e) ∧ Remembers s e := by
  cases Pc.resumes skipped with
  | returned _ _ fails => exact absurd rfl fails.2
  | skipped same => exact ⟨_, rfl, same⟩

end Runs

section Passes

variable {T L B : Type} [DecidableEq T] [DecidableEq L] {codec : Codec B} {retries : Nat}

theorem skip_is_sound {s s' : World T L B} {reply : Reply}
    (reached : Reachable (natsKV T L codec retries) (InTime codec) s)
    (allowed : InTime codec s (.request .reconciler reply))
    (took : s.step codec retries (.request .reconciler reply) = some s')
    (skipped : s'.tasks .reconciler = some (.returned .skipped)) :
    ∃ e parts, s'.bucket.get () = some e ∧ codec.decode e.value = some parts ∧
      s'.source.partitions = sortPartitions parts ∧ s'.source.revision = e.revision := by
  have answered : ∀ answer pc, Function.update s.tasks .reconciler
      (some (Pc.resume codec s.source pc answer)) .reconciler = some (.returned .skipped) →
      ∃ e, answer = .entry (some e) ∧ Remembers s.source e := by
    intro answer pc eq
    rw [Function.update_self] at eq
    exact resume_skipped (some.inj eq)
  cases step_moves took with
  | read g pc at_ asked =>
    obtain ⟨e, told, remembers⟩ := answered _ _ skipped
    have live : s.bucket.get () = some e := by simpa using told
    obtain ⟨parts, decoded, partitions, revision⟩ :=
      (skips reached).sound allowed.1 e live remembers
    exact ⟨e, parts, live, decoded, partitions, revision⟩
  | wrote | refused | failed | late =>
    obtain ⟨e, told, -⟩ := answered _ _ skipped
    cases told

end Passes

/-! ## Concrete runs -/

instance (s : World Unit Unit (List Partition)) (pc : Pc (List Partition)) :
    Decidable (pc.inTime plainCodec s) :=
  match pc with
  | .updateApply _ _ | .modifyApply _ _ | .refreshApply _ _ _ (some (_, _)) =>
    inferInstanceAs (Decidable (_ = true ∨ ∃ r ∈ s.bucket.log, _ = _ ∧ _ = _))
  | .refreshApply _ _ _ none => inferInstanceAs (Decidable (_ = none))
  | .update _ _ _ | .updateWrite _ _ _ _ _ | .refresh _ _ _ | .modify _ _
  | .modifyWrite _ _ _ _ _ | .reconcile | .reconcileEmpty | .reconcileEntry _ _ _
  | .reconcileApply _ _ _ | .reconcileConfirm _ _ | .reconcileReset _ _ _ _ _ | .returned _ =>
    inferInstanceAs (Decidable True)

instance (s : World Unit Unit (List Partition)) : Decidable (Distinct s) :=
  inferInstanceAs (Decidable (List.Nodup _))

instance (s : World Unit Unit (List Partition)) :
    ∀ event, Decidable (InTime plainCodec s event)
  | .locked g => inferInstanceAs (Decidable (_ ∧ ∀ pc ∈ s.tasks g, pc.inTime plainCodec s))
  | .deliver index =>
    inferInstanceAs (Decidable (_ ∧ ∀ r ∈ (s.bucket.log ++ s.past)[index]?, _ ∨ _ = true))
  | .recreate | .start _ | .update _ _ | .modify _ _ | .reconcile | .request _ _ | .done _
  | .stop | .watch _ | .unwatch _ | .receive _ | .list _ | .foreign _ | .land _
  | .tick _ => inferInstanceAs (Decidable (_ ∧ True))

def Pc.result {B : Type} : Pc B → Option Result
  | .returned result => some result
  | _ => none

theorem result_eq_some {B : Type} {task : Option (Pc B)} {result : Result}
    (returned : task.bind Pc.result = some result) : task = some (.returned result) := by
  obtain ⟨pc, rfl, eq⟩ := bind_eq_some_iff.mp returned
  cases pc with simp only [Pc.result, some.injEq, reduceCtorEq] at eq
  | returned result' => rw [eq]

def reconcilingRun : List (SourceEvent Unit Unit (List Partition)) :=
  [.reconcile, .request .reconciler .served, .locked .reconciler, .locked .reconciler,
    .done .reconciler]

theorem skip_is_sound_twice :
    ∃ s s', Reachable (natsKV Unit Unit plainCodec 5) (InTime plainCodec) s ∧
      s.step plainCodec 5 (.request .reconciler .served) = some s' ∧
      s'.tasks .reconciler = some (.returned .skipped) ∧
      ∃ e parts, s'.bucket.get () = some e ∧ plainCodec.decode e.value = some parts ∧
        s'.source.partitions = sortPartitions parts ∧ s'.source.revision = e.revision := by
  obtain ⟨s, s', reached, took, distinct, result⟩ := exists_reachable_step
    (M := natsKV Unit Unit plainCodec 5) (InTime plainCodec) unusedWorld_unused
    (updatingRun ++ reconcilingRun ++ [.reconcile]) (.request .reconciler .served) (fun s s' =>
      Distinct s ∧ (s'.tasks .reconciler).bind Pc.result = some .skipped) (by decide)
  have skipped := result_eq_some result
  exact ⟨s, s', reached, took, skipped, skip_is_sound reached ⟨distinct, trivial⟩ took skipped⟩

/-- An `Update` that meets a deletion, up to the read that finds no key. -/
def refreshingRun : List (SourceEvent Unit Unit (List Partition)) :=
  [.foreign .delete, .update () [partitionOf 98], .locked (.caller ()),
    .request (.caller ()) .served, .request (.caller ()) .served]

theorem late_refresh_skipped :
    ∃ s s' : World Unit Unit (List Partition),
      Reachable (natsKV Unit Unit plainCodec 5) Free s ∧ Distinct s ∧
      s.step plainCodec 5 (.request .reconciler .served) = some s' ∧
      s'.tasks .reconciler = some (.returned .skipped) ∧ s'.tasks (.caller ()) = none ∧
      held plainCodec (s'.bucket.get ()) = some [partitionOf 97] ∧
      s'.source.partitions = [] := by
  obtain ⟨s, s', reached, took, distinct, skipped, idle, list, cached⟩ := exists_reachable_step
    (M := natsKV Unit Unit plainCodec 5) Free unusedWorld_unused
    (updatingRun ++ refreshingRun ++ [.foreign (.put [partitionOf 97])] ++ reconcilingRun ++
      [.locked (.caller ()), .locked (.caller ()), .request (.caller ()) .failed,
        .done (.caller ()), .reconcile])
    (.request .reconciler .served) (fun s s' => Distinct s ∧
      (s'.tasks .reconciler).bind Pc.result = some .skipped ∧ s'.tasks (.caller ()) = none ∧
      held plainCodec (s'.bucket.get ()) = some [partitionOf 97] ∧ s'.source.partitions = [])
    (by decide)
  exact ⟨s, s', reached, distinct, took, result_eq_some skipped, idle, list, cached⟩

end Parti.Source
