/-
# Source.Snapshot — the cached list against the history of the key

Five writers put a list and a revision into the cache. Within one incarnation of the
bucket each of them brings a pair the key really had (`HadAt`), and the gate never lets
the revision go back, so list and revision belong together (`Cached`).

The exception is a read that finds no key. It empties the list and keeps the
revision, since the watcher will bring the revision of the delete marker. Until then
a snapshot is empty at a revision at which the key was not
(`empty_before_delete_marker`). `snapshot_consistent` is what holds of every snapshot,
and that nothing else breaks the pair.
-/
import Parti.Source.Calls
import Parti.Source.Notify

namespace Parti.Source

open Parti.Types Lib Lib.Kv Lib.Client NatsKV Option

/-! ## The history of the key -/

section History

variable {B : Type} (codec : Codec B)

/-- The list a record gives to the key; of a value this source wrote, also the list
it has encoded. -/
def Says (r : Record Unit B) (parts : List Partition) : Prop :=
  match r.op with
  | .delete => parts = []
  | .put value => codec.decode value = some parts ∨ codec.encode parts = some value

def HadAt (b : Bucket Unit B) (parts : List Partition) (rev : Nat) : Prop :=
  ∃ r ∈ b.log, r.revision = rev ∧ Says codec r parts

variable {codec} {b : Bucket Unit B} {parts : List Partition} {rev : Nat} {e : Entry B}

theorem HadAt.append (had : HadAt codec b parts rev) (op : Op B) (now : Int) :
    HadAt codec (b.append () op now) parts rev := by
  obtain ⟨r, member, at_, content⟩ := had
  exact ⟨r, .tail _ member, at_, content⟩

theorem HadAt.positive (had : HadAt codec b parts rev) : 0 < rev := by
  obtain ⟨r, member, rfl, -⟩ := had
  exact b.positive r member

theorem hadAt_of_get (live : b.get () = some e) (decoded : codec.decode e.value = some parts) :
    HadAt codec b parts e.revision :=
  ⟨_, Bucket.get_stored live, rfl, .inl decoded⟩

theorem hadAt_of_write {data : B} (encoded : codec.encode parts = some data) (now : Int) :
    HadAt codec (b.append () (.put data) now) parts (b.seq + 1) :=
  ⟨_, .head _, rfl, .inr encoded⟩

theorem le_get_revision (live : b.get () = some e) {r} (member : r ∈ b.log) :
    r.revision ≤ e.revision :=
  (Bucket.last_spec (Bucket.get_eq_some.mp live)).2.2 r member rfl

end History

/-! ## The cache -/

section Cache

variable {L B : Type} (codec : Codec B) (b : Bucket Unit B)

def Exact (s : NatsKV L) : Prop :=
  ∃ parts, s.partitions = sortPartitions parts ∧ HadAt codec b parts s.revision

/-- What holds of the cache in one incarnation of the bucket. -/
structure Cached (s : NatsKV L) : Prop where
  unwritten : s.known = false → s.revision = 0
  recorded : s.known = true → ∃ r ∈ b.log, r.revision = s.revision
  listed : s.known = true → Exact codec b s ∨ s.partitions = []

variable {codec b} {s : NatsKV L}

theorem Exact.append (exact : Exact codec b s) (op : Op B) (now : Int) :
    Exact codec (b.append () op now) s := by
  obtain ⟨parts, sorted, had⟩ := exact
  exact ⟨parts, sorted, had.append op now⟩

theorem Cached.append (cached : Cached codec b s) (op : Op B) (now : Int) :
    Cached codec (b.append () op now) s where
  unwritten := cached.unwritten
  recorded := fun known => by
    obtain ⟨r, member, at_⟩ := cached.recorded known
    exact ⟨r, .tail _ member, at_⟩
  listed := fun known => (cached.listed known).imp_left fun exact => exact.append op now

variable {s' : NatsKV L}

theorem Cached.congr (cached : Cached codec b s) (partitions : s'.partitions = s.partitions)
    (revision : s'.revision = s.revision) (known : s'.known = s.known) : Cached codec b s' := by
  refine ⟨?_, ?_, ?_⟩
  · rw [known, revision]
    exact cached.unwritten
  · rw [known, revision]
    exact cached.recorded
  · intro on
    unfold Exact
    rw [partitions, revision]
    exact cached.listed (known ▸ on)

theorem Exact.congr (exact : Exact codec b s) (partitions : s'.partitions = s.partitions)
    (revision : s'.revision = s.revision) :
    Exact codec b s' := by
  unfold Exact
  rw [partitions, revision]
  exact exact

variable (codec b) in
/-- A writer may leave the cache alone, bring a pair the key had at a revision that is
not behind, or seed a cache that knows nothing. -/
inductive Advances (s s' : NatsKV L) : Prop
  | kept (partitions : s'.partitions = s.partitions) (revision : s'.revision = s.revision)
      (known : s'.known = s.known)
  | brought (parts : List Partition) (partitions : s'.partitions = sortPartitions parts)
      (had : HadAt codec b parts s'.revision) (forward : s.revision ≤ s'.revision)
      (known : s'.known = true)
  | seeded (unknown : s.known = false) (revision : s'.revision = 0) (known : s'.known = false)

theorem Advances.refl (s : NatsKV L) : Advances codec b s s := .kept rfl rfl rfl

theorem Advances.cached (advances : Advances codec b s s') (cached : Cached codec b s) :
    Cached codec b s' := by
  cases advances with
  | kept partitions revision known => exact cached.congr partitions revision known
  | brought parts partitions had forward known =>
    refine ⟨fun off => ?_, fun _ => ?_, fun _ => .inl ⟨parts, partitions, had⟩⟩
    · rw [known] at off
      cases off
    · obtain ⟨r, member, at_, -⟩ := had
      exact ⟨r, member, at_⟩
  | seeded unknown revision known =>
    refine ⟨fun _ => revision, ?_, ?_⟩ <;> intro on <;> rw [known] at on <;> cases on

theorem Advances.revision_le (advances : Advances codec b s s') (cached : Cached codec b s) :
    s.revision ≤ s'.revision := by
  cases advances with
  | kept _ revision _ => exact le_of_eq revision.symm
  | brought _ _ _ forward _ => exact forward
  | seeded unknown _ _ =>
    rw [cached.unwritten unknown]
    exact Nat.zero_le _

theorem Advances.exact (advances : Advances codec b s s')
    (before : s.known = true → Exact codec b s) (known' : s'.known = true) :
    Exact codec b s' := by
  cases advances with
  | kept partitions revision known => exact (before (known ▸ known')).congr partitions revision
  | brought parts partitions had _ _ => exact ⟨parts, partitions, had⟩
  | seeded _ _ known =>
    rw [known] at known'
    cases known'

theorem HadAt.applied {parts} {rev : Nat} (had : HadAt codec b parts rev)
    (s : NatsKV L) (notify : Bool) : Advances codec b s (s.applyLocal parts rev notify).1 := by
  cases gate : s.stale rev with
  | true =>
    rw [applyLocal_stale gate]
    exact .refl s
  | false =>
    obtain ⟨listeners, state⟩ := applyLocal_fresh gate parts notify
    rw [state]
    have positive := had.positive
    have forward : s.revision ≤ rev := by
      have behind : ¬ (rev ≠ 0 ∧ rev < s.revision) := by simpa [stale] using gate
      omega
    exact .brought parts rfl had forward rfl

theorem watched_advances {r} (member : r ∈ b.log) (s : NatsKV L) :
    Advances codec b s (watched codec s r) := by
  unfold watched
  split
  next deleted => exact HadAt.applied ⟨r, member, rfl, by simp [Says, deleted]⟩ s true
  next value put =>
    split
    next => exact .refl s
    next parts decoded => exact HadAt.applied ⟨r, member, rfl, by simp [Says, put, decoded]⟩ s true

theorem started_advances {watching : Bool} (seeded : started codec s (b.get ()) watching = some s')
    (fresh : s.known = false ∨ (b.get ()).isSome) : Advances codec b s s' := by
  cases live : b.get () with
  | none =>
    rw [live] at seeded fresh
    have unknown : s.known = false := by simpa using fresh
    cases seeded
    have gate : s.stale 0 = false := rfl
    exact .seeded unknown rfl rfl
  | some e =>
    rw [live] at seeded
    obtain ⟨parts, decoded, rfl⟩ := map_eq_some_iff.mp seeded
    have had := hadAt_of_get live decoded
    cases gate : s.stale e.revision with
    | true =>
      rw [applyLocalLocked_stale gate]
      exact .kept rfl rfl rfl
    | false =>
      rw [applyLocalLocked_fresh gate]
      have positive := had.positive
      have forward : s.revision ≤ e.revision := by
        have behind : ¬ (e.revision ≠ 0 ∧ e.revision < s.revision) := by
          simpa [stale] using gate
        omega
      exact .brought parts (sortPartitions_idem parts) had forward rfl

theorem Cached.grown {b'} (cached : Cached codec b s)
    (grown : Grown b b') : Cached codec b' s := by
  rcases grown with rfl | ⟨op, now, rfl⟩
  · exact cached
  · exact cached.append op now

theorem recorded_fields (applied : NatsKV L × Bool) (rev : Nat) (created : Int) :
    (recorded applied rev created).partitions = applied.1.partitions ∧
      (recorded applied rev created).revision = applied.1.revision ∧
      (recorded applied rev created).known = applied.1.known := by
  unfold recorded
  split <;> exact ⟨rfl, rfl, rfl⟩

theorem Advances.recorded {applied}
    (advances : Advances codec b s applied.1) (rev : Nat) (created : Int) :
    Advances codec b s (recorded applied rev created) := by
  obtain ⟨partitions, revision, known⟩ := recorded_fields applied rev created
  cases advances with
  | kept partitions' revision' known' =>
    exact .kept (partitions.trans partitions') (revision.trans revision') (known.trans known')
  | brought parts partitions' had forward known' =>
    refine .brought parts (partitions.trans partitions') ?_ ?_ (known.trans known')
    · rw [revision]
      exact had
    · rw [revision]
      exact forward
  | seeded unknown revision' known' =>
    exact .seeded unknown (revision.trans revision') (known.trans known')

end Cache

/-! ## What the goroutines know -/

section Learned

variable {L B : Type} (codec : Codec B) (b : Bucket Unit B)

/-- What a goroutine carries to the cache is what the key had. The reconciler never
gets to a reset: no revision it has seen is above the live one. -/
def Learned : Pc B → Prop
  | .update clean data _ | .updateWrite clean data _ _ _ | .refresh clean data _ =>
    codec.encode clean = some data
  | .refreshApply clean data _ found => codec.encode clean = some data ∧
      ∀ parts rev, found = some (parts, rev) → HadAt codec b parts rev
  | .modifyWrite _ _ clean data _ => codec.encode clean = some data
  | .updateApply clean rev | .modifyApply clean rev => HadAt codec b clean rev
  | .reconcileEntry parts rev _ | .reconcileApply parts rev _ => HadAt codec b parts rev
  | .reconcileConfirm cachedRev _ => ∃ r ∈ b.log, r.revision = cachedRev
  | .reconcileReset _ _ _ _ _ => False
  | .modify _ _ | .reconcile | .reconcileEmpty | .returned _ => True

variable {codec b} {pc : Pc B}

theorem Learned.append (learned : Learned codec b pc) (op : Op B) (now : Int) :
    Learned codec (b.append () op now) pc := by
  cases pc with
  | updateApply | modifyApply | reconcileEntry | reconcileApply =>
    exact HadAt.append learned op now
  | refreshApply clean data left found =>
    exact ⟨learned.1, fun parts rev eq => (learned.2 parts rev eq).append op now⟩
  | reconcileConfirm cachedRev cachedGen =>
    obtain ⟨r, member, at_⟩ := learned
    exact ⟨r, .tail _ member, at_⟩
  | _ => exact learned

theorem Learned.grown {b'} (learned : Learned codec b pc) (grown : Grown b b') :
    Learned codec b' pc := by
  rcases grown with rfl | ⟨op, now, rfl⟩
  · exact learned
  · exact learned.append op now

theorem learned_ofUpdate (retries : Nat) (parts : List Partition) :
    Learned codec b (.ofUpdate codec retries parts) := by
  unfold Pc.ofUpdate
  split
  · trivial
  · split
    · trivial
    next encoded => exact encoded

variable (s : NatsKV L) {w : Write Unit B}

theorem Learned.read {live} (learned : Learned codec b pc)
    (found : b.get () = live) : Learned codec b (pc.resume codec s (.entry live)) := by
  generalize moved : pc.resume codec s (.entry live) = pc'
  cases Pc.resumes moved with
  | returned | empty | skipped => trivial
  | absent => exact ⟨learned, nofun⟩
  | refreshed decoded =>
    refine ⟨learned, ?_⟩
    intro parts' rev eq
    cases eq
    exact hadAt_of_get found decoded
  | proposed _ _ encoded => exact encoded
  | entry decoded | confirmed decoded => exact hadAt_of_get found decoded
  | reset decoded below =>
    obtain ⟨r, member, rfl⟩ := learned
    exact absurd (le_get_revision found member) (Nat.not_le_of_lt below)

theorem Learned.refused (learned : Learned codec b pc) (asked : pc.request = some (.write w)) :
    Learned codec b (pc.resume codec s .conflict) := by
  cases pc with simp only [Pc.request, reduceCtorEq] at asked
  | updateWrite clean data left rev known => exact learned
  | modifyWrite fn left clean data rev =>
    simp only [Pc.resume, modifyRetry]
    split <;> trivial
  | _ => simp at asked

theorem Learned.accepted (learned : Learned codec b pc) (asked : pc.request = some (.write w))
    (now : Int) :
    Learned codec (b.append w.key w.op now) (pc.resume codec s (.written (b.seq + 1))) := by
  cases pc with simp only [Pc.request, some.injEq, Request.write.injEq, reduceCtorEq] at asked
  | updateWrite clean data left rev known =>
    have puts : w.op = .put data := by
      rw [← asked]
      split <;> rfl
    rw [puts]
    exact hadAt_of_write learned now
  | modifyWrite fn left clean data rev =>
    have puts : w.op = .put data := by
      rw [← asked]
      split <;> rfl
    rw [puts]
    exact hadAt_of_write learned now

end Learned

/-! ## Every run -/

section Runs

variable {T L B : Type} [DecidableEq T] [DecidableEq L] {codec : Codec B} {retries : Nat}

/-- One incarnation of the bucket: it is not created again, the watcher delivers none
of its predecessors' records, and a source that knows the key is not started over
while the key is gone. -/
def OneIncarnation (s : World T L B) : SourceEvent T L B → Prop
  | .recreate => False
  | .deliver index => index < s.bucket.log.length
  | .start _ => s.source.running = true ∨ s.source.known = false ∨ (s.bucket.get ()).isSome
  | _ => True

/-- A goroutine applies a read that has found no key. -/
def AppliesNotFound (s : World T L B) : SourceEvent T L B → Prop
  | .locked g => s.tasks g = some .reconcileEmpty ∨
      ∃ clean data left, s.tasks g = some (.refreshApply clean data left none)
  | _ => False

variable (codec) in
structure Consistent (s : World T L B) : Prop where
  source : Cached codec s.bucket s.source
  tasks : ∀ g pc, s.tasks g = some pc → Learned codec s.bucket pc

variable (codec) in
inductive CacheStep (s : World T L B) (event : SourceEvent T L B) (source : NatsKV L) : Prop
  | advances (by_ : Advances codec s.bucket s.source source)
  | emptied (by_ : AppliesNotFound s event) (known : s.source.known = true)
      (partitions : source.partitions = []) (revision : source.revision = s.source.revision)
      (known' : source.known = true)

variable {s : World T L B} {source : NatsKV L} {event : SourceEvent T L B} {g : Goroutine T}

omit [DecidableEq T] [DecidableEq L] in
theorem AppliesNotFound.cacheStep (found : AppliesNotFound s (.locked g))
    (partitions : source.partitions = s.source.applyEmptyPreservingKnown.partitions)
    (revision : source.revision = s.source.applyEmptyPreservingKnown.revision)
    (known' : source.known = s.source.applyEmptyPreservingKnown.known) :
    CacheStep codec s (.locked g) source := by
  cases known : s.source.known with
  | false =>
    rw [applyEmptyPreservingKnown_unknown known] at partitions revision known'
    exact .advances (.kept partitions revision known')
  | true =>
    obtain ⟨listeners, state⟩ := applyEmptyPreservingKnown_known known
    rw [state] at partitions revision known'
    exact .emptied found known partitions revision (known'.trans known)

omit [DecidableEq T] [DecidableEq L] in
theorem Consistent.locked {pc pc' : Pc B} (consistent : Consistent codec s)
    (at_ : s.tasks g = some pc) (moved : pc.locked s.source = some (source, pc')) :
    CacheStep codec s (.locked g) source ∧ Learned codec s.bucket pc' := by
  have learned := consistent.tasks g pc at_
  cases pc with simp only [Pc.locked, some.injEq, Prod.mk.injEq, reduceCtorEq] at moved
  | update clean data left =>
    obtain ⟨rfl, rfl⟩ := moved
    exact ⟨.advances (.refl _), learned⟩
  | updateApply clean newRev =>
    obtain ⟨rfl, rfl⟩ := moved
    exact ⟨.advances (HadAt.applied learned _ _), trivial⟩
  | refreshApply clean data left found =>
    obtain ⟨rfl, rfl⟩ := moved
    refine ⟨?_, ?_⟩
    · cases found with
      | none => exact AppliesNotFound.cacheStep (.inr ⟨clean, data, left, at_⟩) rfl rfl rfl
      | some read =>
        obtain ⟨parts, rev⟩ := read
        exact .advances ((learned.2 parts rev rfl).applied _ _)
    · unfold updateRetry
      split
      · trivial
      · exact learned.1
  | modifyApply clean newRev =>
    obtain ⟨rfl, rfl⟩ := moved
    exact ⟨.advances (HadAt.applied learned _ _), trivial⟩
  | reconcileEmpty =>
    obtain ⟨rfl, rfl⟩ := moved
    exact ⟨AppliesNotFound.cacheStep (.inl at_) rfl rfl rfl, trivial⟩
  | reconcileEntry parts rev created =>
    split at moved
    next forward =>
      cases moved
      exact ⟨.advances (.refl _), learned⟩
    next behind =>
      cases moved
      refine ⟨.advances (.refl _), ?_⟩
      -- a revision above zero is one the key had
      have known : s.source.known = true := by
        cases off : s.source.known with
        | true => rfl
        | false =>
          have zero := consistent.source.unwritten off
          omega
      exact consistent.source.recorded known
  | reconcileApply parts rev created =>
    obtain ⟨rfl, rfl⟩ := moved
    exact ⟨.advances ((HadAt.applied learned _ _).recorded rev created), trivial⟩
  | reconcileReset parts rev created cachedRev cachedGen => exact learned.elim

omit [DecidableEq T] [DecidableEq L] in
theorem OneIncarnation.sameBucket (allowed : OneIncarnation s event) : event.sameBucket = true := by
  cases event with
  | recreate => exact allowed.elim
  | _ => rfl

theorem Consistent.effect {s'} (consistent : Consistent codec s)
    (allowed : OneIncarnation s event) (took : s.step codec retries event = some s') :
    CacheStep codec s event s'.source ∧ ∀ g pc, s'.tasks g = some pc → Learned codec s'.bucket pc := by
  have grown := step_grown allowed.sameBucket took
  have others : ∀ g pc, s.tasks g = some pc → Learned codec s'.bucket pc :=
    fun g pc at_ => (consistent.tasks g pc at_).grown grown
  -- a goroutine that has moved, and the others
  have set : ∀ {g : Goroutine T} {pc' : Pc B}, Learned codec s'.bucket pc' →
      ∀ g' pc, (s.set g (some pc')).tasks g' = some pc → Learned codec s'.bucket pc :=
    fun learned => World.set_tasks (R := fun _ => Learned codec s'.bucket)
      (fun pc at_ => some.inj at_ ▸ learned) (fun g' pc _ at_ => others g' pc at_)
  cases step_moves took with
  | update t parts free => exact ⟨.advances (.refl _), set (learned_ofUpdate retries parts)⟩
  | modify | reconcile => exact ⟨.advances (.refl _), set trivial⟩
  | wrote g pc w at_ asked accepted =>
    exact ⟨.advances (.refl _),
      set ((consistent.tasks g pc at_).accepted s.source asked s.clock)⟩
  | refused g pc w at_ asked rejected =>
    exact ⟨.advances (.refl _), set ((consistent.tasks g pc at_).refused s.source asked)⟩
  | read g pc at_ asked =>
    exact ⟨.advances (.refl _), set ((consistent.tasks g pc at_).read s.source rfl)⟩
  | failed | late =>
    refine ⟨.advances (.refl _), set ?_⟩
    rw [Pc.resume_failed]
    trivial
  | locked g pc pc' source at_ moved =>
    obtain ⟨step, learned⟩ := consistent.locked at_ moved
    exact ⟨step, set learned⟩
  | done g result at_ =>
    refine ⟨.advances (.refl _), World.set_tasks (R := fun _ => Learned codec s.bucket) ?_ ?_⟩
    · intro pc off
      cases off
    · exact fun g' pc _ at_ => others g' pc at_
  | deliver index r found =>
    have member : r ∈ s.bucket.log := by
      rw [List.getElem?_append_left allowed] at found
      exact List.mem_of_getElem? found
    exact ⟨.advances (watched_advances member s.source), others⟩
  | start watching source idle seeded =>
    refine ⟨.advances (started_advances seeded ?_), others⟩
    rcases allowed with on | fresh
    · rw [idle] at on
      cases on
    · exact fresh
  | recreate => exact allowed.elim
  | _ => exact ⟨.advances (.kept rfl rfl rfl), others⟩

omit [DecidableEq T] [DecidableEq L] in
theorem CacheStep.cached (step : CacheStep codec s event source)
    (cached : Cached codec s.bucket s.source) :
    Cached codec s.bucket source := by
  cases step with
  | advances by_ => exact by_.cached cached
  | emptied by_ known partitions revision known' =>
    refine ⟨fun off => ?_, fun _ => ?_, fun _ => .inr partitions⟩
    · rw [known'] at off
      cases off
    · rw [revision]
      exact cached.recorded known

theorem consistent (reached : Reachable (natsKV T L codec retries) OneIncarnation s) :
    Consistent codec s := by
  refine reached.invariant ?_ ?_
  · intro s unused
    refine ⟨?_, fun g pc at_ => ?_⟩
    · rw [unused.source]
      exact ⟨fun _ => rfl, nofun, nofun⟩
    · rw [unused.tasks g] at at_
      cases at_
  · intro s event s' consistent allowed took
    obtain ⟨step, learned⟩ := consistent.effect allowed took
    exact ⟨(step.cached consistent.source).grown (step_grown allowed.sameBucket took), learned⟩

theorem snapshot_consistent {s : World T L B}
    (reached : Reachable (natsKV T L codec retries) OneIncarnation s) :
    (s.source.known = true → (∃ r ∈ s.bucket.log, r.revision = s.source.revision) ∧
      (Exact codec s.bucket s.source ∨ s.source.partitions = [])) ∧
    ∀ event s', OneIncarnation s event → s.step codec retries event = some s' →
      s.source.revision ≤ s'.source.revision ∧
      ((s.source.known = true → Exact codec s.bucket s.source) → ¬ AppliesNotFound s event →
        s'.source.known = true → Exact codec s'.bucket s'.source) := by
  have invariant := consistent reached
  refine ⟨fun known => ⟨invariant.source.recorded known, invariant.source.listed known⟩, ?_⟩
  intro event s' allowed took
  have grown := step_grown allowed.sameBucket took
  obtain ⟨step, -⟩ := invariant.effect allowed took
  cases step with
  | advances by_ =>
    refine ⟨by_.revision_le invariant.source, ?_⟩
    intro exact _ known
    have after := by_.exact exact known
    rcases grown with eq | ⟨op, now, eq⟩
    · rw [eq]
      exact after
    · rw [eq]
      exact after.append op now
  | emptied by_ _ _ revision _ =>
    exact ⟨le_of_eq revision.symm, fun _ other _ => absurd by_ other⟩

end Runs

/-! ## Concrete runs -/

instance (s : World Unit Unit (List Partition)) :
    ∀ event, Decidable (OneIncarnation s event)
  | .recreate => inferInstanceAs (Decidable False)
  | .deliver index => inferInstanceAs (Decidable (index < s.bucket.log.length))
  | .start _ => inferInstanceAs (Decidable (_ = true ∨ _ = false ∨ _))
  | .locked _ | .update _ _ | .modify _ _ | .reconcile | .request _ _ | .done _
  | .stop | .watch _ | .unwatch _ | .receive _ | .list _ | .foreign _ | .land _
  | .tick _ => inferInstanceAs (Decidable True)

/-- An `Update` that meets nobody. -/
def updatingRun : List (SourceEvent Unit Unit (List Partition)) :=
  [.update () [partitionOf 97], .locked (.caller ()), .request (.caller ()) .served,
    .locked (.caller ()), .done (.caller ())]

theorem snapshot_consistent_update :
    ∃ s, Reachable (natsKV Unit Unit plainCodec 5) OneIncarnation s ∧ s.source.known = true ∧
      (Exact plainCodec s.bucket s.source ∨ s.source.partitions = []) ∧
      ∀ event s', OneIncarnation s event → s.step plainCodec 5 event = some s' →
        s.source.revision ≤ s'.source.revision :=
  exists_reachable_and unusedWorld_unused updatingRun (by decide) fun _ reached known =>
    have result := snapshot_consistent reached
    ⟨(result.1 known).2, fun event s' allowed took => (result.2 event s' allowed took).1⟩

theorem empty_before_delete_marker :
    ∃ s, Reachable (natsKV Unit Unit plainCodec 5) OneIncarnation s ∧ s.source.known = true ∧
      s.source.partitions = [] ∧ HadAt plainCodec s.bucket [partitionOf 97] s.source.revision ∧
      ¬ Exact plainCodec s.bucket s.source := by
  obtain ⟨s, reached, known, revision, partitions, log⟩ : ∃ s,
      Reachable (natsKV Unit Unit plainCodec 5) OneIncarnation s ∧ s.source.known = true ∧
      s.source.revision = 1 ∧ s.source.partitions = [] ∧
      s.bucket.log = [⟨(), .delete, 2, 0⟩, ⟨(), .put [partitionOf 97], 1, 0⟩] :=
    exists_reachable _ unusedWorld_unused
      (updatingRun ++ [.foreign .delete, .reconcile, .request .reconciler .served, .locked .reconciler])
      _ (by decide)
  have had : HadAt plainCodec s.bucket [partitionOf 97] s.source.revision := by
    rw [revision]
    exact ⟨⟨(), .put [partitionOf 97], 1, 0⟩, by simp [log], rfl, .inl rfl⟩
  refine ⟨s, reached, known, partitions, had, ?_⟩
  rintro ⟨parts, sorted, r, member, at_, content⟩
  rw [partitions] at sorted
  rw [revision] at at_
  rw [log] at member
  have newest : r = ⟨(), .put [partitionOf 97], 1, 0⟩ := by
    simp only [List.mem_cons, List.not_mem_nil, or_false] at member
    rcases member with rfl | rfl
    · cases at_
    · rfl
  subst newest
  have same : parts = [partitionOf 97] := by
    rcases content with decoded | encoded
    · exact (some.inj decoded).symm
    · exact some.inj encoded
  subst same
  exact absurd sorted (by decide)

end Parti.Source
