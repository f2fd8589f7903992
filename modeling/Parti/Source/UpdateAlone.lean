/-
# Source.UpdateAlone — an Update that nobody disturbs

`finish` runs one goroutine of the source and nothing else. An `Update` run so should
succeed at its second attempt at the latest, since the refresh after a conflict brings
the current revision.

The refresh does not always do that. If the key has been deleted and the watcher has
not said so, the refresh finds nothing and keeps the cached revision; if the bucket
has been created again, the gate drops the live entry because its revision is lower.
Then every attempt names the same wrong revision (`Stuck.exhausts`).
`update_alone_iff` says from which states the call succeeds.
-/
import Parti.Source.Reconcile

namespace Parti.Source

open Parti.Types Lib Lib.Kv Lib.Client Option Bucket NatsKV

section Alone

variable {T L B : Type} [DecidableEq T] [DecidableEq L] (codec : Codec B) (retries : Nat)

def World.turn (s : World T L B) (g : Goroutine T) : Option (SourceEvent T L B) :=
  match s.tasks g with
  | none | some (.returned _) => none
  | some pc => some (if pc.request.isSome then .request g .served else .locked g)

def World.finish (g : Goroutine T) : Nat → World T L B → Option (World T L B)
  | 0, _ => none
  | fuel + 1, s =>
    match s.turn g with
    | none => some s
    | some event => (s.step codec retries event).bind (World.finish g fuel)

def World.move (s : World T L B) (g : Goroutine T) (pc : Pc B) (source : NatsKV L)
    (b : Bucket Unit B) : World T L B :=
  { s.set g (some pc) with source := source, bucket := b }

variable {codec retries} {s : World T L B} {g : Goroutine T} {pc pc' : Pc B}
  {source source' : NatsKV L} {b : Bucket Unit B}

omit [DecidableEq L] in
theorem move_tasks : (s.move g pc source b).tasks g = some pc := Function.update_self _ _ _

omit [DecidableEq L] in
theorem move_set (source' : NatsKV L) (b' : Bucket Unit B) :
    { (s.move g pc source b).set g (some pc') with source := source', bucket := b' } =
      s.move g pc' source' b' := by
  simp only [World.move, World.set, Function.update_idem]

theorem finish_returned (result : Result) (fuel : Nat) :
    (s.move g (.returned result) source b).finish codec retries g (fuel + 1) =
      some (s.move g (.returned result) source b) := by
  simp only [World.finish, World.turn, move_tasks]

theorem finish_locked (moved : pc.locked source = some (source', pc')) (silent : pc.request = none)
    (fuel : Nat) :
    (s.move g pc source b).finish codec retries g (fuel + 1) =
      (s.move g pc' source' b).finish codec retries g fuel := by
  have turns : (s.move g pc source b).turn g = some (.locked g) := by
    unfold World.turn
    rw [move_tasks]
    cases pc with
    | returned result => cases moved
    | _ => simp [silent]
  have took : (s.move g pc source b).step codec retries (.locked g) =
      some (s.move g pc' source' b) := by
    have moved' : pc.locked (s.move g pc source b).source = some (source', pc') := moved
    simp only [World.step, move_tasks, bind_some, moved', map_some]
    exact congrArg some (move_set source' b)
  simp only [World.finish, turns, took, bind_some]

theorem finish_request {answer} {b'} {request} (asked : pc.request = some request)
    (served : serve b s.clock request .served = some (b', answer, [])) (fuel : Nat) :
    (s.move g pc source b).finish codec retries g (fuel + 1) =
      (s.move g (pc.resume codec source answer) source b').finish codec retries g fuel := by
  have turns : (s.move g pc source b).turn g = some (.request g .served) := by
    unfold World.turn
    rw [move_tasks]
    cases pc with
    | returned result => cases asked
    | _ => simp [asked]
  have took : (s.move g pc source b).step codec retries (.request g .served) =
      some (s.move g (pc.resume codec source answer) source b') := by
    have served' : serve (s.move g pc source b).bucket (s.move g pc source b).clock request
        .served = some (b', answer, []) := served
    simp only [World.step, move_tasks, bind_some, asked, served', map_some,
      List.nil_append]
    exact congrArg some (move_set source b')
  simp only [World.finish, turns, took, bind_some]

/-! ## One attempt -/

variable {clean : List Partition} {data : B} {left : Nat}

def updateRequest (s : NatsKV L) (data : B) : Write Unit B :=
  if s.known then .update () data s.revision else .create () data

omit [DecidableEq L] in
theorem updateRequest_op (source : NatsKV L) (data : B) :
    (updateRequest source data).op = .put data := by
  unfold updateRequest
  split <;> rfl

theorem attempt_accepted (accepted : b.accepts (updateRequest source data) = true) (fuel : Nat) :
    (s.move g (.update clean data left) source b).finish codec retries g (fuel + 4) =
      some (s.move g (.returned .ok) (source.applyLocal clean (b.seq + 1) true).1
        (b.append () (.put data) s.clock)) := by
  have served : serve b s.clock (.write (updateRequest source data)) .served =
      some (b.append () (.put data) s.clock, .written (b.seq + 1), []) := by
    have write : b.write s.clock (updateRequest source data) =
        some (b.append () (.put data) s.clock) :=
      write_eq_some.mpr ⟨accepted, by rw [updateRequest_op]⟩
    simp only [serve, write, append_seq]
  rw [finish_locked rfl rfl, finish_request rfl served]
  simp only [Pc.resume]
  rw [finish_locked rfl rfl, finish_returned]

theorem attempt_refused (refused : b.accepts (updateRequest source data) = false) (fuel : Nat) :
    (s.move g (.update clean data left) source b).finish codec retries g (fuel + 3) =
      (s.move g ((Pc.refresh clean data left).resume codec source (.entry (b.get ()))) source
        b).finish codec retries g fuel := by
  have served : serve b s.clock (.write (updateRequest source data)) .served =
      some (b, .conflict, []) := by
    have write : b.write s.clock (updateRequest source data) = none := by
      simp [write, refused]
    simp only [serve, write]
  rw [finish_locked rfl rfl, finish_request rfl served]
  simp only [Pc.resume]
  rw [finish_request rfl rfl]
  rfl

theorem attempt_refreshed {found} (refused : b.accepts (updateRequest source data) = false)
    (read : (Pc.refresh clean data left).resume codec source (.entry (b.get ())) =
      .refreshApply clean data left found) (fuel : Nat) :
    (s.move g (.update clean data left) source b).finish codec retries g (fuel + 4) =
      (s.move g (updateRetry clean data left) (refreshFromKV source found) b).finish codec retries
        g fuel := by
  rw [attempt_refused refused, read, finish_locked rfl rfl]

/-! ## A cache that cannot catch up -/

variable (codec b source) in
/-- The cached revision is not the key's, and no refresh will bring it. -/
structure Stuck : Prop where
  known : source.known = true
  wrong : b.lastRevision () ≠ source.revision
  hidden : b.get () = none ∨ ∃ e parts, b.get () = some e ∧ codec.decode e.value = some parts ∧
    e.revision < source.revision

omit [DecidableEq L] in
theorem Stuck.refused (stuck : Stuck codec source b) (data : B) :
    b.accepts (updateRequest source data) = false := by
  rw [updateRequest, stuck.known, if_pos rfl]
  simpa [accepts] using stuck.wrong

omit [DecidableEq L] in
theorem Stuck.refreshed (stuck : Stuck codec source b) (clean : List Partition) (data : B)
    (left : Nat) :
    ∃ found, (Pc.refresh clean data left).resume codec source (.entry (b.get ())) =
      .refreshApply clean data left found ∧ Stuck codec (refreshFromKV source found) b := by
  rcases stuck.hidden with gone | ⟨e, parts, live, decoded, lower⟩
  · refine ⟨none, by rw [gone]; rfl, ?_⟩
    obtain ⟨listeners, state⟩ := applyEmptyPreservingKnown_known stuck.known
    unfold refreshFromKV
    dsimp only
    rw [state]
    exact ⟨stuck.known, stuck.wrong, .inl gone⟩
  · refine ⟨some (parts, e.revision), ?_, ?_⟩
    · rw [live]
      simp only [Pc.resume, decoded]
    · have positive : 0 < e.revision := b.positive _ (get_stored live)
      have gate : source.stale e.revision = true := by
        simp only [stale, Bool.and_eq_true, decide_eq_true_eq]
        omega
      unfold refreshFromKV
      dsimp only
      rw [applyLocal_stale gate]
      exact stuck

theorem Stuck.exhausts (stuck : Stuck codec source b) (fuel : Nat) :
    ∃ source', (s.move g (.update clean data left) source b).finish codec retries g
        (fuel + 4 * left + 5) =
      some (s.move g (.returned .retryExhausted) source' b) := by
  induction left generalizing source with
  | zero =>
    obtain ⟨found, read, -⟩ := stuck.refreshed clean data 0
    refine ⟨refreshFromKV source found, ?_⟩
    rw [show fuel + 4 * 0 + 5 = (fuel + 1) + 4 by omega, attempt_refreshed (stuck.refused data) read]
    exact finish_returned _ _
  | succ left ih =>
    obtain ⟨found, read, stuck'⟩ := stuck.refreshed clean data (left + 1)
    rw [show fuel + 4 * (left + 1) + 5 = (fuel + 4 * left + 5) + 4 by omega,
      attempt_refreshed (stuck.refused data) read]
    unfold updateRetry
    split
    · exact ⟨refreshFromKV source found, finish_returned _ _⟩
    · exact ih stuck'

/-! ## Every call -/

/-- A source that knows nothing of the key has no revision. -/
def Unwritten (s : NatsKV L) : Prop := s.known = false → s.revision = 0

section

omit [DecidableEq L]

theorem Unwritten.applyLocal (unwritten : Unwritten source) (parts : List Partition) (rev : Nat)
    (notify : Bool) : Unwritten (source.applyLocal parts rev notify).1 := by
  cases gate : source.stale rev with
  | true =>
    rw [applyLocal_stale gate]
    exact unwritten
  | false =>
    obtain ⟨listeners, state⟩ := applyLocal_fresh gate parts notify
    rw [state]
    intro off
    cases off

theorem Unwritten.applyEmptyPreservingKnown (unwritten : Unwritten source) :
    Unwritten source.applyEmptyPreservingKnown := by
  cases known : source.known with
  | false =>
    rw [applyEmptyPreservingKnown_unknown known]
    exact unwritten
  | true =>
    obtain ⟨listeners, state⟩ := applyEmptyPreservingKnown_known known
    rw [state]
    exact unwritten

theorem Unwritten.recorded {applied : NatsKV L × Bool} (unwritten : Unwritten applied.1) (rev : Nat)
    (created : Int) : Unwritten (recorded applied rev created) := by
  obtain ⟨-, revision, known⟩ := recorded_fields applied rev created
  intro off
  rw [revision]
  exact unwritten (known ▸ off)

theorem Unwritten.locked (unwritten : Unwritten source)
    (moved : pc.locked source = some (source', pc')) : Unwritten source' := by
  cases pc with simp only [Pc.locked, some.injEq, Prod.mk.injEq, reduceCtorEq] at moved
  | update clean data left => exact moved.1 ▸ unwritten
  | updateApply clean newRev => exact moved.1 ▸ unwritten.applyLocal _ _ _
  | refreshApply clean data left found =>
    rw [← moved.1]
    cases found with
    | none => exact unwritten.applyEmptyPreservingKnown
    | some read => exact unwritten.applyLocal _ _ _
  | modifyApply clean newRev => exact moved.1 ▸ unwritten.applyLocal _ _ _
  | reconcileEmpty =>
    rw [← moved.1]
    exact unwritten.applyEmptyPreservingKnown
  | reconcileEntry parts rev created => split at moved <;> cases moved <;> exact unwritten
  | reconcileApply parts rev created =>
    rw [← moved.1]
    exact (unwritten.applyLocal _ _ _).recorded _ _
  | reconcileReset parts rev created cachedRev cachedGen =>
    rw [← moved.1]
    refine Unwritten.recorded ?_ _ _
    unfold applyReconcileReset
    dsimp only
    split
    · exact Unwritten.applyLocal (fun _ => rfl) _ _ _
    · exact unwritten.applyLocal _ _ _

end

theorem unwritten (reached : Reachable (natsKV T L codec retries) Free s) : Unwritten s.source := by
  refine reached.invariant (I := fun s => Unwritten s.source) ?_ ?_
  · intro s unused
    rw [unused.source]
    exact fun _ => rfl
  · intro s event s' unwritten _ took
    cases step_moves took with
    | locked g pc pc' source at_ moved => exact unwritten.locked moved
    | deliver index r found =>
      show Unwritten (watched codec s.source r)
      unfold watched
      split
      · exact unwritten.applyLocal _ _ _
      · split
        · exact unwritten
        · exact unwritten.applyLocal _ _ _
    | start watching source idle seeded =>
      show Unwritten source
      cases live : s.bucket.get () with
      | none =>
        rw [live] at seeded
        cases seeded
        have gate : s.source.stale 0 = false := rfl
        rw [applyLocalLocked_fresh gate]
        exact fun _ => rfl
      | some e =>
        rw [live] at seeded
        obtain ⟨parts, -, rfl⟩ := map_eq_some_iff.mp seeded
        cases gate : s.source.stale e.revision with
        | true =>
          rw [applyLocalLocked_stale gate]
          exact unwritten
        | false =>
          rw [applyLocalLocked_fresh gate]
          intro off
          cases off
    | _ => exact unwritten

variable (codec) in
/-- The cache can name the key's revision, now or after a refresh. -/
def CatchesUp (b : Bucket Unit B) (source : NatsKV L) : Prop :=
  (source.known = false ∧ b.get () = none) ∨
    (source.known = true ∧ b.lastRevision () = source.revision) ∨
    ∃ e, b.get () = some e ∧ (codec.decode e.value).isSome ∧ source.revision ≤ e.revision

/-- The call has returned without error, and its list is in the key and in the cache. -/
structure Updated (t : T) (parts : List Partition) (data : B) (s : World T L B) : Prop where
  returned : s.tasks (.caller t) = some (.returned .ok)
  stored : ∃ e, s.bucket.get () = some e ∧ e.value = data ∧ s.source.revision = e.revision
  cached : s.source.partitions = sortPartitions parts
  known : s.source.known = true

section

omit [DecidableEq L]

theorem revision_le_of_accepts (unwritten : Unwritten source)
    (accepted : b.accepts (updateRequest source data) = true) : source.revision ≤ b.seq + 1 := by
  unfold updateRequest at accepted
  cases known : source.known with
  | false =>
    rw [unwritten known]
    exact Nat.zero_le _
  | true =>
    rw [known, if_pos rfl, accepts_update] at accepted
    exact accepted ▸ Nat.le_succ_of_le (b.lastRevision_le_seq ())

theorem updated_of_accepts (unwritten : Unwritten source) {t : T} {parts}
    (accepted : b.accepts (updateRequest source data) = true) :
    Updated t parts data (s.move (.caller t) (.returned .ok)
      (source.applyLocal parts (b.seq + 1) true).1 (b.append () (.put data) s.clock)) := by
  have forward := revision_le_of_accepts unwritten accepted
  have gate : source.stale (b.seq + 1) = false := by
    simp only [stale, Bool.and_eq_false_iff, decide_eq_false_iff_not]
    omega
  obtain ⟨listeners, state⟩ := applyLocal_fresh gate parts true
  rw [state]
  exact ⟨move_tasks, ⟨_, get_append_put b () data s.clock, rfl, rfl⟩, rfl, rfl⟩

theorem accepts_of_refreshed {e} (live : b.get () = some e) (known : source.known = true)
    (revision : source.revision = e.revision) (data : B) :
    b.accepts (updateRequest source data) = true := by
  rw [updateRequest, known, if_pos rfl, accepts_update, revision, lastRevision,
    get_eq_some.mp live]
  rfl

theorem catchesUp_of_accepts (accepted : b.accepts (updateRequest source data) = true) :
    CatchesUp codec b source := by
  unfold updateRequest at accepted
  cases known : source.known with
  | false =>
    rw [known, if_neg (by simp), accepts_create] at accepted
    exact .inl ⟨known, accepted⟩
  | true =>
    rw [known, if_pos rfl, accepts_update] at accepted
    exact .inr (.inl ⟨known, accepted⟩)

theorem Stuck.not_catchesUp (stuck : Stuck codec source b) : ¬ CatchesUp codec b source := by
  rintro (⟨off, -⟩ | ⟨-, same⟩ | ⟨e, live, -, behind⟩)
  · rw [stuck.known] at off
    cases off
  · exact stuck.wrong same
  · rcases stuck.hidden with gone | ⟨e', parts, live', -, ahead⟩
    · rw [gone] at live
      cases live
    · rw [live] at live'
      cases live'
      omega

theorem refused_cases (unwritten : Unwritten source)
    (refused : b.accepts (updateRequest source data) = false) :
    Stuck codec source b ∨
      (∃ e, b.get () = some e ∧ codec.decode e.value = none ∧ ¬ CatchesUp codec b source) ∨
      ∃ e current, b.get () = some e ∧ codec.decode e.value = some current ∧
        source.revision ≤ e.revision := by
  have wrong : source.known = true → b.lastRevision () ≠ source.revision := by
    intro known
    rw [updateRequest, known, if_pos rfl] at refused
    simpa [accepts] using refused
  cases live : b.get () with
  | none =>
    have known : source.known = true := by
      by_contra off
      rw [updateRequest, if_neg off] at refused
      simp [accepts, live] at refused
    exact .inl ⟨known, wrong known, .inl live⟩
  | some e =>
    cases decoded : codec.decode e.value with
    | none =>
      refine .inr (.inl ⟨e, rfl, decoded, ?_⟩)
      rintro (⟨-, gone⟩ | ⟨on, same⟩ | ⟨e', live', readable, -⟩)
      · rw [live] at gone
        cases gone
      · exact wrong on same
      · rw [live] at live'
        cases live'
        simp [decoded] at readable
    | some current =>
      by_cases ahead : e.revision < source.revision
      · have known : source.known = true := by
          by_contra off
          have zero := unwritten (by simpa using off)
          omega
        exact .inl ⟨known, wrong known, .inr ⟨e, current, live, decoded, ahead⟩⟩
      · exact .inr (.inr ⟨e, current, rfl, decoded, Nat.le_of_not_lt ahead⟩)

theorem not_updated {t : T} {parts} {result : Result} (other : result ≠ .ok) :
    ¬ Updated t parts data (s.move (.caller t) (.returned result) source b) := by
  intro updated
  have returned := updated.returned
  rw [move_tasks, some.injEq, Pc.returned.injEq] at returned
  exact other returned

end

theorem second_attempt {e} {current} (unwritten : Unwritten source)
    (refused : b.accepts (updateRequest source data) = false) (live : b.get () = some e)
    (decoded : codec.decode e.value = some current) (behind : source.revision ≤ e.revision)
    {t : T} {parts} (budget : 2 ≤ left) (fuel : Nat) :
    ∃ s', (s.move (.caller t) (.update parts data left) source b).finish codec retries (.caller t)
      (fuel + 8) = some s' ∧ Updated t parts data s' := by
  have gate : source.stale e.revision = false := by
    simp only [stale, Bool.and_eq_false_iff, decide_eq_false_iff_not]
    omega
  have read : (Pc.refresh parts data left).resume codec source (.entry (b.get ())) =
      .refreshApply parts data left (some (current, e.revision)) := by
    rw [live]
    simp only [Pc.resume, decoded]
  have again : updateRetry parts data left = .update parts data (left - 1) := by
    rw [updateRetry, if_neg (by omega)]
  have accepted : b.accepts
      (updateRequest (refreshFromKV source (some (current, e.revision))) data) = true := by
    obtain ⟨listeners, state⟩ := applyLocal_fresh gate current false
    refine accepts_of_refreshed live ?_ ?_ data
    · simp only [refreshFromKV, state]
    · simp only [refreshFromKV, state]
  rw [show fuel + 8 = fuel + 4 + 4 by omega, attempt_refreshed refused read, again,
    attempt_accepted accepted]
  exact ⟨_, rfl, updated_of_accepts (unwritten.applyLocal _ _ _) accepted⟩

theorem update_alone_iff (reached : Reachable (natsKV T L codec retries) Free s)
    (budget : 2 ≤ retries) {t : T} {parts : List Partition}
    (valid : validatePartitions parts = .ok ()) (encoded : codec.encode parts = some data)
    {s₁ : World T L B} (called : s.step codec retries (.update t parts) = some s₁) {fuel : Nat}
    (enough : 4 * retries + 5 ≤ fuel) :
    ∃ s', s₁.finish codec retries (.caller t) fuel = some s' ∧
      (Updated t parts data s' ↔ CatchesUp codec s.bucket s.source) := by
  have nothing := unwritten reached
  have start : s₁ = s.move (.caller t) (.update parts data retries) s.source s.bucket := by
    obtain ⟨-, rfl⟩ := enter_eq_some called
    have clean : validateAndDedupe parts = .ok parts := validateAndDedupe_eq_ok.mpr ⟨valid, rfl⟩
    simp only [Pc.ofUpdate, clean, encoded]
    rfl
  rw [start]
  obtain ⟨more, rfl⟩ := Nat.exists_eq_add_of_le enough
  cases verdict : s.bucket.accepts (updateRequest s.source data) with
  | true =>
    rw [show 4 * retries + 5 + more = (4 * retries + 1 + more) + 4 by omega,
      attempt_accepted verdict]
    exact ⟨_, rfl, iff_of_true (updated_of_accepts nothing verdict) (catchesUp_of_accepts verdict)⟩
  | false =>
    rcases refused_cases nothing verdict with
      stuck | ⟨e, live, garbled, lost⟩ | ⟨e, current, live, decoded, behind⟩
    · obtain ⟨source', finished⟩ : ∃ source', (s.move (.caller t) (.update parts data retries)
          s.source s.bucket).finish codec retries (.caller t) (more + 4 * retries + 5) =
          some (s.move (.caller t) (.returned .retryExhausted) source' s.bucket) :=
        stuck.exhausts more
      rw [show 4 * retries + 5 + more = more + 4 * retries + 5 by omega]
      exact ⟨_, finished, iff_of_false (not_updated (by simp)) stuck.not_catchesUp⟩
    · rw [show 4 * retries + 5 + more = (4 * retries + 1 + more) + 1 + 3 by omega,
        attempt_refused verdict, live]
      simp only [Pc.resume, garbled]
      exact ⟨_, finish_returned _ _, iff_of_false (not_updated (by simp)) lost⟩
    · obtain ⟨s', finished, updated⟩ : ∃ s', (s.move (.caller t) (.update parts data retries)
          s.source s.bucket).finish codec retries (.caller t) (4 * retries - 3 + more + 8) =
          some s' ∧ Updated t parts data s' :=
        second_attempt nothing verdict live decoded behind budget _
      rw [show 4 * retries + 5 + more = 4 * retries - 3 + more + 8 by omega]
      exact ⟨s', finished, iff_of_true updated
        (.inr (.inr ⟨e, live, by simp [decoded], behind⟩))⟩

end Alone

/-! ## Concrete runs -/

/-- Another writer is ahead of the cache: the second attempt succeeds. -/
theorem update_alone_iff_second_attempt :
    ∃ s s₁ s' : World Unit Unit (List Partition),
      Reachable (natsKV Unit Unit plainCodec 2) Free s ∧ s.source.revision = 1 ∧
      s.bucket.lastRevision () = 2 ∧
      s.step plainCodec 2 (.update () [partitionOf 98]) = some s₁ ∧
      s₁.finish plainCodec 2 (.caller ()) 13 = some s' ∧
      Updated () [partitionOf 98] [partitionOf 98] s' := by
  obtain ⟨s, reached, revision, last, live, free⟩ : ∃ s,
      Reachable (natsKV Unit Unit plainCodec 2) Free s ∧ s.source.revision = 1 ∧
      s.bucket.lastRevision () = 2 ∧ s.bucket.get () = some ⟨[partitionOf 97], 2, 0⟩ ∧
      (s.tasks (.caller ())).isNone = true :=
    exists_reachable _ unusedWorld_unused (updatingRun ++ [.foreign (.put [partitionOf 97])]) _
      (by decide)
  have called : s.step plainCodec 2 (.update () [partitionOf 98]) =
      some (s.set (.caller ()) (some (.ofUpdate plainCodec 2 [partitionOf 98]))) := by
    simp only [World.step, World.enter, free, if_true]
  have valid : validatePartitions [partitionOf 98] = .ok () := by decide
  obtain ⟨s', finished, updated⟩ := update_alone_iff reached (le_refl 2) valid rfl called
    (le_refl 13)
  refine ⟨s, _, s', reached, revision, last, called, finished, updated.mpr (.inr (.inr ?_))⟩
  exact ⟨_, live, rfl, by rw [revision]; decide⟩

/-- **Exhausted without contention.** The key was deleted and the watcher has not said
so; nobody else writes while the call lasts. -/
theorem deletion_exhausts_update :
    ∃ s s₁ s' : World Unit Unit (List Partition),
      Reachable (natsKV Unit Unit plainCodec 5) Free s ∧
      s.step plainCodec 5 (.update () [partitionOf 98]) = some s₁ ∧
      s₁.finish plainCodec 5 (.caller ()) 25 = some s' ∧
      s'.tasks (.caller ()) = some (.returned .retryExhausted) ∧ s'.bucket.get () = none := by
  obtain ⟨s, ran, s₁, called, s', finished, result, gone⟩ :
      ∃ s ∈ (natsKV Unit Unit plainCodec 5).run unusedWorld (updatingRun ++ [.foreign .delete]),
        ∃ s₁ ∈ s.step plainCodec 5 (.update () [partitionOf 98]),
          ∃ s' ∈ s₁.finish plainCodec 5 (.caller ()) 25,
            (s'.tasks (.caller ())).bind Pc.result = some .retryExhausted ∧
              s'.bucket.get () = none := by decide
  exact ⟨s, s₁, s', run_reachable (M := natsKV Unit Unit plainCodec 5) unusedWorld_unused ran,
    called, finished, result_eq_some result, gone⟩

end Parti.Source
