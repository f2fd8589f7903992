/-
# Heartbeat.Acknowledged — the applied version on the worker's key

The snapshot never goes back (`appliedVersion_le_set`), but a heartbeat is put some
time after its value was built. A value built before another one and put after it
takes the key back to an older version (`late_put_regresses`).

While at most one heartbeat is between its build and its put, and every put is
answered, the versions on the key never decrease (`published_versions_monotone`).
What carries it: a value under way is at least every value on the key and at most the
snapshot.
-/
import Mathlib.Data.Fintype.Basic
import Parti.Heartbeat.Publisher

namespace Parti.Heartbeat

open Parti.Types Lib Lib.Kv Lib.Client List

def Pc.putting : Pc → Option Heartbeat
  | .put _ hb => some hb
  | _ => none

/-- A value's applied version is not below that of the value before it. -/
def Newer (older newer : Heartbeat) : Prop := older.appliedVersion ≤ newer.appliedVersion

def version (r : Record GoString Heartbeat) : Option Int :=
  match r.op with
  | .put hb => some hb.appliedVersion
  | .delete => none

theorem version_eq_some {r} {v : Int} (read : version r = some v) :
    ∃ hb, r.op = .put hb ∧ hb.appliedVersion = v := by
  unfold version at read
  split at read
  next hb put => exact ⟨hb, put, by simpa using read⟩
  next => cases read

/-- The applied versions in the values written to a key, newest first. -/
def writtenVersions (b : Bucket GoString Heartbeat) (k : GoString) : List Int :=
  (b.history k).filterMap version

variable {T : Type}

/-- No value is built while another is between its build and its put, and every put
is answered. -/
def OneAtATime (s : State (Pool (Publisher T) Pc T) GoString Heartbeat) :
    Action T (T × Input T) → Prop
  | .call (_, .build _) => ∀ u, (s.locals.pcs u).putting = none
  | .step t .unanswered => (s.locals.pcs t).putting = none
  | _ => True

variable {cfg : Config} {p p' : Publisher T} {pc : Pc}
  {w w' : State (Publisher T) GoString Heartbeat} {now : Int} {hb : Heartbeat}
  {s : State (Pool (Publisher T) Pc T) GoString Heartbeat}

variable [DecidableEq T]

theorem Steps.applied {t : T} {pc' : Pc} {spawned} (steps : Steps cfg p t now pc p' pc' spawned) :
    p.applied.appliedVersion ≤ p'.applied.appliedVersion ∧
      (∀ hb, pc'.putting = some hb → hb.appliedVersion = p.applied.appliedVersion) ∧
      ∀ fresh pc, spawned = some (fresh, pc) → pc.putting = none := by
  cases steps with
  | setApplied snap => exact ⟨appliedVersion_le_set snap p.applied, nofun, nofun⟩
  | call pc call => obtain rfl | rfl | rfl := call <;> exact ⟨le_rfl, nofun, nofun⟩
  | build caller caps =>
    refine ⟨le_rfl, fun hb built => ?_, nofun⟩
    cases built
    rfl
  | begun | tick => exact ⟨le_rfl, nofun, by rintro _ _ ⟨⟩; rfl⟩
  | _ => exact ⟨le_rfl, nofun, nofun⟩

omit [DecidableEq T] in
theorem told_applied {pc' : Pc} {answer} (told : Heartbeat.told p pc answer = some (p', pc')) :
    p'.applied = p.applied ∧ pc'.putting = none := by
  unfold Heartbeat.told at told
  split at told <;> cases told <;> exact ⟨rfl, rfl⟩

theorem next_putting {t : T} {input} {turn}
    (moved : next cfg p t now pc input = some turn) (puts : turn.pc.putting ≠ none) :
    ∃ caps, input = .build caps := by
  unfold next at moved
  split at moved
  case h_7 => exact ⟨_, rfl⟩
  case h_22 => cases moved
  all_goals try split_ifs at moved
  all_goals
    cases moved
    exact absurd rfl puts

theorem one_put (reached : Reachable (system T cfg) OneAtATime s) :
    ∀ t u, t ≠ u → ¬((s.locals.pcs t).putting ≠ none ∧ (s.locals.pcs u).putting ≠ none) := by
  refine Reachable.apart (C := fun x y => x.putting ≠ none ∧ y.putting ≠ none)
    (fun _ _ both => both.symm) (by simp [Pc.putting]) ?_ reached
  intro s t a w' pc' spawned allowed does
  cases does with
  | next input turn moved =>
    refine ⟨fun u _ both => ?_, fun fresh pc new x both => ?_⟩
    · obtain ⟨caps, rfl⟩ := next_putting moved both.1
      exact absurd (allowed u) both.2
    · exact both.1 ((next_steps moved).applied.2.2 fresh pc new)
  | wrote _ _ _ _ _ told | heard _ _ _ _ _ told | late _ _ _ _ told =>
    exact ⟨fun u _ both => absurd (told_applied told).2 both.1, nofun⟩

/-- The values on the key are in order and not above the snapshot; what is still
under way is deletes. -/
structure InOrder (w : State (Publisher T) GoString Heartbeat) : Prop where
  log : w.bucket.log.Pairwise (Bucket.Over Newer)
  snapshot : ∀ r ∈ w.bucket.log, ∀ hb, r.op = .put hb →
    hb.appliedVersion ≤ w.locals.applied.appliedVersion
  pending : ∀ write ∈ w.pending, write.op = .delete

/-- A value under way is between the key and the snapshot. -/
structure Current (w : State (Publisher T) GoString Heartbeat) (hb : Heartbeat) : Prop where
  key : ∀ r ∈ w.bucket.log, ∀ older, r.op = .put older → Newer older hb
  snapshot : hb.appliedVersion ≤ w.locals.applied.appliedVersion

omit [DecidableEq T] in
theorem InOrder.append (order : InOrder w) (same : p.applied = w.locals.applied) (k : GoString)
    (op : Op Heartbeat) (current : ∀ hb, op = .put hb → Current w hb) :
    InOrder { w with bucket := w.bucket.append k op w.clock, locals := p } where
  log := by
    rw [Bucket.append_log]
    exact pairwise_cons.mpr
      ⟨fun r mem older hb put here => (current hb here).key r mem older put, order.log⟩
  snapshot := by
    intro r mem hb put
    rw [same]
    obtain rfl | mem := mem_cons.mp mem
    · exact (current hb put).snapshot
    · exact order.snapshot r mem hb put
  pending := order.pending

omit [DecidableEq T] in
theorem InOrder.local_ (order : InOrder w) (bucket : w'.bucket = w.bucket)
    (pending : ∀ write ∈ w'.pending, write.op = .delete)
    (le : w.locals.applied.appliedVersion ≤ w'.locals.applied.appliedVersion) : InOrder w' where
  log := bucket ▸ order.log
  snapshot r mem hb put := (order.snapshot r (bucket ▸ mem) hb put).trans le
  pending := pending

omit [DecidableEq T] in
theorem Current.local_ (current : Current w hb) (bucket : w'.bucket = w.bucket)
    (le : w.locals.applied.appliedVersion ≤ w'.locals.applied.appliedVersion) : Current w' hb where
  key r mem := current.key r (bucket ▸ mem)
  snapshot := current.snapshot.trans le

omit [DecidableEq T] in
theorem Current.delete (current : Current w hb) (same : p.applied = w.locals.applied) (k : GoString) :
    Current { w with bucket := w.bucket.append k .delete w.clock, locals := p } hb where
  key r mem older put := by
    obtain rfl | mem := mem_cons.mp mem
    · cases put
    · exact current.key r mem older put
  snapshot := same ▸ current.snapshot

theorem inOrder_of_reachable (reached : Reachable (system T cfg) OneAtATime s) :
    InOrder (world s) ∧
      ∀ t, ∀ hb, (s.locals.pcs t).putting = some hb → Current (world s) hb := by
  refine Reachable.routine (N := fun w _ pc => ∀ hb, pc.putting = some hb → Current w hb)
    (fun _ => one_put) ?_ ?_ ?_ reached
  · rintro ⟨bucket, pending, clock, p⟩ ⟨rfl, rfl, rfl⟩
    exact ⟨⟨.nil, nofun, nofun⟩, fun _ _ => nofun⟩
  · intro s t a w' pc' spawned alone allowed order knows does
    cases does with
    | next input turn moved =>
      obtain ⟨le, built, quiet⟩ := (next_steps moved).applied
      refine ⟨order.local_ rfl order.pending le, fun hb at_ => ⟨?_, ?_⟩,
        fun u _ hb at_ => (knows u hb at_).local_ rfl le, ?_⟩
      · intro r mem older put
        exact (order.snapshot r mem older put).trans (built hb at_).ge
      · exact (built hb at_).le.trans le
      · intro fresh pc new _ _ hb at_
        rw [quiet fresh pc new] at at_
        cases at_
    | wrote write p pc' asked accepted told =>
      obtain ⟨same, quiet⟩ := told_applied told
      obtain ⟨caller, own, here, rfl⟩ | ⟨_, rfl⟩ := asks_put asked
      · refine ⟨order.append same _ _ fun hb put => ?_, by simp [quiet], fun u other hb at_ => ?_,
          nofun⟩
        · cases put
          exact knows t own (by rw [here]; rfl)
        · -- two goroutines would be at their put
          exact absurd ⟨by simp [at_], by simp [here, Pc.putting]⟩ (alone u t other)
      · exact ⟨order.append same _ _ nofun, by simp [quiet],
          fun u _ hb at_ => (knows u hb at_).delete same _, nofun⟩
    | heard _ answer p pc' hears told =>
      obtain ⟨same, quiet⟩ := told_applied told
      exact ⟨order.local_ rfl order.pending (by rw [same]), by simp [quiet],
        fun u _ hb at_ => (knows u hb at_).local_ rfl (by rw [same]), nofun⟩
    | late write p pc' asked told =>
      obtain ⟨same, quiet⟩ := told_applied told
      refine ⟨order.local_ rfl ?_ (by rw [same]), by simp [quiet],
        fun u _ hb at_ => (knows u hb at_).local_ rfl (by rw [same]), nofun⟩
      obtain ⟨caller, own, at_, rfl⟩ | ⟨_, rfl⟩ := asks_put asked
      · rw [OneAtATime, at_] at allowed
        cases allowed
      · exact fun write mem => (mem_cons.mp mem).elim (fun new => new ▸ rfl)
          (order.pending write)
  · intro s a w' _ _ order knows passes
    cases passes with
    | tick elapsed =>
      exact ⟨order.local_ rfl order.pending le_rfl,
        fun t hb at_ => (knows t hb at_).local_ rfl le_rfl⟩
    | land index write waiting accepted =>
      have gone := order.pending write (mem_of_getElem? waiting)
      rw [gone]
      refine ⟨?_, fun t hb at_ => ?_⟩
      · exact (order.append rfl write.key .delete nofun).local_ rfl
          (fun w mem => order.pending w (mem_of_mem_eraseIdx mem)) le_rfl
      · exact ((knows t hb at_).delete rfl write.key).local_ rfl le_rfl

theorem published_versions_monotone {cfg : Config}
    {s : State (Pool (Publisher T) Pc T) GoString Heartbeat}
    (reached : Reachable (system T cfg) OneAtATime s) :
    (writtenVersions s.bucket (keyForWorker cfg)).Pairwise (· ≥ ·) := by
  have order := (inOrder_of_reachable reached).1.log
  refine pairwise_filterMap.mpr ((order.filter _).imp ?_)
  intro newer older kept v read v' read'
  obtain ⟨hb, put, rfl⟩ := version_eq_some read
  obtain ⟨hb', put', rfl⟩ := version_eq_some read'
  exact kept hb' hb put' put

instance oneAtATimeDecidable {T : Type} [DecidableEq T] [Fintype T]
    (s : State (Pool (Publisher T) Pc T) GoString Heartbeat) :
    ∀ a : Action T (T × Input T), Decidable (OneAtATime s a)
  | .call (_, .build _) => inferInstanceAs (Decidable (∀ u, (s.locals.pcs u).putting = none))
  | .step t .unanswered => inferInstanceAs (Decidable ((s.locals.pcs t).putting = none))
  | .call (_, .publishNow) | .call (_, .start) | .call (_, .stop) | .call (_, .setApplied _)
  | .call (_, .go) | .call (_, .marshalError) | .call (_, .spawn _) | .call (_, .tick _)
  | .step _ .served | .step _ .failed | .land _ | .tick _ => isTrue trivial

def publishedInTurn {T : Type} (t loop : T) : List (Action T (T × Input T)) :=
  starts t loop ++ applies t 1 ++ builds t ++ [.step t .served, .call (t, .go)] ++ applies t 2 ++
    builds t ++ [.step t .served]

theorem published_versions_monotone_in_turn :
    ∃ s, Reachable (system (Fin 2) plainConfig) OneAtATime s ∧
      writtenVersions s.bucket (keyForWorker plainConfig) = [2, 1, 0] ∧
      (writtenVersions s.bucket (keyForWorker plainConfig)).Pairwise (· ≥ ·) :=
  exists_reachable_and (fresh_init plainConfig) (publishedInTurn 0 1) (by decide)
    fun _ reached _ => published_versions_monotone reached

def latePut {T : Type} (t u loop pub : T) : List (Action T (T × Input T)) :=
  starts t loop ++ applies u 1 ++ builds t ++ applies u 2 ++
    [.call (loop, .go), .call (loop, .go), .call (loop, .tick pub), .call (pub, .build none),
      .step pub .served, .step t .served]

theorem late_put_regresses :
    ∃ s, Reachable (system (Fin 4) plainConfig) Free s ∧
      writtenVersions s.bucket (keyForWorker plainConfig) = [1, 2, 0] ∧
      ¬(writtenVersions s.bucket (keyForWorker plainConfig)).Pairwise (· ≥ ·) :=
  exists_reachable _ (fresh_init plainConfig) (latePut 0 1 2 3) _ (by decide)

end Parti.Heartbeat
