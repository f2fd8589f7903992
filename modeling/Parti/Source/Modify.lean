/-
# Source.Modify — the list a Modify replaces is the list it was given

`Tracked` carries `Follows` through every run, for the goroutines and for the writes
that went unanswered. `modify_is_atomic` reads two things off it: what a successful
`Modify` has replaced and by what, and how a partition can leave the key.

A partition leaves only by a write whose list lacks it (`Removal`). The write may be
one whose call has failed: `failed_removal_removes` is a `RemovePartitions` that
returns an error and takes effect afterwards.
-/
import Parti.Source.Calls
import Parti.Source.Notify

namespace Parti.Source

open Parti.Types Lib Lib.Kv Lib.Client Function List

/-! ## Every run -/

section Runs

variable {T L B : Type} {codec : Codec B} {retries : Nat}

variable {b b' : Bucket Unit B} {call : Call} {g : Goroutine T} {pc : Pc B} {s s' : Traced T L B}
  {event : SourceEvent T L B} {w : Write Unit B}

theorem Issued.grown (issued : Issued codec b call w) (grown : Grown b b') :
    Issued codec b' call w := by
  rcases grown with rfl | ⟨op, now, rfl⟩
  · exact issued
  · exact issued.append () op now

variable (codec) in
def Runs (b : Bucket Unit B) (calls : T → Option Call)
    (wrote : T → Option (Option (Entry B) × Option (Entry B))) : Goroutine T → Pc B → Prop
  | .reconciler, pc => pc.reconciling = true
  | .caller t, pc => ∃ call, calls t = some call ∧ Follows codec b call (wrote t) pc

theorem Runs.grown {calls} {wrote} (runs : Runs codec b calls wrote g pc) (grown : Grown b b') :
    Runs codec b' calls wrote g pc := by
  rcases grown with rfl | ⟨op, now, rfl⟩
  · exact runs
  · cases g with
    | reconciler => exact runs
    | caller t =>
      obtain ⟨call, called, follows⟩ := runs
      exact ⟨call, called, follows.append () op now⟩

variable (codec) in
structure Tracked (s : Traced T L B) : Prop where
  goroutine : ∀ g pc, s.world.tasks g = some pc →
    Runs codec s.world.bucket s.calls s.wrote g pc
  aligned : s.late.length = s.world.late.length
  late : ∀ (index : Nat) (call : Call) (w : Write Unit B), s.late[index]? = some (some call) →
    s.world.late[index]? = some w → Issued codec s.world.bucket call w

theorem Tracked.unused (unused : s.Unused) : Tracked codec s where
  goroutine := fun g pc at_ => by
    rw [unused.world.tasks g] at at_
    cases at_
  aligned := by simp [unused.late]
  late := fun index call w at_ _ => by
    rw [unused.late, List.getElem?_map] at at_
    obtain ⟨_, -, wrong⟩ := Option.map_eq_some_iff.mp at_
    cases wrong

theorem Tracked.idle (tracked : Tracked codec s) (tasks : s'.world.tasks = s.world.tasks)
    (calls : s'.calls = s.calls) (wrote : s'.wrote = s.wrote)
    (grown : Grown s.world.bucket s'.world.bucket) :
    ∀ g pc, s'.world.tasks g = some pc → Runs codec s'.world.bucket s'.calls s'.wrote g pc := by
  intro g pc at_
  rw [calls, wrote]
  exact (tracked.goroutine g pc (tasks ▸ at_)).grown grown

theorem Tracked.untouched (tracked : Tracked codec s) (tasks : s'.world.tasks = s.world.tasks)
    (calls : s'.calls = s.calls) (wrote : s'.wrote = s.wrote)
    (grown : Grown s.world.bucket s'.world.bucket) (late : s'.late = s.late)
    (waiting : s'.world.late = s.world.late) : Tracked codec s' where
  goroutine := tracked.idle tasks calls wrote grown
  aligned := by rw [late, waiting, tracked.aligned]
  late := by
    rw [late, waiting]
    exact fun index call w at_ there => (tracked.late index call w at_ there).grown grown

variable [DecidableEq T] {pc' : Option (Pc B)}

theorem Tracked.goroutine_set (tracked : Tracked codec s)
    (tasks : s'.world.tasks = Function.update s.world.tasks g pc')
    (grown : Grown s.world.bucket s'.world.bucket)
    (others : ∀ t, g ≠ .caller t → s'.calls t = s.calls t ∧ s'.wrote t = s.wrote t)
    (self : ∀ pc, pc' = some pc → Runs codec s'.world.bucket s'.calls s'.wrote g pc) :
    ∀ g pc, s'.world.tasks g = some pc → Runs codec s'.world.bucket s'.calls s'.wrote g pc := by
  rw [tasks]
  refine World.set_tasks (s := s.world) self fun g' pc other at_ => ?_
  have runs := (tracked.goroutine g' pc at_).grown grown
  cases g' with
  | reconciler => exact runs
  | caller t =>
    obtain ⟨call, called, follows⟩ := runs
    obtain ⟨calls, wrote⟩ := others t (fun eq => other eq.symm)
    exact ⟨call, calls.trans called, wrote ▸ follows⟩

theorem Tracked.moved (tracked : Tracked codec s)
    (tasks : s'.world.tasks = Function.update s.world.tasks g pc')
    (grown : Grown s.world.bucket s'.world.bucket) (late : s'.late = s.late)
    (waiting : s'.world.late = s.world.late)
    (others : ∀ t, g ≠ .caller t → s'.calls t = s.calls t ∧ s'.wrote t = s.wrote t)
    (self : ∀ pc, pc' = some pc → Runs codec s'.world.bucket s'.calls s'.wrote g pc) :
    Tracked codec s' where
  goroutine := tracked.goroutine_set tasks grown others self
  aligned := by rw [late, waiting, tracked.aligned]
  late := by
    rw [late, waiting]
    exact fun index call w at_ there => (tracked.late index call w at_ there).grown grown

theorem Tracked.called (tracked : Tracked codec s) {t : T}
    (follows : Follows codec s.world.bucket call none pc) :
    Tracked codec { s.called t call with world := s.world.set (.caller t) (some pc) } := by
  refine tracked.moved rfl (.inl rfl) rfl rfl ?_ ?_
  · intro t' other
    have ne : t' ≠ t := fun same => other (same ▸ rfl)
    exact ⟨update_of_ne ne _ _, update_of_ne ne _ _⟩
  · intro pc' eq
    cases eq
    refine ⟨call, update_self _ _ _, ?_⟩
    have fresh : (s.called t call).wrote t = none := update_self _ _ _
    show Follows codec s.world.bucket call ((s.called t call).wrote t) pc
    rw [fresh]
    exact follows

theorem Follows.ofUpdate (parts : List Partition)
    (wrote : Option (Option (Entry B) × Option (Entry B))) :
    Follows codec b (.update parts) wrote (.ofUpdate codec retries parts) := by
  unfold Pc.ofUpdate
  cases checked : validateAndDedupe parts with
  | error cause => trivial
  | ok clean =>
    obtain ⟨valid, rfl⟩ := validateAndDedupe_eq_ok.mp checked
    dsimp only
    cases encoded : codec.encode clean with
    | none => trivial
    | some data => exact ⟨rfl, valid, encoded⟩

theorem Tracked.answered (tracked : Tracked codec s) {pc' : Pc B} (at_ : s.world.tasks g = some pc)
    (reconciler : pc.reconciling = true → pc'.reconciling = true)
    (caller : ∀ call wrote, Follows codec s.world.bucket call wrote pc →
      Follows codec s.world.bucket call wrote pc')
    (source : NatsKV L) :
    Tracked codec { s with world := { s.world.set g (some pc') with source := source } } := by
  refine tracked.moved rfl (.inl rfl) rfl rfl (fun _ _ => ⟨rfl, rfl⟩) ?_
  intro pc'' eq
  cases eq
  have runs := tracked.goroutine g pc at_
  cases g with
  | reconciler => exact reconciler runs
  | caller t =>
    obtain ⟨call, called, follows⟩ := runs
    exact ⟨call, called, caller call _ follows⟩

theorem Tracked.gaveUp (tracked : Tracked codec s) (at_ : s.world.tasks g = some pc) :
    Tracked codec { s with world := s.world.set g (some (.returned .failed)) } := by
  refine tracked.answered at_ ?_ ?_ s.world.source
  · intro _
    rfl
  · intro _ _ _
    trivial

theorem note_answered (s : Traced T L B) (g : Goroutine T) (pc : Option (Pc B)) :
    s.note (s.world.set g pc) (.request g .served) = { s with world := s.world.set g pc } := by
  cases g with
  | reconciler => rfl
  | caller t => exact if_pos rfl

variable [DecidableEq L] {id : GoString}

theorem Tracked.step (tracked : Tracked codec s) (allowed : OneBucket s event)
    (took : s.step codec retries event = some s') : Tracked codec s' := by
  obtain ⟨world, stepped, rfl⟩ := Option.map_eq_some_iff.mp took
  cases step_moves stepped with
  | update t parts free => exact tracked.called (Follows.ofUpdate parts none)
  | modify t fn free => exact tracked.called rfl
  | reconcile free =>
    show Tracked codec { s with world := s.world.set .reconciler (some .reconcile) }
    refine tracked.moved rfl (.inl rfl) rfl rfl (fun _ _ => ⟨rfl, rfl⟩) ?_
    intro pc eq
    cases eq
    rfl
  | wrote g pc w at_ asked accepted =>
    have runs := tracked.goroutine g pc at_
    cases g with
    | reconciler => exact absurd asked (reconciling_asks runs)
    | caller t =>
      obtain ⟨call, called, follows⟩ := runs
      have grew : s.world.bucket.seq + 1 ≠ s.world.bucket.seq := Nat.succ_ne_self _
      simp only [Traced.note, Bucket.append_seq, grew, if_false]
      refine tracked.moved rfl (.inr ⟨w.op, s.world.clock, rfl⟩) rfl rfl ?_ ?_
      · intro t' other
        have ne : t' ≠ t := fun same => other (same ▸ rfl)
        exact ⟨rfl, update_of_ne ne _ _⟩
      · intro pc' eq
        cases eq
        refine ⟨call, called, ?_⟩
        dsimp only
        rw [update_self]
        exact follows.accepted s.world.source asked accepted s.world.clock
  | refused g pc w at_ asked rejected =>
    rw [note_answered]
    refine tracked.answered at_ (fun reconciling => absurd asked (reconciling_asks reconciling))
      (fun call wrote follows => follows.refused s.world.source asked) s.world.source
  | read g pc at_ asked =>
    rw [note_answered]
    exact tracked.answered at_ (fun reconciling => reconciling_resume reconciling _)
      (fun call wrote follows => follows.read s.world.source rfl) s.world.source
  | failed g pc at_ asked =>
    rw [Pc.resume_failed]
    cases g <;> exact tracked.gaveUp at_
  | late g pc w at_ asked =>
    have runs := tracked.goroutine g pc at_
    cases g with
    | reconciler => exact absurd asked (reconciling_asks runs)
    | caller t =>
      obtain ⟨call, called, follows⟩ := runs
      rw [Pc.resume_failed]
      refine ⟨(tracked.gaveUp at_).goroutine, congrArg Nat.succ tracked.aligned, ?_⟩
      intro index call' w' at_' waiting
      cases index with
      | zero =>
        simp only [Traced.note, List.getElem?_cons_zero, Option.some.injEq] at at_' waiting
        rw [called] at at_'
        cases at_'
        cases waiting
        exact follows.issued asked
      | succ index => exact tracked.late index call' w' at_' waiting
  | locked g pc pc' source at_ moved =>
    exact tracked.answered at_ (fun reconciling => reconciling_locked reconciling moved)
      (fun call wrote follows => follows.locked moved) source
  | done g result at_ =>
    show Tracked codec { s with world := s.world.set g none }
    refine tracked.moved rfl (.inl rfl) rfl rfl (fun _ _ => ⟨rfl, rfl⟩) ?_
    intro pc eq
    cases eq
  | foreign op =>
    exact tracked.untouched rfl rfl rfl (.inr ⟨op, s.world.clock, rfl⟩) rfl rfl
  | recreate => cases allowed
  | land index w waiting accepted =>
    have grown : Grown s.world.bucket (s.world.bucket.append w.key w.op s.world.clock) :=
      .inr ⟨w.op, s.world.clock, rfl⟩
    refine ⟨tracked.idle rfl rfl rfl grown, ?_, ?_⟩
    · show (s.late.eraseIdx index).length = (s.world.late.eraseIdx index).length
      rw [length_eraseIdx, length_eraseIdx, tracked.aligned]
    · intro index' call w' at_ there
      simp only [Traced.note, List.getElem?_eraseIdx] at at_ there
      split at there
      next before =>
        rw [if_pos before] at at_
        exact (tracked.late index' call w' at_ there).grown grown
      next after =>
        rw [if_neg after] at at_
        exact (tracked.late (index' + 1) call w' at_ there).grown grown
  | _ => exact tracked.untouched rfl rfl rfl (.inl rfl) rfl rfl

theorem tracked (reached : Reachable (traced T L codec retries) OneBucket s) :
    Tracked codec s :=
  reached.invariant (fun _ unused => .unused unused)
    (fun _ _ _ tracked allowed took => tracked.step allowed took)

/-- The step in which a write of this call takes effect: its answer, or its late
arrival. -/
inductive Lands (s : Traced T L B) : SourceEvent T L B → Call → Prop
  | answered (t : T) (call : Call) (called : s.calls t = some call) :
      Lands s (.request (.caller t) .served) call
  | late (index : Nat) (call : Call) (sent : s.late[index]? = some (some call)) :
      Lands s (.land index) call

variable (codec) in
inductive Removal (id : GoString) (s : Traced T L B) : SourceEvent T L B → Prop
  /-- What a call other than `AddPartitions` makes of the list it replaces lacks the
  partition. -/
  | call (event : SourceEvent T L B) (call : Call) (current) (lands : Lands s event call)
      (replaced : held codec (s.world.bucket.get ()) = some current)
      (lacks : id ∉ (call.proposes current).map Partition.canonicalID)
      (drops : ∀ parts, call ≠ .modify (added parts)) : Removal id s event
  /-- The list has a text that does not survive the encoding. -/
  | mangled (event : SourceEvent T L B) (call : Call) (current) (lands : Lands s event call)
      (replaced : held codec (s.world.bucket.get ()) = some current)
      (broken : ¬ Utf8Table (call.proposes current)) : Removal id s event
  /-- Another process has written. -/
  | foreign (op) : Removal id s (.foreign op)
  | stranger (index) (sent : s.late[index]? = some none) : Removal id s (.land index)

omit [DecidableEq T] [DecidableEq L] in
theorem Removal.of_issued (faithful : codec.Faithful) (lands : Lands s event call)
    (issued : Issued codec s.world.bucket call w) (accepted : s.world.bucket.accepts w = true)
    (present : Present codec id (s.world.bucket.get ())) (now : Int)
    (absent : ¬ Present codec id ((s.world.bucket.append w.key w.op now).get ())) :
    Removal codec id s event := by
  obtain ⟨current, replaced, member⟩ := present
  by_cases utf8 : Utf8Table (call.proposes current)
  · have after := issued.held_after faithful accepted replaced utf8 now
    have lacks : id ∉ (call.proposes current).map Partition.canonicalID :=
      fun contains => absent ⟨_, after, contains⟩
    refine .call event call current lands replaced lacks ?_
    rintro parts rfl
    exact lacks (mem_added_of_mem parts member)
  · exact .mangled event call current lands replaced utf8

omit [DecidableEq T] [DecidableEq L] in
theorem Tracked.replaced (invariant : Tracked codec s) {t : T}
    {fn} (called : s.calls t = some (.modify fn))
    (returned : s.world.tasks (.caller t) = some (.returned .ok)) :
    ∃ before after current, s.wrote t = some (before, some after) ∧
      held codec before = some current ∧ validatePartitions (fn current) = .ok () ∧
      codec.encode (fn current) = some after.value := by
  obtain ⟨call, called', follows⟩ := invariant.goroutine _ _ returned
  cases called.symm.trans called'
  exact follows fn rfl

theorem Tracked.removal (invariant : Tracked codec s) (faithful : codec.Faithful)
    (allowed : OneBucket s event) (took : s.step codec retries event = some s')
    (present : Present codec id (s.world.bucket.get ()))
    (absent : ¬ Present codec id (s'.world.bucket.get ())) : Removal codec id s event := by
  obtain ⟨world, stepped, rfl⟩ := Option.map_eq_some_iff.mp took
  have bucket : (s.note world event).world.bucket = world.bucket := by rw [note_world]
  rw [bucket] at absent
  cases step_moves stepped with
  | wrote g pc w at_ asked accepted =>
    have runs := invariant.goroutine g pc at_
    cases g with
    | reconciler => exact absurd asked (reconciling_asks runs)
    | caller t =>
      obtain ⟨call, called, follows⟩ := runs
      exact .of_issued faithful (.answered t call called) (follows.issued asked) accepted
        present s.world.clock absent
  | foreign op => exact .foreign op
  | recreate => cases allowed
  | land index w waiting accepted =>
    have inside : index < s.late.length := by
      rw [invariant.aligned]
      exact (List.getElem?_eq_some_iff.mp waiting).1
    cases sender : s.late[index] with
    | none => exact .stranger index (List.getElem?_eq_some_iff.mpr ⟨inside, sender⟩)
    | some call =>
      have sent : s.late[index]? = some (some call) :=
        List.getElem?_eq_some_iff.mpr ⟨inside, sender⟩
      exact .of_issued faithful (.late index call sent)
        (invariant.late index call w sent waiting) accepted present s.world.clock absent
  | _ => exact absurd present absent

theorem modify_is_atomic (faithful : codec.Faithful) {s : Traced T L B}
    (reached : Reachable (traced T L codec retries) OneBucket s) :
    (∀ t fn, s.calls t = some (.modify fn) → s.world.tasks (.caller t) = some (.returned .ok) →
      ∃ before after current, s.wrote t = some (before, some after) ∧
        held codec before = some current ∧ validateAndDedupe (fn current) = .ok (fn current) ∧
        codec.encode (fn current) = some after.value ∧
        (Utf8Table (fn current) → held codec (some after) = some (fn current) ∧
          ∀ parts, fn = added parts → ∀ p ∈ parts, Present codec p.canonicalID (some after))) ∧
    ∀ event s' id, OneBucket s event → s.step codec retries event = some s' →
      Present codec id (s.world.bucket.get ()) → ¬ Present codec id (s'.world.bucket.get ()) →
      Removal codec id s event := by
  have invariant := tracked reached
  refine ⟨?_, ?_⟩
  · intro t fn called returned
    obtain ⟨before, after, current, wrote, replaced, valid, encoded⟩ :=
      invariant.replaced called returned
    refine ⟨before, after, current, wrote, replaced, validateAndDedupe_eq_ok.mpr ⟨valid, rfl⟩,
      encoded, ?_⟩
    intro utf8
    have decoded : held codec (some after) = some (fn current) :=
      faithful.decode_encode _ _ valid utf8 encoded
    refine ⟨decoded, ?_⟩
    rintro parts rfl p member
    exact ⟨_, decoded, canonicalID_mem_added member current⟩
  · intro event s' id allowed took present absent
    exact invariant.removal faithful allowed took present absent

end Runs

/-! ## Concrete runs -/

theorem plainCodec_faithful : plainCodec.Faithful :=
  ⟨fun parts data _ _ encoded => by
    cases encoded
    rfl⟩

def unusedTrace : Traced Unit Unit (List Partition) :=
  ⟨unusedWorld, fun _ => none, fun _ => none, []⟩

theorem unusedTrace_unused : unusedTrace.Unused := ⟨unusedWorld_unused, fun _ => rfl, rfl⟩

abbrev UnitEvent := SourceEvent Unit Unit (List Partition)

instance (s : Traced Unit Unit (List Partition)) (event : UnitEvent) : Decidable (OneBucket s event) :=
  inferInstanceAs (Decidable (_ = _))

def addingRun : List UnitEvent :=
  [.modify () (added [partitionOf 97]), .request (.caller ()) .served,
    .request (.caller ()) .served, .locked (.caller ())]

theorem modify_is_atomic_adding :
    addPartitions () [partitionOf 97] = .ok (.modify () (added [partitionOf 97]) : UnitEvent) ∧
    ∃ s, Reachable (traced Unit Unit plainCodec 5) OneBucket s ∧
      s.world.tasks (.caller ()) = some (.returned .ok) ∧
      ∃ before after current, s.wrote () = some (before, some after) ∧
        held plainCodec before = some current ∧
        plainCodec.encode (added [partitionOf 97] current) = some after.value := by
  have ran : (traced Unit Unit plainCodec 5).guardedRun OneBucket unusedTrace addingRun =
      some _ := rfl
  have reached := guardedRun_reachable (M := traced Unit Unit plainCodec 5) unusedTrace_unused ran
  obtain ⟨before, after, current, wrote, replaced, -, encoded, -⟩ :=
    (modify_is_atomic plainCodec_faithful reached).1 () _ rfl rfl
  exact ⟨rfl, _, reached, rfl, before, after, current, wrote, replaced, encoded⟩

theorem failed_removal_removes :
    removePartitions () [partitionOf 97] = .ok (.modify () (removed [partitionOf 97]) : UnitEvent) ∧
    ∃ s s' s'' : Traced Unit Unit (List Partition),
      Reachable (traced Unit Unit plainCodec 5) OneBucket s ∧
      s.world.tasks (.caller ()) = some (.returned .ok) ∧
      s.calls () = some (.modify (added [partitionOf 97])) ∧
      (traced Unit Unit plainCodec 5).run s
        [.done (.caller ()), .modify () (removed [partitionOf 97]),
          .request (.caller ()) .served, .request (.caller ()) .unanswered] = some s' ∧
      s'.world.tasks (.caller ()) = some (.returned .failed) ∧
      Present plainCodec (partitionOf 97).canonicalID (s'.world.bucket.get ()) ∧
      s'.step plainCodec 5 (.land 0) = some s'' ∧
      ¬ Present plainCodec (partitionOf 97).canonicalID (s''.world.bucket.get ()) := by
  have ran : (traced Unit Unit plainCodec 5).guardedRun OneBucket unusedTrace addingRun =
      some _ := rfl
  refine ⟨rfl, _, _, _,
    guardedRun_reachable (M := traced Unit Unit plainCodec 5) unusedTrace_unused ran,
    rfl, rfl, rfl, rfl, ⟨[partitionOf 97], rfl, by decide⟩, rfl, ?_⟩
  rintro ⟨list, holds, member⟩
  cases holds
  obtain ⟨p, ⟨-, differs⟩, same⟩ := by
    simpa only [removed, mem_map, mem_filter, decide_eq_true_eq] using member
  exact differs ⟨_, mem_singleton_self _, same.symm⟩

end Parti.Source
