/-
# Heartbeat.Stopped — after `Stop` the key stays gone

`Stop` waits for the loop, and the loop for the goroutines it has started; the key is
then deleted. `PublishNow` is not waited for: it checks `started`, and puts its
heartbeat in a later step (`put_after_stop`). A `Start` that comes while `Stop` is
still under way writes, too, before `Stop` returns.

`stopped_stays_gone`: while `Stop`'s delete is served with no `PublishNow` past its
check, no `Start` begins while a `Stop` is under way and every put is answered, no
step after a `Stop` that returned nil writes a heartbeat until a `Start` begins.
-/
import Mathlib.Data.Fintype.Basic
import Parti.Heartbeat.Publisher

namespace Parti.Heartbeat

open Parti.Types Lib Lib.Kv Lib.Client List Option

/-- Inside `Stop`, past its critical section. -/
def Pc.isStopping : Pc → Bool
  | .stopping | .waiting _ | .delete => true
  | _ => false

/-- Inside `PublishNow`, past its check and not yet past its put. -/
def Pc.isOutOfBand : Pc → Bool
  | .build .now | .put .now _ => true
  | _ => false

variable {T : Type}

/-- What `Stop` relies on. -/
def Unraced (s : State (Pool (Publisher T) Pc T) GoString Heartbeat) :
    Action T (T × Input T) → Prop
  | .step t .served =>
    s.locals.pcs t = .delete → ∀ u, (s.locals.pcs u).isOutOfBand = false
  | .step t .unanswered => s.locals.pcs t = .delete
  | .call (t, .go) => s.locals.pcs t = .start → ∀ u, (s.locals.pcs u).isStopping = false
  | _ => True

structure Quiet (p : Publisher T) : Prop where
  closed_lt : ∀ c ∈ p.closed, c < p.channels
  done_lt : p.doneCh < p.channels
  stop_lt : p.stopCh < p.channels
  apart : p.stopCh ≠ p.doneCh
  held : p.mu ≠ none → p.started = true ∧ p.looping = none ∧ p.doneCh ∉ p.closed
  counted : p.inFlightWG ≠ [] → p.looping ≠ none
  open_ : p.looping ≠ none → p.doneCh ∉ p.closed
  live : p.looping ≠ none → p.started = true ∨ p.stopper ≠ none
  running : p.started = true → p.stopper = none ∧ p.stopped = false
  ended : p.stopped = true → p.looping = none

def Licensed (p : Publisher T) (t : T) : Caller → Prop
  | .now => p.stopped = false
  | .start => p.mu = some t
  | .loop => t ∈ p.inFlightWG

def Holds (p : Publisher T) (t : T) : Pc → Prop
  | .build caller | .put caller _ => Licensed p t caller
  | .published caller _ => caller ≠ .now → Licensed p t caller
  | .finishing => t ∈ p.inFlightWG
  | .loopStart => p.looping = some t
  | .loop done | .selecting done _ | .draining done => p.looping = some t ∧ done = p.doneCh
  | .stopping => p.stopper = some t
  | .waiting done => p.stopper = some t ∧ done = p.doneCh
  | .delete => p.stopper = some t ∧ p.doneCh ∈ p.closed
  | _ => True

/-- And the goroutine on record as being in `Stop` is there. -/
structure Knows (p : Publisher T) (t : T) (pc : Pc) : Prop where
  holds : Holds p t pc
  stopper : p.stopper = some t → pc.isStopping = true

variable {cfg : Config} {p p' : Publisher T} {t u : T} {now : Int} {pc pc' : Pc}
  {spawned : Option (T × Pc)} {answer : Answer GoString Heartbeat}
  {s : State (Pool (Publisher T) Pc T) GoString Heartbeat}

theorem Quiet.new : Quiet (Publisher.new T) := by
  constructor <;> simp [Publisher.new]

theorem Quiet.idle (quiet : Quiet p) (rests : p.started = false) (none_ : p.stopper = none) :
    p.looping = none := by
  by_contra some_
  obtain on | stops := quiet.live some_
  · rw [rests] at on
    cases on
  · exact stops none_

variable [DecidableEq T]

theorem Steps.quiet (steps : Steps cfg p t now pc p' pc' spawned) (quiet : Quiet p)
    (knows : Knows p t pc) (alone : pc = .start → p.stopper = none) : Quiet p' := by
  have holds := knows.holds
  cases steps with
  | setApplied | published => exact { quiet with }
  | start free rests =>
    have none_ : p.stopper = none := alone rfl
    have idle : p.looping = none := quiet.idle rests none_
    have fresh : p.channels + 1 ∉ p.closed := by
      intro mem
      have := quiet.closed_lt _ mem
      omega
    exact
      { quiet with
        closed_lt := fun c mem => (quiet.closed_lt c mem).trans (Nat.lt_add_of_pos_right (by decide))
        done_lt := Nat.lt_succ_self _
        stop_lt := Nat.lt_add_of_pos_right (by decide)
        apart := Nat.ne_of_lt (Nat.lt_succ_self _)
        held := fun _ => ⟨rfl, idle, fresh⟩
        open_ := fun _ => fresh
        live := fun _ => .inl rfl
        running := fun _ => ⟨none_, rfl⟩
        ended := fun _ => idle }
  | begun fresh =>
    obtain ⟨on, _, done⟩ := quiet.held (ne_none_iff_exists'.mpr ⟨t, holds (by decide)⟩)
    exact
      { quiet with
        held := fun free => absurd rfl free
        counted := fun _ => some_ne_none fresh
        open_ := fun _ => done
        live := fun _ => .inl on
        ended := fun ended => by simp [(quiet.running on).2] at ended }
  | unbegun =>
    obtain ⟨on, idle, done⟩ := quiet.held (ne_none_iff_exists'.mpr ⟨t, holds (by decide)⟩)
    exact
      { quiet with
        held := fun free => absurd rfl free
        live := fun some_ => absurd idle some_
        running := fun on => by cases on }
  | finish =>
    refine { quiet with counted := fun some_ => quiet.counted fun none_ => some_ ?_ }
    simp [none_]
  | tick done stop fresh =>
    exact { quiet with counted := fun _ => ne_none_iff_exists'.mpr ⟨t, holds.1⟩ }
  | drained done none_ =>
    have looping : p.looping ≠ none := ne_none_iff_exists'.mpr ⟨t, holds.1⟩
    exact
      { quiet with
        closed_lt := forall_mem_cons.mpr ⟨holds.2 ▸ quiet.done_lt, quiet.closed_lt⟩
        held := fun held => absurd (quiet.held held).2.1 looping
        counted := fun some_ => absurd none_ some_
        open_ := fun some_ => absurd rfl some_
        live := fun some_ => absurd rfl some_
        ended := fun _ => rfl }
  | stop free running =>
    exact
      { quiet with
        closed_lt := forall_mem_cons.mpr ⟨quiet.stop_lt, quiet.closed_lt⟩
        held := fun held => absurd free held
        open_ := fun some_ mem => (mem_cons.mp mem).elim (fun same => quiet.apart same.symm)
          (quiet.open_ some_)
        live := fun _ => .inr (some_ne_none t)
        running := fun on => by cases on }
  | _ => exact quiet

theorem Steps.knows (steps : Steps cfg p t now pc p' pc' spawned) (quiet : Quiet p)
    (knows : Knows p t pc) : Knows p' t pc' := by
  obtain ⟨holds, stopper⟩ := knows
  cases steps with
  | call pc call => obtain rfl | rfl | rfl := call <;> exact ⟨trivial, stopper⟩
  | setApplied | begun | unbegun | finish | drained => exact ⟨trivial, stopper⟩
  | returns pc call =>
    refine ⟨trivial, fun own => ?_⟩
    obtain rfl | rfl | rfl | ⟨ok, rfl⟩ := call <;> exact stopper own
  | publishNow free running => exact ⟨(quiet.running running).2, stopper⟩
  | start free rests => exact ⟨rfl, stopper⟩
  | build | loop | signalled | skip | tick => exact ⟨holds, stopper⟩
  | marshalError caller => exact ⟨fun _ => holds, stopper⟩
  | published ok => exact ⟨holds (by decide), stopper⟩
  | loopStart => exact ⟨⟨holds, rfl⟩, stopper⟩
  | stop free running => exact ⟨rfl, fun _ => rfl⟩
  | stopping => exact ⟨⟨holds, rfl⟩, fun _ => rfl⟩
  | waited done closed => exact ⟨⟨holds.1, holds.2 ▸ closed⟩, fun _ => rfl⟩

structure Undisturbed (p p' : Publisher T) (u : T) : Prop where
  stopped : p.stopped = false → p'.stopped = false
  held : p.mu = some u → p'.mu = some u
  counted : u ∈ p.inFlightWG → u ∈ p'.inFlightWG
  looping : p.looping = some u → p'.looping = some u ∧ p'.doneCh = p.doneCh
  stopper : p.stopper = some u → p'.stopper = some u ∧ p'.doneCh = p.doneCh ∧
    (p.doneCh ∈ p.closed → p.doneCh ∈ p'.closed)
  entered : p'.stopper = some u → p.stopper = some u

omit [DecidableEq T] in
theorem Undisturbed.refl (p : Publisher T) (u : T) : Undisturbed p p u where
  stopped := id
  held := id
  counted := id
  looping := fun own => ⟨own, rfl⟩
  stopper := fun own => ⟨own, rfl, id⟩
  entered := id

omit [DecidableEq T] in
theorem Undisturbed.licensed (same : Undisturbed p p' u) {caller : Caller}
    (licensed : Licensed p u caller) : Licensed p' u caller := by
  cases caller with
  | now => exact same.stopped licensed
  | start => exact same.held licensed
  | loop => exact same.counted licensed

omit [DecidableEq T] in
theorem Undisturbed.knows (same : Undisturbed p p' u) (knows : Knows p u pc) : Knows p' u pc := by
  obtain ⟨holds, stopper⟩ := knows
  refine ⟨?_, fun own => stopper (same.entered own)⟩
  cases pc with
  | build | put => exact same.licensed holds
  | published caller ok => exact fun ne => same.licensed (holds ne)
  | finishing => exact same.counted holds
  | loopStart => exact (same.looping holds).1
  | loop | selecting | draining =>
    exact ⟨(same.looping holds.1).1, by rw [(same.looping holds.1).2, holds.2]⟩
  | stopping => exact (same.stopper holds).1
  | waiting done => exact ⟨(same.stopper holds.1).1, by rw [(same.stopper holds.1).2.1, holds.2]⟩
  | delete =>
    obtain ⟨own, done, kept⟩ := same.stopper holds.1
    exact ⟨own, by rw [done]; exact kept holds.2⟩
  | idle | publishNow | start | stop => trivial

theorem Steps.undisturbed (steps : Steps cfg p t now pc p' pc' spawned) (quiet : Quiet p)
    (knows : Knows p t pc) (alone : pc = .start → p.stopper = none) (other : u ≠ t) :
    Undisturbed p p' u := by
  have holds := knows.holds
  have same := Undisturbed.refl p u
  cases steps with
  | setApplied | published => exact { same with }
  | start free rests =>
    have none_ : p.stopper = none := alone rfl
    have idle : p.looping = none := quiet.idle rests none_
    exact
      { same with
        stopped := fun _ => rfl
        held := fun own => by simp [free] at own
        looping := fun own => by simp [idle] at own
        stopper := fun own => by simp [none_] at own }
  | begun fresh =>
    have held : p.mu = some t := holds (by decide)
    have idle : p.looping = none := (quiet.held (by simp [held])).2.1
    exact
      { same with
        held := fun own => absurd (some.inj (own.symm.trans held)) other
        looping := fun own => by simp [idle] at own }
  | unbegun =>
    have held : p.mu = some t := holds (by decide)
    exact { same with held := fun own => absurd (some.inj (own.symm.trans held)) other }
  | finish => exact { same with counted := fun mem => (mem_erase_of_ne other).mpr mem }
  | tick done stop fresh => exact { same with counted := fun mem => .tail _ mem }
  | drained done none_ =>
    exact
      { same with
        looping := fun own => absurd (some.inj (own.symm.trans holds.1)) other
        stopper := fun own => ⟨own, rfl, mem_cons_of_mem _⟩ }
  | stop free running =>
    exact
      { same with
        stopper := fun own => by simp [(quiet.running running).1] at own
        entered := fun own => absurd (some.inj own).symm other }
  | _ => exact same

theorem Steps.started (steps : Steps cfg p t now pc p' pc' spawned) {fresh : T} {first : Pc}
    (new : spawned = some (fresh, first)) (idle : Knows p fresh .idle) :
    Knows p' fresh first := by
  cases steps with
  | begun fresh =>
    cases new
    exact ⟨rfl, idle.stopper⟩
  | tick done stop fresh =>
    cases new
    exact ⟨.head _, idle.stopper⟩
  | _ => cases new

/-! ## The store's answers -/

omit [DecidableEq T] in
theorem Quiet.at_delete (quiet : Quiet p) (knows : Knows p t .delete) :
    p.started = false ∧ p.looping = none := by
  obtain ⟨own, closed⟩ := knows.holds
  refine ⟨Bool.eq_false_iff.mpr fun on => ?_, by_contra fun some_ => quiet.open_ some_ closed⟩
  rw [(quiet.running on).1] at own
  cases own

omit [DecidableEq T] in
theorem Quiet.leave (quiet : Quiet p) (knows : Knows p t .delete) (stopped : Bool) :
    Quiet { p with stopper := none, stopped := stopped } := by
  obtain ⟨rests, idle⟩ := quiet.at_delete knows
  exact
    { quiet with
      live := fun some_ => absurd idle some_
      running := fun on => by simp [rests] at on
      ended := fun _ => idle }

omit [DecidableEq T] in
theorem told_quiet (told : Heartbeat.told p pc answer = some (p', pc')) (quiet : Quiet p)
    (knows : Knows p t pc) : Quiet p' ∧ Knows p' t pc' := by
  unfold Heartbeat.told at told
  split at told
  · cases told
    exact ⟨quiet, fun _ => knows.holds, knows.stopper⟩
  · cases told
    exact ⟨quiet, fun _ => knows.holds, knows.stopper⟩
  · cases told
    exact ⟨quiet.leave knows true, trivial, nofun⟩
  · cases told
    exact ⟨quiet.leave knows p.stopped, trivial, nofun⟩
  · cases told

omit [DecidableEq T] in
theorem told_others (told : Heartbeat.told p pc answer = some (p', pc')) (knows : Knows p t pc)
    (other : u ≠ t) {at_ : Pc} (knows' : Knows p u at_)
    (alone : ∀ revision, pc = .delete → answer = .written revision → at_.isOutOfBand = false) :
    Knows p' u at_ := by
  have leave (at_delete : Knows p t .delete) : Undisturbed p { p with stopper := none } u :=
    { Undisturbed.refl p u with
      stopper := fun own => absurd (some.inj (own.symm.trans at_delete.holds.1)) other
      entered := fun own => by cases own }
  unfold Heartbeat.told at told
  split at told
  · cases told
    exact knows'
  · cases told
    exact knows'
  next revision =>
    cases told
    obtain ⟨holds, stopper⟩ := (leave knows).knows knows'
    refine ⟨?_, stopper⟩
    have out := alone revision rfl rfl
    cases at_ with
    | build caller | put caller _ =>
      cases caller with
      | now => cases out
      | start | loop => exact holds
    | published caller ok =>
      cases caller with
      | now => exact fun ne => absurd rfl ne
      | start | loop => exact holds
    | _ => exact holds
  · cases told
    exact (leave knows).knows knows'
  · cases told

/-! ## Every run -/

theorem no_stopper {input} {turn}
    (allowed : Unraced s (.call (t, input))) (knows : ∀ u, Knows s.locals.cells u (s.locals.pcs u))
    (moved : next cfg s.locals.cells t now (s.locals.pcs t) input = some turn)
    (begins : s.locals.pcs t = .start) : s.locals.cells.stopper = none := by
  cases input with
  | go =>
    refine eq_none_iff_forall_ne_some.mpr fun u own => ?_
    have inside := (knows u).stopper own
    rw [allowed begins u] at inside
    cases inside
  | _ =>
    rw [begins] at moved
    cases moved

theorem quiet_of_reachable (reached : Reachable (system T cfg) Unraced s) :
    (Quiet s.locals.cells ∧ ∀ write ∈ s.pending, write.op = .delete) ∧
      ∀ t, Knows s.locals.cells t (s.locals.pcs t) := by
  refine Reachable.routine (F := fun _ => True)
    (I := fun w => Quiet w.locals ∧ ∀ write ∈ w.pending, write.op = .delete)
    (N := fun w t pc => Knows w.locals t pc) (fun _ _ => trivial) ?_ ?_ ?_ reached
  · rintro ⟨bucket, pending, clock, p⟩ ⟨rfl, rfl, rfl⟩
    exact ⟨⟨.new, by simp⟩, fun t => ⟨trivial, nofun⟩⟩
  · intro s t a w' pc' spawned _ allowed inv knows does
    cases does with
    | next input turn moved =>
      have steps := next_steps moved
      have free := no_stopper allowed knows moved
      refine ⟨⟨steps.quiet inv.1 (knows t) free, inv.2⟩, steps.knows inv.1 (knows t),
        fun u other => (steps.undisturbed inv.1 (knows t) free other).knows (knows u),
        fun fresh pc new _ idle => steps.started new ?_⟩
      rw [← of_decide_eq_true idle]
      exact knows fresh
    | wrote _ _ _ _ _ told =>
      obtain ⟨quiet, own⟩ := told_quiet told inv.1 (knows t)
      exact ⟨⟨quiet, inv.2⟩, own, fun u other =>
        told_others told (knows t) other (knows u) fun _ at_ _ => allowed at_ u, nofun⟩
    | heard _ _ _ _ hears told =>
      obtain ⟨quiet, own⟩ := told_quiet told inv.1 (knows t)
      exact ⟨⟨quiet, inv.2⟩, own, fun u other => told_others told (knows t) other (knows u)
        fun _ _ written => absurd (written ▸ hears) Hears.not_written, nofun⟩
    | late write p pc' asked told =>
      obtain ⟨quiet, own⟩ := told_quiet told inv.1 (knows t)
      refine ⟨⟨quiet, forall_mem_cons.mpr ⟨?_, inv.2⟩⟩, own,
        fun u other => told_others told (knows t) other (knows u) nofun, nofun⟩
      obtain ⟨caller, hb, at_, rfl⟩ | ⟨_, rfl⟩ := asks_put asked
      · rw [Unraced, at_] at allowed
        cases allowed
      · rfl
  · intro s a w' _ _ inv knows passes
    cases passes with
    | tick elapsed => exact ⟨inv, knows⟩
    | land index write waiting accepted =>
      exact ⟨⟨inv.1, fun w mem => inv.2 w (mem_of_mem_eraseIdx mem)⟩, knows⟩

theorem stopped_stays_gone {s : State (Pool (Publisher T) Pc T) GoString Heartbeat}
    (reached : Reachable (system T cfg) Unraced s) (stopped : s.locals.cells.stopped = true)
    (a : Action T (T × Input T)) (hb : Heartbeat) :
    (publisher cfg).protocol.writes s a ≠ some (.put (keyForWorker cfg) hb) := by
  intro writes
  obtain ⟨⟨quiet, pending⟩, knows⟩ := quiet_of_reachable reached
  obtain ⟨_, ⟨t, asked⟩ | under_way⟩ := Protocol.writes_eq_some writes
  · obtain ⟨caller, _, at_, _⟩ | ⟨_, remove⟩ := asks_put asked
    · -- whoever is about to put has a licence that a stopped publisher does not give
      have licensed : Licensed s.locals.cells t caller := by
        have holds := (knows t).holds
        rwa [at_] at holds
      have idle := quiet.ended stopped
      cases caller with
      | now =>
        rw [licensed] at stopped
        cases stopped
      | start =>
        have on := (quiet.held (by rw [licensed]; exact some_ne_none t)).1
        rw [(quiet.running on).2] at stopped
        cases stopped
      | loop => exact quiet.counted (ne_nil_of_mem licensed) idle
    · cases remove
  · cases pending _ under_way

instance unracedDecidable [Fintype T] (s : State (Pool (Publisher T) Pc T) GoString Heartbeat) :
    ∀ a : Action T (T × Input T), Decidable (Unraced s a)
  | .step t .served => inferInstanceAs
      (Decidable (s.locals.pcs t = .delete → ∀ u, (s.locals.pcs u).isOutOfBand = false))
  | .step t .unanswered => inferInstanceAs (Decidable (s.locals.pcs t = .delete))
  | .call (t, .go) => inferInstanceAs
      (Decidable (s.locals.pcs t = .start → ∀ u, (s.locals.pcs u).isStopping = false))
  | .call (_, .publishNow) | .call (_, .start) | .call (_, .stop) | .call (_, .setApplied _)
  | .call (_, .build _) | .call (_, .marshalError) | .call (_, .spawn _) | .call (_, .tick _)
  | .step _ .failed | .land _ | .tick _ => isTrue trivial

/-- `Stop`, with the loop coming to its select and seeing the signal. -/
def stops {T : Type} (t loop : T) : List (Action T (T × Input T)) :=
  [.call (t, .stop), .call (t, .go), .call (t, .go), .call (loop, .go), .call (loop, .go),
    .call (loop, .go), .call (loop, .go), .call (t, .go), .step t .served]

theorem stopped_stays_gone_once :
    ∃ s, Reachable (system (Fin 2) plainConfig) Unraced s ∧ s.locals.cells.stopped = true ∧
      ∀ a hb, (publisher plainConfig).protocol.writes s a ≠
        some (.put (keyForWorker plainConfig) hb) :=
  exists_reachable_and (fresh_init plainConfig) (starts 0 1 ++ stops 0 1) (by decide)
    fun _ reached stopped => stopped_stays_gone reached stopped

/-- `PublishNow` has passed its check and built its value when `Stop` runs from its
beginning to its end. -/
def outOfBand {T : Type} (t u loop : T) : List (Action T (T × Input T)) :=
  starts t loop ++ builds u ++ stops t loop

theorem put_after_stop :
    ∃ s s', Reachable (system (Fin 3) plainConfig) Free s ∧ s.locals.cells.stopped = true ∧
      (system (Fin 3) plainConfig).step s (.step 1 .served) = some s' ∧
      s.bucket.get (keyForWorker plainConfig) = none ∧
      (s'.bucket.get (keyForWorker plainConfig)).isSome = true ∧
      ∃ hb, (publisher plainConfig).protocol.writes s (.step 1 .served) =
        some (.put (keyForWorker plainConfig) hb) := by
  obtain ⟨s, s', reached, taken, stopped, gone, back, at_⟩ := exists_reachable_step Free
    (fresh_init (T := Fin 3) plainConfig) (outOfBand 0 1 2) (.step 1 .served) (fun s s' =>
      s.locals.cells.stopped = true ∧ s.bucket.get (keyForWorker plainConfig) = none ∧
      (s'.bucket.get (keyForWorker plainConfig)).isSome = true ∧
      s.locals.pcs 1 = .put .now (build plainConfig .zero none 0)) (by decide)
  have asked : (publisher plainConfig).protocol.request s.locals 1 =
      some (.write (.put (keyForWorker plainConfig) (build plainConfig .zero none 0))) := by
    simp [Routine.protocol, publisher, at_, asks]
  refine ⟨s, s', reached, stopped, taken, gone, back, build plainConfig .zero none 0, ?_⟩
  simp only [Protocol.writes, asked]
  rfl

end Parti.Heartbeat
