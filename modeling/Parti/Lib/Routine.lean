/-
# Lib.Routine — goroutines over shared cells and a bucket

A `Routine` is the program of any number of goroutines. They share cells in memory
(`σ`) and a bucket, and each has a program counter (`π`). A counter waits for the
store (`asks`, `told`), or it takes the next step in memory (`next`) with what the
environment hands it. The store is the one of `Lib.Client`: a write may go unanswered
and arrive later.

* `Does`: all a goroutine can do in one step, as a relation between the world before
  it (the cells, the bucket, the writes under way, the clock) and after it;
* `Routine.step_moves`: a step of the system is that, the clock moving, or a write
  arriving;
* `Reachable.routine`: an invariant of the world and one of every goroutine;
* `Reachable.apart`: counters that two goroutines never stand at together.
-/
import Parti.Lib.Client
import Parti.Lib.Threads

namespace Parti.Lib

open Parti.Lib.Kv Parti.Lib.Client Option

/-- The program of the goroutines. -/
structure Routine (σ π ι T K V : Type) where
  idle : π → Bool
  asks : π → Option (Request K V)
  told : σ → T → Int → π → Answer K V → Option (σ × π)
  next : σ → T → Int → π → ι → Option (Turn σ π T)

variable {σ π ι T K V : Type} [DecidableEq T] [DecidableEq K]

/-- The steps in memory, at one instant. -/
def Routine.program (R : Routine σ π ι T K V) (now : Int) : Program σ π ι T where
  idle := R.idle
  next := fun cells t pc input => R.next cells t now pc input

def Routine.protocol (R : Routine σ π ι T K V) : Protocol (Pool σ π T) T (T × ι) K V where
  request s t := R.asks (s.pcs t)
  resume s t now answer := (R.told s.cells t now (s.pcs t) answer).map fun told =>
    ⟨told.1, Function.update s.pcs t told.2⟩
  call s event now := (R.program now).step s event

/-- A state without the program counters. -/
def world (s : State (Pool σ π T) K V) : State σ K V :=
  ⟨s.bucket, s.pending, s.clock, s.locals.cells⟩

/-- All interleavings, from the given worlds with every goroutine at `rest`. -/
def Routine.system (R : Routine σ π ι T K V) (init : State σ K V → Prop) (rest : π) :
    System (State (Pool σ π T) K V) (Action T (T × ι)) :=
  R.protocol.system fun s => init (world s) ∧ ∀ t, s.locals.pcs t = rest

/-- What goroutine `t` at `pc` can be told without the bucket changing. -/
inductive Hears (R : Routine σ π ι T K V) (w : State σ K V) (t : T) (pc : π) :
    Action T (T × ι) → Answer K V → Prop
  | refused (write) (asked : R.asks pc = some (.write write))
      (rejected : w.bucket.accepts write = false) : Hears R w t pc (.step t .served) .conflict
  | read (k) (asked : R.asks pc = some (.read k)) :
      Hears R w t pc (.step t .served) (.entry (w.bucket.get k))
  | listed (asked : R.asks pc = some .keys) : Hears R w t pc (.step t .served) (.keys w.bucket.keys)
  | failed (request) (asked : R.asks pc = some request) : Hears R w t pc (.step t .failed) .failed

/-- What goroutine `t` at `pc` can do in one step: the action, the world after it,
where it then stands, and the goroutine it has started. -/
inductive Does (R : Routine σ π ι T K V) (w : State σ K V) (t : T) (pc : π) :
    Action T (T × ι) → State σ K V → π → Option (T × π) → Prop
  | next (input : ι) (turn) (moved : R.next w.locals t w.clock pc input = some turn) :
      Does R w t pc (.call (t, input)) { w with locals := turn.cells } turn.pc turn.spawned
  | wrote (write) (cells : σ) (pc' : π) (asked : R.asks pc = some (.write write))
      (accepted : w.bucket.accepts write = true)
      (told : R.told w.locals t w.clock pc (.written (w.bucket.seq + 1)) = some (cells, pc')) :
      Does R w t pc (.step t .served)
        { w with bucket := w.bucket.append write.key write.op w.clock, locals := cells } pc' none
  | heard (a answer) (cells : σ) (pc' : π) (hears : Hears R w t pc a answer)
      (told : R.told w.locals t w.clock pc answer = some (cells, pc')) :
      Does R w t pc a { w with locals := cells } pc' none
  | late (write) (cells : σ) (pc' : π) (asked : R.asks pc = some (.write write))
      (told : R.told w.locals t w.clock pc .failed = some (cells, pc')) :
      Does R w t pc (.step t .unanswered)
        { w with pending := write :: w.pending, locals := cells } pc' none

/-- What happens of itself. -/
inductive Passes (w : State σ K V) : Action T (T × ι) → State σ K V → Prop
  | tick (elapsed) : Passes w (.tick elapsed) { w with clock := w.clock + elapsed }
  | land (index write) (waiting : w.pending[index]? = some write)
      (accepted : w.bucket.accepts write = true) :
      Passes w (.land index) { w with bucket := w.bucket.append write.key write.op w.clock,
                                      pending := w.pending.eraseIdx index }

/-- The state after a goroutine's step. -/
def settle (s : State (Pool σ π T) K V) (t : T) (w' : State σ K V) (pc' : π)
    (spawned : Option (T × π)) : State (Pool σ π T) K V :=
  ⟨w'.bucket, w'.pending, w'.clock, (Turn.mk w'.locals pc' spawned).pool s.locals.pcs t⟩

/-- What a step can do. -/
inductive Routine.Moves (R : Routine σ π ι T K V) (s : State (Pool σ π T) K V) :
    Action T (T × ι) → State (Pool σ π T) K V → Prop
  | does (t a w') (pc' : π) (spawned) (does : Does R (world s) t (s.locals.pcs t) a w' pc' spawned)
      (fits : (R.program s.clock).fits s.locals.pcs t ⟨w'.locals, pc', spawned⟩ = true) :
      Routine.Moves R s a (settle s t w' pc' spawned)
  | passes (a w') (passes : Passes (world s) a w') :
      Routine.Moves R s a ⟨w'.bucket, w'.pending, w'.clock, ⟨w'.locals, s.locals.pcs⟩⟩

variable {R : Routine σ π ι T K V} {s s' : State (Pool σ π T) K V} {a : Action T (T × ι)}
  {w' w : State σ K V} {init : State σ K V → Prop}
  {ok : State (Pool σ π T) K V → Action T (T × ι) → Prop} {rest pc : π} {t : T}

theorem Routine.step_moves (taken : R.protocol.step s a = some s') : R.Moves s a s' := by
  -- the store's side comes from `Move`; each case then only names what was told
  cases Protocol.step_move taken with
  | tick elapsed => exact .passes _ _ (.tick elapsed)
  | land index write waiting accepted =>
    exact .passes _ _ (.land (w := world s) index write waiting accepted)
  | call event pool moved =>
    obtain ⟨t, input⟩ := event
    obtain ⟨turn, next, fits, rfl⟩ := Program.step_eq_some.mp moved
    exact .does t _ { world s with locals := turn.cells } turn.pc turn.spawned
      (.next input turn next) fits
  | wrote t write pool asked accepted moved =>
    obtain ⟨⟨cells, pc'⟩, told, rfl⟩ := map_eq_some_iff.mp moved
    exact .does t _ _ pc' none (.wrote write cells pc' asked accepted told) rfl
  | refused t write pool asked rejected moved =>
    obtain ⟨⟨cells, pc'⟩, told, rfl⟩ := map_eq_some_iff.mp moved
    exact .does t _ _ pc' none (.heard _ _ cells pc' (.refused write asked rejected) told) rfl
  | read t k pool asked moved =>
    obtain ⟨⟨cells, pc'⟩, told, rfl⟩ := map_eq_some_iff.mp moved
    exact .does t _ _ pc' none (.heard _ _ cells pc' (.read k asked) told) rfl
  | listed t pool asked moved =>
    obtain ⟨⟨cells, pc'⟩, told, rfl⟩ := map_eq_some_iff.mp moved
    exact .does t _ _ pc' none (.heard _ _ cells pc' (.listed asked) told) rfl
  | failed t request pool asked moved =>
    obtain ⟨⟨cells, pc'⟩, told, rfl⟩ := map_eq_some_iff.mp moved
    exact .does t _ _ pc' none (.heard _ _ cells pc' (.failed request asked) told) rfl
  | late t write pool asked moved =>
    obtain ⟨⟨cells, pc'⟩, told, rfl⟩ := map_eq_some_iff.mp moved
    exact .does t _ _ pc' none (.late write cells pc' asked told) rfl

omit [DecidableEq K] in
@[simp] theorem world_settle (s : State (Pool σ π T) K V) (t : T) (w' : State σ K V) (pc' : π)
    (spawned : Option (T × π)) : world (settle s t w' pc' spawned) = w' := by
  simp [world, settle]

omit [DecidableEq K] in
@[simp] theorem settle_pcs (s : State (Pool σ π T) K V) (t : T) (w' : State σ K V) (pc' : π) :
    (settle s t w' pc' none).locals.pcs = Function.update s.locals.pcs t pc' := rfl

omit [DecidableEq T] in
theorem Hears.not_written {revision : Nat} : ¬Hears R w t pc a (.written revision) := by
  generalize told : Answer.written revision = answer
  intro hears
  cases hears <;> cases told

omit [DecidableEq T] in
theorem Hears.entry {live} (hears : Hears R w t pc a (.entry live)) :
    ∃ k, R.asks pc = some (.read k) ∧ w.bucket.get k = live := by
  generalize told : Answer.entry live = answer at hears
  cases hears with
  | read k asked => exact ⟨k, asked, by simpa using told.symm⟩
  | _ => cases told

omit [DecidableEq T] in
theorem Does.logged {pc' : π} {spawned} (does : Does R w t pc a w' pc' spawned) :
    ∀ r ∈ w.bucket.log, r ∈ w'.bucket.log := by
  cases does with
  | wrote write cells pc' asked accepted told => exact fun r mem => .tail _ mem
  | _ => exact fun _ => id

omit [DecidableEq T] in
theorem Passes.logged (passes : Passes w a w') : ∀ r ∈ w.bucket.log, r ∈ w'.bucket.log := by
  cases passes with
  | tick elapsed => exact fun _ => id
  | land index write waiting accepted => exact fun r mem => .tail _ mem

/-! ## What each goroutine knows -/

/-- **Local invariants.** -/
theorem Reachable.routine {F : State (Pool σ π T) K V → Prop} {I : State σ K V → Prop}
    {N : State σ K V → T → π → Prop} (known : ∀ s, Reachable (R.system init rest) ok s → F s)
    (start : ∀ w, init w → I w ∧ ∀ t, N w t rest)
    (moves : ∀ s t a w' pc' spawned, F s → ok s a → I (world s) →
      (∀ u, N (world s) u (s.locals.pcs u)) →
      Does R (world s) t (s.locals.pcs t) a w' pc' spawned →
      I w' ∧ N w' t pc' ∧ (∀ u, u ≠ t → N w' u (s.locals.pcs u)) ∧
        ∀ fresh pc, spawned = some (fresh, pc) → fresh ≠ t →
          R.idle (s.locals.pcs fresh) = true → N w' fresh pc)
    (passing : ∀ s a w', F s → ok s a → I (world s) → (∀ u, N (world s) u (s.locals.pcs u)) →
      Passes (world s) a w' → I w' ∧ ∀ t, N w' t (s.locals.pcs t))
    (reached : Reachable (R.system init rest) ok s) :
    I (world s) ∧ ∀ t, N (world s) t (s.locals.pcs t) := by
  refine Reachable.invariant_with
    (I := fun s => I (world s) ∧ ∀ t, N (world s) t (s.locals.pcs t)) known ?_ ?_ reached
  · intro s starts
    obtain ⟨inv, knows⟩ := start (world s) starts.1
    exact ⟨inv, fun t => by rw [starts.2 t]; exact knows t⟩
  · intro s a s' facts holds allowed taken
    obtain ⟨inv, knows⟩ := holds
    cases Routine.step_moves taken with
    | passes _ w' passes => exact passing s a w' facts allowed inv knows passes
    | does t _ w' pc' spawned does fits =>
      obtain ⟨inv', own, others, started⟩ := moves s t a w' pc' spawned facts allowed inv knows does
      rw [world_settle]
      refine ⟨inv', fun u => ?_⟩
      show N w' u (((Turn.mk w'.locals pc' spawned).pool s.locals.pcs t).pcs u)
      obtain ⟨rfl, at_⟩ | ⟨new, idle, spawned_⟩ | ⟨other, at_⟩ := Turn.pool_pcs fits u
      · rw [at_]
        exact own
      · exact started u _ spawned_ new idle
      · rw [at_]
        exact others u other

/-- **Exclusion.** -/
theorem Reachable.apart {C : π → π → Prop} (symm : ∀ x y, C x y → C y x) (outside : ∀ x, ¬C rest x)
    (enters : ∀ s t a w' pc' spawned, ok s a →
      Does R (world s) t (s.locals.pcs t) a w' pc' spawned →
      (∀ u, u ≠ t → C pc' (s.locals.pcs u) → C (s.locals.pcs t) (s.locals.pcs u)) ∧
        ∀ fresh pc, spawned = some (fresh, pc) → ∀ x, ¬C pc x)
    (reached : Reachable (R.system init rest) ok s) :
    ∀ t u, t ≠ u → ¬C (s.locals.pcs t) (s.locals.pcs u) := by
  refine Reachable.invariant (I := fun s => ∀ t u, t ≠ u → ¬C (s.locals.pcs t) (s.locals.pcs u))
    ?_ ?_ reached
  · intro s starts t u _
    rw [starts.2 t]
    exact outside _
  · intro s a s' apart allowed taken
    cases Routine.step_moves taken with
    | passes _ w' _ => exact apart
    | does t _ w' pc' spawned does fits =>
      obtain ⟨entered, out⟩ := enters s t a w' pc' spawned allowed does
      have mover : ∀ u, u ≠ t →
          ¬C pc' (((Turn.mk w'.locals pc' spawned).pool s.locals.pcs t).pcs u) := by
        intro u other clash
        obtain ⟨same, _⟩ | ⟨_, _, new⟩ | ⟨_, at_⟩ := Turn.pool_pcs fits u
        · exact other same
        · exact out u _ new _ (symm _ _ clash)
        · rw [at_] at clash
          exact apart t u (Ne.symm other) (entered u other clash)
      intro u v ne clash
      change C (((Turn.mk w'.locals pc' spawned).pool s.locals.pcs t).pcs u)
        (((Turn.mk w'.locals pc' spawned).pool s.locals.pcs t).pcs v) at clash
      obtain ⟨rfl, atU⟩ | ⟨_, _, new⟩ | ⟨otherU, atU⟩ := Turn.pool_pcs fits u
      · rw [atU] at clash
        exact mover v (Ne.symm ne) clash
      · exact out u _ new _ clash
      · obtain ⟨rfl, atV⟩ | ⟨_, _, new⟩ | ⟨_, atV⟩ := Turn.pool_pcs fits v
        · rw [atV] at clash
          exact mover u otherU (symm _ _ clash)
        · exact out v _ new _ (symm _ _ clash)
        · rw [atU, atV] at clash
          exact apart u v ne clash

end Parti.Lib
