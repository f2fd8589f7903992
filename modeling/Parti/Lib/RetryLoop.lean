/-
# Lib.RetryLoop — a worker goroutine that is started when there is work

One slot for a pending item and one flag that says whether a goroutine is
looking after it. A producer puts its item into the slot and then tries to turn
the flag on; whoever turns it on starts the loop. When the loop finds the slot empty,
it turns the flag off, looks into the slot once more, and tries to turn the flag on
again if an item came in between. None of these steps is atomic with the next.

`Duty` is all the argument needs to know of a goroutine: whether it `holds` the
flag (it runs the body, or is about to turn the flag off), and whether it is
`due` to try the flag before it is done. `Retry.Moves` says what one of them may do.

* `Served.moves`, `Served.spawns`: every such move keeps the invariant `Served`;
* `Served.active`: when nobody is due, a pending item has an active loop;
* `Served.one`: at most one goroutine holds the flag;
* `Attends.served`: the invariant in every reachable pool of a program whose steps
  are such moves.
-/
import Parti.Lib.Threads

namespace Parti.Lib

open Function

/-- The slot and the flag. -/
structure Retry (α : Type) where
  stash : Option α
  active : Bool

/-- Where a loop goroutine stands between two items: waiting to take one,
looking whether another came in, and the three steps of its exit. -/
inductive Loop where
  | wait
  | check
  | leave
  | recheck
  | rewake
deriving DecidableEq

/-- What a loop goroutine does next. -/
inductive LoopNext (α : Type) where
  | goto (loop : Loop)
  | work (item : α)
  | spawn
  | done

section Operations

variable {α : Type}

/-- Try to turn the flag on; says whether it was off. -/
def Retry.activate (r : Retry α) : Retry α × Bool := ({ r with active := true }, !r.active)

def Loop.turn (r : Retry α) : Loop → Retry α × LoopNext α
  | .wait =>
    ({ r with stash := none },
      match r.stash with
      | none => .goto .leave
      | some item => .work item)
  | .check => (r, if r.stash.isSome then .goto .wait else .goto .leave)
  | .leave => ({ r with active := false }, .goto .recheck)
  | .recheck => (r, if r.stash.isSome then .goto .rewake else .done)
  | .rewake => (r.activate.1, if r.activate.2 then .spawn else .done)

end Operations

/-! ## Who looks after the slot -/

/-- What a goroutine owes to the slot. -/
structure Duty where
  holds : Bool
  due : Bool

/-- A goroutine that has nothing to do with the slot. -/
def Duty.free : Duty := ⟨false, false⟩

/-- A loop goroutine in its body. -/
def Duty.body : Duty := ⟨true, false⟩

/-- Where a loop goroutine stands, as a duty. -/
def Loop.duty : Loop → Duty
  | .wait | .check | .leave => .body
  | .recheck | .rewake => ⟨false, true⟩

structure Served {α T : Type} (r : Retry α) (duty : T → Duty) : Prop where
  one : ∀ t u, (duty t).holds = true → (duty u).holds = true → t = u
  held : r.active = true ↔ ∃ t, (duty t).holds = true
  awake : r.stash.isSome = true → r.active = true ∨ ∃ t, (duty t).due = true

/-- A goroutine with duty `d` takes a step and has duty `d'` afterwards. The
last index says whether it started a loop. -/
inductive Retry.Moves {α : Type} (r : Retry α) (d : Duty) : Retry α → Duty → Bool → Prop
  /-- Nothing about the slot. -/
  | keep {d'} (same : d'.holds = d.holds) (due : d.due = true → d'.due = true) :
      Retry.Moves r d r d' false
  /-- Something was put into the slot, by the loop itself or by one who is now due. -/
  | put {d' stash} (same : d'.holds = d.holds) (served : d'.holds = true ∨ d'.due = true) :
      Retry.Moves r d { r with stash := stash } d' false
  /-- The slot was emptied. -/
  | take {d'} (same : d'.holds = d.holds) : Retry.Moves r d { r with stash := none } d' false
  /-- The flag was tried. -/
  | wake {d'} (same : d'.holds = d.holds) : Retry.Moves r d r.activate.1 d' r.activate.2
  /-- The holder turned the flag off. -/
  | leave {d'} (held : d.holds = true) (gone : d'.holds = false) (due : d'.due = true) :
      Retry.Moves r d { r with active := false } d' false
  /-- The slot was found empty. -/
  | quit {d'} (empty : r.stash = none) (same : d'.holds = d.holds) : Retry.Moves r d r d' false

section Rules

variable {α T : Type} [DecidableEq T] {r r' : Retry α} {duty : T → Duty} {t : T} {d' : Duty}

theorem update_holds (same : d'.holds = (duty t).holds) (u : T) :
    (Function.update duty t d' u).holds = (duty u).holds := by
  by_cases mover : u = t
  · subst mover
    rw [update_self, same]
  · rw [update_of_ne mover]

omit [DecidableEq T] in
theorem Served.same_holders {duty'} (served : Served r duty)
    (same : ∀ u, (duty' u).holds = (duty u).holds) (active : r'.active = r.active)
    (awake : r'.stash.isSome = true → r'.active = true ∨ ∃ u, (duty' u).due = true) :
    Served r' duty' := by
  refine ⟨fun t u => ?_, ?_, awake⟩
  · rw [same t, same u]
    exact served.one t u
  · rw [active, served.held]
    exact exists_congr fun u => by rw [same u]

theorem due_update {u : T} (due : (duty u).due = true) (kept : (duty t).due = true → d'.due = true) :
    ∃ v, (Function.update duty t d' v).due = true := by
  refine ⟨u, ?_⟩
  by_cases mover : u = t
  · subst mover
    rw [update_self]
    exact kept due
  · rwa [update_of_ne mover]

theorem Served.moves (served : Served r duty) (moved : r.Moves (duty t) r' d' false) :
    Served r' (Function.update duty t d') := by
  generalize at_ : duty t = d at moved
  generalize quiet : false = spawned at moved
  cases moved with
  | keep same due =>
    refine served.same_holders (update_holds (by rw [same, at_])) rfl fun pending => ?_
    obtain active | ⟨u, due_u⟩ := served.awake pending
    · exact .inl active
    · exact .inr (due_update due_u (by rw [at_]; exact due))
  | put same served' =>
    refine served.same_holders (update_holds (by rw [same, at_])) rfl fun _ => ?_
    obtain holds | due := served'
    · exact .inl (served.held.mpr ⟨t, by rw [at_, ← same]; exact holds⟩)
    · exact .inr ⟨t, by rw [update_self]; exact due⟩
  | take same =>
    refine served.same_holders (update_holds (by rw [same, at_])) rfl fun pending => ?_
    cases pending
  | wake same =>
    -- the flag was already on, or a loop would have been started
    have active : r.active = true := by
      simpa [Retry.activate] using quiet.symm
    have same_flag : r.activate.1.active = r.active := by rw [active]; rfl
    exact served.same_holders (update_holds (by rw [same, at_])) same_flag fun _ => .inl rfl
  | leave held gone due =>
    have alone : ∀ u, (Function.update duty t d' u).holds = false := by
      intro u
      by_cases mover : u = t
      · subst mover
        rw [update_self]
        exact gone
      · rw [update_of_ne mover]
        cases holds : (duty u).holds with
        | false => rfl
        | true => exact absurd (served.one u t holds (by rw [at_]; exact held)) mover
    refine ⟨fun u v holds => ?_, ⟨nofun, fun ⟨u, holds⟩ => ?_⟩, fun _ => ?_⟩
    · rw [alone u] at holds
      cases holds
    · rw [alone u] at holds
      cases holds
    · exact .inr ⟨t, by rw [update_self]; exact due⟩
  | quit empty same =>
    refine served.same_holders (update_holds (by rw [same, at_])) rfl fun pending => ?_
    rw [empty] at pending
    cases pending

theorem Served.spawns (served : Served r duty) (moved : r.Moves (duty t) r' d' true) {fresh : T} :
    Served r' (Function.update (Function.update duty t d') fresh .body) := by
  generalize at_ : duty t = d at moved
  generalize started : true = spawned at moved
  cases moved with
  | wake same =>
    have inactive : r.active = false := by
      simpa [Retry.activate] using started.symm
    have nobody : ∀ u, (duty u).holds = false := by
      intro u
      cases holds : (duty u).holds with
      | false => rfl
      | true =>
        have active := served.held.mpr ⟨u, holds⟩
        rw [inactive] at active
        cases active
    have only : ∀ u, (Function.update (Function.update duty t d') fresh .body u).holds = true →
        u = fresh := by
      intro u holds
      by_cases new : u = fresh
      · exact new
      · rw [update_of_ne new, update_holds (by rw [same, at_]), nobody u] at holds
        cases holds
    refine ⟨fun u v at_u at_v => (only u at_u).trans (only v at_v).symm,
      ⟨fun _ => ⟨fresh, by rw [update_self]; rfl⟩, fun _ => rfl⟩, fun _ => .inl rfl⟩
  | _ => cases started

omit [DecidableEq T] in
/-- **No lost wake-up.** -/
theorem Served.active (served : Served r duty) (quiet : ∀ u, (duty u).due = false)
    (pending : r.stash.isSome = true) : r.active = true ∧ ∃ u, (duty u).holds = true := by
  obtain active | ⟨u, due⟩ := served.awake pending
  · exact ⟨active, served.held.mp active⟩
  · rw [quiet u] at due
    cases due

end Rules

/-! ## In a pool of goroutines -/

/-- Every step of the program is a move on the slot it keeps in `slot`, by a
goroutine whose duty is read off its counter; a loop starts in its body. -/
structure Attends {σ π ι T α : Type} (P : Program σ π ι T) (slot : σ → Retry α) (duty : π → Duty) :
    Prop where
  idle : ∀ pc, P.idle pc = true → duty pc = .free
  moves : ∀ cells t pc input turn, P.next cells t pc input = some turn →
    ∃ started, (slot cells).Moves (duty pc) (slot turn.cells) (duty turn.pc) started ∧
      (started = true → ∃ fresh start, turn.spawned = some (fresh, start) ∧ duty start = .body) ∧
      (started = false → ∀ fresh start, turn.spawned = some (fresh, start) → duty start = .free)

variable {σ π ι T α : Type} [DecidableEq T] {P : Program σ π ι T} {slot : σ → Retry α}
  {duty : π → Duty} {pcs : T → π} {t : T} {turn : Turn σ π T}

theorem duty_pool (idle : ∀ pc, P.idle pc = true → duty pc = .free) (fits : P.fits pcs t turn = true)
    (quiet : ∀ fresh start, turn.spawned = some (fresh, start) → duty start = .free) :
    (fun u => duty ((turn.pool pcs t).pcs u)) =
      Function.update (fun u => duty (pcs u)) t (duty turn.pc) := by
  funext u
  obtain ⟨rfl, at_⟩ | ⟨other, rests, spawned⟩ | ⟨other, at_⟩ := Turn.pool_pcs fits u
  · rw [at_, update_self]
  · rw [update_of_ne other, quiet _ _ spawned, idle _ rests]
  · rw [at_, update_of_ne other]

theorem duty_pool_spawned (fits : P.fits pcs t turn = true) {fresh : T} {start : π}
    (spawned : turn.spawned = some (fresh, start)) :
    (fun u => duty ((turn.pool pcs t).pcs u)) =
      Function.update (Function.update (fun u => duty (pcs u)) t (duty turn.pc)) fresh
        (duty start) := by
  funext u
  obtain ⟨rfl, at_⟩ | ⟨other, _, started⟩ | ⟨other, at_⟩ := Turn.pool_pcs fits u
  · have apart : u ≠ fresh := by
      intro same
      simp [Program.fits, spawned, same] at fits
    rw [at_, update_of_ne apart, update_self]
  · rw [spawned] at started
    obtain ⟨rfl, same⟩ := Prod.mk.inj (Option.some.inj started)
    rw [update_self, ← same]
  · by_cases new : u = fresh
    · subst new
      rw [update_self]
      simp [Turn.pool, spawned]
    · rw [at_, update_of_ne new, update_of_ne other]

/-- **The slot is looked after in every run.** -/
theorem Attends.served (attends : Attends P slot duty) {init} {rest : π}
    {ok} (rests : P.idle rest = true) (empty : ∀ cells, init cells → slot cells = ⟨none, false⟩)
    {s} (reached : Reachable (P.system init rest) ok s) :
    Served (slot s.cells) fun u => duty (s.pcs u) := by
  refine Reachable.invariant (I := fun s => Served (slot s.cells) fun u => duty (s.pcs u)) ?_ ?_
    reached
  · rintro s ⟨starts, all⟩
    have free : ∀ u, duty (s.pcs u) = .free := by
      intro u
      rw [all u]
      exact attends.idle rest rests
    rw [empty _ starts]
    refine ⟨?_, ⟨nofun, ?_⟩, nofun⟩
    · intro u v holds
      rw [free u] at holds
      cases holds
    · rintro ⟨u, holds⟩
      rw [free u] at holds
      cases holds
  · rintro s ⟨t, input⟩ s' served _ taken
    obtain ⟨turn, moved, fits, rfl⟩ := Program.step_eq_some.mp taken
    obtain ⟨started, moves, body, quiet⟩ := attends.moves _ _ _ _ _ moved
    rw [Turn.pool_cells]
    cases started with
    | false =>
      have moves_t : (slot s.cells).Moves ((fun u => duty (s.pcs u)) t) _ _ false := moves
      rw [duty_pool attends.idle fits (quiet rfl)]
      exact served.moves moves_t
    | true =>
      obtain ⟨fresh, start, spawned, in_body⟩ := body rfl
      have moves_t : (slot s.cells).Moves ((fun u => duty (s.pcs u)) t) _ _ true := moves
      rw [duty_pool_spawned fits spawned, in_body]
      exact served.spawns moves_t

end Parti.Lib
