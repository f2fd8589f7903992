/-
# Manager.DegradeRequests — what a request to degrade sees

`enterDegraded` and `exitDegraded` alone, on any number of goroutines, from a manager at
rest. A request that publishes its record gets to degraded mode by its first swap
(`Undisturbed`). A request that finds the record published returns at once, and trusts it
to mean degraded mode. It does not while an exit has moved the state and not yet cleared the
record, or while another request has published its record and not yet moved the state.

* `request_sees_degraded`: if no request finds the record in such hands, every request
  made in a state that can be degraded sees degraded mode before it returns.
* `request_swallowed`: the run of an exit with a request between its two steps.
-/
import Mathlib.Data.Fintype.Basic
import Parti.Manager.Degraded

namespace Parti.Manager

open Lib Function List

/-! ## The two calls -/

inductive DegradeRequest where
  | enter (record : DegradedRecord)
  | exit
  | go
deriving DecidableEq

def DegradeRequest.call : DegradeRequest → Call
  | .enter record => .enterDegraded record
  | .exit => .exitDegraded
  | .go => .go

def LifePc.requests : LifePc → Bool
  | .idle | .enterState _ | .enterClaim _ | .transition .enter _ | .swap .enter _ _ => true
  | .enterRollback | .exitLoad | .exitSwap | .exitClear => true
  | _ => false

/-- Inside `enterDegraded`. -/
def LifePc.entering : LifePc → Bool
  | .enterState _ | .enterClaim _ | .transition .enter _ | .swap .enter _ _ | .enterRollback => true
  | _ => false

def LifePc.claims : LifePc → Bool
  | .enterClaim _ => true
  | _ => false

def Life.AtRest (life : Life) : Prop := life.state = .degraded ↔ life.degraded ≠ none

def State.Degradable (state : State) : Prop :=
  state = .degraded ∨ isValidTransition state .degraded = true

instance (state : State) : Decidable state.Degradable := inferInstanceAs (Decidable (_ ∨ _))

section System

variable (T : Type) [DecidableEq T]

def requestProgram : Program Life LifePc DegradeRequest T :=
  ⟨fun pc => decide (pc = .idle), fun life _ pc request => pc.next life request.call⟩

def requests : System (Pool Life LifePc T) (T × DegradeRequest) :=
  (requestProgram T).system Life.AtRest .idle

def watchedRequests : System (Watched (Pool Life LifePc T) T State) (T × DegradeRequest) :=
  (requests T).watch (fun s t => (s.pcs t).entering) fun s => s.cells.state

variable {T} in
/-- A request that finds the record published finds nobody between its two steps. -/
def Unowned (s : Pool Life LifePc T) (event : T × DegradeRequest) : Prop :=
  (s.pcs event.1).claims = true → s.cells.degraded ≠ none → ∀ u, (s.pcs u).owns = false

instance unownedDecidable [Fintype T] (s : Pool Life LifePc T) (event : T × DegradeRequest) :
    Decidable (Unowned s event) :=
  inferInstanceAs (Decidable (_ → _ → ∀ _, _))

end System

/-! ## One step -/

section Steps

variable {life life' : Life} {pc pc' : LifePc}

variable (life : Life) in
inductive RequestStep : LifePc → Life → LifePc → Prop
  | enter {record} : RequestStep .idle life (.enterState record)
  | exit : RequestStep .idle life .exitLoad
  | down {record} (shut : life.state = .shutdown) : RequestStep (.enterState record) life .idle
  | claims {record} : RequestStep (.enterState record) life (.enterClaim record)
  | claimed {record} (free : life.degraded = none) :
      RequestStep (.enterClaim record) { life with degraded := some record } (.transition .enter 0)
  | found {record} (present : life.degraded ≠ none) : RequestStep (.enterClaim record) life .idle
  | arrived {tries} (there : life.state = .degraded) :
      RequestStep (.transition .enter tries) life .idle
  | loaded {tries} (valid : isValidTransition life.state .degraded = true) :
      RequestStep (.transition .enter tries) life (.swap .enter life.state tries)
  | refused {tries} (off : ¬life.state.Degradable) :
      RequestStep (.transition .enter tries) life .enterRollback
  | swapped {tries} :
      RequestStep (.swap .enter life.state tries) { life with state := .degraded } .idle
  | missed {seen tries} {pc' : LifePc} (moved : life.state ≠ seen)
      (later : pc'.requests = true) : RequestStep (.swap .enter seen tries) life pc'
  | rolledBack : RequestStep .enterRollback { life with degraded := none } .idle
  | exits : RequestStep .exitLoad life .exitSwap
  | exited (degraded : life.state = .degraded) :
      RequestStep .exitSwap { life with state := .stable } .exitClear
  | cleared : RequestStep .exitClear { life with degraded := none } .idle
  | exitNothing {pc : LifePc} (quiet : pc.entering = false) : RequestStep pc life .idle

theorem requestStep_of_next {T : Type} {request : DegradeRequest} {turn : Turn Life LifePc T}
    (ours : pc.requests = true) (moved : pc.next life request.call = some turn) :
    RequestStep life pc turn.cells turn.pc ∧ turn.pc.requests = true := by
  cases pc with
  | idle =>
    cases request with
    | enter record => cases moved; exact ⟨.enter, rfl⟩
    | exit => cases moved; exact ⟨.exit, rfl⟩
    | go => cases moved
  | enterState record =>
    exact some_ite moved (fun shut => ⟨.down shut, rfl⟩) fun _ => ⟨.claims, rfl⟩
  | enterClaim record =>
    exact some_ite moved (fun free => ⟨.claimed free, rfl⟩) fun present => ⟨.found present, rfl⟩
  | transition site tries =>
    cases site with
    | enter =>
      simp only [LifePc.next] at moved
      split at moved
      next there => cases moved; exact ⟨.arrived there, rfl⟩
      next other =>
        split at moved
        next valid => cases moved; exact ⟨.loaded valid, rfl⟩
        next invalid =>
          cases moved
          exact ⟨.refused fun able => able.elim other invalid, rfl⟩
    | _ => cases ours
  | swap site seen tries =>
    cases site with
    | enter =>
      simp only [LifePc.next] at moved
      split at moved
      next same => subst same; cases moved; exact ⟨.swapped, rfl⟩
      next other =>
        split at moved
        next => cases moved; exact ⟨.missed other rfl, rfl⟩
        next => cases moved; exact ⟨.missed other rfl, rfl⟩
    | _ => cases ours
  | enterRollback => cases moved; exact ⟨.rolledBack, rfl⟩
  | exitLoad => exact some_ite moved (fun _ => ⟨.exitNothing rfl, rfl⟩) fun _ => ⟨.exits, rfl⟩
  | exitSwap =>
    exact some_ite moved (fun degraded => ⟨.exited degraded, rfl⟩) fun _ => ⟨.exitNothing rfl, rfl⟩
  | exitClear => cases moved; exact ⟨.cleared, rfl⟩
  | _ => cases ours

theorem RequestStep.degradable (step : RequestStep life pc life' pc') (sound : pc.sound) :
    life'.state.Degradable ↔ life.state.Degradable := by
  cases step with
  | swapped => exact iff_of_true (.inl rfl) (.inr sound.1)
  | exited degraded => exact iff_of_true (.inr rfl) (.inl degraded)
  | _ => exact Iff.rfl

theorem RequestStep.moves (step : RequestStep life pc life' pc') :
    life'.state = life.state ∨ pc.owns = true ∨ life.state = .degraded := by
  cases step with
  | swapped => exact .inr (.inl rfl)
  | exited degraded => exact .inr (.inr degraded)
  | _ => exact .inl rfl

/-- The state has not moved under the owner of the record, and it gives up only where
there is no edge. -/
def LifePc.Undisturbed (life : Life) : LifePc → Prop
  | .swap .enter seen _ => life.state = seen
  | .enterRollback => ¬life.state.Degradable
  | _ => True

theorem LifePc.undisturbed_of_owns (quiet : pc.owns = false) : pc.Undisturbed life := by
  cases pc with
  | swap site seen tries =>
    cases site with
    | enter => cases quiet
    | _ => trivial
  | enterRollback => cases quiet
  | _ => trivial

theorem LifePc.Undisturbed.of_state (before : pc.Undisturbed life)
    (kept : life'.state = life.state) : pc.Undisturbed life' := by
  cases pc with
  | swap site seen tries =>
    cases site with
    | enter => exact kept.trans before
    | _ => trivial
  | enterRollback =>
    intro able
    rw [kept] at able
    exact before able
  | _ => trivial

theorem RequestStep.undisturbed (step : RequestStep life pc life' pc')
    (before : pc.Undisturbed life) : pc'.Undisturbed life' := by
  cases step with
  | loaded => rfl
  | refused off => exact off
  | missed moved => exact absurd before moved
  | _ => trivial

theorem RequestStep.returns (step : RequestStep life pc life' .idle)
    (entering : pc.entering = true) (before : pc.Undisturbed life) (able : life.state.Degradable) :
    life'.state = .degraded ∨ pc.claims = true ∧ life.degraded ≠ none := by
  cases step with
  | down shut =>
    rw [shut] at able
    exact absurd able (by decide)
  | found present => exact .inr ⟨rfl, present⟩
  | arrived there => exact .inl there
  | swapped => exact .inl rfl
  | missed moved => exact absurd before moved
  | rolledBack => exact absurd able before
  | cleared => cases entering
  | exitNothing quiet =>
    rw [quiet] at entering
    cases entering

end Steps

/-! ## Every run -/

section Runs

variable {T : Type} [DecidableEq T] {s s' : Pool Life LifePc T} {t : T} {request : DegradeRequest}

structure Tended (s : Pool Life LifePc T) : Prop where
  recovery : Recovery s
  sound : ∀ t, (s.pcs t).sound
  ours : ∀ t, (s.pcs t).requests = true
  undisturbed : ∀ t, (s.pcs t).Undisturbed s.cells

theorem requests_step (ours : (s.pcs t).requests = true)
    (taken : (requests T).step s (t, request) = some s') :
    ∃ pc', RequestStep s.cells (s.pcs t) s'.cells pc' ∧
      LifeStep s.cells request.call (s.pcs t) s'.cells pc' ∧ pc'.requests = true ∧
      s'.pcs = Function.update s.pcs t pc' := by
  obtain ⟨turn, moved, _, rfl⟩ := Program.step_eq_some.mp taken
  obtain ⟨step, nobody⟩ := LifePc.next_step moved
  obtain ⟨asked, later⟩ := requestStep_of_next ours moved
  refine ⟨turn.pc, by rw [Turn.pool_cells]; exact asked, by rw [Turn.pool_cells]; exact step,
    later, ?_⟩
  simp only [Turn.pool, nobody]

theorem LifePc.unraced_of_requests {pc : LifePc} (ours : pc.requests = true) (life : Life) :
    pc.unraced life = true := by
  cases pc with
  | transition site tries =>
    cases site with
    | enter => rfl
    | _ => cases ours
  | _ => rfl

theorem Tended.step (tended : Tended s) (taken : (requests T).step s (t, request) = some s') :
    Tended s' := by
  obtain ⟨life', pcs'⟩ := s'
  obtain ⟨pc', asked, step, later, rfl⟩ := requests_step (tended.ours t) taken
  have owner := fun owns => (tended.recovery.owner t owns).2
  have unraced := LifePc.unraced_of_requests (tended.ours t) s.cells
  refine ⟨tended.recovery.tends (step.tends owner (tended.sound t)), ?_, ?_, ?_⟩
  · exact (forall_update_iff s.pcs fun _ pc => pc.sound).mpr
      ⟨step.sound unraced, fun u _ => tended.sound u⟩
  · exact (forall_update_iff s.pcs fun _ pc => pc.requests = true).mpr
      ⟨later, fun u _ => tended.ours u⟩
  · refine (forall_update_iff s.pcs fun _ pc => pc.Undisturbed life').mpr
      ⟨asked.undisturbed (tended.undisturbed t), fun u other => ?_⟩
    cases owns : (s.pcs u).owns with
    | false => exact LifePc.undisturbed_of_owns owns
    | true =>
      -- The owner is another goroutine, so the state is not moved.
      have kept : life'.state = s.cells.state := by
        rcases asked.moves with kept | moves | degraded
        · exact kept
        · exact absurd (tended.recovery.one u t owns moves) other
        · exact absurd degraded (tended.recovery.owner u owns).2
      exact (tended.undisturbed u).of_state kept

theorem tended_of_reachable {ok}
    (reached : Reachable (requests T) ok s) : Tended s := by
  refine Reachable.invariant (I := Tended) ?_ ?_ reached
  · rintro ⟨life, pcs⟩ ⟨rests, all⟩
    have idle : pcs = fun _ => .idle := funext all
    subst idle
    exact ⟨.unowned (fun _ => rfl) rests, fun _ => trivial, fun _ => rfl, fun _ => trivial⟩
  · rintro s ⟨t, request⟩ s' tended _ taken
    exact tended.step taken

variable {w w' : Watched (Pool Life LifePc T) T State}

theorem degradable_of_start
    (reached : Reachable (watchedRequests T) (fun w event => Unowned w.state event) w) (t : T) :
    ∀ state ∈ w.seen t, (state.Degradable ↔ w.state.cells.state.Degradable) := by
  refine Reachable.watched (M := requests T) (K := Tended)
    (J := fun s _ seen => ∀ state ∈ seen, (state.Degradable ↔ s.cells.state.Degradable))
    (fun s reached => tended_of_reachable reached) ?_ ?_ reached t
  · intro s t _ state mem
    split at mem
    next => rw [mem_singleton.mp mem]
    next => exact absurd mem not_mem_nil
  · rintro s ⟨u, request⟩ s' t seen tended _ taken _ before state mem
    obtain ⟨_, asked, _⟩ := requests_step (tended.ours u) taken
    split at mem
    next =>
      rcases mem_cons.mp mem with rfl | mem
      · exact Iff.rfl
      · exact (before state mem).trans (asked.degradable (tended.sound u)).symm
    next => exact absurd mem not_mem_nil

theorem request_sees_degraded
    (reached : Reachable (watchedRequests T) (fun w event => Unowned w.state event) w)
    (allowed : Unowned w.state (t, request))
    (taken : (watchedRequests T).step w (t, request) = some w')
    (called : (w.state.pcs t).entering = true) (returned : w'.state.pcs t = .idle)
    {start : State} (started : (w.seen t).getLast? = some start) (able : start.Degradable) :
    .degraded ∈ w'.state.cells.state :: w.seen t := by
  obtain ⟨s', moves, rfl⟩ := Option.map_eq_some_iff.mp taken
  have tended := tended_of_reachable reached.unwatch
  have now : w.state.cells.state ∈ w.seen t := Reachable.seen_now reached called
  have degradable : w.state.cells.state.Degradable :=
    (degradable_of_start reached t start (mem_of_getLast? started)).mp able
  obtain ⟨pc', asked, _, _, moved⟩ := requests_step (tended.ours t) moves
  have here : pc' = .idle := by
    rw [moved, update_self] at returned
    exact returned
  subst here
  rcases asked.returns called (tended.undisturbed t) degradable with degraded | ⟨claims, present⟩
  · rw [degraded]
    exact .head _
  · -- The record is published and nobody's, so the state is degraded now.
    have nobody := allowed claims present
    rcases tended.recovery.owned present with degraded | down | ⟨u, owns⟩
    · rw [degraded] at now
      exact .tail _ now
    · rw [down] at degradable
      exact absurd degradable (by decide)
    · rw [nobody u] at owns
      cases owns

end Runs

/-! ## Two goroutines -/

def stableLife : Watched (Pool Life LifePc (Fin 2)) (Fin 2) State :=
  ⟨⟨⟨.stable, none, true⟩, fun _ => .idle⟩, fun _ => []⟩

theorem stableLife_init : (watchedRequests (Fin 2)).init stableLife :=
  ⟨⟨by simp [Life.AtRest, stableLife], fun _ => rfl⟩, fun _ => rfl⟩

def asks (t : Fin 2) (count : Nat) : List (Fin 2 × DegradeRequest) :=
  (t, .enter ⟨1, "kv"⟩) :: List.replicate count (t, .go)

def leaves (t : Fin 2) (count : Nat) : List (Fin 2 × DegradeRequest) :=
  (t, .exit) :: List.replicate count (t, .go)

theorem request_sees_degraded_again :
    ∃ w w', Reachable (watchedRequests (Fin 2)) (fun w event => Unowned w.state event) w ∧
      (watchedRequests (Fin 2)).step w (1, .go) = some w' ∧ w'.state.pcs 1 = .idle ∧
      .degraded ∈ w'.state.cells.state :: w.seen 1 := by
  obtain ⟨w, w', reached, taken, asks, started, returned⟩ := exists_reachable_step
    (fun w event => Unowned w.state event) stableLife_init (asks 0 4 ++ leaves 0 3 ++ asks 1 3)
    (1, .go) (fun w w' => w.state.pcs 1 = .swap .enter .stable 0 ∧
      (w.seen 1).getLast? = some .stable ∧ w'.state.pcs 1 = .idle) (by decide)
  refine ⟨w, w', reached, taken, returned, ?_⟩
  refine request_sees_degraded reached ?_ taken ?_ returned started (by decide)
  · intro claims
    rw [asks] at claims
    cases claims
  · rw [asks]
    rfl

theorem request_swallowed :
    ∃ w w', Reachable (watchedRequests (Fin 2)) Free w ∧
      (watchedRequests (Fin 2)).step w (1, .go) = some w' ∧
      (w.state.pcs 1).entering = true ∧ w'.state.pcs 1 = .idle ∧
      (w.seen 1).getLast? = some .stable ∧
      .degraded ∉ w'.state.cells.state :: w.seen 1 :=
  exists_reachable_step _ stableLife_init (asks 0 4 ++ leaves 0 2 ++ asks 1 1) _ _ (by decide)

end Parti.Manager
