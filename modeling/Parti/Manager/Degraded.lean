/-
# Manager.Degraded — how degraded mode is left

Degraded mode is a state and a record. `enterDegraded` publishes the record and
then moves the state; `exitDegraded` moves the state and then clears the record.
Between the two steps one goroutine owns the record (`LifePc.owns`).

`transitionState` may take the edge from degraded to stable for any caller that
asks for stable. Three callers ask for it after a check of their own, and the
state can become degraded in between (`sync_leaves_degraded`). `Unraced` asks that
none of them finds the state degraded when it reads it again.

* `degraded_left_by_recovery`: in every such run degraded mode is left by the exit's
  own swap or by shutdown, and at rest the record is there exactly in degraded
  mode.
-/
import Parti.Manager.Lifecycle

namespace Parti.Manager

open Lib

/-- Between publishing the record and moving the state, or moving the state and
clearing the record. -/
def LifePc.owns : LifePc → Bool
  | .transition .enter _ | .swap .enter _ _ | .enterRollback | .exitClear => true
  | _ => false

def LifePc.mayLeave : LifePc → Bool
  | .exitSwap | .swap .shutdown _ _ => true
  | _ => false

/-- Whoever asks for stable does not read degraded. -/
def LifePc.unraced (life : Life) : LifePc → Bool
  | .transition site _ => !(decide (site.target = .stable) && decide (life.state = .degraded))
  | _ => true

/-- The guard of the runs considered. -/
def Unraced (T : Type) (s : Pool Life LifePc T) (event : T × Call) : Prop :=
  (s.pcs event.1).unraced s.cells = true

/-- A swap is along an edge of the table, and from degraded only to shutdown. -/
def LifePc.sound : LifePc → Prop
  | .swap site seen _ =>
    isValidTransition seen site.target = true ∧ (seen = .degraded → site = .shutdown)
  | _ => True

/-! ## One step -/

section Steps

variable {life life' : Life} {call : Call} {pc pc' : LifePc} {site : Site} {target : State}

inductive Tends (life : Life) (pc : LifePc) (life' : Life) (pc' : LifePc) : Prop
  | keep (state : life'.state = life.state ∨ life'.state = .shutdown ∨
        (life.state ≠ .degraded ∧ life.state ≠ .shutdown ∧ life'.state ≠ .degraded))
      (record : life'.degraded = life.degraded) (owns : pc'.owns = pc.owns)
  | claim (state : life'.state = life.state) (free : life.degraded = none)
      (record : life'.degraded ≠ none) (owns : pc'.owns = true)
  | enter (owner : pc.owns = true) (state : life'.state = .degraded)
      (record : life'.degraded = life.degraded) (owns : pc'.owns = false)
  | clear (owner : pc.owns = true) (state : life'.state = life.state)
      (record : life'.degraded = none) (owns : pc'.owns = false)
  | leave (degraded : life.state = .degraded) (state : life'.state = .stable)
      (record : life'.degraded = life.degraded) (owns : pc'.owns = true)

theorem Call.begins_quiet (begins : call.begins = some pc) :
    pc.owns = false ∧ pc.sound := by
  cases call with
  | startTo site =>
    cases site with
    | claim | elect | wait => cases begins; exact ⟨rfl, trivial⟩
    | _ => cases begins
  | go | calculator | assignment => cases begins
  | _ => cases begins; exact ⟨rfl, trivial⟩

theorem LifePc.returns_quiet (quiet : pc.returns = true) : pc.owns = false := by
  cases pc with
  | transition | swap | enterRollback | exitClear => cases quiet
  | _ => rfl

theorem Site.target_degraded (at_ : site.target = .degraded) : site = .enter := by
  cases site with
  | sync calcState => cases calcState <;> cases at_
  | stop assigned => cases assigned <;> cases at_
  | enter => rfl
  | _ => cases at_

theorem Site.target_shutdown (at_ : site.target = .shutdown) : site = .shutdown := by
  cases site with
  | sync calcState => cases calcState <;> cases at_
  | stop assigned => cases assigned <;> cases at_
  | shutdown => rfl
  | _ => cases at_

theorem valid_from_degraded (valid : isValidTransition .degraded target = true) :
    target = .stable ∨ target = .shutdown := by
  cases target with
  | stable => exact .inl rfl
  | shutdown => exact .inr rfl
  | _ => cases valid

theorem not_valid_from_shutdown : isValidTransition .shutdown target = false := rfl

theorem Site.ended_true_owns (site : Site) : (site.ended true).owns = false := by
  cases site <;> rfl

theorem Site.ended_false_owns (site : Site) (tries : Nat) :
    (site.ended false).owns = (LifePc.transition site tries).owns := by
  cases site <;> rfl

theorem LifePc.swap_owns (site : Site) (seen : State) (tries tries' : Nat) :
    (LifePc.swap site seen tries).owns = (LifePc.transition site tries').owns := by
  cases site <;> rfl

theorem Site.owns_iff {tries : Nat} :
    (LifePc.transition site tries).owns = true ↔ site = .enter := by
  cases site <;> simp [LifePc.owns]

theorem Site.ended_sound (site : Site) (moved : Bool) : (site.ended moved).sound := by
  cases site <;> cases moved <;> trivial

theorem LifeStep.tends (step : LifeStep life call pc life' pc')
    (owner : pc.owns = true → life.state ≠ .degraded) (sound : pc.sound) :
    Tends life pc life' pc' := by
  cases step with
  | call begins => exact .keep (.inl rfl) rfl (Call.begins_quiet begins).1
  | @arrived site tries there =>
    -- the entry to degraded mode never finds it entered
    have other : (LifePc.transition site tries).owns = false := by
      rw [Bool.eq_false_iff]
      intro owns
      have enters := Site.owns_iff.mp owns
      subst enters
      exact owner owns there
    exact .keep (.inl rfl) rfl (site.ended_true_owns.trans other.symm)
  | loaded => exact .keep (.inl rfl) rfl (LifePc.swap_owns ..)
  | refused => exact .keep (.inl rfl) rfl (Site.ended_false_owns ..)
  | @swapped site tries =>
    obtain ⟨valid, leaves⟩ := sound
    by_cases enters : site = .enter
    · subst enters
      exact .enter rfl rfl rfl rfl
    · have other : (LifePc.swap site life.state tries).owns = false := by
        rw [LifePc.swap_owns site life.state tries tries, Bool.eq_false_iff]
        exact fun owns => enters (Site.owns_iff.mp owns)
      refine .keep (.inr ?_) rfl (site.ended_true_owns.trans other.symm)
      by_cases shuts : site = .shutdown
      · exact .inl (by rw [shuts]; rfl)
      · refine .inr ⟨fun degraded => shuts (leaves degraded), fun down => ?_, fun to_degraded => ?_⟩
        · rw [down, not_valid_from_shutdown] at valid
          cases valid
        · exact enters (Site.target_degraded to_degraded)
  | again => exact .keep (.inl rfl) rfl (LifePc.swap_owns ..).symm
  | @gaveUp site seen tries =>
    exact .keep (.inl rfl) rfl
      ((site.ended_false_owns tries).trans (LifePc.swap_owns site seen tries tries).symm)
  | claimed free => exact .claim rfl free (by simp) rfl
  | rolledBack | cleared => exact .clear rfl rfl rfl rfl
  | exited degraded => exact .leave degraded rfl rfl rfl
  | markSwapped waiting | waitingSwapped waiting =>
    exact .keep (.inr (.inr (by rw [waiting]; simp))) rfl rfl
  | returned quiet => exact .keep (.inl rfl) rfl (LifePc.returns_quiet quiet).symm
  | claims | exits | syncActive | syncIdle | synced | marked | markMissed | markOwned | markIdle
  | stopOwned | stopped =>
    exact .keep (.inl rfl) rfl rfl

theorem LifeStep.sound (step : LifeStep life call pc life' pc') (unraced : pc.unraced life = true) :
    pc'.sound := by
  cases step with
  | call begins => exact (Call.begins_quiet begins).2
  | @loaded site tries valid =>
    refine ⟨valid, fun degraded => ?_⟩
    rw [degraded] at valid
    obtain stable | down := valid_from_degraded valid
    · simp [LifePc.unraced, stable, degraded] at unraced
    · exact Site.target_shutdown down
  | arrived | refused | swapped | gaveUp => exact Site.ended_sound ..
  | _ => trivial

end Steps

/-! ## Every run -/

section Invariant

variable {T : Type}

structure Recovery (s : Pool Life LifePc T) : Prop where
  recorded : s.cells.state = .degraded → s.cells.degraded ≠ none
  owned : s.cells.degraded ≠ none →
    s.cells.state = .degraded ∨ s.cells.state = .shutdown ∨ ∃ t, (s.pcs t).owns = true
  owner : ∀ t, (s.pcs t).owns = true → s.cells.degraded ≠ none ∧ s.cells.state ≠ .degraded
  one : ∀ t u, (s.pcs t).owns = true → (s.pcs u).owns = true → t = u

variable {s : Pool Life LifePc T} {t : T} {life' : Life} {pc' : LifePc}

theorem Recovery.others (recovery : Recovery s) (owner : (s.pcs t).owns = true) (u : T)
    (other : u ≠ t) : (s.pcs u).owns = false := by
  rw [Bool.eq_false_iff]
  exact fun at_u => other (recovery.one u t at_u owner)

theorem Recovery.nobody (recovery : Recovery s)
    (settled : s.cells.degraded = none ∨ s.cells.state = .degraded) (u : T) :
    (s.pcs u).owns = false := by
  rw [Bool.eq_false_iff]
  intro at_u
  obtain ⟨present, not_degraded⟩ := recovery.owner u at_u
  obtain free | degraded := settled
  · exact present free
  · exact not_degraded degraded

variable [DecidableEq T] {pcs' pcs : T → LifePc}

theorem owns_update (pcs : T → LifePc) (t u : T) (pc' : LifePc) :
    (Function.update pcs t pc' u).owns = if u = t then pc'.owns else (pcs u).owns := by
  by_cases same : u = t
  · subst same
    simp
  · simp [same]

theorem disowned (others : ∀ u, u ≠ t → (pcs u).owns = false) (owns : pc'.owns = false) (u : T) :
    (Function.update pcs t pc' u).owns = false := by
  rw [owns_update]
  split
  next => exact owns
  next other => exact others u other

theorem only_owner (others : ∀ u, (pcs u).owns = false) {u : T}
    (at_u : (Function.update pcs t pc' u).owns = true) : u = t := by
  by_contra other
  rw [owns_update, if_neg other, others u] at at_u
  cases at_u

omit [DecidableEq T] in
theorem Recovery.kept (recovery : Recovery s)
    (state : life'.state = s.cells.state ∨ life'.state = .shutdown ∨
      (s.cells.state ≠ .degraded ∧ s.cells.state ≠ .shutdown ∧ life'.state ≠ .degraded))
    (record : life'.degraded = s.cells.degraded) (same : ∀ u, (pcs' u).owns = (s.pcs u).owns) :
    Recovery ⟨life', pcs'⟩ := by
  have before : life'.state = .degraded → s.cells.state = .degraded := by
    intro degraded
    obtain kept | down | ⟨_, _, other⟩ := state
    · exact kept.symm.trans degraded
    · exact absurd (down.symm.trans degraded) (by decide)
    · exact absurd degraded other
  refine ⟨fun degraded => ?_, fun present => ?_, fun u at_u => ?_, fun u v at_u at_v => ?_⟩
  · show life'.degraded ≠ none
    rw [record]
    exact recovery.recorded (before degraded)
  · have recorded : s.cells.degraded ≠ none := by
      rw [← record]
      exact present
    obtain degraded | down | ⟨u, at_u⟩ := recovery.owned recorded
    · obtain kept | down | ⟨not_degraded, _⟩ := state
      · exact .inl (kept.trans degraded)
      · exact .inr (.inl down)
      · exact absurd degraded not_degraded
    · obtain kept | down' | ⟨_, not_down, _⟩ := state
      · exact .inr (.inl (kept.trans down))
      · exact .inr (.inl down')
      · exact absurd down not_down
    · exact .inr (.inr ⟨u, (same u).trans at_u⟩)
  · obtain ⟨present, not_degraded⟩ := recovery.owner u ((same u).symm.trans at_u)
    exact ⟨by rw [record]; exact present, fun degraded => not_degraded (before degraded)⟩
  · exact recovery.one u v ((same u).symm.trans at_u) ((same v).symm.trans at_v)

theorem Recovery.owning (nobody : ∀ u, (s.pcs u).owns = false) (record : life'.degraded ≠ none)
    (not_degraded : life'.state ≠ .degraded) (owns : pc'.owns = true) :
    Recovery ⟨life', Function.update s.pcs t pc'⟩ where
  recorded := fun degraded => absurd degraded not_degraded
  owned := fun _ => .inr (.inr ⟨t, by rw [owns_update, if_pos rfl]; exact owns⟩)
  owner := fun _ _ => ⟨record, not_degraded⟩
  one := fun _ _ at_u at_v => (only_owner nobody at_u).trans (only_owner nobody at_v).symm

omit [DecidableEq T] in
theorem Recovery.unowned (nobody : ∀ u, (pcs' u).owns = false)
    (recorded : life'.state = .degraded ↔ life'.degraded ≠ none) : Recovery ⟨life', pcs'⟩ where
  recorded := recorded.mp
  owned := fun present => .inl (recorded.mpr present)
  owner := fun u at_u => absurd at_u (by rw [nobody u]; decide)
  one := fun u _ at_u => absurd at_u (by rw [nobody u]; decide)

/-- **One step keeps the record with its state or its owner.** -/
theorem Recovery.tends (recovery : Recovery s) (tends : Tends s.cells (s.pcs t) life' pc') :
    Recovery ⟨life', Function.update s.pcs t pc'⟩ := by
  cases tends with
  | keep state record owns =>
    refine recovery.kept state record fun u => ?_
    rw [owns_update]
    split
    next at_ => rw [at_, owns]
    next => rfl
  | claim state free record owns =>
    refine .owning (recovery.nobody (.inl free)) record ?_ owns
    rw [state]
    exact fun degraded => recovery.recorded degraded free
  | enter owner state record owns =>
    refine .unowned (disowned (recovery.others owner) owns) ⟨fun _ => ?_, fun _ => state⟩
    rw [record]
    exact (recovery.owner t owner).1
  | clear owner state record owns =>
    refine .unowned (disowned (recovery.others owner) owns)
      ⟨fun degraded => ?_, fun present => absurd record present⟩
    exact absurd (state.symm.trans degraded) (recovery.owner t owner).2
  | leave degraded state record owns =>
    refine .owning (recovery.nobody (.inr degraded)) ?_ ?_ owns
    · rw [record]
      exact recovery.recorded degraded
    · rw [state]
      decide

end Invariant

variable {T : Type} [DecidableEq T] {s : Pool Life LifePc T}

theorem recovery_of_reachable (reached : Reachable (lifecycle T) (Unraced T) s) :
    Recovery s ∧ ∀ t, (s.pcs t).sound := by
  refine Reachable.invariant (I := fun s => Recovery s ∧ ∀ t, (s.pcs t).sound) ?_ ?_ reached
  · rintro ⟨life, pcs⟩ ⟨starts, all⟩
    have starts : life = .initial := starts
    subst starts
    refine ⟨⟨fun off => ?_, fun off => absurd rfl off, fun t at_t => ?_, fun t u at_t => ?_⟩,
      fun t => ?_⟩
    · cases off
    · rw [all t] at at_t
      cases at_t
    · rw [all t] at at_t
      cases at_t
    · rw [all t]
      trivial
  · rintro s ⟨t, call⟩ ⟨life', pcs'⟩ ⟨recovery, sound⟩ unraced taken
    obtain ⟨pc', step, rfl⟩ := lifecycle_step taken
    have owner := fun owns => (recovery.owner t owns).2
    refine ⟨recovery.tends (step.tends owner (sound t)), fun u => ?_⟩
    by_cases mover : u = t
    · subst mover
      simp only [Function.update_self]
      exact step.sound unraced
    · simp only [Function.update_of_ne mover]
      exact sound u

theorem LifeStep.leaves {life life' : Life} {call : Call} {pc pc' : LifePc}
    (step : LifeStep life call pc life' pc') (sound : pc.sound) (degraded : life.state = .degraded) (left : life'.state ≠ .degraded) :
    pc.mayLeave = true := by
  cases step with
  | swapped =>
    rw [sound.2 degraded]
    rfl
  | exited => rfl
  | markSwapped waiting | waitingSwapped waiting =>
    rw [degraded] at waiting
    cases waiting
  | _ => exact absurd degraded left

theorem degraded_left_by_recovery (reached : Reachable (lifecycle T) (Unraced T) s) :
    (∀ event s', (lifecycle T).step s event = some s' → s.cells.state = .degraded →
      s'.cells.state ≠ .degraded → (s.pcs event.1).mayLeave = true) ∧
    ((∀ t, s.pcs t = .idle) → s.cells.state ≠ .shutdown →
      (s.cells.degraded.isSome = true ↔ s.cells.state = .degraded)) := by
  obtain ⟨recovery, sound⟩ := recovery_of_reachable reached
  refine ⟨fun event s' taken degraded left => ?_, fun rest running => ?_⟩
  · obtain ⟨t, call⟩ := event
    obtain ⟨pc', step, _⟩ := lifecycle_step taken
    exact step.leaves (sound t) degraded left
  · rw [Option.isSome_iff_ne_none]
    refine ⟨fun present => ?_, recovery.recorded⟩
    obtain degraded | down | ⟨t, owns⟩ := recovery.owned present
    · exact degraded
    · exact absurd down running
    · rw [rest t] at owns
      cases owns

instance unracedDecidable (s : Pool Life LifePc T) (event : T × Call) :
    Decidable (Unraced T s event) :=
  inferInstanceAs (Decidable (_ = true))

/-- Goroutine `t` starts the manager and marks its first assignment applied. -/
def readied {T : Type} (t : T) : List (T × Call) :=
  waits t ++ [(t, .markStartupAssignmentApplied)] ++ lives t 3

def recovers {T : Type} (t u : T) : List (T × Call) :=
  readied t ++ [(u, .enterDegraded ⟨1, "kv"⟩)] ++ lives u 4 ++ [(t, .exitDegraded)] ++ lives t 1

theorem degraded_left_by_recovery_exit :
    ∃ s s', Reachable (lifecycle (Fin 2)) (Unraced (Fin 2)) s ∧
      (lifecycle (Fin 2)).step s (0, .go) = some s' ∧ s.cells.state = .degraded ∧
      s'.cells.state = .stable ∧ (s.pcs 0).mayLeave = true := by
  obtain ⟨s, s', reached, taken, degraded, stable⟩ := exists_reachable_step (Unraced (Fin 2))
    (startLife_init _) (recovers 0 1) (0, .go) (fun s s' => s.cells.state = .degraded ∧
      s'.cells.state = .stable) (by decide)
  refine ⟨s, s', reached, taken, degraded, stable, ?_⟩
  exact (degraded_left_by_recovery reached).1 _ s' taken degraded (by rw [stable]; decide)

/-- The calculator's monitor reads scaling, for a calculator that is idle again.
Before it moves the state on, the manager goes into degraded mode. -/
def racedSync {T : Type} (t u : T) : List (T × Call) :=
  readied t ++ [(t, .syncStateFromCalculator .scaling)] ++ lives t 3 ++
    [(t, .syncStateFromCalculator .idle)] ++ lives t 2 ++
    [(u, .enterDegraded ⟨1, "kv"⟩)] ++ lives u 4 ++ lives t 1

theorem sync_leaves_degraded :
    ∃ s s', Reachable (lifecycle (Fin 2)) Free s ∧
      (lifecycle (Fin 2)).step s (0, .go) = some s' ∧ s.cells.state = .degraded ∧
      s'.cells.state = .stable ∧ (s.pcs 0).mayLeave = false ∧
      (∀ t, s'.pcs t = .idle) ∧ s'.cells.degraded = some ⟨1, "kv"⟩ :=
  exists_reachable_step _ (startLife_init _) (racedSync 0 1) _ _ (by decide)

end Parti.Manager
