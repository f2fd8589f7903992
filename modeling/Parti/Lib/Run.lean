/-
# Lib.Run — executable transition systems and what their runs keep

A `System` is a set of initial states and a step function: the action the
environment picks decides the next state, and an action that is not enabled
has none. So a run on concrete actions can be evaluated, and a statement about all
runs is an induction over `Reachable`.

Reachability carries a guard on the steps taken, for "in every run whose steps all
meet this condition". `Free` allows everything.

* `Reachable.invariant`: what holds initially and is kept by every allowed step
  holds in every reachable state;
* `Reachable.invariant_with`: the same, with facts already known of reachable
  states at hand in the step;
* `Reachable.after`: what is reached from a reachable state is reachable;
* `exists_reachable` and `exists_reachable_step`: what a run that evaluates reaches;
* `System.watch`: a run with a record of what could be seen at every instant of a
  call, and `Reachable.watched`, the invariant rule with that record;
* `some_ite` and `some_guard`: what a step that branches can lead to.
-/
import Mathlib.Logic.Function.Basic

namespace Parti.Lib

open Option

universe u v w x

/-- Initial states, and a next state for every enabled action. -/
structure System (σ : Type u) (α : Type v) where
  init : σ → Prop
  step : σ → α → Option σ

/-- The guard that allows every step. -/
def Free {σ : Type u} {α : Type v} : σ → α → Prop := fun _ _ => True

/-- States reached from an initial one by steps that all meet the guard. -/
inductive Reachable {σ : Type u} {α : Type v} (M : System σ α) (ok : σ → α → Prop) : σ → Prop
  | initial {s : σ} (starts : M.init s) : Reachable M ok s
  | next {s s' : σ} {a : α} (prior : Reachable M ok s) (allowed : ok s a)
      (taken : M.step s a = some s') : Reachable M ok s'

section Rules

variable {σ : Type u} {α : Type v} {M : System σ α} {ok : σ → α → Prop}

variable {s : σ} {ok' : σ → α → Prop} {I : σ → Prop}

/-- **Invariant rule.** -/
theorem Reachable.invariant (base : ∀ s, M.init s → I s)
    (keep : ∀ s a s', I s → ok s a → M.step s a = some s' → I s') (reached : Reachable M ok s) :
    I s := by
  induction reached with
  | initial starts => exact base _ starts
  | next _ allowed taken ih => exact keep _ _ _ ih allowed taken

/-- **Invariant rule, relative.** -/
theorem Reachable.invariant_with {K : σ → Prop} (known : ∀ s, Reachable M ok s → K s)
    (base : ∀ s, M.init s → I s) (keep : ∀ s a s', K s → I s → ok s a → M.step s a = some s' → I s')
    (reached : Reachable M ok s) : I s := by
  induction reached with
  | initial starts => exact base _ starts
  | next prior allowed taken ih => exact keep _ _ _ (known _ prior) ih allowed taken

theorem Reachable.mono (weaker : ∀ s a, ok s a → ok' s a) (reached : Reachable M ok s) :
    Reachable M ok' s := by
  induction reached with
  | initial starts => exact .initial starts
  | next _ allowed taken ih => exact .next ih (weaker _ _ allowed) taken

/-- The same steps, from one state on. -/
def System.after (M : System σ α) (s : σ) : System σ α :=
  { M with init := (· = s) }

theorem Reachable.after (weaker : ∀ s a, ok' s a → ok s a) {s' : σ} (reached : Reachable M ok s)
    (later : Reachable (M.after s) ok' s') : Reachable M ok s' := by
  induction later with
  | initial starts => exact starts ▸ reached
  | next _ allowed taken ih => exact ih.next (weaker _ _ allowed) taken

end Rules

section Evaluation

variable {σ : Type u} {α : Type v} (M : System σ α)

/-- Perform the actions in order; `none` as soon as one is not enabled. -/
def System.run : σ → List α → Option σ
  | s, [] => some s
  | s, a :: rest => (M.step s a).bind fun s' => System.run s' rest

/-- The same, stopping also at an action the guard refuses. -/
def System.guardedRun (ok : σ → α → Prop) [∀ s a, Decidable (ok s a)] : σ → List α → Option σ
  | s, [] => some s
  | s, a :: rest =>
    if ok s a then (M.step s a).bind fun s' => System.guardedRun ok s' rest else none

variable {M}

variable {ok : σ → α → Prop} {actions : List α} {s : σ} {P : σ → Prop}

theorem Reachable.run (all : ∀ s a, ok s a) :
    ∀ {actions : List α} {s s' : σ}, Reachable M ok s → M.run s actions = some s' →
      Reachable M ok s'
  | [], s, s', reached, ran => by
      simp only [System.run, some.injEq] at ran
      exact ran ▸ reached
  | a :: rest, s, s', reached, ran => by
      simp only [System.run, bind_eq_some_iff] at ran
      obtain ⟨mid, taken, ran⟩ := ran
      exact Reachable.run all (reached.next (all s a) taken) ran

theorem run_reachable {s' : σ} (starts : M.init s) (ran : M.run s actions = some s') :
    Reachable M Free s' :=
  Reachable.run (fun _ _ => trivial) (.initial starts) ran

theorem Reachable.guardedRun [∀ s a, Decidable (ok s a)] :
    ∀ {actions : List α} {s s' : σ}, Reachable M ok s → M.guardedRun ok s actions = some s' →
      Reachable M ok s'
  | [], s, s', reached, ran => by
      simp only [System.guardedRun, some.injEq] at ran
      exact ran ▸ reached
  | a :: rest, s, s', reached, ran => by
      simp only [System.guardedRun] at ran
      split at ran
      next allowed =>
        obtain ⟨mid, taken, ran⟩ := bind_eq_some_iff.mp ran
        exact Reachable.guardedRun (reached.next allowed taken) ran
      next => cases ran

theorem guardedRun_reachable [∀ s a, Decidable (ok s a)] {s' : σ} (starts : M.init s)
    (ran : M.guardedRun ok s actions = some s') : Reachable M ok s' :=
  Reachable.guardedRun (.initial starts) ran

instance freeDecidable (s : σ) (a : α) : Decidable (Free s a) := .isTrue trivial

theorem exists_reachable (ok : σ → α → Prop) [∀ s a, Decidable (ok s a)] (starts : M.init s)
    (actions : List α) (P : σ → Prop) (found : ∃ s' ∈ M.guardedRun ok s actions, P s') :
    ∃ s', Reachable M ok s' ∧ P s' := by
  obtain ⟨s', ran, holds⟩ := found
  exact ⟨s', guardedRun_reachable starts ran, holds⟩

theorem exists_reachable_and [∀ s a, Decidable (ok s a)] {Q : σ → Prop} (starts : M.init s)
    (actions : List α) (found : ∃ s' ∈ M.guardedRun ok s actions, P s')
    (so : ∀ s', Reachable M ok s' → P s' → Q s') : ∃ s', Reachable M ok s' ∧ P s' ∧ Q s' := by
  obtain ⟨s', reached, holds⟩ := exists_reachable ok starts actions P found
  exact ⟨s', reached, holds, so s' reached holds⟩

theorem exists_reachable_step (ok : σ → α → Prop) [∀ s a, Decidable (ok s a)]
    (starts : M.init s) (actions : List α) (a : α) (P : σ → σ → Prop)
    (found : ∃ s' ∈ M.guardedRun ok s actions, ∃ s'' ∈ M.step s' a, P s' s'') :
    ∃ s' s'', Reachable M ok s' ∧ M.step s' a = some s'' ∧ P s' s'' := by
  obtain ⟨s', ran, s'', taken, holds⟩ := found
  exact ⟨s', s'', guardedRun_reachable starts ran, taken, holds⟩

end Evaluation

/-! ## What is seen during a call -/

section Watch

variable {σ : Type u} {α : Type v} {T : Type w} {β : Type x}

/-- A state, and what each party has seen since it is inside. -/
structure Watched (σ : Type u) (T : Type w) (β : Type x) where
  state : σ
  seen : T → List β

/-- The same steps, with a record of what `look` shows in the states in which a party
is inside: in every one since it came in, newest first. -/
def System.watch (M : System σ α) (inside : σ → T → Bool) (look : σ → β) :
    System (Watched σ T β) α where
  init w := M.init w.state ∧ ∀ t, w.seen t = if inside w.state t then [look w.state] else []
  step w a := (M.step w.state a).map fun s =>
    ⟨s, fun t => if inside s t then look s :: w.seen t else []⟩

variable {M : System σ α} {inside : σ → T → Bool} {look : σ → β} {ok : σ → α → Prop}

variable {w : Watched σ T β}

theorem Reachable.unwatch (reached : Reachable (M.watch inside look) (fun w a => ok w.state a) w) :
    Reachable M ok w.state := by
  induction reached with
  | initial starts => exact .initial starts.1
  | next _ allowed taken ih =>
    obtain ⟨s, step, rfl⟩ := map_eq_some_iff.mp taken
    exact .next ih allowed step

theorem Reachable.seen_now (reached : Reachable (M.watch inside look) (fun w a => ok w.state a) w)
    {t : T} (here : inside w.state t = true) : look w.state ∈ w.seen t := by
  cases reached with
  | initial starts => simp [starts.2 t, here]
  | next _ allowed taken =>
    obtain ⟨s, step, rfl⟩ := map_eq_some_iff.mp taken
    simp only at here ⊢
    rw [if_pos here]
    exact .head _

/-- **Invariant rule, with the record.** -/
theorem Reachable.watched {K : σ → Prop} {J : σ → T → List β → Prop}
    (known : ∀ s, Reachable M ok s → K s)
    (start : ∀ s t, M.init s → J s t (if inside s t then [look s] else []))
    (keep : ∀ s a s' t seen, K s → ok s a → M.step s a = some s' →
      (inside s t = true → look s ∈ seen) → J s t seen →
      J s' t (if inside s' t then look s' :: seen else []))
    (reached : Reachable (M.watch inside look) (fun w a => ok w.state a) w) (t : T) :
    J w.state t (w.seen t) := by
  induction reached with
  | initial starts =>
    rw [starts.2 t]
    exact start _ t starts.1
  | next prior allowed taken ih =>
    obtain ⟨s, step, rfl⟩ := map_eq_some_iff.mp taken
    exact keep _ _ s t _ (known _ prior.unwatch) allowed step prior.seen_now ih

end Watch

variable {σ : Type u} {c : Prop} [Decidable c] {a b s : σ} {P : σ → Prop}

@[elab_as_elim]
theorem some_ite (taken : (if c then some a else some b) = some s) (yes : c → P a)
    (no : ¬c → P b) : P s := by
  split at taken
  next is => cases taken; exact yes is
  next off => cases taken; exact no off

@[elab_as_elim]
theorem some_guard (taken : (if c then some a else none) = some s) (yes : c → P a) : P s := by
  split at taken
  next is => cases taken; exact yes is
  next => cases taken

end Parti.Lib
