/-
# Lib.Cas — the compare-and-swap loop

A cell that several threads replace without a lock: read it, decide whether the
new value should take its place, and swap it in if nobody was faster; otherwise
start over. `CasLoop beats` is where one thread stands in such a loop. The swap
carries the fact that made the thread try it.

`turn_cases`: the loop starts over, gives up in front of a value it does not beat, or
replaces a value it beats. `turn_rule` is the same as a rule for a goal that mentions
the step.
-/
import Mathlib.Logic.Basic

namespace Parti.Lib

universe u

/-- A thread in the loop that replaces what `beats` says should go. -/
inductive CasLoop {γ : Type u} (beats : γ → Bool) where
  | load
  | swap (seen : γ) (ahead : beats seen = true)

/-- How a step of the loop ends. -/
inductive CasEnd {γ : Type u} (beats : γ → Bool) where
  | again (loop : CasLoop beats)
  | kept
  | replaced

section Turn

variable {γ : Type u} [DecidableEq γ] {beats : γ → Bool}

/-- One atomic operation of the loop that tries to store `new`. -/
def CasLoop.turn (new cell : γ) : CasLoop beats → γ × CasEnd beats
  | .load => if ahead : beats cell = true then (cell, .again (.swap cell ahead)) else (cell, .kept)
  | .swap seen _ => if cell = seen then (new, .replaced) else (cell, .again .load)

/-- The cell after a loop that is done. -/
def Settled (beats : γ → Bool) (new cell cell' : γ) : Prop :=
  beats cell = false ∧ cell' = cell ∨ beats cell = true ∧ cell' = new

/-- **One step of the loop.** -/
theorem CasLoop.turn_cases (new cell : γ) (loop : CasLoop beats) :
    (∃ again, loop.turn new cell = (cell, .again again)) ∨
    (beats cell = false ∧ loop.turn new cell = (cell, .kept)) ∨
    (beats cell = true ∧ loop.turn new cell = (new, .replaced)) := by
  cases loop with
  | load =>
    by_cases ahead : beats cell = true
    · exact .inl ⟨.swap cell ahead, by simp [turn, ahead]⟩
    · exact .inr (.inl ⟨by simpa using ahead, by simp [turn, ahead]⟩)
  | swap seen ahead =>
    by_cases same : cell = seen
    · subst same
      exact .inr (.inr ⟨ahead, by simp [turn]⟩)
    · exact .inl ⟨.load, by simp [turn, same]⟩

/-- The rule for a step: what holds when the loop starts over, and when it is done either way,
holds after it. -/
@[elab_as_elim]
theorem CasLoop.turn_rule {P : γ × CasEnd beats → Prop} {new cell : γ} (loop : CasLoop beats)
    (again : ∀ next, P (cell, .again next))
    (kept : ∀ cell', Settled beats new cell cell' → P (cell', .kept))
    (replaced : ∀ cell', Settled beats new cell cell' → P (cell', .replaced)) :
    P (loop.turn new cell) := by
  obtain ⟨next, turned⟩ | ⟨behind, turned⟩ | ⟨ahead, turned⟩ := loop.turn_cases new cell
  · rw [turned]
    exact again next
  · rw [turned]
    exact kept cell (.inl ⟨behind, rfl⟩)
  · rw [turned]
    exact replaced new (.inr ⟨ahead, rfl⟩)

end Turn

/-- A loop on a cell that holds at most one item leaves there the item that was
there or the new one. -/
theorem settled_stash {α : Type u} {beats} {new : α} {cur cur'}
    {P : α → Prop} (settled : Settled beats (some new) cur cur') (old : ∀ a ∈ cur, P a)
    (fresh : P new) : ∀ a ∈ cur', P a := by
  obtain ⟨_, rfl⟩ | ⟨_, rfl⟩ := settled
  · exact old
  · rintro a ⟨⟩
    exact fresh

end Parti.Lib
