/-
# Lib.Threads — goroutines over shared cells

A `Program` says what one atomic step of a goroutine does: given the shared
cells, who is running, where it stands and what the environment hands it, the
cells and the program counter afterwards, and a goroutine it may have started.
A `Pool` is the cells and every goroutine's counter; `Program.system` is the
transition system in which goroutines take their steps in any order.

`Reachable.knows` is the rule for invariants that need no view of several goroutines
at once: a fact about the cells and, for each goroutine, what it knows about the cells
where it stands. Whoever moves keeps the fact and says what it knows next; nobody's
step takes away what another one knows.

`Program.solo` is one goroutine running while nobody else moves: the steps of an
operation put together again (`Program.run_solo`).
-/
import Parti.Lib.Run

namespace Parti.Lib

open Function

universe u

/-- What one atomic step leaves behind. -/
structure Turn (σ π T : Type) where
  cells : σ
  pc : π
  spawned : Option (T × π) := none

/-- Shared cells, and where every goroutine stands. -/
structure Pool (σ π T : Type) where
  cells : σ
  pcs : T → π

/-- One step of a goroutine, and the counter of a goroutine that has nothing
to do (the only kind a new one may take the place of). -/
structure Program (σ π ι T : Type) where
  idle : π → Bool
  next : σ → T → π → ι → Option (Turn σ π T)

section Pools

variable {σ π ι T : Type} [DecidableEq T]

/-- The pool after goroutine `t` made `turn`. -/
def Turn.pool (turn : Turn σ π T) (pcs : T → π) (t : T) : Pool σ π T :=
  match turn.spawned with
  | none => ⟨turn.cells, Function.update pcs t turn.pc⟩
  | some (fresh, start) =>
    ⟨turn.cells, Function.update (Function.update pcs t turn.pc) fresh start⟩

/-- A goroutine that is started takes a free name. -/
def Program.fits (P : Program σ π ι T) (pcs : T → π) (t : T) (turn : Turn σ π T) : Bool :=
  match turn.spawned with
  | none => true
  | some (fresh, _) => decide (fresh ≠ t) && P.idle (pcs fresh)

/-- Goroutine `event.1` takes its next step; the environment hands it `event.2`. -/
def Program.step (P : Program σ π ι T) (s : Pool σ π T) (event : T × ι) : Option (Pool σ π T) :=
  match P.next s.cells event.1 (s.pcs event.1) event.2 with
  | none => none
  | some turn => if P.fits s.pcs event.1 turn then some (turn.pool s.pcs event.1) else none

/-- All interleavings, from the given cells with every goroutine idle at `rest`. -/
def Program.system (P : Program σ π ι T) (init : σ → Prop) (rest : π) :
    System (Pool σ π T) (T × ι) where
  init s := init s.cells ∧ ∀ t, s.pcs t = rest
  step := P.step

variable {P : Program σ π ι T} {s s' : Pool σ π T} {t : T} {input : ι}

theorem Program.step_eq_some :
    P.step s (t, input) = some s' ↔
      ∃ turn, P.next s.cells t (s.pcs t) input = some turn ∧ P.fits s.pcs t turn = true ∧
        turn.pool s.pcs t = s' := by
  simp only [Program.step]
  cases P.next s.cells t (s.pcs t) input with
  | none => simp
  | some turn => by_cases fits : P.fits s.pcs t turn = true <;> simp [fits]

@[simp] theorem Turn.pool_cells (turn : Turn σ π T) (pcs : T → π) :
    (turn.pool pcs t).cells = turn.cells := by
  unfold Turn.pool
  split <;> rfl

variable {turn : Turn σ π T} {pcs : T → π} {I init : σ → Prop} {K : Pool σ π T → Prop}
  {N : σ → T → π → Prop} {ok : Pool σ π T → T × ι → Prop} {rest : π} {s : Pool σ π T}

theorem Turn.pool_pcs (fits : P.fits pcs t turn = true) (u : T) :
    (u = t ∧ (turn.pool pcs t).pcs u = turn.pc) ∨
    (u ≠ t ∧ P.idle (pcs u) = true ∧
      turn.spawned = some (u, (turn.pool pcs t).pcs u)) ∨
    (u ≠ t ∧ (turn.pool pcs t).pcs u = pcs u) := by
  unfold Turn.pool
  unfold Program.fits at fits
  split
  next =>
    by_cases mover : u = t
    · subst mover
      exact .inl ⟨rfl, update_self ..⟩
    · exact .inr (.inr ⟨mover, update_of_ne mover ..⟩)
  next fresh start spawned =>
    rw [spawned] at fits
    simp only [Bool.and_eq_true, decide_eq_true_eq] at fits
    by_cases new : u = fresh
    · subst new
      refine .inr (.inl ⟨fits.1, fits.2, ?_⟩)
      simpa only [update_self] using spawned
    · by_cases mover : u = t
      · subst mover
        refine .inl ⟨rfl, ?_⟩
        simp only [update_of_ne new, update_self]
      · refine .inr (.inr ⟨mover, ?_⟩)
        simp only [update_of_ne new, update_of_ne mover]

theorem Turn.pool_self (fits : P.fits pcs t turn = true) :
    (turn.pool pcs t).pcs t = turn.pc := by
  obtain ⟨_, at_⟩ | ⟨off, _⟩ | ⟨off, _⟩ := Turn.pool_pcs fits t
  · exact at_
  · exact absurd rfl off
  · exact absurd rfl off

theorem Turn.pool_busy (fits : P.fits pcs t turn = true) {u : T} (other : u ≠ t)
    (busy : P.idle (pcs u) = false) : (turn.pool pcs t).pcs u = pcs u := by
  obtain ⟨same, _⟩ | ⟨_, idle, _⟩ | ⟨_, at_⟩ := Turn.pool_pcs fits u
  · exact absurd same other
  · rw [idle] at busy
    cases busy
  · exact at_

/-! ## What each goroutine knows -/

/-- **Local invariants.** -/
theorem Reachable.knows (known : ∀ s, Reachable (P.system init rest) ok s → K s)
    (start : ∀ cells, init cells → I cells ∧ ∀ t, N cells t rest)
    (moves : ∀ s t input turn, K s → ok s (t, input) → I s.cells → N s.cells t (s.pcs t) →
      P.next s.cells t (s.pcs t) input = some turn →
      I turn.cells ∧ N turn.cells t turn.pc ∧
        (∀ u, u ≠ t → N s.cells u (s.pcs u) → N turn.cells u (s.pcs u)) ∧
        ∀ fresh pc, turn.spawned = some (fresh, pc) → N turn.cells fresh pc)
    (reached : Reachable (P.system init rest) ok s) :
    I s.cells ∧ ∀ t, N s.cells t (s.pcs t) := by
  refine Reachable.invariant_with (I := fun s => I s.cells ∧ ∀ t, N s.cells t (s.pcs t))
    known ?_ ?_ reached
  · intro s starts
    obtain ⟨inv, knows⟩ := start s.cells starts.1
    exact ⟨inv, fun t => by rw [starts.2 t]; exact knows t⟩
  · rintro s ⟨t, input⟩ s' facts ⟨inv, knows⟩ allowed taken
    obtain ⟨turn, moved, fits, rfl⟩ := Program.step_eq_some.mp taken
    obtain ⟨inv', own, others, started⟩ := moves s t input turn facts allowed inv (knows t) moved
    rw [Turn.pool_cells]
    refine ⟨inv', fun u => ?_⟩
    obtain ⟨rfl, at_⟩ | ⟨_, _, spawned⟩ | ⟨other, at_⟩ := Turn.pool_pcs fits u
    · rw [at_]
      exact own
    · exact started u _ spawned
    · rw [at_]
      exact others u other (knows u)

/-- Nobody starts another goroutine. -/
def Program.Fixed (P : Program σ π ι T) : Prop :=
  ∀ cells t pc input turn, P.next cells t pc input = some turn → turn.spawned = none

theorem Reachable.knows_fixed (fixed : P.Fixed)
    (known : ∀ s, Reachable (P.system init rest) ok s → K s)
    (start : ∀ cells, init cells → I cells ∧ ∀ t, N cells t rest)
    (moves : ∀ s t input turn, K s → ok s (t, input) → I s.cells → N s.cells t (s.pcs t) →
      P.next s.cells t (s.pcs t) input = some turn → (I turn.cells ∧ N turn.cells t turn.pc) ∧
        ∀ u, u ≠ t → N s.cells u (s.pcs u) → N turn.cells u (s.pcs u))
    (reached : Reachable (P.system init rest) ok s) :
    I s.cells ∧ ∀ t, N s.cells t (s.pcs t) := by
  refine Reachable.knows known start ?_ reached
  intro s t input turn facts allowed inv knows moved
  obtain ⟨⟨inv', own⟩, others⟩ := moves s t input turn facts allowed inv knows moved
  refine ⟨inv', own, others, fun fresh pc spawned => ?_⟩
  rw [fixed _ _ _ _ _ moved] at spawned
  cases spawned

end Pools

/-! ## One goroutine by itself -/

variable {σ π ι T : Type} {P : Program σ π ι T} {t : T}

/-- As long as it starts no other. -/
def Program.solo (P : Program σ π ι T) (t : T) : σ → π → List ι → Option (σ × π)
  | cells, pc, [] => some (cells, pc)
  | cells, pc, input :: rest =>
    match P.next cells t pc input with
    | some ⟨cells', pc', none⟩ => P.solo t cells' pc' rest
    | _ => none

variable {cells cells' : σ} {pc' : π}

theorem Program.solo_cons {pc : π} {input : ι}
    (moved : P.next cells t pc input = some ⟨cells', pc', none⟩) (rest : List ι) :
    P.solo t cells pc (input :: rest) = P.solo t cells' pc' rest := by
  simp only [solo, moved]

theorem Program.solo_append {pc : π} {first}
    (moved : P.solo t cells pc first = some (cells', pc')) (rest : List ι) :
    P.solo t cells pc (first ++ rest) = P.solo t cells' pc' rest := by
  induction first generalizing cells pc with
  | nil => cases moved; rfl
  | cons input inputs ih =>
    simp only [List.cons_append, solo] at moved ⊢
    split at moved
    · exact ih moved
    · cases moved

theorem Program.run_solo [DecidableEq T] {init} {rest : π} {inputs}
    {pcs} (moved : P.solo t cells (pcs t) inputs = some (cells', pc')) :
    (P.system init rest).run ⟨cells, pcs⟩ (inputs.map fun input => (t, input)) =
      some ⟨cells', Function.update pcs t pc'⟩ := by
  induction inputs generalizing cells pcs with
  | nil =>
    cases moved
    simp [System.run]
  | cons input inputs ih =>
    simp only [solo] at moved
    split at moved
    case h_1 between pc taken =>
      have stepped : (P.system init rest).step ⟨cells, pcs⟩ (t, input) =
          some ⟨between, Function.update pcs t pc⟩ :=
        Program.step_eq_some.mpr ⟨_, taken, rfl, rfl⟩
      have self : Function.update pcs t pc t = pc := update_self ..
      have later := ih (self.symm ▸ moved)
      rw [update_idem] at later
      rw [List.map_cons, System.run, stepped]
      exact later
    case h_2 => cases moved

end Parti.Lib
