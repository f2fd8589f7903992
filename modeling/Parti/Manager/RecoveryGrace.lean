/-
# Manager.RecoveryGrace — how long a leader's recovery grace lasts

A leader that leaves degraded mode raises `inRecoveryGrace` and starts a goroutine that
lowers it after `RecoveryGracePeriod`. The timer belongs to the goroutine, the flag to all
of them: nothing stops the timer of an earlier exit. So the period holds when the goroutines
of earlier exits are gone by the next one (`grace_lasts`), and a second exit inside the
first period has its own cut short (`second_grace_cut_short`).
-/
import Mathlib.Algebra.Order.Ring.Int
import Mathlib.Tactic.SplitIfs
import Parti.Lib.Threads

namespace Parti.Manager

open Lib Function

structure Grace where
  now : Int
  recoveryGraceStart : Int
  inRecoveryGrace : Bool
  /-- When the last `enterRecoveryGracePeriod` raised the flag; for the record. -/
  entered : Option Int

def Grace.isInRecoveryGrace (g : Grace) : Bool := g.inRecoveryGrace

/-- One entry of the grace period, and then the goroutine it starts. -/
inductive GracePc where
  | idle
  | entering
  | starting
  | waiting (due : Int)
  | exiting
  | clearing
  | lowering
deriving DecidableEq

inductive GraceInput where
  | enter
  | go
  | cancelled
  | tick (elapsed : Nat)

/-- `enterRecoveryGracePeriod`, its timer, and `exitRecoveryGracePeriod`. -/
def graceNext {T : Type} (period : Int) (g : Grace) (_ : T) :
    GracePc → GraceInput → Option (Turn Grace GracePc T)
  | pc, .tick elapsed => some ⟨{ g with now := g.now + elapsed }, pc, none⟩
  | .idle, .enter => some ⟨{ g with recoveryGraceStart := g.now }, .entering, none⟩
  | .entering, .go =>
    some ⟨{ g with inRecoveryGrace := true, entered := some g.now }, .starting, none⟩
  | .starting, .go => some ⟨g, .waiting (g.now + period), none⟩
  | .waiting _, .cancelled => some ⟨g, .idle, none⟩
  | .waiting due, .go => if due ≤ g.now then some ⟨g, .exiting, none⟩ else none
  | .exiting, .go => some ⟨g, if g.inRecoveryGrace then .clearing else .idle, none⟩
  | .clearing, .go => some ⟨{ g with recoveryGraceStart := 0 }, .lowering, none⟩
  | .lowering, .go => some ⟨{ g with inRecoveryGrace := false }, .idle, none⟩
  | _, _ => none

def graceProgram (T : Type) (period : Int) : Program Grace GracePc GraceInput T where
  idle pc := pc = .idle
  next := graceNext period

def graceSystem (T : Type) [DecidableEq T] (period : Int) :
    System (Pool Grace GracePc T) (T × GraceInput) :=
  (graceProgram T period).system (fun g => g.inRecoveryGrace = false ∧ g.entered = none) .idle

section Runs

variable {T : Type} {period : Int} {g : Grace}

/-- The period is entered while no goroutine of an earlier one is left. -/
def EntersAlone (s : Pool Grace GracePc T) (a : T × GraceInput) : Prop :=
  a.2 = .enter → ∀ u, s.pcs u = .idle

def Grace.Lasts (period : Int) (g : Grace) : Prop :=
  ∀ e ∈ g.entered, g.inRecoveryGrace = true ∨ e + period ≤ g.now

def GracePc.Knows (period : Int) (g : Grace) : GracePc → Prop
  | .idle | .entering => True
  | .starting => g.inRecoveryGrace = true ∧ ∀ e ∈ g.entered, e ≤ g.now
  | .waiting due => g.inRecoveryGrace = true ∧ ∀ e ∈ g.entered, e + period ≤ due
  | .exiting | .clearing | .lowering => ∀ e ∈ g.entered, e + period ≤ g.now

theorem GracePc.Knows.tick {pc : GracePc} (knows : pc.Knows period g) (elapsed : Nat) :
    pc.Knows period { g with now := g.now + elapsed } := by
  have later {e : Int} (before : e ≤ g.now) : e ≤ g.now + elapsed := by omega
  cases pc with
  | idle | entering => trivial
  | starting => exact ⟨knows.1, fun e is => later (knows.2 e is)⟩
  | waiting due => exact knows
  | exiting | clearing | lowering => exact fun e is => later (knows e is)

theorem graceNext_knows {t : T} {pc} {input} {turn}
    (lasts : g.Lasts period) (knows : pc.Knows period g)
    (moved : graceNext period g t pc input = some turn) :
    turn.cells.Lasts period ∧ turn.pc.Knows period turn.cells ∧ turn.spawned = none := by
  unfold graceNext at moved
  split at moved
  next elapsed =>
    cases moved
    refine ⟨fun e is => ?_, knows.tick elapsed, rfl⟩
    refine (lasts e is).imp_right fun past => ?_
    dsimp only
    omega
  next =>
    cases moved
    exact ⟨lasts, trivial, rfl⟩
  next =>
    cases moved
    exact ⟨fun e is => .inl rfl, ⟨rfl, fun e is => le_of_eq (Option.some.inj is).symm⟩, rfl⟩
  next =>
    cases moved
    exact ⟨lasts, ⟨knows.1, fun e is => Int.add_le_add_right (knows.2 e is) period⟩, rfl⟩
  next =>
    cases moved
    exact ⟨lasts, trivial, rfl⟩
  next due =>
    split_ifs at moved with fires
    cases moved
    exact ⟨lasts, fun e is => le_trans (knows.2 e is) fires, rfl⟩
  next =>
    cases moved
    refine ⟨lasts, ?_, rfl⟩
    dsimp only
    split
    · exact knows
    · trivial
  next =>
    cases moved
    exact ⟨lasts, knows, rfl⟩
  next =>
    cases moved
    exact ⟨fun e is => .inr (knows e is), trivial, rfl⟩
  next => cases moved

structure OneGrace (period : Int) (s : Pool Grace GracePc T) : Prop where
  lasts : s.cells.Lasts period
  one : ∀ u v, s.pcs u ≠ .idle → s.pcs v ≠ .idle → u = v
  knows : ∀ u, (s.pcs u).Knows period s.cells

variable [DecidableEq T]

theorem OneGrace.step {s s'} {a} (one : OneGrace period s) (alone : EntersAlone s a)
    (taken : (graceSystem T period).step s a = some s') : OneGrace period s' := by
  obtain ⟨t, input⟩ := a
  obtain ⟨turn, moved, -, rfl⟩ := Program.step_eq_some.mp taken
  obtain ⟨lasts, knows, quiet⟩ := graceNext_knows (t := t) one.lasts (one.knows t) moved
  have idle (stays : ∀ d, input ≠ .tick d) (u : T) (other : u ≠ t) : s.pcs u = .idle := by
    by_contra busy
    by_cases free : s.pcs t = .idle
    · simp only [graceProgram, free] at moved
      cases input with
      | enter => exact busy (alone rfl u)
      | tick d => exact stays d rfl
      | go | cancelled => cases moved
    · exact other (one.one u t busy free)
  have pool : turn.pool s.pcs t = ⟨turn.cells, Function.update s.pcs t turn.pc⟩ := by
    rw [Turn.pool, quiet]
  rw [pool]
  by_cases tick : ∃ d, input = .tick d
  · obtain ⟨d, rfl⟩ := tick
    simp only [graceProgram, graceNext] at moved
    cases moved
    rw [update_eq_self]
    exact ⟨lasts, one.one, fun u => (one.knows u).tick d⟩
  · -- everybody else is idle, before and after
    have others (u : T) (other : u ≠ t) : Function.update s.pcs t turn.pc u = .idle :=
      (update_of_ne other ..).trans (idle (fun d is => tick ⟨d, is⟩) u other)
    refine ⟨lasts, fun u v busy busy' => ?_, fun u => ?_⟩
    · rw [not_imp_comm.mp (others u) busy, not_imp_comm.mp (others v) busy']
    · dsimp only
      by_cases self : u = t
      · rw [self, update_self]
        exact knows
      · rw [others u self]
        trivial

theorem grace_lasts {s : Pool Grace GracePc T}
    (reached : Reachable (graceSystem T period) EntersAlone s) {e : Int}
    (entered : s.cells.entered = some e) (within : s.cells.now < e + period) :
    s.cells.isInRecoveryGrace = true := by
  have one : OneGrace period s := by
    refine reached.invariant (fun s fresh => ⟨?_, ?_, ?_⟩) fun _ _ _ one alone taken =>
      one.step alone taken
    · intro e is
      rw [fresh.1.2] at is
      cases is
    · exact fun u v busy => absurd (fresh.2 u) busy
    · exact fun u => by simp [fresh.2 u, GracePc.Knows]
  obtain up | past := one.lasts e entered
  · exact up
  · omega

end Runs

instance (s : Pool Grace GracePc Bool) (a : Bool × GraceInput) : Decidable (EntersAlone s a) :=
  match a with
  | (_, .enter) => decidable_of_iff (∀ u, s.pcs u = .idle) (by simp [EntersAlone])
  | (_, .go) | (_, .cancelled) | (_, .tick _) => .isTrue nofun

/-- No grace period yet. -/
def noGrace : Pool Grace GracePc Bool := ⟨⟨0, 0, false, none⟩, fun _ => .idle⟩

theorem noGrace_init : (graceSystem Bool 10).init noGrace := ⟨⟨rfl, rfl⟩, fun _ => rfl⟩

def entersGrace (t : Bool) : List (Bool × GraceInput) := [(t, .enter), (t, .go), (t, .go)]

def firesGrace (t : Bool) : List (Bool × GraceInput) :=
  [(t, .go), (t, .go), (t, .go), (t, .go)]

theorem grace_lasts_second :
    ∃ s : Pool Grace GracePc Bool, Reachable (graceSystem Bool 10) EntersAlone s ∧
      s.cells.entered = some 12 ∧ s.cells.now = 21 ∧ s.cells.isInRecoveryGrace = true := by
  obtain ⟨s, reached, entered, now⟩ := exists_reachable EntersAlone noGrace_init
    (entersGrace false ++ [(true, .tick 12)] ++ firesGrace false ++ entersGrace true ++
      [(true, .tick 9)]) (fun s => s.cells.entered = some 12 ∧ s.cells.now = 21) (by decide)
  exact ⟨s, reached, entered, now, grace_lasts reached entered (by omega)⟩

/-- The leader exits degraded mode at 0 and again at 5. The timer of the first exit ends
the second period of 10 after 5. -/
theorem second_grace_cut_short :
    ∃ s : Pool Grace GracePc Bool, Reachable (graceSystem Bool 10) Free s ∧
      s.cells.entered = some 5 ∧ s.cells.now = 10 ∧ s.cells.isInRecoveryGrace = false :=
  exists_reachable _ noGrace_init
    (entersGrace false ++ [(true, .tick 5)] ++ entersGrace true ++ [(true, .tick 5)] ++
      firesGrace false) _ (by decide)

end Parti.Manager
