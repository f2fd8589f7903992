/-
# Calculator.PartitionShrink — when a shrunken partition list is trusted

The guard trusts the suspicious observation in a row that completes
`partitionShrinkConfirmationCount`. A healthy observation clears the count; trusting a
shrink does not, while it moves the baseline. So only the first shrink trusted since the
last healthy observation is confirmed by rejections against its own baseline
(`trusted_after_rejections`). The next one is trusted at sight (`glitch_trusted`).

The guard runs under `rebalanceMu`, and no other step touches its two counters
(`Steps.keeps_guard`), so the calls of a run form one sequence.
-/
import Parti.Calculator.Rebalance

namespace Parti.Calculator.Rebalance

open List

variable {T S ε : Type} {cfg : Config S ε} {c c' : Calc T}

inductive Verdict where
  /-- There was no baseline yet. -/
  | first
  | healthy
  | rejected
  | trusted
deriving DecidableEq

structure GuardCall where
  baseline : Nat
  verdict : Verdict
deriving DecidableEq

def guardVerdict (cfg : Config S ε) (c : Calc T) (observed : Nat) : Verdict :=
  if c.lastKnownPartitionCount = 0 then .first
  else if observed = 0 ∨ shrinkSuspicious observed c.lastKnownPartitionCount
      cfg.partitionShrinkConfirmationThresholdPct then
    if (partitionInputCredibilityGuard cfg c observed).2 then .rejected else .trusted
  else .healthy

def observePartitions (cfg : Config S ε) (c : Calc T) (observed : Nat) : Calc T :=
  let judged := partitionInputCredibilityGuard cfg c observed
  if judged.2 then judged.1 else { judged.1 with lastKnownPartitionCount := observed }

inductive Observes (cfg : Config S ε) (c : Calc T) (observed : Nat) : Verdict → Calc T → Prop
  | first (unset : c.lastKnownPartitionCount = 0) :
      Observes cfg c observed .first { c with lastKnownPartitionCount := observed }
  | healthy :
      Observes cfg c observed .healthy
        { c with lastKnownPartitionCount := observed, partitionShrunkObservations := 0 }
  | rejected (set : c.lastKnownPartitionCount ≠ 0) :
      Observes cfg c observed .rejected
        { c with partitionShrunkObservations := c.partitionShrunkObservations + 1 }
  | trusted (enough : cfg.partitionShrinkConfirmationCount ≤ c.partitionShrunkObservations + 1) :
      Observes cfg c observed .trusted
        { c with
          lastKnownPartitionCount := observed
          partitionShrunkObservations := c.partitionShrunkObservations + 1 }

theorem observes (cfg : Config S ε) (c : Calc T) (observed : Nat) :
    Observes cfg c observed (guardVerdict cfg c observed) (observePartitions cfg c observed) := by
  unfold guardVerdict observePartitions partitionInputCredibilityGuard
  split_ifs with unset shrunk early
  · exact .first unset
  · dsimp only
    rw [if_pos early]
    exact .rejected unset
  · dsimp only
    rw [if_neg early]
    exact .trusted (by simpa using early)
  · exact .healthy

theorem guardStep_observes (r : Run) (before : Nat) :
    (guardStep cfg c r before).1 = observePartitions cfg c r.partitions.length := by
  simp only [guardStep, observePartitions]
  split_ifs <;> rfl

theorem Steps.keeps_guard {t : T} {pc pc' : Pc} (steps : Steps cfg c t pc c' pc')
    (other : ∀ r before, pc ≠ .guarding r before) :
    c'.lastKnownPartitionCount = c.lastKnownPartitionCount ∧
      c'.partitionShrunkObservations = c.partitionShrunkObservations := by
  cases steps with
  | suspects r before | credits r before => exact absurd rfl (other r before)
  | arms r parked time =>
    unfold armLabelRecheckAfterRebalance
    split_ifs <;> exact ⟨rfl, rfl⟩
  | _ => exact ⟨rfl, rfl⟩

def observeAll (cfg : Config S ε) (c : Calc T) : List Nat → Calc T × List GuardCall
  | [] => (c, [])
  | observed :: earlier =>
    let (c, calls) := observeAll cfg c earlier
    (observePartitions cfg c observed,
      ⟨c.lastKnownPartitionCount, guardVerdict cfg c observed⟩ :: calls)

/-- No shrink has been trusted since the last healthy observation. -/
def Unconfirmed (calls : List GuardCall) : Prop :=
  ∀ g ∈ calls.takeWhile (·.verdict ≠ .healthy), g.verdict ≠ .trusted

/-- The count is of the last calls, all rejected against the present baseline. -/
structure Counted (c : Calc T) (calls : List GuardCall) : Prop where
  unset : c.lastKnownPartitionCount = 0 → c.partitionShrunkObservations = 0
  last : calls.take c.partitionShrunkObservations =
    List.replicate c.partitionShrunkObservations ⟨c.lastKnownPartitionCount, .rejected⟩

theorem counted_zero {calls} (zero : c.partitionShrunkObservations = 0) :
    Counted c calls :=
  ⟨fun _ => zero, by rw [zero]; rfl⟩

theorem Unconfirmed.earlier {g} {calls}
    (un : Unconfirmed (g :: calls)) (more : g.verdict ≠ .healthy) :
    g.verdict ≠ .trusted ∧ Unconfirmed calls := by
  simp only [Unconfirmed, takeWhile_cons, more, ne_eq, not_false_eq_true, decide_true,
    if_true, forall_mem_cons] at un
  exact un

theorem Counted.observe {calls} {v} {observed : Nat}
    (un : Unconfirmed (⟨c.lastKnownPartitionCount, v⟩ :: calls))
    (counted : Unconfirmed calls → Counted c calls) (observes : Observes cfg c observed v c') :
    Counted c' (⟨c.lastKnownPartitionCount, v⟩ :: calls) := by
  cases observes with
  | first unset => exact counted_zero ((counted (un.earlier nofun).2).unset unset)
  | healthy => exact counted_zero rfl
  | rejected set =>
    have last := (counted (un.earlier nofun).2).last
    exact ⟨fun unset => absurd unset set, by simp [replicate_succ, last]⟩
  | trusted => exact absurd rfl (un.earlier nofun).1

theorem counted_all (fresh : c.partitionShrunkObservations = 0) :
    ∀ observed, Unconfirmed (observeAll cfg c observed).2 →
      Counted (observeAll cfg c observed).1 (observeAll cfg c observed).2
  | [], _ => counted_zero fresh
  | _ :: earlier, un => Counted.observe un (counted_all fresh earlier) (observes cfg _ _)

theorem trusted_after_rejections (cfg : Config S ε) (fresh : c.partitionShrunkObservations = 0)
    (observed : List Nat) (count : Nat) (un : Unconfirmed (observeAll cfg c observed).2)
    (trusted : guardVerdict cfg (observeAll cfg c observed).1 count = .trusted) :
    (observeAll cfg c observed).2.take (cfg.partitionShrinkConfirmationCount - 1).toNat =
      List.replicate (cfg.partitionShrinkConfirmationCount - 1).toNat
        ⟨(observeAll cfg c observed).1.lastKnownPartitionCount, .rejected⟩ := by
  have last := (counted_all fresh observed un).last
  have enough : (cfg.partitionShrinkConfirmationCount - 1).toNat ≤
      (observeAll cfg c observed).1.partitionShrunkObservations := by
    have call := trusted ▸ observes cfg (observeAll cfg c observed).1 count
    generalize observePartitions cfg _ count = after at call
    cases call with
    | trusted enough => omega
  rw [← Nat.min_eq_left enough, ← take_take, last, take_replicate]

/-- The default thresholds. -/
def shrinkConfig : Config Unit Unit := ⟨50, 2, 50, 3, 0, .shared, Assignment.Labels.firstOfPool⟩

theorem trusted_after_rejections_ten :
    (observeAll shrinkConfig (emptyCalc (T := Unit)) [10, 10, 100]).2.take 2 =
      List.replicate 2 ⟨100, .rejected⟩ :=
  trusted_after_rejections shrinkConfig rfl [10, 10, 100] 10 (by unfold Unconfirmed; decide)
    (by decide)

theorem glitch_trusted :
    let (c, calls) := observeAll shrinkConfig (emptyCalc (T := Unit)) [10, 10, 10, 100]
    guardVerdict shrinkConfig c 1 = .trusted ∧ c.lastKnownPartitionCount = 10 ∧
      calls.map GuardCall.verdict = [.trusted, .rejected, .rejected, .first] := by
  decide

end Parti.Calculator.Rebalance
