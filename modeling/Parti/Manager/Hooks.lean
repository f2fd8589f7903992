/-
# Manager.Hooks — what the assignment hooks are told

`diffPartitions` compares partitions by their ID, the keys joined by dashes. Two
valid partitions can share one: `a-b` is the ID of the key `a-b`, and of the keys
`a` and `b`. `hooks_report_change_iff` says when the hooks still report exactly
the change of the key tuples.
-/
import Parti.Types.Validate

namespace Parti.Types

/-- Keys joined by `-`. -/
def Partition.id (p : Partition) : GoString :=
  [45].intercalate p.keys

end Parti.Types

namespace Parti.Manager

open Parti.Types List

/-- The partitions of `xs` with an identity that none of `ys` has. -/
def without {α : Type} [DecidableEq α] (identity : Partition → α) (xs ys : List Partition) :
    List Partition :=
  xs.filter fun p => identity p ∉ ys.map identity

/-- Added and removed. Of the two maps of the source only the keys are read. -/
def diffPartitions (oldPartitions newPartitions : List Partition) :
    List Partition × List Partition :=
  (without Partition.id newPartitions oldPartitions,
    without Partition.id oldPartitions newPartitions)

structure Hooks where
  onAssignmentChanged : Bool
  onPartitionsAssigned : Bool
  onPartitionsRevoked : Bool

inductive HookCall where
  | assignmentChanged (oldPartitions newPartitions : List Partition)
  | partitionsAssigned (added : List Partition)
  | partitionsRevoked (removed : List Partition)
deriving DecidableEq

/-- The calls of each goroutine that is started, for what was added and removed. The
error of a hook is only logged. -/
def Hooks.reports (hooks : Hooks) (oldPartitions newPartitions : List Partition)
    (diff : List Partition × List Partition) : List (List HookCall) :=
  (if hooks.onAssignmentChanged then [[.assignmentChanged oldPartitions newPartitions]] else []) ++
    if hooks.onPartitionsAssigned || hooks.onPartitionsRevoked then
      [(if diff.1 ≠ [] ∧ hooks.onPartitionsAssigned then [.partitionsAssigned diff.1] else []) ++
        if diff.2 ≠ [] ∧ hooks.onPartitionsRevoked then [.partitionsRevoked diff.2] else []]
    else []

def invokeAssignmentChangedHooks (hooks : Hooks) (oldPartitions newPartitions : List Partition) :
    List (List HookCall) :=
  hooks.reports oldPartitions newPartitions (diffPartitions oldPartitions newPartitions)

/-- A partition of `xs` whose ID is one of `ys` has its keys from there too. -/
def Apart (xs ys : List Partition) : Prop :=
  ∀ p ∈ xs, p.id ∈ ys.map Partition.id → p.keys ∈ ys.map Partition.keys

variable {xs ys : List Partition} {diff diff' : List Partition × List Partition}

theorem mem_without {α : Type} [DecidableEq α] {identity : Partition → α} {p} :
    p ∈ without identity xs ys ↔ p ∈ xs ∧ identity p ∉ ys.map identity := by
  rw [without, mem_filter, decide_eq_true_eq]

theorem without_id_eq_iff :
    without Partition.id xs ys = without Partition.keys xs ys ↔ Apart xs ys := by
  constructor
  · intro same p mem shared
    by_contra missing
    have here : p ∈ without Partition.id xs ys := same ▸ mem_without.mpr ⟨mem, missing⟩
    exact (mem_without.mp here).2 shared
  · intro apart
    refine filter_congr fun p mem => ?_
    rw [decide_eq_decide, not_iff_not]
    refine ⟨apart p mem, fun there => ?_⟩
    obtain ⟨q, mem, same⟩ := mem_map.mp there
    exact mem_map.mpr ⟨q, mem, by rw [Partition.id, Partition.id, same]⟩

theorem Hooks.reports_inj {hooks : Hooks} (set : hooks = ⟨false, true, true⟩)
    (same : hooks.reports xs ys diff = hooks.reports xs ys diff') : diff = diff' := by
  subst set
  obtain ⟨added, removed⟩ := diff
  obtain ⟨added', removed'⟩ := diff'
  cases added <;> cases removed <;> cases added' <;> cases removed' <;> simp_all [Hooks.reports]

theorem hooks_report_change_iff (oldPartitions newPartitions : List Partition) :
    (∀ hooks, invokeAssignmentChangedHooks hooks oldPartitions newPartitions =
        hooks.reports oldPartitions newPartitions
          (without Partition.keys newPartitions oldPartitions,
            without Partition.keys oldPartitions newPartitions)) ↔
      Apart newPartitions oldPartitions ∧ Apart oldPartitions newPartitions := by
  rw [← without_id_eq_iff, ← without_id_eq_iff]
  constructor
  · intro exact_
    exact Prod.mk.inj (Hooks.reports_inj rfl (exact_ ⟨false, true, true⟩))
  · rintro ⟨added, removed⟩ hooks
    rw [invokeAssignmentChangedHooks, diffPartitions, added, removed]

theorem dashed_change_unreported :
    let dashed : Partition := ⟨[[97, 45, 98]], 0, []⟩
    let split : Partition := ⟨[[97], [98]], 0, []⟩
    validatePartitions [dashed] = .ok () ∧ validatePartitions [split] = .ok () ∧
      without Partition.keys [split] [dashed] = [split] ∧
      without Partition.keys [dashed] [split] = [dashed] ∧
      invokeAssignmentChangedHooks ⟨true, true, true⟩ [dashed] [split] =
        [[.assignmentChanged [dashed] [split]], []] := by
  decide

end Parti.Manager
