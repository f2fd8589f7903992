/-
# Strategy.RoundRobin — the workers take the partitions in turn

`Assign` sorts the workers and the partitions and gives the `i`-th partition to the worker
at `i` modulo their number. `round_robin_balanced`: with distinct workers and distinct key
tuples every partition goes to one worker, no worker has two more than another, and neither
list's order matters. The last rests on `Partition.Compare` being a total order of key
tuples, so that there is one sorted list.
-/
import Mathlib.Data.Int.CardIntervalMod
import Parti.Strategy.WeightedConsistentHash

namespace Parti.Strategy.RoundRobin

open Parti.Types Lib List

def turn (sortedWorkers : List GoString) (item : Partition × Nat) : GoString × Partition :=
  (sortedWorkers.getD (item.2 % sortedWorkers.length) [], item.1)

def distribute (sortedWorkers : List GoString) (sortedPartitions : List Partition) :
    AList fun _ : GoString => List Partition :=
  (sortedPartitions.zipIdx.map (turn sortedWorkers)).foldl
    (fun assignments pair => addTo assignments pair.1 [pair.2])
    (named sortedWorkers (sortedWorkers.map fun _ => []))

def assign (workers : List GoString) (partitions : List Partition) :
    Except StrategyError (AList fun _ : GoString => List Partition) :=
  if workers = [] then .error .noWorkers
  else .ok (distribute (workers.insertionSort (· ≤ ·)) (sortPartitions partitions))

theorem turn_snd (workers : List GoString) (items : List Partition) :
    (items.zipIdx.map (turn workers)).map Prod.snd = items := by
  simp [turn, Function.comp_def]

variable {workers : List GoString}

theorem count_turns (distinct : workers.Nodup) {j : Nat} (inside : j < workers.length)
    (items : List Partition) :
    (((items.zipIdx.map (turn workers)).filter fun pair => workers[j] = pair.1).map
      Prod.snd).length = items.length / workers.length +
        if j < items.length % workers.length then 1 else 0 := by
  have turns (i : Nat) :
      (workers[j] = workers.getD (i % workers.length) []) ↔ i ≡ j [MOD workers.length] := by
    have bound := Nat.mod_lt i (Nat.zero_lt_of_lt inside)
    rw [getD_eq_getElem?_getD, List.getElem?_eq_getElem bound, Option.getD_some, distinct.getElem_inj_iff, Nat.ModEq,
      Nat.mod_eq_of_lt inside, eq_comm]
  have count := Nat.count_modEq_card (Nat.zero_lt_of_lt inside) j (b := items.length)
  rw [Nat.mod_eq_of_lt inside, Nat.count_eq_card_filter_range] at count
  rw [← count, length_map, ← countP_eq_length_filter, countP_map]
  have snds : items.zipIdx.map Prod.snd = List.range items.length := by
    rw [zipIdx_map_snd, range_eq_range']
  calc items.zipIdx.countP ((fun pair => decide (workers[j] = pair.1)) ∘ turn workers)
      = (items.zipIdx.map Prod.snd).countP (fun i => decide (i ≡ j [MOD workers.length])) := by
        simp only [countP_map, Function.comp_def, turn, turns]
    _ = _ := by rw [snds, countP_eq_length_filter]; rfl

section Distribute

variable (distinct : workers.Nodup) (items : List Partition)
include distinct

theorem held_start : held (named workers (workers.map fun _ => ([] : List Partition))) = [] := by
  refine flatMap_eq_nil_iff.mpr fun entry mem => ?_
  have value := (named_values distinct (by simp)).subset (mem_map_of_mem mem)
  obtain ⟨_, -, empty⟩ := mem_map.mp value
  exact empty.symm

theorem held_distribute : (held (distribute workers items)).Perm items := by
  have given := held_foldl_addTo (items.zipIdx.map (turn workers))
    (named workers (workers.map fun _ => []))
  rwa [held_start distinct, nil_append, turn_snd] at given

theorem listAt_distribute (w : GoString) : listAt (distribute workers items) w =
    ((items.zipIdx.map (turn workers)).filter fun pair => w = pair.1).map Prod.snd := by
  have start : listAt (named workers (workers.map fun _ => ([] : List Partition))) w = [] := by
    refine eq_nil_iff_forall_not_mem.mpr fun p mem => ?_
    have := mem_held.mpr ⟨w, mem⟩
    rw [held_start distinct] at this
    cases this
  rw [distribute, listAt_foldl_addTo, start, nil_append]

theorem mem_distribute (some_ : workers ≠ []) (once : items.Nodup) {p} (mem : p ∈ items) :
    ∃ w ∈ workers, ∀ v, p ∈ listAt (distribute workers items) v ↔ v = w := by
  rw [← turn_snd workers items] at mem once
  obtain ⟨⟨w, _⟩, pair, rfl⟩ := mem_map.mp mem
  refine ⟨w, ?_, fun v => ?_⟩
  · obtain ⟨⟨q, i⟩, -, is⟩ := mem_map.mp pair
    have bound := Nat.mod_lt i (length_pos_iff.mpr some_)
    have named : workers[i % workers.length] = w := by
      simpa [turn, List.getElem?_eq_getElem bound] using congrArg Prod.fst is
    exact named ▸ getElem_mem bound
  · rw [listAt_distribute distinct, mem_map]
    constructor
    · rintro ⟨other, there, same⟩
      obtain ⟨there, named⟩ := mem_filter.mp there
      rw [inj_on_of_nodup_map once there pair same] at named
      exact of_decide_eq_true named
    · rintro rfl
      exact ⟨_, mem_filter.mpr ⟨pair, decide_eq_true rfl⟩, rfl⟩

end Distribute

theorem round_robin_balanced {partitions} (distinct : workers.Nodup)
    (keyed : (partitions.map Partition.keys).Nodup) :
    (∀ ws ps, ws.Perm workers → ps.Perm partitions → assign ws ps = assign workers partitions) ∧
    match assign workers partitions with
    | .error _ => workers = []
    | .ok assignments =>
      (held assignments).Perm partitions ∧
      (∀ p ∈ partitions, ∃ w ∈ workers, ∀ v, p ∈ listAt assignments v ↔ v = w) ∧
      ∀ w ∈ workers, ∀ v ∈ workers,
        (listAt assignments w).length ≤ (listAt assignments v).length + 1 := by
  have sorted := perm_insertionSort (· ≤ ·) workers
  refine ⟨fun ws ps perm perm' => ?_, ?_⟩
  · have same : ws.insertionSort (· ≤ ·) = workers.insertionSort (· ≤ ·) :=
      ((perm_insertionSort _ ws).trans (perm.trans sorted.symm)).eq_of_pairwise'
        (pairwise_insertionSort _ _) (pairwise_insertionSort _ _)
    have empty : ws = [] ↔ workers = [] := by
      rw [← length_eq_zero_iff, perm.length_eq, length_eq_zero_iff]
    simp only [assign, same, sortPartitions_perm perm' keyed, empty]
  by_cases some_ : workers = []
  · simp only [assign, if_pos some_]
    exact some_
  · have distinct' := sorted.nodup_iff.mpr distinct
    have items : (sortPartitions partitions).Perm partitions := perm_insertionSort _ _
    have once := items.nodup_iff.mpr keyed.of_map
    simp only [assign, if_neg some_]
    refine ⟨(held_distribute distinct' _).trans items, fun p mem => ?_, fun w mem v mem' => ?_⟩
    · obtain ⟨w, here, only_⟩ := mem_distribute distinct' _
        (fun none_ => some_ (none_ ▸ sorted).nil_eq.symm) once (items.symm.subset mem)
      exact ⟨w, sorted.subset here, only_⟩
    · obtain ⟨j, inside, rfl⟩ := getElem_of_mem (sorted.symm.subset mem)
      obtain ⟨k, inside', rfl⟩ := getElem_of_mem (sorted.symm.subset mem')
      rw [listAt_distribute distinct', listAt_distribute distinct', count_turns distinct' inside,
        count_turns distinct' inside']
      split <;> split <;> omega

theorem round_robin_balanced_three :
    ∃ assignments, assign [[98], [97]] [⟨[[99]], 1, []⟩, ⟨[[97]], 1, []⟩, ⟨[[97], [98]], 1, []⟩] =
        .ok assignments ∧ (listAt assignments [97]).length = 2 ∧
      ∀ ws : List GoString, ws.Perm [[98], [97]] →
        assign ws [⟨[[99]], 1, []⟩, ⟨[[97]], 1, []⟩, ⟨[[97], [98]], 1, []⟩] = .ok assignments :=
  ⟨_, rfl, by decide, fun ws perm =>
    (round_robin_balanced (by decide) (by decide)).1 ws _ perm (.refl _)⟩

end Parti.Strategy.RoundRobin
