/-
# Assignment.Coverage — the publish-time coverage check

`checkCoverage` compares an assignment map and the parked partitions with the
source snapshot, as sorted id sets: their intersection has to be empty, their union
the source's id set, and the raw number of partitions the size of that set.

* `checkCoverage_ok_iff`: the check passes exactly when no id occurs twice among
  the assigned and parked partitions and the ids that occur are the source's;
* `checkCoverage_exact`: the same as a count of every id.
-/
import Parti.Lib.Sorted
import Parti.Types.Partition

namespace Parti.Assignment

open Parti.Types Lib Sorted

def canonicalIDSet (parts : List Partition) : List GoString :=
  ofList (parts.map Partition.canonicalID)

def unionPartitions (assignments : GoMap (List Partition)) : List Partition :=
  assignments.entries.flatMap fun entry => entry.2

def intersectSortedIDs (a b : List GoString) : List GoString := intersect a b

def mergeSortedIDs (a b : List GoString) : List GoString := merge a b

structure CoverageMismatch where
  source : Nat
  coveredUnique : Nat
  coveredRaw : Nat
  parked : Nat
  overlap : Nat
  missing : Nat
  extra : Nat
  duplicates : Int
deriving DecidableEq

/-- Assigned and parked partitions together have to be the source, each once. -/
def checkCoverage (source : List Partition) (assignments : GoMap (List Partition))
    (parked : List Partition) : Except CoverageMismatch Unit :=
  let union := unionPartitions assignments
  let assignedIDs := canonicalIDSet union
  let parkedIDs := canonicalIDSet parked
  let expected := canonicalIDSet source
  let overlap := intersectSortedIDs assignedIDs parkedIDs
  let got := mergeSortedIDs assignedIDs parkedIDs
  let rawCount := union.length + parked.length
  if got = expected ∧ rawCount = expected.length ∧ overlap.length = 0 then
    .ok ()
  else
    .error {
      source := expected.length
      coveredUnique := got.length
      coveredRaw := rawCount
      parked := parked.length
      overlap := overlap.length
      missing := (expected.filter (· ∉ got)).length
      extra := (got.filter (· ∉ expected)).length
      duplicates := (rawCount : Int) - got.length }

def coveredIDs (assignments : GoMap (List Partition)) (parked : List Partition) :
    List GoString :=
  (unionPartitions assignments ++ parked).map Partition.canonicalID

theorem mem_canonicalIDSet {id} {parts} :
    id ∈ canonicalIDSet parts ↔ id ∈ parts.map Partition.canonicalID :=
  mem_ofList

theorem canonicalIDSet_lt (parts : List Partition) :
    (canonicalIDSet parts).Pairwise (· < ·) :=
  ofList_lt _

theorem mergeSortedIDs_eq (assignments : GoMap (List Partition)) (parked : List Partition) :
    mergeSortedIDs (canonicalIDSet (unionPartitions assignments)) (canonicalIDSet parked) =
      ofList (coveredIDs assignments parked) := by
  apply eq_of_mem_iff
  · exact merge_lt _ _ (canonicalIDSet_lt _) (canonicalIDSet_lt _)
  · exact ofList_lt _
  · intro id
    rw [mergeSortedIDs, mem_merge, mem_canonicalIDSet, mem_canonicalIDSet,
      mem_ofList, coveredIDs, List.map_append, List.mem_append]

theorem checkCoverage_eq_ok (source : List Partition) (assignments : GoMap (List Partition))
    (parked : List Partition) :
    checkCoverage source assignments parked = .ok () ↔
      ofList (coveredIDs assignments parked) = canonicalIDSet source ∧
      (coveredIDs assignments parked).length = (canonicalIDSet source).length ∧
      intersectSortedIDs (canonicalIDSet (unionPartitions assignments))
        (canonicalIDSet parked) = [] := by
  have raw : (coveredIDs assignments parked).length =
      (unionPartitions assignments).length + parked.length := by simp [coveredIDs]
  rw [← mergeSortedIDs_eq, raw, ← List.length_eq_zero_iff]
  simp only [checkCoverage]
  split
  next checks => simpa using checks
  next checks => simpa using checks

theorem checkCoverage_ok_iff (source : List Partition) (assignments : GoMap (List Partition))
    (parked : List Partition) :
    checkCoverage source assignments parked = .ok () ↔
      (coveredIDs assignments parked).Nodup ∧
        ∀ id, id ∈ coveredIDs assignments parked ↔ id ∈ source.map Partition.canonicalID := by
  rw [checkCoverage_eq_ok]
  constructor
  · rintro ⟨sameSet, count, _⟩
    refine ⟨nodup_of_length (by rw [count, sameSet]), fun id => ?_⟩
    rw [← mem_ofList, sameSet, mem_canonicalIDSet]
  · rintro ⟨nodup, same⟩
    have sameSet : ofList (coveredIDs assignments parked) = canonicalIDSet source :=
      eq_of_mem_iff (ofList_lt _) (canonicalIDSet_lt _) fun id => by
        rw [mem_ofList, mem_canonicalIDSet]
        exact same id
    refine ⟨sameSet, by rw [length_of_nodup nodup, sameSet], ?_⟩
    rw [List.eq_nil_iff_forall_not_mem]
    intro id both
    rw [intersectSortedIDs, mem_intersect _ _ (canonicalIDSet_lt _) (canonicalIDSet_lt _),
      mem_canonicalIDSet, mem_canonicalIDSet] at both
    rw [coveredIDs, List.map_append] at nodup
    exact (List.nodup_append.mp nodup).2.2 id both.1 id both.2 rfl

theorem checkCoverage_exact (source : List Partition) (assignments : GoMap (List Partition))
    (parked : List Partition) :
    checkCoverage source assignments parked = .ok () ↔
      ∀ id, (coveredIDs assignments parked).count id =
        if id ∈ source.map Partition.canonicalID then 1 else 0 := by
  rw [checkCoverage_ok_iff]
  constructor
  · rintro ⟨nodup, same⟩ id
    rw [nodup.count, if_congr (same id) rfl rfl]
  · intro counts
    refine ⟨List.nodup_iff_count_le_one.mpr fun id => ?_, fun id => ?_⟩
    · rw [counts id]
      split <;> omega
    · rw [← List.count_pos_iff, counts id]
      split <;> simp_all

end Parti.Assignment
