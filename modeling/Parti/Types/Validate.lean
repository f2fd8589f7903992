/-
# Types.Validate — which partitions a source accepts, and their order

`Partition.validate`, `validateLabel` and `validatePartitions` are single
left-to-right passes that stop at the first problem. An error is the message's
template with its arguments; the texts stand beside the constructors.

`Partition.compare` is the order of key tuples: element by element, and the
shorter tuple first. It ignores weight and label.
-/
import Mathlib.Data.List.Sort
import Parti.Types.Partition

namespace Parti.Types

open List

inductive PartitionError where
  /-- Text: "partition must have at least one key". -/
  | noKeys
  /-- Text: "partition key cannot be empty". -/
  | emptyKey
  /-- Text: "partition key at index %d contains invalid character '.' (dots are reserved
  separators): %q". -/
  | dotInKey (index : Nat) (key : GoString)
  /-- Text: "partition key at index %d contains whitespace: %q". -/
  | whitespaceInKey (index : Nat) (key : GoString)
  /-- Text: "label exceeds 64 bytes: %q". -/
  | longLabel (label : GoString)
  /-- Text: "label contains invalid character '.': %q". -/
  | dotInLabel (label : GoString)
  /-- Text: "label contains whitespace: %q". -/
  | whitespaceInLabel (label : GoString)
deriving DecidableEq

/-- `strings.Contains(s, ".")`. -/
def containsDot (s : GoString) : Bool := s.contains 46

/-- `strings.ContainsAny(s, " \t\n\r")`. -/
def containsWhitespace (s : GoString) : Bool := s.any ([32, 9, 10, 13].contains ·)

def validateLabel (s : GoString) : Except PartitionError Unit :=
  if s.length > 64 then .error (.longLabel s)
  else if containsDot s then .error (.dotInLabel s)
  else if containsWhitespace s then .error (.whitespaceInLabel s)
  else .ok ()

/-- The loop over the keys, from index `i` on. -/
def validateKeys (i : Nat) : List GoString → Except PartitionError Unit
  | [] => .ok ()
  | key :: rest =>
    if key = [] then .error .emptyKey
    else if containsDot key then .error (.dotInKey i key)
    else if containsWhitespace key then .error (.whitespaceInKey i key)
    else validateKeys (i + 1) rest

def Partition.validate (p : Partition) : Except PartitionError Unit :=
  if p.keys = [] then .error .noKeys
  else do
    validateKeys 0 p.keys
    validateLabel p.label

inductive PartitionsError where
  /-- Text: "invalid partition at index %d: %w". -/
  | invalid (index : Nat) (cause : PartitionError)
  /-- Text: "duplicate partition at index %d (canonical_id=%q)". -/
  | duplicate (index : Nat) (canonicalID : GoString)
deriving DecidableEq

def validateFrom (i : Nat) (seen : List GoString) : List Partition → Except PartitionsError Unit
  | [] => .ok ()
  | p :: rest =>
    match p.validate with
    | .error cause => .error (.invalid i cause)
    | .ok () =>
      if p.canonicalID ∈ seen then .error (.duplicate i p.canonicalID)
      else validateFrom (i + 1) (p.canonicalID :: seen) rest

def validatePartitions (ps : List Partition) : Except PartitionsError Unit :=
  validateFrom 0 [] ps

def compareKeys : List GoString → List GoString → Ordering
  | [], [] => .eq
  | [], _ :: _ => .lt
  | _ :: _, [] => .gt
  | a :: as, b :: bs =>
    if a = b then compareKeys as bs
    else if a < b then .lt
    else .gt

def Partition.compare (p q : Partition) : Ordering := compareKeys p.keys q.keys

/-- `slices.SortFunc` with `Compare`. -/
def sortPartitions (ps : List Partition) : List Partition :=
  ps.insertionSort fun p q => p.compare q ≠ .gt

theorem compareKeys_eq_gt : ∀ {as bs : List GoString}, compareKeys as bs = .gt ↔ bs < as
  | [], [] => by simp [compareKeys]
  | [], _ :: _ => by simp [compareKeys]
  | _ :: _, [] => by simp [compareKeys]
  | a :: as, b :: bs => by
      rw [cons_lt_cons_iff, compareKeys]
      by_cases same : a = b
      · simp [same, compareKeys_eq_gt]
      · rw [if_neg same]
        by_cases below : a < b
        · simp [below, not_lt_of_gt below, Ne.symm same]
        · have above : b < a := lt_of_le_of_ne (le_of_not_gt below) (Ne.symm same)
          simp [below, above]

theorem Partition.compare_ne_gt {p q : Partition} : p.compare q ≠ .gt ↔ p.keys ≤ q.keys := by
  rw [Partition.compare, ne_eq, compareKeys_eq_gt, not_lt]

theorem sortPartitions_sorted (ps : List Partition) :
    (sortPartitions ps).Pairwise fun p q => p.compare q ≠ .gt := by
  have total : Std.Total fun p q : Partition => p.compare q ≠ .gt :=
    ⟨fun p q => by
      simp only [Partition.compare_ne_gt]
      exact le_total _ _⟩
  have trans : IsTrans Partition fun p q => p.compare q ≠ .gt :=
    ⟨fun p q r => by
      simp only [Partition.compare_ne_gt]
      exact le_trans⟩
  exact pairwise_insertionSort _ ps

theorem sortPartitions_idem (ps : List Partition) :
    sortPartitions (sortPartitions ps) = sortPartitions ps :=
  (sortPartitions_sorted ps).insertionSort_eq

theorem sortPartitions_perm {ps qs} (perm : ps.Perm qs)
    (keyed : (qs.map Partition.keys).Nodup) : sortPartitions ps = sortPartitions qs := by
  have left := perm_insertionSort (fun p q : Partition => p.compare q ≠ .gt) ps
  have right := perm_insertionSort (fun p q : Partition => p.compare q ≠ .gt) qs
  refine List.Perm.eq_of_pairwise (fun p q mem mem' le ge => ?_) (sortPartitions_sorted ps)
    (sortPartitions_sorted qs) (left.trans (perm.trans right.symm))
  have keys : p.keys = q.keys :=
    le_antisymm (Partition.compare_ne_gt.mp le) (Partition.compare_ne_gt.mp ge)
  exact inj_on_of_nodup_map keyed (perm.subset (left.subset mem)) (right.subset mem') keys

example : sortPartitions [⟨[[98]], 1, []⟩, ⟨[[97], [97]], 2, []⟩, ⟨[[97]], 3, []⟩] =
    [⟨[[97]], 3, []⟩, ⟨[[97], [97]], 2, []⟩, ⟨[[98]], 1, []⟩] := by decide

end Parti.Types
