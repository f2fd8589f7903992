/-
# Strategy.WeightedConsistentHash — assigning weighted partitions

`Assign` places every partition in the bucket of a worker: all by the ring when their
weights are equal; otherwise the extreme ones round-robin, heaviest first, and the rest
by the ring, unless the worker found there is overloaded, in which case the lightest
worker takes the partition.
The ring is cached for the worker list and settings it was built from.

Thresholds are floating-point numbers, as in the source. Weights are integers, whose
sums are taken to fit in an `int64`.

* `assign_after_calls`: neither the cached ring nor the order of the workers shows;
* `assign_partitions_work`: after any earlier calls, the buckets are a partition of
  the input.
-/
import Parti.Lib.Buckets
import Parti.Strategy.Ring
import Parti.Types.Validate

namespace Parti.Strategy

open Parti.Types List
open Lib (place place_length place_perm named named_values mem_named)

inductive StrategyError where
  /-- Text: "no workers available for assignment: %w". -/
  | noWorkers

/-! ## Settings -/

structure Settings where
  virtualNodes : Int
  hashSeed : UInt64
  overloadThreshold : Float
  extremeThreshold : Float
  minPartitionCountFactor : Float
  defaultWeight : Int

def Settings.default : Settings where
  virtualNodes := 150
  hashSeed := 0
  overloadThreshold := 1.2
  extremeThreshold := 20.0
  minPartitionCountFactor := 0.3
  defaultWeight := 1

inductive WeightedOption where
  | virtualNodes (nodes : Int)
  | hashSeed (seed : UInt64)
  | overloadThreshold (threshold : Float)
  | extremeThreshold (threshold : Float)
  | defaultWeight (weight : Int)
  | minPartitionCount (factor : Float)

def WeightedOption.apply (s : Settings) : WeightedOption → Settings
  | .virtualNodes nodes => { s with virtualNodes := nodes }
  | .hashSeed seed => { s with hashSeed := seed }
  | .overloadThreshold threshold => { s with overloadThreshold := threshold }
  | .extremeThreshold threshold => { s with extremeThreshold := threshold }
  | .defaultWeight weight => { s with defaultWeight := weight }
  | .minPartitionCount factor => { s with minPartitionCountFactor := factor }

/-- Every setting that is too low is raised to its minimum. -/
def normalizeConfig (s : Settings) : Settings where
  virtualNodes := if s.virtualNodes < 1 then 1 else s.virtualNodes
  hashSeed := s.hashSeed
  overloadThreshold := if s.overloadThreshold < 1.1 then 1.1 else s.overloadThreshold
  extremeThreshold := if s.extremeThreshold < 1.5 then 1.5 else s.extremeThreshold
  minPartitionCountFactor := s.minPartitionCountFactor
  defaultWeight := if s.defaultWeight < 1 then 1 else s.defaultWeight

theorem normalizeConfig_virtualNodes (s : Settings) : 1 ≤ (normalizeConfig s).virtualNodes := by
  simp only [normalizeConfig]
  split <;> omega

/-! ## The strategy object -/

section Strategy

variable (x : Xxh3)

structure RingCache where
  cachedWorkers : List GoString
  cachedVirtual : Int
  cachedSeed : UInt64
  cachedRing : Ring
  built : cachedRing = newRing x cachedVirtual.toNat cachedWorkers cachedSeed

structure WeightedConsistentHash extends Settings where
  cache : Option (RingCache x)
  normal : 1 ≤ virtualNodes

def newWeightedConsistentHash (options : List WeightedOption) : WeightedConsistentHash x where
  toSettings := normalizeConfig (options.foldl WeightedOption.apply .default)
  cache := none
  normal := normalizeConfig_virtualNodes _

structure PartitionEntry where
  partition : Partition
  weight : Int

variable {x}

namespace WeightedConsistentHash

def cacheHit (wch : WeightedConsistentHash x) (sortedWorkers : List GoString) (c : RingCache x) :
    Bool :=
  c.cachedVirtual == wch.virtualNodes && c.cachedSeed == wch.hashSeed &&
    decide (c.cachedWorkers = sortedWorkers)

def buildRing (wch : WeightedConsistentHash x) (sortedWorkers : List GoString) : RingCache x where
  cachedWorkers := sortedWorkers
  cachedVirtual := wch.virtualNodes
  cachedSeed := wch.hashSeed
  cachedRing := newRing x wch.virtualNodes.toNat sortedWorkers wch.hashSeed
  built := rfl

def getOrBuildRing (wch : WeightedConsistentHash x) (sortedWorkers : List GoString) :
    Ring × WeightedConsistentHash x :=
  match wch.cache.filter (wch.cacheHit sortedWorkers) with
  | some c => (c.cachedRing, wch)
  | none =>
    let c := wch.buildRing sortedWorkers
    (c.cachedRing, { wch with cache := some c })

end WeightedConsistentHash

end Strategy

namespace Settings

def effectiveWeight (s : Settings) (weight : Int) : Int :=
  if weight > 0 then weight else s.defaultWeight

def analyzeWeights (s : Settings) (partitions : List Partition) : Int × Bool :=
  let weights := partitions.map fun p => s.effectiveWeight p.weight
  (weights.foldl (fun total weight => total + weight) 0,
    weights.all fun weight => weight == weights.headD 0)

end Settings

structure DistributionThresholds where
  extremeCutoff : Float
  maxWorkerWeight : Float

def computeThresholds (totalWeight : Int) (partitionCount workerCount : Nat)
    (extremeMultiplier overloadMultiplier : Float) : DistributionThresholds :=
  let average (count : Nat) : Float :=
    if count > 0 then Float.ofInt totalWeight / Float.ofNat count else 0
  { extremeCutoff := average partitionCount * extremeMultiplier
    maxWorkerWeight := average workerCount * overloadMultiplier }

def isExtreme (extremeCutoff : Float) (entry : PartitionEntry) : Bool :=
  decide (extremeCutoff > 0) && decide (Float.ofInt entry.weight > extremeCutoff)

/-- Extremes and normals, each in the order of the input. -/
def splitPartitions (s : Settings) (partitions : List Partition) (extremeCutoff : Float) :
    List PartitionEntry × List PartitionEntry :=
  (partitions.map fun p => ⟨p, s.effectiveWeight p.weight⟩).partition (isExtreme extremeCutoff)

/-! ## The three loops

Each takes the buckets so far. An index that is not one of theirs would be a
panic of the source; `place` ignores it, and the lemmas below show that there is
none. -/

section Loops

variable (x : Xxh3)

def assignEqualWeightPartitionsByRingIndex (ring : Ring) :
    List Partition → List (List Partition) → Except StrategyError (List (List Partition))
  | [], buckets => .ok buckets
  | p :: rest, buckets =>
    match ring.getNodeIndexForPartition x p with
    | none => .error .noWorkers
    | some idx => assignEqualWeightPartitionsByRingIndex ring rest (place buckets idx p)

/-- Heaviest first, and by keys among equals. -/
def sortExtremes (extremes : List PartitionEntry) : List PartitionEntry :=
  extremes.insertionSort fun a b =>
    if a.weight = b.weight then a.partition.compare b.partition ≠ .gt else a.weight > b.weight

/-- What the weighted loops carry: the buckets and the load of each worker. -/
structure Loaded where
  buckets : List (List Partition)
  workerLoad : List Int

def Loaded.add (s : Loaded) (idx : Nat) (entry : PartitionEntry) : Loaded where
  buckets := place s.buckets idx entry.partition
  workerLoad := s.workerLoad.modify idx (· + entry.weight)

def assignExtremesFrom (workerCount i : Nat) : List PartitionEntry → Loaded → Loaded
  | [], s => s
  | entry :: rest, s => assignExtremesFrom workerCount (i + 1) rest (s.add (i % workerCount) entry)

def assignExtremePartitionsIndexed (extremes : List PartitionEntry) (workerCount : Nat)
    (s : Loaded) : Loaded :=
  assignExtremesFrom workerCount 0 (sortExtremes extremes) s

def findLightestFrom (i lightestIdx : Nat) (minLoad : Int) : List Int → Nat
  | [] => lightestIdx
  | load :: rest =>
    if load < minLoad then findLightestFrom (i + 1) i load rest
    else findLightestFrom (i + 1) lightestIdx minLoad rest

def findLightestWorkerIndexed : List Int → Nat
  | [] => 0
  | load :: rest => findLightestFrom 1 0 load rest

def overloaded (maxWorkerWeight : Float) (workerLoad : List Int) (idx : Nat) (weight : Int) : Bool :=
  decide (maxWorkerWeight > 0) &&
    decide (Float.ofInt ((workerLoad.getD idx 0) + weight) > maxWorkerWeight)

/-- The worker found on the ring is over its cap and has its minimum of partitions. -/
def sheds (maxWorkerWeight : Float) (minPartitionCount : Int) (s : Loaded) (idx : Nat)
    (entry : PartitionEntry) : Bool :=
  overloaded maxWorkerWeight s.workerLoad idx entry.weight &&
    decide (((s.buckets.getD idx []).length : Int) ≥ minPartitionCount)

/-- Also counts the partitions that the lightest worker takes over its cap. -/
def assignNormalPartitionsByRingIndex (ring : Ring) (maxWorkerWeight : Float)
    (minPartitionCount : Int) :
    List PartitionEntry → Loaded → Nat → Except StrategyError (Loaded × Nat)
  | [], s, overflowCount => .ok (s, overflowCount)
  | entry :: rest, s, overflowCount =>
    match ring.getNodeIndexForPartition x entry.partition with
    | none => .error .noWorkers
    | some ringIdx =>
      let shed := sheds maxWorkerWeight minPartitionCount s ringIdx entry
      let idx := if shed then findLightestWorkerIndexed s.workerLoad else ringIdx
      let overflows := shed && overloaded maxWorkerWeight s.workerLoad idx entry.weight
      assignNormalPartitionsByRingIndex ring maxWorkerWeight minPartitionCount rest
        (s.add idx entry) (overflowCount + if overflows then 1 else 0)

end Loops

/-! ## Assign -/

section Assign

variable {x : Xxh3}

abbrev AssignResult := Except StrategyError (AList fun _ : GoString => List Partition)

/-- Step 9's floor: a share of the average number of partitions. -/
def minPartitionCount (s : Settings) (partitionCount workerCount : Nat) : Int :=
  if decide (s.minPartitionCountFactor > 0) && decide (workerCount > 0) then
    let avgCount := Float.ofNat partitionCount / Float.ofNat workerCount
    (avgCount * s.minPartitionCountFactor).toInt64.toInt
  else 0

def assignBuckets (x : Xxh3) (s : Settings) (ring : Ring) (workerCount : Nat)
    (partitions : List Partition) : Except StrategyError (List (List Partition)) := do
  let buckets := List.replicate workerCount []
  let (totalWeight, allEqual) := s.analyzeWeights partitions
  if allEqual then assignEqualWeightPartitionsByRingIndex x ring partitions buckets
  else
    let thresholds := computeThresholds totalWeight partitions.length workerCount
      s.extremeThreshold s.overloadThreshold
    let (extremes, normals) := splitPartitions s partitions thresholds.extremeCutoff
    let loaded := assignExtremePartitionsIndexed extremes workerCount
      ⟨buckets, List.replicate workerCount 0⟩
    let (loaded, _) ← assignNormalPartitionsByRingIndex x ring thresholds.maxWorkerWeight
      (minPartitionCount s partitions.length workerCount) normals loaded 0
    return loaded.buckets

def WeightedConsistentHash.assign (wch : WeightedConsistentHash x) (workers : List GoString)
    (partitions : List Partition) : AssignResult × WeightedConsistentHash x :=
  if workers = [] then (.error .noWorkers, wch)
  else
    let sortedWorkers := workers.insertionSort (· ≤ ·)
    if partitions = [] then
      (.ok (named sortedWorkers (List.replicate sortedWorkers.length [])), wch)
    else
      let (ring, wch) := wch.getOrBuildRing sortedWorkers
      ((assignBuckets x wch.toSettings ring sortedWorkers.length partitions).map
        (named sortedWorkers), wch)

def WeightedConsistentHash.after (wch : WeightedConsistentHash x)
    (calls : List (List GoString × List Partition)) : WeightedConsistentHash x :=
  calls.foldl (fun wch call => (wch.assign call.1 call.2).2) wch

end Assign

/-! ## Where the loops place -/

section Placing

variable {x : Xxh3} {count : Nat} {items : List Partition} {ring : Ring}

structure Takes (buckets buckets' : List (List Partition)) (items : List Partition) : Prop where
  length : buckets'.length = buckets.length
  perm : buckets'.flatten.Perm (items ++ buckets.flatten)

theorem Takes.refl (buckets : List (List Partition)) : Takes buckets buckets [] :=
  ⟨rfl, .refl _⟩

theorem Takes.place {buckets buckets'} {idx : Nat} {p}
    (valid : idx < buckets.length) (later : Takes (place buckets idx p) buckets' items) :
    Takes buckets buckets' (p :: items) where
  length := by rw [later.length, place_length]
  perm := by
    have placed := (place_perm p valid).append_left items
    exact (later.perm.trans placed).trans perm_middle

theorem Takes.trans {first second third} {items'}
    (one : Takes first second items) (two : Takes second third items') :
    Takes first third (items' ++ items) where
  length := two.length.trans one.length
  perm := by
    rw [append_assoc]
    exact two.perm.trans (one.perm.append_left items')

def Serves (x : Xxh3) (ring : Ring) (count : Nat) : Prop :=
  ∀ p : Partition, p.keys ≠ [] → ∃ idx, ring.getNodeIndexForPartition x p = some idx ∧ idx < count

theorem newRing_serves {workers} {virtualNodes : Nat} {seed : UInt64}
    (distinct : workers.Nodup) (some_worker : workers ≠ []) (some_node : 0 < virtualNodes) :
    Serves x (newRing x virtualNodes workers seed) workers.length := by
  intro p keys
  obtain ⟨node, member, found⟩ :=
    getNodeIndexForPartition_mem (x := x) keys (newRing_nonempty some_worker some_node seed)
  exact ⟨node.workerIdx, found, newRing_valid distinct seed node member⟩

theorem assignEqual_takes (partitions : List Partition) (buckets : List (List Partition))
    (serves : Serves x ring buckets.length) (keyed : ∀ p ∈ partitions, p.keys ≠ []) :
    ∃ buckets', assignEqualWeightPartitionsByRingIndex x ring partitions buckets = .ok buckets' ∧
      Takes buckets buckets' partitions := by
  induction partitions generalizing buckets with
  | nil => exact ⟨buckets, rfl, .refl buckets⟩
  | cons p rest ih =>
    obtain ⟨idx, found, valid⟩ := serves p (keyed p mem_cons_self)
    obtain ⟨buckets', ok, takes⟩ := ih (place buckets idx p) (by rw [place_length]; exact serves)
      (fun q member => keyed q (mem_cons_of_mem p member))
    refine ⟨buckets', ?_, .place valid takes⟩
    rw [assignEqualWeightPartitionsByRingIndex, found]
    exact ok

theorem assignExtremesFrom_takes {workerCount : Nat} (some_worker : 0 < workerCount)
    (entries : List PartitionEntry) (i : Nat) (s : Loaded) (buckets : s.buckets.length = workerCount)
    (loads : s.workerLoad.length = workerCount) :
    Takes s.buckets (assignExtremesFrom workerCount i entries s).buckets
        (entries.map PartitionEntry.partition) ∧
      (assignExtremesFrom workerCount i entries s).workerLoad.length = workerCount := by
  induction entries generalizing i s with
  | nil => exact ⟨.refl s.buckets, loads⟩
  | cons entry rest ih =>
    have valid : i % workerCount < s.buckets.length := by
      rw [buckets]
      exact Nat.mod_lt i some_worker
    obtain ⟨takes, loads'⟩ := ih (i + 1) (s.add (i % workerCount) entry)
      (by simp [Loaded.add, buckets]) (by simp [Loaded.add, loads])
    exact ⟨.place valid takes, loads'⟩

theorem findLightestFrom_lt (rest : List Int) (i lightestIdx : Nat) (minLoad : Int)
    (ends : i + rest.length ≤ count) (valid : lightestIdx < count) :
    findLightestFrom i lightestIdx minLoad rest < count := by
  induction rest generalizing i lightestIdx minLoad with
  | nil => exact valid
  | cons load rest ih =>
    rw [length_cons] at ends
    simp only [findLightestFrom]
    split
    next => exact ih (i + 1) i load (by omega) (by omega)
    next => exact ih (i + 1) lightestIdx minLoad (by omega) valid

theorem findLightestWorkerIndexed_lt {workerLoad} (some_worker : 0 < workerLoad.length) :
    findLightestWorkerIndexed workerLoad < workerLoad.length := by
  cases workerLoad with
  | nil => simp at some_worker
  | cons load rest =>
    refine findLightestFrom_lt rest 1 0 load ?_ some_worker
    rw [length_cons]
    omega

theorem assignNormal_takes (serves : Serves x ring count) (maxWorkerWeight : Float) (floor : Int)
    (entries : List PartitionEntry) (s : Loaded) (overflowCount : Nat)
    (buckets : s.buckets.length = count) (loads : s.workerLoad.length = count)
    (keyed : ∀ e ∈ entries, e.partition.keys ≠ []) :
    ∃ s' overflowCount', assignNormalPartitionsByRingIndex x ring maxWorkerWeight floor entries s
        overflowCount = .ok (s', overflowCount') ∧
      Takes s.buckets s'.buckets (entries.map PartitionEntry.partition) := by
  induction entries generalizing s overflowCount with
  | nil => exact ⟨s, overflowCount, rfl, .refl s.buckets⟩
  | cons entry rest ih =>
    obtain ⟨ringIdx, found, on_ring⟩ := serves entry.partition (keyed entry mem_cons_self)
    rw [assignNormalPartitionsByRingIndex, found]
    dsimp only
    generalize idx_eq : (if sheds maxWorkerWeight floor s ringIdx entry = true then
      findLightestWorkerIndexed s.workerLoad else ringIdx) = idx
    -- the ring's worker or the lightest one: both exist
    have valid : idx < count := by
      rw [← idx_eq]
      split
      next =>
        rw [← loads]
        exact findLightestWorkerIndexed_lt (by omega)
      next => exact on_ring
    obtain ⟨s', overflowCount', ok, takes⟩ := ih (s.add idx entry) _
      (by simp [Loaded.add, buckets]) (by simp [Loaded.add, loads])
      (fun e member => keyed e (mem_cons_of_mem entry member))
    exact ⟨s', overflowCount', ok, .place (by omega) takes⟩

theorem splitPartitions_perm (s : Settings) (partitions : List Partition) (extremeCutoff : Float) :
    ((splitPartitions s partitions extremeCutoff).2.map PartitionEntry.partition ++
      (sortExtremes (splitPartitions s partitions extremeCutoff).1).map
        PartitionEntry.partition).Perm partitions := by
  have split := filter_append_perm (isExtreme extremeCutoff)
    (partitions.map fun p => (⟨p, s.effectiveWeight p.weight⟩ : PartitionEntry))
  have back : (partitions.map fun p => (⟨p, s.effectiveWeight p.weight⟩ : PartitionEntry)).map
      PartitionEntry.partition = partitions := by
    simp [Function.comp_def]
  have sorted := (perm_insertionSort (fun a b : PartitionEntry =>
    if a.weight = b.weight then a.partition.compare b.partition ≠ .gt else a.weight > b.weight)
    (splitPartitions s partitions extremeCutoff).1).map PartitionEntry.partition
  have all := split.map PartitionEntry.partition
  rw [back, map_append] at all
  simp only [splitPartitions, partition_eq_filter_filter] at sorted ⊢
  exact ((sorted.append_left _).trans perm_append_comm).trans all

theorem assignBuckets_takes {s} {partitions}
    (serves : Serves x ring count) (some_worker : 0 < count) (keyed : ∀ p ∈ partitions, p.keys ≠ []) :
    ∃ buckets, assignBuckets x s ring count partitions = .ok buckets ∧
      Takes (List.replicate count []) buckets partitions := by
  have long : (List.replicate count ([] : List Partition)).length = count := by simp
  simp only [assignBuckets]
  split
  next => exact assignEqual_takes partitions _ (by rw [long]; exact serves) keyed
  next =>
    generalize (computeThresholds (s.analyzeWeights partitions).1 partitions.length count
      s.extremeThreshold s.overloadThreshold) = thresholds
    have lossless := splitPartitions_perm s partitions thresholds.extremeCutoff
    generalize splitPartitions s partitions thresholds.extremeCutoff = parts at lossless ⊢
    obtain ⟨extremes, normals⟩ := parts
    dsimp only at lossless ⊢
    obtain ⟨first, loads⟩ := assignExtremesFrom_takes some_worker (sortExtremes extremes) 0
      ⟨List.replicate count [], List.replicate count 0⟩ long (by simp)
    have keyed' : ∀ e ∈ normals, e.partition.keys ≠ [] := fun e member =>
      keyed e.partition (lossless.mem_iff.mp
        (mem_append_left _ (mem_map_of_mem member)))
    obtain ⟨s', overflowCount, ok, second⟩ := assignNormal_takes serves
      thresholds.maxWorkerWeight (minPartitionCount s partitions.length count) normals
      (assignExtremePartitionsIndexed extremes count _) 0 (first.length.trans long) loads keyed'
    have both := first.trans second
    refine ⟨s'.buckets, ?_, both.length, both.perm.trans (lossless.append_right _)⟩
    rw [ok]
    rfl

end Placing

/-! ## The cache and the result -/

variable {x : Xxh3}

/-- **A cached ring is the one that would be built.** -/
theorem WeightedConsistentHash.getOrBuildRing_fst (wch : WeightedConsistentHash x)
    (sortedWorkers : List GoString) :
    (wch.getOrBuildRing sortedWorkers).1 =
      newRing x wch.virtualNodes.toNat sortedWorkers wch.hashSeed := by
  unfold getOrBuildRing
  split
  next c hit =>
    obtain ⟨_, matched⟩ := Option.filter_eq_some_iff.mp hit
    simp only [cacheHit, Bool.and_eq_true, beq_iff_eq, decide_eq_true_eq] at matched
    obtain ⟨⟨nodes, seed⟩, workers⟩ := matched
    rw [c.built, nodes, seed, workers]
  next => rfl

namespace WeightedConsistentHash

theorem getOrBuildRing_settings (wch : WeightedConsistentHash x)
    (sortedWorkers : List GoString) :
    (wch.getOrBuildRing sortedWorkers).2.toSettings = wch.toSettings := by
  unfold getOrBuildRing
  split <;> rfl

theorem after_settings (wch : WeightedConsistentHash x) :
    ∀ calls, (wch.after calls).toSettings = wch.toSettings
  | [] => rfl
  | (workers, partitions) :: calls => by
    refine (after_settings _ calls).trans ?_
    simp only [assign]
    split_ifs
    · rfl
    · rfl
    · exact wch.getOrBuildRing_settings _

theorem assign_after_calls (options : List WeightedOption)
    (earlier : List (List GoString × List Partition)) (workers : List GoString)
    (partitions : List Partition) :
    (((newWeightedConsistentHash x options).after earlier).assign workers partitions).1 =
      ((newWeightedConsistentHash x options).assign (workers.insertionSort (· ≤ ·))
        partitions).1 := by
  have settings := (newWeightedConsistentHash x options).after_settings earlier
  have sorted := (pairwise_insertionSort (· ≤ ·) workers).insertionSort_eq
  have empty : workers.insertionSort (· ≤ ·) = [] ↔ workers = [] := by
    rw [← length_eq_zero_iff, length_insertionSort, length_eq_zero_iff]
  simp only [assign, sorted, empty]
  split_ifs
  · rfl
  · rfl
  · simp only [getOrBuildRing_fst, getOrBuildRing_settings, settings]

end WeightedConsistentHash

theorem WeightedConsistentHash.assign_ok (wch : WeightedConsistentHash x) {workers}
    {partitions} (some_worker : workers ≠ []) (distinct : workers.Nodup)
    (keyed : ∀ p ∈ partitions, p.keys ≠ []) :
    ∃ buckets, (wch.assign workers partitions).1 =
        .ok (named (workers.insertionSort (· ≤ ·)) buckets) ∧
      buckets.length = workers.length ∧ buckets.flatten.Perm partitions := by
  have count : (workers.insertionSort (· ≤ ·)).length = workers.length :=
    length_insertionSort _ _
  have sorted_distinct : (workers.insertionSort (· ≤ ·)).Nodup :=
    (perm_insertionSort _ _).nodup_iff.mpr distinct
  have sorted_some : workers.insertionSort (· ≤ ·) ≠ [] := by
    rw [← length_pos_iff, count]
    exact length_pos_iff.mpr some_worker
  simp only [assign, some_worker, if_false]
  split
  next none_left =>
    subst none_left
    exact ⟨_, rfl, by simp, by simp⟩
  next =>
    have serves : Serves x (wch.getOrBuildRing (workers.insertionSort (· ≤ ·))).1
        (workers.insertionSort (· ≤ ·)).length := by
      rw [wch.getOrBuildRing_fst]
      have some_node := wch.normal
      exact newRing_serves sorted_distinct sorted_some (by omega)
    obtain ⟨buckets, ok, takes⟩ := assignBuckets_takes
      (s := (wch.getOrBuildRing (workers.insertionSort (· ≤ ·))).2.toSettings) serves
      (length_pos_iff.mpr sorted_some) keyed
    refine ⟨buckets, ?_, ?_, by simpa using takes.perm⟩
    · rw [ok]
      rfl
    · rw [takes.length, length_replicate, count]

theorem assign_partitions_work (options : List WeightedOption)
    (earlier : List (List GoString × List Partition)) {workers : List GoString}
    {partitions : List Partition} (some_worker : workers ≠ []) (distinct : workers.Nodup)
    (keyed : ∀ p ∈ partitions, p.keys ≠ []) :
    ∃ map, (((newWeightedConsistentHash x options).after earlier).assign workers partitions).1 =
        .ok map ∧
      (∀ w, w ∈ map ↔ w ∈ workers) ∧ (map.entries.map Sigma.snd).flatten.Perm partitions := by
  obtain ⟨buckets, ok, long, perm⟩ :=
    ((newWeightedConsistentHash x options).after earlier).assign_ok some_worker distinct keyed
  have sorted := perm_insertionSort (· ≤ ·) workers
  have sorted_distinct := sorted.nodup_iff.mpr distinct
  have long' : (workers.insertionSort (· ≤ ·)).length = buckets.length := by
    rw [length_insertionSort, long]
  refine ⟨_, ok, fun w => ?_, ?_⟩
  · rw [mem_named sorted_distinct long']
    exact sorted.mem_iff
  · exact (named_values sorted_distinct long').flatten.trans perm

/-- Two workers, two partitions with one key tuple, and an earlier call that left a
ring in the cache. -/
theorem assign_partitions_work_twice :
    ∃ map, (((newWeightedConsistentHash ⟨fun _ => 0, fun _ s => s, fun _ s => s⟩
        [.virtualNodes 3]).after [([[97], [98]], [⟨[[112]], 1, []⟩])]).assign [[98], [97]]
          [⟨[[112]], 1, []⟩, ⟨[[112]], 7, []⟩]).1 = .ok map ∧
      (∀ w, w ∈ map ↔ w ∈ ([[98], [97]] : List GoString)) ∧
      (map.entries.map Sigma.snd).flatten.Perm [⟨[[112]], 1, []⟩, ⟨[[112]], 7, []⟩] :=
  assign_partitions_work [.virtualNodes 3] [([[97], [98]], [⟨[[112]], 1, []⟩])] (by decide)
    (by decide) (by decide)

end Parti.Strategy
