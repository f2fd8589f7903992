/-
# Strategy.Ring — the consistent-hash ring

Workers stand on the ring with a number of virtual nodes each, sorted by hash. A
partition belongs to the first node at or after its own hash, and past the last
node to the first one. The hash is a parameter, so nodes may collide.

* `newRing_finds_successor`: the search finds the successor;
* `newRing_valid`: every index on a ring names one of its workers.
-/
import Parti.Lib.Search
import Parti.Types.Partition

namespace Parti.Strategy

open Parti.Types List
open Lib (search search_mem search_below search_reached)

/-- xxh3 as the strategies call it: a string, a string with a seed, and bytes with
a seed. -/
structure Xxh3 where
  hashString : GoString → UInt64
  hashStringSeed : GoString → UInt64 → UInt64
  hashSeed : GoString → UInt64 → UInt64

section Hashing

variable (x : Xxh3)

/-- A string under a seed, where zero means none. -/
def Xxh3.seeded (s : GoString) (seed : UInt64) : UInt64 :=
  if seed ≠ 0 then x.hashStringSeed s seed else x.hashString s

/-- Each key is hashed with the hash of the keys before it as the seed. -/
def hashIDSeed (p : Partition) (seed : UInt64) : UInt64 :=
  match p.keys with
  | [] => 0
  | first :: rest => rest.foldl (fun h key => x.hashStringSeed key h) (x.seeded first seed)

def littleEndian (n : Nat) : GoString :=
  (List.range 8).map fun i => Fin.ofNat 256 (n / 256 ^ i)

end Hashing

structure VirtualNode where
  hash : UInt64
  workerID : GoString
  workerIdx : Nat

structure Ring where
  nodes : List VirtualNode
  workers : List GoString
  seed : UInt64

section Building

variable (x : Xxh3) (virtualNodes : Nat)

def Ring.addWorker (r : Ring) (workerID : GoString) (workerIdx : Nat) : Ring :=
  { r with
    nodes := r.nodes ++ (List.range virtualNodes).map fun i =>
      ⟨x.hashSeed (littleEndian i) (x.seeded workerID r.seed), workerID, workerIdx⟩ }

def Ring.addWorkers (r : Ring) (i : Nat) : List GoString → Ring
  | [] => r
  | workerID :: rest => (r.addWorker x virtualNodes workerID i).addWorkers (i + 1) rest

def unique (seen : List GoString) : List GoString → List GoString
  | [] => []
  | w :: rest => if w ∈ seen then unique seen rest else w :: unique (w :: seen) rest

def newRing (workers : List GoString) (seed : UInt64) : Ring :=
  let uniq := unique [] workers
  let ring := Ring.addWorkers x virtualNodes ⟨[], uniq, seed⟩ 0 uniq
  { ring with nodes := ring.nodes.insertionSort fun a b => a.hash ≤ b.hash }

end Building

/-! ## Lookup -/

section Lookup

variable (x : Xxh3)

def belowHash (nodes : List VirtualNode) (h : UInt64) (k : Nat) : Bool :=
  (nodes[k]?).any fun node => node.hash < h

/-- The index of the worker a partition hashes to; `none` is the source's -1. -/
def Ring.getNodeIndexForPartition (r : Ring) (p : Partition) : Option Nat :=
  if p.keys = [] ∨ r.nodes = [] then none
  else
    let h := hashIDSeed x p r.seed
    let idx := search (belowHash r.nodes h) r.nodes.length 0 r.nodes.length
    let found := (r.nodes[idx]?).any fun node => node.hash == h
    let idx := if !found && r.nodes.length ≤ idx then 0 else idx
    (r.nodes[idx]?).map VirtualNode.workerIdx

/-- The first node at or after `h`, going around past the end. -/
def successor (nodes : List VirtualNode) (h : UInt64) : Option VirtualNode :=
  (nodes.find? fun node => h ≤ node.hash).or nodes.head?

variable {x} {r : Ring} {p : Partition}

theorem getNodeIndexForPartition_position (keys : p.keys ≠ []) (nodes : r.nodes ≠ []) :
    ∃ idx, idx < r.nodes.length ∧
      r.getNodeIndexForPartition x p = (r.nodes[idx]?).map VirtualNode.workerIdx ∧
      let found := search (belowHash r.nodes (hashIDSeed x p r.seed)) r.nodes.length 0 r.nodes.length
      (idx = found ∨ found = r.nodes.length ∧ idx = 0) := by
  have some_node : 0 < r.nodes.length := length_pos_iff.mpr nodes
  have bound : search (belowHash r.nodes (hashIDSeed x p r.seed)) r.nodes.length 0 r.nodes.length ≤
      r.nodes.length := (search_mem (Nat.zero_le _)).2
  simp only [Ring.getNodeIndexForPartition, keys, nodes, or_self, if_false]
  by_cases inside :
      search (belowHash r.nodes (hashIDSeed x p r.seed)) r.nodes.length 0 r.nodes.length <
        r.nodes.length
  · refine ⟨_, inside, ?_, .inl rfl⟩
    simp [Nat.not_le.mpr inside]
  · have at_end := le_antisymm bound (Nat.not_lt.mp inside)
    refine ⟨0, some_node, ?_, .inr ⟨at_end, rfl⟩⟩
    simp [at_end]

theorem getNodeIndexForPartition_mem (keys : p.keys ≠ []) (nodes : r.nodes ≠ []) :
    ∃ node ∈ r.nodes, r.getNodeIndexForPartition x p = some node.workerIdx := by
  obtain ⟨idx, inside, eq, _⟩ := getNodeIndexForPartition_position (x := x) keys nodes
  rw [List.getElem?_eq_getElem inside] at eq
  exact ⟨r.nodes[idx], getElem_mem inside, eq⟩

theorem belowHash_iff {nodes} {h : UInt64} {k : Nat} :
    belowHash nodes h k = true ↔ ∃ inside : k < nodes.length, nodes[k].hash < h := by
  simp [belowHash, Option.any_eq_true, List.getElem?_eq_some_iff]

theorem belowHash_first {nodes} (h : UInt64)
    (sorted : nodes.Pairwise fun a b => a.hash ≤ b.hash) (k l : Nat) (le : k ≤ l)
    (below : belowHash nodes h l = true) : belowHash nodes h k = true := by
  obtain ⟨inside, lt⟩ := belowHash_iff.mp below
  refine belowHash_iff.mpr ⟨by omega, ?_⟩
  rcases Nat.lt_or_eq_of_le le with before | rfl
  · exact UInt64.lt_of_le_of_lt
      (pairwise_iff_getElem.mp sorted k l (by omega) inside before) lt
  · exact lt

theorem getNodeIndexForPartition_eq (sorted : r.nodes.Pairwise fun a b => a.hash ≤ b.hash)
    (keys : p.keys ≠ []) (nodes : r.nodes ≠ []) :
    r.getNodeIndexForPartition x p =
      (successor r.nodes (hashIDSeed x p r.seed)).map VirtualNode.workerIdx := by
  obtain ⟨idx, inside, eq, at_⟩ := getNodeIndexForPartition_position (x := x) keys nodes
  rw [eq]
  generalize hashIDSeed x p r.seed = h at *
  have before : ∀ k, k < search (belowHash r.nodes h) r.nodes.length 0 r.nodes.length →
      belowHash r.nodes h k = true := fun k =>
    search_below (belowHash_first h sorted) (by omega)
  have reached : ¬belowHash r.nodes h
      (search (belowHash r.nodes h) r.nodes.length 0 r.nodes.length) = true :=
    search_reached (by omega) (by simp [belowHash]) (Nat.zero_le _)
  generalize search (belowHash r.nodes h) r.nodes.length 0 r.nodes.length = found at *
  have passed (k : Nat) (lt : k < found) (inside' : k < r.nodes.length) :
      ¬ h ≤ r.nodes[k].hash :=
    UInt64.not_le.mpr (belowHash_iff.mp (before k lt)).2
  rcases at_ with rfl | ⟨rfl, rfl⟩
  · -- the search stopped at a node: it is the first one not below
    have hit : r.nodes.find? (fun node => h ≤ node.hash) = some r.nodes[idx] := by
      rw [List.find?_eq_some_iff_getElem]
      refine ⟨?_, _, inside, rfl, fun k lt => ?_⟩
      · simpa [belowHash, List.getElem?_eq_getElem inside] using reached
      · simpa using passed k lt (by omega)
    rw [successor, hit, List.getElem?_eq_getElem inside, Option.some_or]
  · -- every node is below: around to the first
    have miss : r.nodes.find? (fun node => h ≤ node.hash) = none := by
      rw [List.find?_eq_none]
      intro node member
      obtain ⟨k, lt, rfl⟩ := getElem_of_mem member
      simpa using passed k lt lt
    rw [successor, miss, Option.none_or, List.head?_eq_getElem?]

end Lookup

/-! ## What is on a new ring -/

variable {x : Xxh3} {virtualNodes : Nat} {workers : List GoString}

theorem unique_eq_self : ∀ {workers seen : List GoString}, workers.Nodup →
    (∀ w ∈ workers, w ∉ seen) → unique seen workers = workers
  | [], _, _, _ => rfl
  | w :: rest, seen, distinct, fresh => by
      obtain ⟨new, distinct⟩ := nodup_cons.mp distinct
      have later : ∀ v ∈ rest, v ∉ w :: seen := by
        intro v member
        have other : v ≠ w := fun same => new (same ▸ member)
        simp [other, fresh v (mem_cons_of_mem w member)]
      rw [unique, if_neg (fresh w mem_cons_self), unique_eq_self distinct later]

theorem Ring.addWorkers_spec (x : Xxh3) (virtualNodes : Nat) (workers : List GoString) (r : Ring) (i : Nat) :
    (r.addWorkers x virtualNodes i workers).workers = r.workers ∧
      (r.addWorkers x virtualNodes i workers).seed = r.seed ∧
      (∀ node ∈ (r.addWorkers x virtualNodes i workers).nodes,
        node ∈ r.nodes ∨ node.workerIdx < i + workers.length) ∧
      (∀ node ∈ r.nodes, node ∈ (r.addWorkers x virtualNodes i workers).nodes) := by
  induction workers generalizing r i with
  | nil => exact ⟨rfl, rfl, fun _ member => .inl member, fun _ member => member⟩
  | cons w rest ih =>
    obtain ⟨same, seed, nodes, kept⟩ := ih (r.addWorker x virtualNodes w i) (i + 1)
    refine ⟨same, seed, fun node member => ?_, fun node member => ?_⟩
    · rw [length_cons]
      obtain old | below := nodes node member
      · obtain old | new := mem_append.mp old
        · exact .inl old
        · obtain ⟨_, _, rfl⟩ := mem_map.mp new
          refine .inr ?_
          show i < i + (rest.length + 1)
          omega
      · exact .inr (by omega)
    · exact kept node (mem_append_left _ member)

theorem newRing_valid (distinct : workers.Nodup) (seed : UInt64) :
    ∀ node ∈ (newRing x virtualNodes workers seed).nodes, node.workerIdx < workers.length := by
  intro node member
  have uniq : unique [] workers = workers := unique_eq_self distinct fun _ _ => not_mem_nil
  rw [newRing, uniq, mem_insertionSort] at member
  obtain ⟨_, _, nodes, _⟩ := Ring.addWorkers_spec x virtualNodes workers
    ⟨[], workers, seed⟩ 0
  obtain old | below := nodes node member
  · cases old
  · omega

theorem newRing_nonempty (some_worker : workers ≠ []) (some_node : 0 < virtualNodes) (seed : UInt64) :
    (newRing x virtualNodes workers seed).nodes ≠ [] := by
  obtain ⟨w, rest, rfl⟩ := exists_cons_of_ne_nil some_worker
  have uniq : unique [] (w :: rest) = w :: unique [w] rest := by simp [unique]
  have first : ∃ node, node ∈
      ((⟨[], w :: unique [w] rest, seed⟩ : Ring).addWorker x virtualNodes w 0).nodes := by
    refine ⟨_, mem_append_right _ (mem_map.mpr ⟨0, mem_range.mpr some_node, rfl⟩)⟩
  obtain ⟨node, member⟩ := first
  have there := (Ring.addWorkers_spec x virtualNodes (unique [w] rest)
    ((⟨[], w :: unique [w] rest, seed⟩ : Ring).addWorker x virtualNodes w 0) 1).2.2.2 node member
  refine ne_nil_of_mem (a := node) ?_
  rw [newRing, uniq, mem_insertionSort]
  exact there

theorem newRing_sorted (workers : List GoString) (seed : UInt64) :
    (newRing x virtualNodes workers seed).nodes.Pairwise fun a b => a.hash ≤ b.hash := by
  have total : Std.Total fun a b : VirtualNode => a.hash ≤ b.hash :=
    ⟨fun a b => UInt64.le_total a.hash b.hash⟩
  have trans : IsTrans VirtualNode fun a b => a.hash ≤ b.hash :=
    ⟨fun _ _ _ => UInt64.le_trans⟩
  exact pairwise_insertionSort _ _

theorem newRing_finds_successor (x : Xxh3) (virtualNodes : Nat) (workers : List GoString)
    (seed : UInt64) (p : Partition) :
    let ring := newRing x virtualNodes workers seed
    ring.getNodeIndexForPartition x p =
      if p.keys = [] then none
      else (successor ring.nodes (hashIDSeed x p seed)).map VirtualNode.workerIdx := by
  intro ring
  have same : ring.seed = seed := (Ring.addWorkers_spec x virtualNodes _ _ 0).2.1
  split_ifs with keyless
  · simp [Ring.getNodeIndexForPartition, keyless]
  by_cases nodes : ring.nodes = []
  · simp [Ring.getNodeIndexForPartition, nodes, successor]
  · rw [getNodeIndexForPartition_eq (newRing_sorted workers seed) keyless nodes, same]

end Parti.Strategy
