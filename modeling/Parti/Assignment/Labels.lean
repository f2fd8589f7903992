/-
# Assignment.Labels — routing partitions to the workers that carry their label

`buildLabelTopology` sorts workers into pools by label and partitions into groups by
label. `computeLabelAssignments` runs the strategy once for each group: a labelled group
goes to its pool; one whose pool is empty is parked, or spilled to the unlabelled workers;
the unlabelled group goes to the general pool of the policy. Where that pool is empty, all
workers whose labels could be read take its place.

`label_routing_complete`: for any strategy that places the partitions of a call on workers
of the call's pool, the assignments and the parked list are the partitions, each occurrence
once; every partition is on an eligible worker; exactly the partitions of an empty pool that
are not spilled are parked; and the only failure is a partition that is not parked and has
no known worker. The strategy may keep a state between calls.
-/
import Mathlib.Data.List.Sort
import Parti.Lib.Buckets
import Parti.Types.Partition

namespace Parti.Assignment.Labels

open Parti.Types Lib
open scoped List

/-! ## The topology -/

inductive Policy where
  | dedicated
  | shared
deriving DecidableEq

/-- The active workers, the labels that were read, the workers whose labels could not be
read, and the source's partitions. -/
structure TopologyInput where
  workers : List GoString
  labels : AList fun _ : GoString => List GoString
  unknown : AList fun _ : GoString => Bool
  partitions : List Partition
  policy : Policy
  distinct : workers.Nodup
  labels_distinct : ∀ w, (listAt labels w).Nodup
  /-- A Go set: a key that is there maps to true. -/
  unknown_set : ∀ w ∈ unknown, unknown.lookup w = some true

/-- `in.Unknown[w]`. -/
def TopologyInput.isUnknown (input : TopologyInput) (w : GoString) : Bool :=
  (input.unknown.lookup w).getD false

structure LabelTopology where
  pools : AList fun _ : GoString => List GoString
  groups : AList fun _ : GoString => List Partition
  sortedLabels : List GoString
  emptyLabels : List GoString
  generalPool : List GoString
  fallbackPool : List GoString
  allWorkers : List GoString
  unknownSet : AList fun _ : GoString => Bool

inductive EmptyPoolAction where
  | park
  | spill
deriving DecidableEq

def sortStrings (xs : List GoString) : List GoString := xs.insertionSort (· ≤ ·)

def sortPools (pools : AList fun _ : GoString => List GoString) :
    AList fun _ : GoString => List GoString :=
  pools.keys.foldl (fun sorted l => sorted.insert l (sortStrings (listAt pools l))) pools

def buildLabelTopology (input : TopologyInput) : LabelTopology :=
  let known := input.workers.filter fun w => !input.isUnknown w
  let unlabeled := known.filter fun w => listAt input.labels w = []
  let pools := sortPools
    (collect (known.flatMap fun w => (listAt input.labels w).map fun l => (l, w)))
  let groups := collect (input.partitions.map fun p => (p.label, p))
  let labels := groups.keys.filter (· ≠ [])
  { pools := pools
    groups := groups
    sortedLabels := sortStrings labels
    emptyLabels := sortStrings (labels.filter fun l => listAt pools l = [])
    generalPool := match input.policy with
      | .shared => sortStrings known
      | .dedicated => sortStrings unlabeled
    fallbackPool := sortStrings unlabeled
    allWorkers := sortStrings known
    unknownSet := input.unknown }

abbrev TopologyInput.topo (input : TopologyInput) : LabelTopology := buildLabelTopology input

/-! ## The assignments -/

section Compute

variable {S ε : Type}

abbrev Strategy (S ε : Type) :=
  S → List GoString → List Partition → Except ε (AList fun _ : GoString => List Partition) × S

inductive What where
  | unlabeledGroup
  | label (l : GoString)
  | spilledLabel (l : GoString)
deriving DecidableEq

inductive LabelError (ε : Type) where
  /-- Text: "label pipeline: no workers available for %s". -/
  | noWorkers (what : What)
  /-- Text: "label pipeline: %s: %w". -/
  | strategy (what : What) (cause : ε)

structure Progress (S : Type) where
  strategyState : S
  merged : AList fun _ : GoString => List Partition
  parked : List Partition

def orAll (topo : LabelTopology) (pool : List GoString) : List GoString :=
  if pool = [] then topo.allWorkers else pool

def assignGroup (strategy : Strategy S ε) (topo : LabelTopology) (s : Progress S)
    (pool : List GoString) (group : List Partition) (what : What) :
    Except (LabelError ε) (Progress S) :=
  if group = [] then .ok s
  else if orAll topo pool = [] then .error (.noWorkers what)
  else
    match strategy s.strategyState (orAll topo pool) group with
    | (.error cause, _) => .error (.strategy what cause)
    | (.ok out, state) => .ok ⟨state, mergeInto s.merged out, s.parked⟩

def assignLabel (strategy : Strategy S ε) (topo : LabelTopology)
    (actions : AList fun _ : GoString => EmptyPoolAction) (s : Progress S) (l : GoString) :
    Except (LabelError ε) (Progress S) :=
  let pool := listAt topo.pools l
  let group := listAt topo.groups l
  if pool ≠ [] then assignGroup strategy topo s pool group (.label l)
  else
    match actions.lookup l with
    | some .spill => assignGroup strategy topo s topo.fallbackPool group (.spilledLabel l)
    | _ => .ok { s with parked := s.parked ++ group }

/-- An empty list for every known worker that has no list yet. -/
def fillKnown (workers : List GoString) (merged : AList fun _ : GoString => List Partition) :
    AList fun _ : GoString => List Partition :=
  workers.foldl (fun merged w => if w ∈ merged then merged else merged.insert w []) merged

/-- An empty list for every worker whose labels could not be read. -/
def fillUnknown (workers : List GoString) (merged : AList fun _ : GoString => List Partition) :
    AList fun _ : GoString => List Partition :=
  workers.foldl (fun merged w => merged.insert w []) merged

def computeLabelAssignments (strategy : Strategy S ε) (state : S) (topo : LabelTopology)
    (actions : AList fun _ : GoString => EmptyPoolAction) :
    Except (LabelError ε) ((AList fun _ : GoString => List Partition) × List Partition) := do
  let s ← assignGroup strategy topo ⟨state, ∅, []⟩ topo.generalPool (listAt topo.groups [])
    .unlabeledGroup
  let s ← topo.sortedLabels.foldlM (assignLabel strategy topo actions) s
  return (fillUnknown topo.unknownSet.keys (fillKnown topo.allWorkers s.merged), s.parked)

end Compute

/-! ## Where a partition may go -/

section Eligible

variable (input : TopologyInput) (actions : AList fun _ : GoString => EmptyPoolAction)

/-- An active worker whose labels could be read. -/
def Known (w : GoString) : Prop := w ∈ input.workers ∧ w ∉ input.unknown

def Carries (l w : GoString) : Prop := Known input w ∧ l ∈ listAt input.labels w

def Unlabeled (w : GoString) : Prop := Known input w ∧ listAt input.labels w = []

def General (w : GoString) : Prop :=
  match input.policy with
  | .shared => Known input w
  | .dedicated => Unlabeled input w

def InOrKnown (cls : GoString → Prop) (w : GoString) : Prop :=
  cls w ∨ (∀ v, ¬cls v) ∧ Known input w

/-- The label has no worker and is not marked to be spilled. -/
def Parks (l : GoString) : Prop :=
  l ≠ [] ∧ (∀ w, ¬Carries input l w) ∧ actions.lookup l ≠ some .spill

/-- The workers a partition of that label may be on. -/
inductive Eligible : GoString → GoString → Prop
  | general (w : GoString) (here : InOrKnown input (General input) w) : Eligible [] w
  | carried (l w : GoString) (labelled : l ≠ []) (here : Carries input l w) : Eligible l w
  | spilled (l w : GoString) (labelled : l ≠ []) (empty : ∀ v, ¬Carries input l v)
      (marked : actions.lookup l = some .spill) (here : InOrKnown input (Unlabeled input) w) :
      Eligible l w

end Eligible

/-! ## The pools and the groups -/

section Topology

variable {input : TopologyInput} {l w : GoString} {xs : List GoString}

theorem mem_sortStrings : w ∈ sortStrings xs ↔ w ∈ xs :=
  (List.perm_insertionSort (· ≤ ·) xs).mem_iff

theorem nodup_sortStrings (distinct : xs.Nodup) : (sortStrings xs).Nodup :=
  (List.perm_insertionSort (· ≤ ·) xs).nodup_iff.mpr distinct

theorem listAt_sortPools (pools : AList fun _ : GoString => List GoString) (l : GoString) :
    listAt (sortPools pools) l = sortStrings (listAt pools l) := by
  have general : ∀ (keys : List GoString) (sorted : AList fun _ : GoString => List GoString),
      listAt (keys.foldl (fun sorted l => sorted.insert l (sortStrings (listAt pools l))) sorted) l =
        if l ∈ keys then sortStrings (listAt pools l) else listAt sorted l := by
    intro keys
    induction keys with
    | nil => simp
    | cons key rest ih =>
      intro sorted
      rw [List.foldl_cons, ih]
      by_cases later : l ∈ rest
      · simp [later]
      · by_cases here : l = key
        · simp [here]
        · simp [later, here, listAt_insert_of_ne here]
  rw [sortPools, general]
  split_ifs with mem
  · rfl
  · have absent : listAt pools l = [] := by
      simp [listAt, AList.lookup_eq_none.mpr mem]
    rw [absent]
    rfl

theorem isUnknown_eq_false : input.isUnknown w = false ↔ w ∉ input.unknown := by
  constructor
  · intro off mem
    simp [TopologyInput.isUnknown, input.unknown_set w mem] at off
  · intro absent
    simp [TopologyInput.isUnknown, AList.lookup_eq_none.mpr absent]

theorem mem_known :
    (w ∈ input.workers.filter fun w => !input.isUnknown w) ↔ Known input w := by
  simp [Known, isUnknown_eq_false]

theorem mem_allWorkers : w ∈ input.topo.allWorkers ↔ Known input w :=
  mem_sortStrings.trans mem_known

theorem mem_fallbackPool : w ∈ input.topo.fallbackPool ↔ Unlabeled input w := by
  refine mem_sortStrings.trans ?_
  rw [List.mem_filter, mem_known, decide_eq_true_eq]
  rfl

theorem mem_generalPool : w ∈ input.topo.generalPool ↔ General input w := by
  unfold General
  cases policy : input.policy with
  | shared =>
    simp only [TopologyInput.topo, buildLabelTopology, policy]
    exact mem_allWorkers
  | dedicated =>
    simp only [TopologyInput.topo, buildLabelTopology, policy]
    exact mem_fallbackPool

theorem mem_pool : w ∈ listAt input.topo.pools l ↔ Carries input l w := by
  simp only [TopologyInput.topo, buildLabelTopology, listAt_sortPools, mem_sortStrings, listAt_collect, List.mem_map,
    List.mem_filter, List.mem_flatMap, decide_eq_true_eq]
  constructor
  · rintro ⟨_, ⟨⟨v, known, l', mem, rfl⟩, rfl⟩, rfl⟩
    exact ⟨mem_known.mp (List.mem_filter.mpr known), mem⟩
  · rintro ⟨known, mem⟩
    exact ⟨(l, w), ⟨⟨w, List.mem_filter.mp (mem_known.mpr known), l, mem, rfl⟩, rfl⟩, rfl⟩

theorem pool_eq_nil : listAt input.topo.pools l = [] ↔ ∀ w, ¬Carries input l w := by
  rw [List.eq_nil_iff_forall_not_mem]
  exact forall_congr' fun w => not_congr mem_pool

theorem nodup_allWorkers : input.topo.allWorkers.Nodup :=
  nodup_sortStrings (input.distinct.filter _)

theorem nodup_fallbackPool : input.topo.fallbackPool.Nodup :=
  nodup_sortStrings ((input.distinct.filter _).filter _)

theorem nodup_generalPool : input.topo.generalPool.Nodup := by
  cases policy : input.policy with
  | shared =>
    simp only [TopologyInput.topo, buildLabelTopology, policy]
    exact nodup_allWorkers
  | dedicated =>
    simp only [TopologyInput.topo, buildLabelTopology, policy]
    exact nodup_fallbackPool

theorem nodup_pool : (listAt input.topo.pools l).Nodup := by
  simp only [TopologyInput.topo, buildLabelTopology, listAt_sortPools, listAt_collect]
  refine nodup_sortStrings (List.Nodup.map_on ?_ (List.Nodup.filter _ ?_))
  · rintro ⟨l₁, w₁⟩ mem₁ ⟨l₂, w₂⟩ mem₂ rfl
    simp only [List.mem_filter, decide_eq_true_eq] at mem₁ mem₂
    rw [← mem₁.2, ← mem₂.2]
  · refine List.nodup_flatMap.mpr ⟨fun w _ => ?_, ?_⟩
    · exact (input.labels_distinct w).map fun _ _ same => (Prod.mk.inj same).1
    · refine (input.distinct.filter _).imp ?_
      intro v w ne
      rw [Function.onFun_apply, List.disjoint_left]
      intro pair fst snd
      obtain ⟨_, _, rfl⟩ := List.mem_map.mp fst
      obtain ⟨_, _, same⟩ := List.mem_map.mp snd
      exact ne (Prod.mk.inj same).2.symm

def group (input : TopologyInput) (l : GoString) : List Partition :=
  listAt input.topo.groups l

theorem mem_group {p} : p ∈ group input l ↔ p ∈ input.partitions ∧ p.label = l := by
  simp only [group, TopologyInput.topo, buildLabelTopology, listAt_collect, List.mem_map, List.mem_filter,
    decide_eq_true_eq]
  constructor
  · rintro ⟨_, ⟨⟨q, mem, rfl⟩, rfl⟩, rfl⟩
    exact ⟨mem, rfl⟩
  · rintro ⟨mem, rfl⟩
    exact ⟨(p.label, p), ⟨⟨p, mem, rfl⟩, rfl⟩, rfl⟩

theorem groups_perm :
    (group input [] ++ input.topo.sortedLabels.flatMap (group input)).Perm
      input.partitions := by
  have whole : (held input.topo.groups).Perm input.partitions := by
    have sorted := held_collect (input.partitions.map fun p => (p.label, p))
    rw [List.map_map, show Prod.snd ∘ (fun p : Partition => (p.label, p)) = id from rfl,
      List.map_id] at sorted
    exact sorted
  have labels : input.topo.sortedLabels.Perm
      (input.topo.groups.keys.filter (· ≠ [])) :=
    List.perm_insertionSort (· ≤ ·) _
  calc group input [] ++ input.topo.sortedLabels.flatMap (group input)
      ~ group input [] ++
          (input.topo.groups.keys.filter (· ≠ [])).flatMap (group input) :=
        (labels.flatMap_right (group input)).append_left _
    _ ~ held input.topo.groups := (held_perm_keys _ []).symm
    _ ~ input.partitions := whole

end Topology

/-! ## One group -/

section Groups

variable {S ε : Type} {strategy : Strategy S ε} {input : TopologyInput}
  {actions : AList fun _ : GoString => EmptyPoolAction}

/-- The map places the partitions of a call, each occurrence once, on workers of its pool. -/
def Places (pool : List GoString) (partitions : List Partition)
    (out : AList fun _ : GoString => List Partition) : Prop :=
  (held out).Perm partitions ∧ ∀ w, listAt out w ≠ [] → w ∈ pool

/-- The strategy does so in every call with workers and partitions of the input. -/
def Assigns (strategy : Strategy S ε) (input : TopologyInput) : Prop :=
  ∀ state pool partitions, pool ≠ [] → pool.Nodup → (∀ w ∈ pool, w ∈ input.workers) →
    partitions ≠ [] → (∀ p ∈ partitions, p ∈ input.partitions) →
      ∃ out, (strategy state pool partitions).1 = .ok out ∧ Places pool partitions out

/-- After the groups of the labels in `done`. -/
structure Routed (input : TopologyInput) (actions : AList fun _ : GoString => EmptyPoolAction)
    (done : List GoString) (s : Progress S) : Prop where
  all : (held s.merged ++ s.parked).Perm (done.flatMap (group input))
  placed : ∀ w, ∀ p ∈ listAt s.merged w, Eligible input actions p.label w
  parked : ∀ p ∈ s.parked, Parks input actions p.label

/-- A group that is not parked, with no worker to go to. -/
def Stuck (input : TopologyInput) (actions : AList fun _ : GoString => EmptyPoolAction)
    (l : GoString) : Prop :=
  group input l ≠ [] ∧ ¬Parks input actions l ∧ ∀ w, ¬Known input w

variable {pool : List GoString} {cls : GoString → Prop} {w l : GoString} {s : Progress S}
  {what : What}

theorem orAll_eq_nil (known : ∀ w ∈ pool, Known input w) :
    orAll input.topo pool = [] ↔ ∀ w, ¬Known input w := by
  unfold orAll
  split
  next =>
    rw [List.eq_nil_iff_forall_not_mem]
    exact forall_congr' fun w => not_congr mem_allWorkers
  next some_ =>
    obtain ⟨w, mem⟩ := List.exists_mem_of_ne_nil pool some_
    constructor
    · intro none_
      exact absurd none_ some_
    · intro nobody
      exact absurd (known w mem) (nobody w)

theorem mem_orAll (is : ∀ w, w ∈ pool ↔ cls w) (mem : w ∈ orAll input.topo pool) :
    InOrKnown input cls w := by
  unfold orAll at mem
  split at mem
  next none_ =>
    refine .inr ⟨fun v here => ?_, mem_allWorkers.mp mem⟩
    have := (is v).mpr here
    rw [none_] at this
    cases this
  next => exact .inl ((is w).mp mem)

inductive Outcome (input : TopologyInput) (actions : AList fun _ : GoString => EmptyPoolAction)
    (stuck : Prop) (done : List GoString) : Except (LabelError ε) (Progress S) → Prop
  | routed (s : Progress S) (goes : ¬stuck) (routed : Routed input actions done s) :
      Outcome input actions stuck done (.ok s)
  | failed (cause) (is : stuck) : Outcome input actions stuck done (.error cause)

theorem assignGroup_outcome {done} (assigns : Assigns strategy input)
    (routed : Routed input actions done s) (distinct : pool.Nodup)
    (known : ∀ w ∈ pool, Known input w)
    (eligible : ∀ w ∈ orAll input.topo pool, Eligible input actions l w)
    (unparked : ¬Parks input actions l) :
    Outcome input actions (Stuck input actions l) (done ++ [l])
      (assignGroup strategy input.topo s pool (group input l) what) := by
  unfold assignGroup
  by_cases none_ : group input l = []
  · rw [if_pos none_]
    refine .routed s (fun stuck => stuck.1 none_) { routed with all := ?_ }
    simpa [none_] using routed.all
  rw [if_neg none_]
  by_cases nobody : orAll input.topo pool = []
  · rw [if_pos nobody]
    exact .failed _ ⟨none_, unparked, (orAll_eq_nil known).mp nobody⟩
  · rw [if_neg nobody]
    have distinct' : (orAll input.topo pool).Nodup := by
      unfold orAll
      split
      · exact nodup_allWorkers
      · exact distinct
    have active : ∀ w ∈ orAll input.topo pool, w ∈ input.workers := by
      intro w mem
      unfold orAll at mem
      split at mem
      · exact (mem_allWorkers.mp mem).1
      · exact (known w mem).1
    obtain ⟨out, ok, perm, inside⟩ := assigns s.strategyState _ (group input l) nobody distinct'
      active none_ fun p mem => (mem_group.mp mem).1
    generalize strategy s.strategyState (orAll input.topo pool) (group input l) = result at ok
    obtain ⟨result, state⟩ := result
    obtain rfl : result = .ok out := ok
    refine .routed _ (fun stuck => nobody ((orAll_eq_nil known).mpr stuck.2.2))
      ⟨?_, ?_, routed.parked⟩
    · calc held (mergeInto s.merged out) ++ s.parked
          ~ held s.merged ++ held out ++ s.parked := (held_mergeInto _ _).append_right _
        _ ~ held s.merged ++ s.parked ++ held out := by
            rw [List.append_assoc, List.append_assoc]
            exact List.perm_append_comm.append_left _
        _ ~ done.flatMap (group input) ++ group input l := routed.all.append perm
        _ = (done ++ [l]).flatMap (group input) := by simp
    · intro w p mem
      obtain old | new := mem_listAt_mergeInto mem
      · exact routed.placed w p old
      · have here : p ∈ group input l := perm.mem_iff.mp (mem_held.mpr ⟨w, new⟩)
        rw [(mem_group.mp here).2]
        exact eligible w (inside w (List.ne_nil_of_mem new))

end Groups

/-! ## All groups -/

section Labels

variable {S ε : Type} {strategy : Strategy S ε} {input : TopologyInput}
  {actions : AList fun _ : GoString => EmptyPoolAction} {done : List GoString} {s : Progress S}
  {l w : GoString}

theorem General.known (here : General input w) : Known input w := by
  unfold General at here
  split at here
  · exact here
  · exact here.1

theorem unlabeled_outcome (assigns : Assigns strategy input) (state : S) :
    Outcome input actions (Stuck input actions []) [[]]
      (assignGroup strategy input.topo ⟨state, ∅, []⟩ input.topo.generalPool (group input [])
        .unlabeledGroup) := by
  have empty : Routed input actions [] (⟨state, ∅, []⟩ : Progress S) :=
    ⟨by simp, by simp, by simp⟩
  exact assignGroup_outcome assigns empty nodup_generalPool
    (fun w mem => (mem_generalPool.mp mem).known)
    (fun w mem => .general w (mem_orAll (fun _ => mem_generalPool) mem)) fun parks => parks.1 rfl

theorem assignLabel_outcome (assigns : Assigns strategy input)
    (routed : Routed input actions done s) (labelled : l ≠ []) :
    Outcome input actions (Stuck input actions l) (done ++ [l])
      (assignLabel strategy input.topo actions s l) := by
  simp only [assignLabel]
  by_cases pool : listAt input.topo.pools l = []
  · have empty := pool_eq_nil.mp pool
    rw [if_neg (not_not.mpr pool)]
    split
    next marked =>
      refine assignGroup_outcome assigns routed nodup_fallbackPool
        (fun w mem => (mem_fallbackPool.mp mem).1) (fun w mem => ?_) fun parks => parks.2.2 marked
      exact .spilled l w labelled empty marked (mem_orAll (fun _ => mem_fallbackPool) mem)
    next unmarked =>
      have parks : Parks input actions l := ⟨labelled, empty, unmarked⟩
      refine .routed _ (fun stuck => stuck.2.1 parks) ⟨?_, routed.placed, ?_⟩
      · show (held s.merged ++ (s.parked ++ group input l)).Perm _
        rw [← List.append_assoc, List.flatMap_append]
        exact routed.all.append (by simp)
      · intro p mem
        obtain old | new := List.mem_append.mp mem
        · exact routed.parked p old
        · rw [(mem_group.mp new).2]
          exact parks
  · rw [if_pos pool]
    refine assignGroup_outcome assigns routed nodup_pool (fun w mem => (mem_pool.mp mem).1)
      (fun w mem => ?_) fun parks => pool (pool_eq_nil.mpr parks.2.1)
    rw [orAll, if_neg pool] at mem
    exact .carried l w labelled (mem_pool.mp mem)

variable {labels : List GoString} {s' : Progress S}

theorem assignLabels_outcome (assigns : Assigns strategy input) (labelled : ∀ l ∈ labels, l ≠ [])
    (routed : Routed input actions done s) :
    Outcome input actions (∃ l ∈ labels, Stuck input actions l) (done ++ labels)
      (labels.foldlM (assignLabel strategy input.topo actions) s) := by
  induction labels generalizing done s with
  | nil => exact .routed s (by simp) (by simpa using routed)
  | cons l rest ih =>
    rw [List.foldlM_cons, List.exists_mem_cons_iff, List.append_cons]
    have first := assignLabel_outcome assigns routed (labelled l List.mem_cons_self)
    generalize assignLabel strategy input.topo actions s l = result at first
    cases first with
    | failed cause stuck => exact .failed cause (.inl stuck)
    | routed mid goes routed =>
      rw [or_iff_right goes]
      exact ih (fun l mem => labelled l (.tail _ mem)) routed

theorem assignGroup_parked {pool} {partitions} {what : What}
    (step : assignGroup strategy input.topo s pool partitions what = .ok s') :
    s'.parked = s.parked := by
  unfold assignGroup at step
  split_ifs at step
  · cases step
    rfl
  · split at step
    · cases step
    · cases step
      rfl

theorem assignLabel_parked (step : assignLabel strategy input.topo actions s l = .ok s') :
    ∀ p ∈ s'.parked, p ∈ s.parked ∨ p.label = l ∧
      listAt input.topo.pools p.label = [] := by
  simp only [assignLabel] at step
  intro p mem
  split_ifs at step with pool
  · rw [assignGroup_parked step] at mem
    exact .inl mem
  · split at step
    · rw [assignGroup_parked step] at mem
      exact .inl mem
    · cases step
      obtain old | new := List.mem_append.mp mem
      · exact .inl old
      · obtain ⟨_, rfl⟩ := mem_group.mp new
        exact .inr ⟨rfl, not_not.mp pool⟩

theorem assignLabels_parked
    (run : labels.foldlM (assignLabel strategy input.topo actions) s = .ok s') :
    ∀ p ∈ s'.parked, p ∈ s.parked ∨ p.label ∈ labels ∧
      listAt input.topo.pools p.label = [] := by
  induction labels generalizing s with
  | nil =>
    cases run
    exact fun p mem => .inl mem
  | cons l rest ih =>
    rw [List.foldlM_cons] at run
    cases step : assignLabel strategy input.topo actions s l with
    | error cause =>
      rw [step] at run
      cases run
    | ok mid =>
      rw [step] at run
      intro p mem
      obtain before | ⟨later, empty⟩ := ih run p mem
      · obtain old | ⟨rfl, empty⟩ := assignLabel_parked step p before
        · exact .inl old
        · exact .inr ⟨.head _, empty⟩
      · exact .inr ⟨.tail _ later, empty⟩

end Labels

/-! ## The entries -/

section Entries

variable {map : AList fun _ : GoString => List Partition} {w : GoString}

def SameLists (map map' : AList fun _ : GoString => List Partition) : Prop :=
  (∀ w, listAt map' w = listAt map w) ∧ (held map').Perm (held map)

theorem SameLists.trans {map' map''}
    (first : SameLists map map') (then_ : SameLists map' map'') : SameLists map map'' :=
  ⟨fun w => (then_.1 w).trans (first.1 w), then_.2.trans first.2⟩

theorem sameLists_insert (none_ : listAt map w = []) : SameLists map (map.insert w []) :=
  ⟨fun _ => listAt_insert_nil none_, held_insert_nil none_⟩

theorem fillKnown_same (workers : List GoString) (map : AList fun _ : GoString => List Partition) :
    SameLists map (fillKnown workers map) := by
  unfold fillKnown
  induction workers generalizing map with
  | nil => exact ⟨fun _ => rfl, .refl _⟩
  | cons v rest ih =>
    rw [List.foldl_cons]
    split_ifs with there
    · exact ih map
    · exact (sameLists_insert (by simp [listAt, AList.lookup_eq_none.mpr there])).trans (ih _)

variable {workers : List GoString}

theorem fillUnknown_same (none_ : ∀ v ∈ workers, listAt map v = []) :
    SameLists map (fillUnknown workers map) := by
  unfold fillUnknown
  induction workers generalizing map with
  | nil => exact ⟨fun _ => rfl, .refl _⟩
  | cons v rest ih =>
    have first := sameLists_insert (none_ v List.mem_cons_self)
    exact first.trans (ih fun u mem => (first.1 u).trans (none_ u (.tail _ mem)))

theorem mem_fillKnown : w ∈ fillKnown workers map ↔ w ∈ workers ∨ w ∈ map := by
  unfold fillKnown
  induction workers generalizing map with
  | nil => simp
  | cons v rest ih =>
    rw [List.foldl_cons, ih, List.mem_cons]
    split_ifs with there
    · by_cases same : w = v
      · simp [same, there]
      · simp [same]
    · rw [AList.mem_insert]
      tauto

theorem mem_fillUnknown :
    w ∈ fillUnknown workers map ↔ w ∈ workers ∨ w ∈ map := by
  unfold fillUnknown
  induction workers generalizing map with
  | nil => simp
  | cons v rest ih =>
    rw [List.foldl_cons, ih, List.mem_cons, AList.mem_insert]
    tauto

end Entries

/-! ## The result -/

section Result

variable {S ε : Type} {strategy : Strategy S ε} {input : TopologyInput}
  {actions : AList fun _ : GoString => EmptyPoolAction}

variable {l w : GoString} {state : S}

theorem Eligible.known (eligible : Eligible input actions l w) : Known input w := by
  cases eligible with
  | general _ here => exact here.elim General.known And.right
  | carried _ _ _ here => exact here.1
  | spilled _ _ _ _ _ here => exact here.elim And.left And.right

theorem sortedLabels_labelled : ∀ l ∈ input.topo.sortedLabels, l ≠ [] := by
  intro l mem
  have := mem_sortStrings.mp mem
  simpa using (List.mem_filter.mp this).2

theorem stuck_cases (stuck : Stuck input actions l) :
    l = [] ∨ l ∈ input.topo.sortedLabels := by
  by_cases unlabeled : l = []
  · exact .inl unlabeled
  · obtain ⟨p, mem⟩ := List.exists_mem_of_ne_nil _ stuck.1
    refine .inr (mem_sortStrings.mpr (List.mem_filter.mpr ⟨?_, by simpa using unlabeled⟩))
    by_contra absent
    have missing : input.topo.groups.lookup l = none :=
      AList.lookup_eq_none.mpr absent
    simp [group, listAt, missing] at mem

/-- The pipeline fails when a group is stuck, and only then. -/
theorem computeLabelAssignments_outcome (assigns : Assigns strategy input) (state : S) :
    ((∃ l, Stuck input actions l) ∧
        ∃ cause, computeLabelAssignments strategy state input.topo actions = .error cause) ∨
      (∀ l, ¬Stuck input actions l) ∧
        ∃ merged parked,
          computeLabelAssignments strategy state input.topo actions = .ok (merged, parked) ∧
          (held merged ++ parked).Perm input.partitions ∧
          (∀ w, ∀ p ∈ listAt merged w, Eligible input actions p.label w) ∧
          (∀ p ∈ parked, Parks input actions p.label) ∧
          ∀ w, w ∈ input.workers ∨ w ∈ input.unknown → w ∈ merged := by
  have first : Outcome input actions _ _ _ := unlabeled_outcome assigns state
  unfold group at first
  unfold computeLabelAssignments
  generalize assignGroup strategy input.topo ⟨state, ∅, []⟩ input.topo.generalPool _ _ = result
    at first
  cases first with
  | failed cause stuck => exact .inl ⟨⟨[], stuck⟩, cause, rfl⟩
  | routed s unlabeled start =>
    have labels : Outcome input actions _ _ (input.topo.sortedLabels.foldlM _ s) :=
      assignLabels_outcome assigns sortedLabels_labelled start
    simp only [bind, Except.bind]
    generalize input.topo.sortedLabels.foldlM (assignLabel strategy input.topo actions) s = result
      at labels
    cases labels with
    | failed cause stuck =>
      obtain ⟨l, _, stuck⟩ := stuck
      exact .inl ⟨⟨l, stuck⟩, cause, rfl⟩
    | routed s' labelled routed =>
      -- nothing was placed on a worker whose labels could not be read
      have none_ : ∀ v ∈ input.topo.unknownSet.keys,
          listAt (fillKnown input.topo.allWorkers s'.merged) v = [] := by
        intro v unknown
        rw [(fillKnown_same _ _).1, List.eq_nil_iff_forall_not_mem]
        intro p mem
        exact (routed.placed v p mem).known.2 unknown
      have same := (fillKnown_same _ _).trans (fillUnknown_same none_)
      refine .inr ⟨fun l stuck => ?_, _, s'.parked, rfl, ?_, ?_, routed.parked, ?_⟩
      · obtain rfl | sorted := stuck_cases stuck
        · exact unlabeled stuck
        · exact labelled ⟨l, sorted, stuck⟩
      · exact (same.2.append_right _).trans (routed.all.trans (by simpa using groups_perm))
      · intro w p mem
        rw [same.1] at mem
        exact routed.placed w p mem
      · intro w active
        rw [mem_fillUnknown, mem_fillKnown, mem_allWorkers]
        by_cases unknown : w ∈ input.unknown
        · exact .inl unknown
        · exact .inr (.inl ⟨active.resolve_right unknown, unknown⟩)

theorem Parks.not_eligible (parks : Parks input actions l) : ¬Eligible input actions l w := by
  intro eligible
  cases eligible with
  | general _ _ => exact parks.1 rfl
  | carried _ _ _ here => exact parks.2.1 w here
  | spilled _ _ _ _ marked _ => exact parks.2.2 marked

theorem parked_label_empty {merged} {parked}
    (ok : computeLabelAssignments strategy state input.topo actions = .ok (merged, parked)) :
    ∀ p ∈ parked, p.label ∈ input.topo.emptyLabels := by
  unfold computeLabelAssignments at ok
  cases first : assignGroup strategy input.topo ⟨state, ∅, []⟩ input.topo.generalPool
      (listAt input.topo.groups []) .unlabeledGroup with
  | error cause => simp [bind, Except.bind, first] at ok
  | ok s =>
    cases rest : input.topo.sortedLabels.foldlM (assignLabel strategy input.topo actions) s with
    | error cause => simp [bind, Except.bind, first, rest] at ok
    | ok s' =>
      simp only [bind, Except.bind, first, rest] at ok
      cases ok
      intro p mem
      obtain before | ⟨sorted, empty⟩ := assignLabels_parked rest p mem
      · rw [assignGroup_parked first] at before
        cases before
      · refine mem_sortStrings.mpr (List.mem_filter.mpr ⟨mem_sortStrings.mp sorted, ?_⟩)
        exact decide_eq_true empty

theorem label_routing_complete (assigns : Assigns strategy input) (state : S) :
    (∀ merged parked,
      computeLabelAssignments strategy state (buildLabelTopology input) actions =
          .ok (merged, parked) →
        (held merged ++ parked).Perm input.partitions ∧
        (∀ w, ∀ p ∈ listAt merged w, Eligible input actions p.label w) ∧
        (∀ p ∈ input.partitions, p ∈ parked ↔ Parks input actions p.label) ∧
        (∀ w ∈ input.unknown, listAt merged w = []) ∧
        (∀ w ∈ input.workers, w ∈ merged)) ∧
      ((∃ cause, computeLabelAssignments strategy state (buildLabelTopology input) actions =
          .error cause) ↔
        ∃ p ∈ input.partitions, ¬Parks input actions p.label ∧ ∀ w, ¬Known input w) := by
  obtain ⟨⟨l, stuck⟩, cause, fails⟩ | ⟨goes, merged, parked, ok, all, eligible, parks, entries⟩ :=
    @computeLabelAssignments_outcome S ε strategy input actions assigns state
  · rw [fails]
    refine ⟨by rintro merged parked ⟨⟩, fun _ => ?_, fun _ => ⟨cause, rfl⟩⟩
    obtain ⟨p, mem⟩ := List.exists_mem_of_ne_nil _ stuck.1
    obtain ⟨listed, rfl⟩ := mem_group.mp mem
    exact ⟨p, listed, stuck.2⟩
  · rw [ok]
    refine ⟨?_, ?_, ?_⟩
    · rintro merged parked ⟨⟩
      refine ⟨all, eligible, fun p listed => ⟨parks p, fun is => ?_⟩, fun w unknown => ?_,
        fun w active => entries w (.inl active)⟩
      · obtain placed | there := List.mem_append.mp (all.mem_iff.mpr listed)
        · obtain ⟨w, mem⟩ := mem_held.mp placed
          exact absurd (eligible w p mem) is.not_eligible
        · exact there
      · rw [List.eq_nil_iff_forall_not_mem]
        intro p mem
        exact (eligible w p mem).known.2 unknown
    · rintro ⟨cause, ⟨⟩⟩
    · rintro ⟨p, listed, unparked, nobody⟩
      have some_ : group input p.label ≠ [] := List.ne_nil_of_mem (mem_group.mpr ⟨listed, rfl⟩)
      exact absurd ⟨some_, unparked, nobody⟩ (goes p.label)

end Result

/-! ## A strategy and an input -/

def firstOfPool : Strategy Unit Unit
  | _, [], _ => (.error (), ())
  | _, w :: _, partitions => (.ok (AList.insert w partitions ∅), ())

theorem firstOfPool_assigns (input : TopologyInput) : Assigns firstOfPool input := by
  intro state pool partitions some_ _ _ _ _
  cases pool with
  | nil => exact absurd rfl some_
  | cons w rest =>
    refine ⟨_, rfl, ?_, ?_⟩
    · rw [held_insert_split]
      simp
    · intro v ne
      by_cases same : v = w
      · exact same ▸ .head _
      · rw [listAt_insert_of_ne same, listAt_empty] at ne
        exact absurd rfl ne

def labelled (label : GoString) : Partition := ⟨[[107]], 0, label⟩

/-- Worker `a` carries label `x`, `b` none, and the labels of `u` could not be read; one
partition without a label and one each with the labels `x`, `y` and `z`. -/
def mixedInput : TopologyInput where
  workers := [[98], [97], [117]]
  labels := AList.insert [97] [[120]] ∅
  unknown := AList.insert [117] true ∅
  partitions := [labelled [], labelled [120], labelled [121], labelled [122]]
  policy := .dedicated
  distinct := by decide
  labels_distinct w := by
    by_cases same : w = [97]
    · subst same
      decide
    · rw [listAt_insert_of_ne same]
      simp
  unknown_set w mem := by
    obtain rfl : w = [117] := ((AList.mem_insert ∅).mp mem).resolve_right (AList.notMem_empty w)
    rfl

/-- With `z` marked to be spilled, `y` is parked, and `b` has what is unlabelled or
spilled. -/
theorem label_routing_complete_mixed :
    ∃ merged parked,
      computeLabelAssignments firstOfPool () (buildLabelTopology mixedInput)
          (AList.insert [122] .spill ∅) = .ok (merged, parked) ∧
        parked = [labelled [121]] ∧ listAt merged [98] = [labelled [], labelled [122]] ∧
        (held merged ++ parked).Perm mixedInput.partitions ∧
        ∀ w, ∀ p ∈ listAt merged w, Eligible mixedInput (AList.insert [122] .spill ∅) p.label w := by
  have ran : (computeLabelAssignments firstOfPool () (buildLabelTopology mixedInput)
      (AList.insert [122] .spill ∅)).toOption.map (fun result => (result.2, listAt result.1 [98])) =
        some ([labelled [121]], [labelled [], labelled [122]]) := by
    decide
  generalize result : computeLabelAssignments firstOfPool () (buildLabelTopology mixedInput)
    (AList.insert [122] .spill ∅) = computed at ran
  cases computed with
  | error cause => cases ran
  | ok pair =>
    obtain ⟨merged, parked⟩ := pair
    obtain ⟨all, eligible, _⟩ :=
      (label_routing_complete (firstOfPool_assigns mixedInput) ()).1 merged parked result
    obtain ⟨alone, both⟩ := Prod.mk.inj (Option.some.inj ran)
    exact ⟨merged, parked, rfl, alone, both, all, eligible⟩

end Parti.Assignment.Labels
