/-
# Durable.WorkerConsumer — the subject loops of a worker

`UpdateWorkerConsumer` brings the registered subject loops in line with the partitions of
the call: it stops the loops of subjects that went away, waits for them, deletes their
entries and starts a loop for each new subject. It can fail at every one of these points,
and what it has done until then stays. `Close` stops all loops and deletes all entries.
Both hold `updateMu`; each stop, the deletion and each start is a step of its own.

* `subject_loops_converge`: in every state of every sequence of calls no loop is leaked and
  no subject has two running loops; a call over the cap changes nothing; a call that
  returned nil has left exactly the subjects of its partitions.
-/
import Parti.Durable.Subjects
import Parti.Lib.Buckets
import Parti.Lib.Run

namespace Parti.Durable

open Parti.Types Lib List Option

structure WorkerConsumerConfig where
  engine : Engine
  subjectTemplate : GoString
  maxConcurrentSubjects : Nat
  allowWorkerIDChange : Bool

structure Loop where
  subject : GoString
  stopped : Bool
deriving DecidableEq

/-- `loops` has every loop that was ever started; `subjects` names the registered ones by
their place in it. -/
structure WorkerConsumer where
  closed : Bool
  workerID : String
  subjects : AList fun _ : GoString => Nat
  loops : List Loop

inductive UpdateError where
  | consumerStopped
  | workerIDRequired
  | workerIDMutation
  | subjects (cause : SubjectError)
  | maxSubjectsExceeded (count cap : Nat)
  | cancelled
  | waitTimeout
  | createConsumer (subject : GoString)
  | processingGate (subject : GoString)

namespace WorkerConsumer

def new : WorkerConsumer := ⟨false, "", ∅, []⟩

inductive Call where
  | update (workerID : String) (partitions : List Partition)
  | close

/-- Where the holder of `updateMu` is. -/
inductive Pc where
  | idle
  | stopping (call : Call) (todo : List Nat) (keys toAdd : List GoString)
  | waiting (call : Call) (keys toAdd : List GoString)
  | adding (call : Call) (toAdd : List GoString)
  | returned (call : Call) (err : Option UpdateError)

inductive Waited where
  | finished
  | cancelled
  | timedOut

inductive Added where
  | started
  | consumerFailed
  | gateFailed

inductive Input where
  | call (call : Call)
  | waited (outcome : Waited)
  | added (outcome : Added)
  | go

def validateUpdateParams (cfg : WorkerConsumerConfig) (wc : WorkerConsumer) (workerID : String) :
    Option UpdateError :=
  if workerID = "" then some .workerIDRequired
  else if wc.workerID ≠ "" ∧ wc.workerID ≠ workerID ∧ cfg.allowWorkerIDChange = false then
    some .workerIDMutation
  else none

def computeSubjectDiff (subjects existing : List GoString) : List GoString × List GoString :=
  (subjects.filter (· ∉ existing), existing.filter (· ∉ subjects))

/-- `UpdateWorkerConsumer` up to its first effect on a loop. -/
def beginUpdate (cfg : WorkerConsumerConfig) (wc : WorkerConsumer) (workerID : String)
    (partitions : List Partition) : WorkerConsumer × Pc :=
  let call := Call.update workerID partitions
  if wc.closed then (wc, .returned call (some .consumerStopped))
  else
    match validateUpdateParams cfg wc workerID with
    | some err => (wc, .returned call (some err))
    | none =>
      match buildSubjects cfg.engine cfg.subjectTemplate partitions with
      | .error cause => (wc, .returned call (some (.subjects cause)))
      | .ok subjects =>
        if 0 < cfg.maxConcurrentSubjects ∧ cfg.maxConcurrentSubjects < subjects.length then
          (wc, .returned call
            (some (.maxSubjectsExceeded subjects.length cfg.maxConcurrentSubjects)))
        else
          let diff := computeSubjectDiff subjects wc.subjects.keys
          ({ wc with workerID := workerID },
            if diff.2 = [] then .adding call diff.1
            else .stopping call (diff.2.filterMap wc.subjects.lookup) diff.2 diff.1)

def beginClose (wc : WorkerConsumer) : WorkerConsumer × Pc :=
  ({ wc with closed := true },
    .stopping .close (wc.subjects.keys.filterMap wc.subjects.lookup) wc.subjects.keys [])

def stop (wc : WorkerConsumer) (id : Nat) : WorkerConsumer :=
  { wc with loops := wc.loops.modify id fun loop => { loop with stopped := true } }

def deleteEntries (wc : WorkerConsumer) (keys : List GoString) : WorkerConsumer :=
  { wc with subjects := eraseAll wc.subjects keys }

def addLoop (wc : WorkerConsumer) (subject : GoString) : WorkerConsumer :=
  { wc with subjects := wc.subjects.insert subject wc.loops.length
            loops := wc.loops ++ [⟨subject, false⟩] }

structure State where
  wc : WorkerConsumer
  pc : Pc

/-- After the wait: the entries are deleted whatever it brought. `Close` waits without a
timeout. -/
def afterWait (call : Call) (toAdd : List GoString) : Waited → Option Pc
  | .finished =>
    match call with
    | .update _ _ => some (.adding call toAdd)
    | .close => some (.returned call none)
  | .cancelled => some (.returned call (some .cancelled))
  | .timedOut =>
    match call with
    | .update _ _ => some (.returned call (some .waitTimeout))
    | .close => none

def step (cfg : WorkerConsumerConfig) (s : State) (input : Input) : Option State :=
  match s.pc, input with
  | .idle, .call (.update workerID partitions) =>
    let begun := beginUpdate cfg s.wc workerID partitions
    some ⟨begun.1, begun.2⟩
  | .idle, .call .close =>
    let begun := beginClose s.wc
    some ⟨begun.1, begun.2⟩
  | .stopping call (id :: todo) keys toAdd, .go =>
    some ⟨s.wc.stop id, .stopping call todo keys toAdd⟩
  | .stopping call [] keys toAdd, .go => some ⟨s.wc, .waiting call keys toAdd⟩
  | .waiting call keys toAdd, .waited outcome =>
    (afterWait call toAdd outcome).map fun pc => ⟨s.wc.deleteEntries keys, pc⟩
  | .adding call (subject :: toAdd), .added .started =>
    some ⟨s.wc.addLoop subject, .adding call toAdd⟩
  | .adding call (subject :: _), .added .consumerFailed =>
    some ⟨s.wc, .returned call (some (.createConsumer subject))⟩
  | .adding call (subject :: _), .added .gateFailed =>
    some ⟨s.wc, .returned call (some (.processingGate subject))⟩
  | .adding call [], .go => some ⟨s.wc, .returned call none⟩
  | .returned _ _, .go => some ⟨s.wc, .idle⟩
  | _, _ => none

def system (cfg : WorkerConsumerConfig) : System State Input where
  init s := s = ⟨.new, .idle⟩
  step := step cfg

/-! ## The registry -/

/-- A loop that runs is registered, and an entry names a loop of its subject. -/
structure Registered (wc : WorkerConsumer) : Prop where
  owned : ∀ id loop, wc.loops[id]? = some loop →
    loop.stopped = true ∨ wc.subjects.lookup loop.subject = some id
  known : ∀ subject id, wc.subjects.lookup subject = some id →
    ∃ loop, wc.loops[id]? = some loop ∧ loop.subject = subject

def Stopped (wc : WorkerConsumer) (id : Nat) : Prop :=
  ∀ loop, wc.loops[id]? = some loop → loop.stopped = true

section Registry

variable {wc : WorkerConsumer}

theorem stop_loops (wc : WorkerConsumer) (id other : Nat) :
    (wc.stop id).loops[other]? =
      wc.loops[other]?.map fun loop => if id = other then { loop with stopped := true } else loop := by
  simp only [stop, List.getElem?_modify]
  split <;> simp

theorem stopped_stop (wc : WorkerConsumer) (id : Nat) : Stopped (wc.stop id) id := by
  intro loop found
  rw [stop_loops] at found
  obtain ⟨before, -, rfl⟩ := map_eq_some_iff.mp found
  simp

theorem Stopped.stop {id : Nat} (stopped : Stopped wc id) (other : Nat) :
    Stopped (wc.stop other) id := by
  intro loop found
  rw [stop_loops] at found
  obtain ⟨before, was, rfl⟩ := map_eq_some_iff.mp found
  have := stopped before was
  split
  · rfl
  · exact this

theorem Registered.stop (registered : Registered wc) (id : Nat) : Registered (wc.stop id) where
  owned := by
    intro other loop found
    rw [stop_loops] at found
    obtain ⟨before, was, told⟩ := map_eq_some_iff.mp found
    by_cases here : id = other
    · rw [if_pos here] at told
      exact .inl (told ▸ rfl)
    · rw [if_neg here] at told
      exact registered.owned other loop (told ▸ was)
  known := by
    intro subject other found
    obtain ⟨loop, was, named⟩ := registered.known subject other found
    rw [stop_loops, was]
    refine ⟨_, rfl, ?_⟩
    split <;> exact named

theorem Registered.deleteEntries (registered : Registered wc) {keys}
    (stopped : ∀ subject ∈ keys, ∀ id, wc.subjects.lookup subject = some id → Stopped wc id) :
    Registered (wc.deleteEntries keys) where
  owned := by
    intro id loop found
    rcases registered.owned id loop found with told | entry
    · exact .inl told
    · by_cases removed : loop.subject ∈ keys
      · exact .inl (stopped _ removed id entry loop found)
      · exact .inr ((lookup_eraseAll_of_notMem _ removed).trans entry)
  known := by
    intro subject id found
    by_cases removed : subject ∈ keys
    · cases (lookup_eraseAll_of_mem _ removed).symm.trans found
    · exact registered.known subject id ((lookup_eraseAll_of_notMem _ removed).symm.trans found)

theorem Registered.addLoop (registered : Registered wc) {subject}
    (absent : wc.subjects.lookup subject = none) : Registered (wc.addLoop subject) where
  owned := by
    intro id loop found
    simp only [WorkerConsumer.addLoop, List.getElem?_append] at found ⊢
    split_ifs at found with old
    · rcases registered.owned id loop found with told | entry
      · exact .inl told
      · have other : loop.subject ≠ subject := by
          rintro rfl
          rw [absent] at entry
          cases entry
        exact .inr ((AList.lookup_insert_ne other).trans entry)
    · have last : id = wc.loops.length := by
        have : id - wc.loops.length < 1 := (List.getElem?_eq_some_iff.mp found).1
        omega
      subst last
      simp only [Nat.sub_self, List.getElem?_cons_zero, some.injEq] at found
      subst found
      exact .inr (AList.lookup_insert _)
  known := by
    intro other id found
    by_cases same : other = subject
    · subst same
      simp only [WorkerConsumer.addLoop, AList.lookup_insert, some.injEq] at found
      subst found
      exact ⟨⟨other, false⟩, by simp [WorkerConsumer.addLoop], rfl⟩
    · simp only [WorkerConsumer.addLoop, AList.lookup_insert_ne same] at found
      obtain ⟨loop, was, named⟩ := registered.known other id found
      refine ⟨loop, ?_, named⟩
      have inside : id < wc.loops.length := (List.getElem?_eq_some_iff.mp was).1
      simpa only [WorkerConsumer.addLoop, List.getElem?_append_left inside] using was

end Registry

/-! ## The call under way -/

/-- What an update still has to do: with the entries of `keys` gone and loops for `toAdd`
registered, the subjects are those of its partitions. -/
structure Plan (cfg : WorkerConsumerConfig) (partitions : List Partition) (wc : WorkerConsumer)
    (keys toAdd built : List GoString) : Prop where
  builds : buildSubjects cfg.engine cfg.subjectTemplate partitions = .ok built
  distinct : toAdd.Nodup
  absent : ∀ subject ∈ toAdd, wc.subjects.lookup subject = none
  leaves : ∀ subject, subject ∈ built ↔
    ((wc.subjects.lookup subject).isSome = true ∧ subject ∉ keys) ∨ subject ∈ toAdd

def Plans (cfg : WorkerConsumerConfig) (wc : WorkerConsumer) (keys toAdd : List GoString) :
    Call → Prop
  | .update _ partitions => ∃ built, Plan cfg partitions wc keys toAdd built
  | .close => toAdd = []

def Converged (cfg : WorkerConsumerConfig) (wc : WorkerConsumer) : Call → Prop
  | .update _ partitions => ∃ built,
      buildSubjects cfg.engine cfg.subjectTemplate partitions = .ok built ∧
        ∀ subject, subject ∈ wc.subjects ↔ subject ∈ built
  | .close => True

def Place (cfg : WorkerConsumerConfig) (wc : WorkerConsumer) : Pc → Prop
  | .idle => True
  | .stopping call todo keys toAdd => Plans cfg wc keys toAdd call ∧
      ∀ subject ∈ keys, ∀ id, wc.subjects.lookup subject = some id → id ∈ todo ∨ Stopped wc id
  | .waiting call keys toAdd => Plans cfg wc keys toAdd call ∧
      ∀ subject ∈ keys, ∀ id, wc.subjects.lookup subject = some id → Stopped wc id
  | .adding call toAdd => Plans cfg wc [] toAdd call
  | .returned call none => Converged cfg wc call
  | .returned _ (some _) => True

section Steps

variable {cfg : WorkerConsumerConfig} {wc wc' : WorkerConsumer}

variable {keys toAdd built : List GoString} {call : Call} {partitions : List Partition}
  {subject : GoString}

theorem Plans.congr (plans : Plans cfg wc keys toAdd call) (same : wc'.subjects = wc.subjects) :
    Plans cfg wc' keys toAdd call := by
  cases call with
  | close => exact plans
  | update workerID partitions =>
    obtain ⟨built, plan⟩ := plans
    exact ⟨built, plan.builds, plan.distinct, same ▸ plan.absent, same ▸ plan.leaves⟩

theorem buildSubjects_nodup {engine : Engine} {tmpl}
    (ok : buildSubjects engine tmpl partitions = .ok built) : built.Nodup := by
  unfold buildSubjects at ok
  split_ifs at ok
  · cases ok
    exact nodup_nil
  · cases parsed : parseTemplate engine tmpl with
    | none => rw [parsed] at ok; cases ok
    | some template =>
      rw [parsed] at ok
      cases rendered : partitions.mapM (renderSubject template) with
      | error cause => simp only [rendered] at ok; cases ok
      | ok subjects =>
        simp only [rendered] at ok
        cases ok
        exact (perm_insertionSort _ _).nodup_iff.mpr (nodup_dedup _)

theorem plan_of_diff (wc : WorkerConsumer) (workerID : String)
    (builds : buildSubjects cfg.engine cfg.subjectTemplate partitions = .ok built) :
    Plan cfg partitions { wc with workerID := workerID }
      (computeSubjectDiff built wc.subjects.keys).2 (computeSubjectDiff built wc.subjects.keys).1
      built where
  builds := builds
  distinct := (buildSubjects_nodup builds).filter _
  absent := by
    intro subject mem
    simp only [computeSubjectDiff, mem_filter, decide_eq_true_eq] at mem
    exact AList.lookup_eq_none.mpr mem.2
  leaves := by
    intro subject
    simp only [computeSubjectDiff, mem_filter, decide_eq_true_eq, AList.lookup_isSome,
      AList.mem_keys]
    by_cases wanted : subject ∈ built <;> by_cases held : subject ∈ wc.subjects.keys <;>
      simp [wanted, held]

theorem beginUpdate_place (registered : Registered wc) (workerID : String)
    (partitions : List Partition) :
    Registered (beginUpdate cfg wc workerID partitions).1 ∧
      Place cfg (beginUpdate cfg wc workerID partitions).1
        (beginUpdate cfg wc workerID partitions).2 := by
  simp only [beginUpdate]
  split
  · exact ⟨registered, trivial⟩
  split
  · exact ⟨registered, trivial⟩
  split
  · exact ⟨registered, trivial⟩
  next built builds =>
    split
    · exact ⟨registered, trivial⟩
    have plan := plan_of_diff wc workerID builds
    refine ⟨⟨registered.owned, registered.known⟩, ?_⟩
    split
    next nothing =>
      rw [nothing] at plan
      exact ⟨built, plan⟩
    next => exact ⟨⟨built, plan⟩, fun subject mem id found =>
      .inl (mem_filterMap.mpr ⟨subject, mem, found⟩)⟩

theorem beginClose_place (registered : Registered wc) :
    Registered (beginClose wc).1 ∧ Place cfg (beginClose wc).1 (beginClose wc).2 :=
  ⟨⟨registered.owned, registered.known⟩, rfl, fun subject mem _ found =>
    .inl (mem_filterMap.mpr ⟨subject, mem, found⟩)⟩

theorem stopping_place {id : Nat} {todo}
    (place : Place cfg wc (.stopping call (id :: todo) keys toAdd)) :
    Place cfg (wc.stop id) (.stopping call todo keys toAdd) := by
  refine ⟨place.1.congr rfl, fun subject mem other found => ?_⟩
  rcases place.2 subject mem other found with listed | told
  · rcases mem_cons.mp listed with rfl | later
    · exact .inr (stopped_stop wc other)
    · exact .inl later
  · exact .inr (told.stop id)

theorem plans_deleted (plans : Plans cfg wc keys toAdd call) :
    Plans cfg (wc.deleteEntries keys) [] toAdd call := by
  cases call with
  | close => exact plans
  | update workerID partitions =>
    obtain ⟨built, plan⟩ := plans
    refine ⟨built, plan.builds, plan.distinct, fun subject mem => ?_, fun subject => ?_⟩
    · by_cases removed : subject ∈ keys
      · exact lookup_eraseAll_of_mem _ removed
      · exact (lookup_eraseAll_of_notMem _ removed).trans (plan.absent subject mem)
    · rw [plan.leaves subject]
      by_cases removed : subject ∈ keys
      · simp [removed, deleteEntries, lookup_eraseAll_of_mem wc.subjects removed]
      · simp [removed, deleteEntries, lookup_eraseAll_of_notMem wc.subjects removed]

theorem waiting_place {outcome : Waited} {pc : Pc} (place : Place cfg wc (.waiting call keys toAdd))
    (moved : afterWait call toAdd outcome = some pc) : Place cfg (wc.deleteEntries keys) pc := by
  cases outcome with
  | finished =>
    cases call with
    | close => cases moved; trivial
    | update workerID partitions => cases moved; exact plans_deleted place.1
  | cancelled => cases moved; trivial
  | timedOut =>
    cases call with
    | close => cases moved
    | update workerID partitions => cases moved; trivial

theorem adding_place (place : Place cfg wc (.adding call (subject :: toAdd))) :
    Place cfg (wc.addLoop subject) (.adding call toAdd) := by
  cases call with
  | close => cases place
  | update workerID partitions =>
    obtain ⟨built, plan⟩ := place
    obtain ⟨fresh, distinct⟩ := nodup_cons.mp plan.distinct
    refine ⟨built, plan.builds, distinct, fun other mem => ?_, fun other => ?_⟩
    · have ne : other ≠ subject := fun eq => fresh (eq ▸ mem)
      exact (AList.lookup_insert_ne ne).trans (plan.absent other (.tail _ mem))
    · rw [plan.leaves other]
      by_cases same : other = subject
      · subst same
        simp [addLoop]
      · simp [addLoop, AList.lookup_insert_ne same, same]

theorem adding_absent (place : Place cfg wc (.adding call (subject :: toAdd))) :
    wc.subjects.lookup subject = none := by
  cases call with
  | close => cases place
  | update workerID partitions =>
    obtain ⟨built, plan⟩ := place
    exact plan.absent subject mem_cons_self

theorem added_place (place : Place cfg wc (.adding call [])) :
    Place cfg wc (.returned call none) := by
  cases call with
  | close => trivial
  | update workerID partitions =>
    obtain ⟨built, plan⟩ := place
    refine ⟨built, plan.builds, fun subject => ?_⟩
    rw [plan.leaves subject, AList.lookup_isSome]
    simp

structure Holds (cfg : WorkerConsumerConfig) (s : State) : Prop where
  registered : Registered s.wc
  place : Place cfg s.wc s.pc

theorem Holds.step {s s' : State} {input : Input} (holds : Holds cfg s)
    (taken : step cfg s input = some s') : Holds cfg s' := by
  obtain ⟨registered, place⟩ := holds
  obtain ⟨wc, pc⟩ := s
  unfold WorkerConsumer.step at taken
  simp only at taken registered place
  split at taken
  case h_1 workerID partitions =>
    cases taken
    exact ⟨(beginUpdate_place registered workerID partitions).1,
      (beginUpdate_place registered workerID partitions).2⟩
  case h_2 =>
    cases taken
    have closed : Registered _ ∧ Place cfg _ _ := beginClose_place registered
    exact ⟨closed.1, closed.2⟩
  case h_3 call id todo keys toAdd =>
    cases taken
    exact ⟨registered.stop id, stopping_place place⟩
  case h_4 call keys toAdd =>
    cases taken
    refine ⟨registered, place.1, fun subject mem id found => ?_⟩
    exact (place.2 subject mem id found).resolve_left (not_mem_nil)
  case h_5 call keys toAdd outcome =>
    obtain ⟨pc', moved, rfl⟩ := map_eq_some_iff.mp taken
    exact ⟨registered.deleteEntries place.2, waiting_place place moved⟩
  case h_6 call subject toAdd =>
    cases taken
    exact ⟨registered.addLoop (adding_absent place), adding_place place⟩
  case h_7 | h_8 => cases taken; exact ⟨registered, trivial⟩
  case h_9 call => cases taken; exact ⟨registered, added_place place⟩
  case h_10 => cases taken; exact ⟨registered, trivial⟩
  case h_11 => cases taken

end Steps

/-! ## Every sequence of calls -/

section Runs

variable {cfg : WorkerConsumerConfig} {s : State}

theorem holds_of_reachable (reached : Reachable (system cfg) Free s) : Holds cfg s := by
  refine Reachable.invariant (I := Holds cfg) ?_ (fun _ _ _ holds _ => holds.step) reached
  rintro _ rfl
  refine ⟨⟨fun id loop found => ?_, fun subject id found => ?_⟩, trivial⟩
  · simp [new] at found
  · simp [new] at found

def OverCap (cfg : WorkerConsumerConfig) (partitions : List Partition) : Prop :=
  ∃ built, buildSubjects cfg.engine cfg.subjectTemplate partitions = .ok built ∧
    0 < cfg.maxConcurrentSubjects ∧ cfg.maxConcurrentSubjects < built.length

theorem over_cap_refused (wc : WorkerConsumer) {partitions}
    (over_ : OverCap cfg partitions) (workerID : String) :
    ∃ err, beginUpdate cfg wc workerID partitions =
      (wc, .returned (.update workerID partitions) (some err)) := by
  obtain ⟨built, builds, capped⟩ := over_
  simp only [beginUpdate, builds, if_pos capped]
  split
  · exact ⟨_, rfl⟩
  · split
    · exact ⟨_, rfl⟩
    · exact ⟨_, rfl⟩

theorem subject_loops_converge (reached : Reachable (system cfg) Free s) :
    (∀ id loop, s.wc.loops[id]? = some loop →
      loop.stopped = true ∨ s.wc.subjects.lookup loop.subject = some id) ∧
    (∀ (id id' : Nat) (loop loop' : Loop), s.wc.loops[id]? = some loop →
      s.wc.loops[id']? = some loop' →
      loop.stopped = false → loop'.stopped = false → loop.subject = loop'.subject → id = id') ∧
    (∀ workerID partitions s', s.pc = .idle → OverCap cfg partitions →
      step cfg s (.call (.update workerID partitions)) = some s' →
        s'.wc = s.wc ∧ ∃ err, s'.pc = .returned (.update workerID partitions) (some err)) ∧
    ∀ workerID partitions, s.pc = .returned (.update workerID partitions) none →
      ∃ built, buildSubjects cfg.engine cfg.subjectTemplate partitions = .ok built ∧
        ∀ subject, subject ∈ s.wc.subjects ↔ subject ∈ built := by
  obtain ⟨registered, place⟩ := holds_of_reachable reached
  refine ⟨registered.owned, fun id id' loop loop' found found' runs runs' same => ?_,
    fun workerID partitions s' idle over_ taken => ?_, fun workerID partitions at_ => ?_⟩
  · have entry := (registered.owned id loop found).resolve_left (by simp [runs])
    have entry' := (registered.owned id' loop' found').resolve_left (by simp [runs'])
    rw [same, entry'] at entry
    exact (some.inj entry).symm
  · obtain ⟨err, refused⟩ := over_cap_refused s.wc over_ workerID
    simp only [step, idle, refused, some.injEq] at taken
    subst taken
    exact ⟨rfl, err, rfl⟩
  · rw [at_] at place
    exact place

end Runs

/-! ## A removal that times out -/

def plainConfig : WorkerConsumerConfig := ⟨fun _ => none, partitionPlaceholder, 1, false⟩

def updateTo (key : Fin 256) : Call := .update "w" [⟨[[key]], 1, []⟩]

/-- The worker gets one partition; it loses it for another, and the wait for its loop times
out; the update is repeated. -/
def timedOutRun : List Input :=
  [.call (updateTo 97), .added .started, .go, .go] ++
    [.call (updateTo 98), .go, .go, .waited .timedOut, .go] ++
    [.call (updateTo 98), .added .started, .go]

def Pc.isNil : Pc → Bool
  | .returned (.update "w" [⟨[[98]], 1, []⟩]) none => true
  | _ => false

theorem subject_loops_converge_after_timeout :
    ∃ s, Reachable (system plainConfig) Free s ∧ s.wc.loops = [⟨[97], true⟩, ⟨[98], false⟩] ∧
      ∃ built, buildSubjects plainConfig.engine plainConfig.subjectTemplate
          [⟨[[98]], 1, []⟩] = .ok built ∧
        ∀ subject, subject ∈ s.wc.subjects ↔ subject ∈ built := by
  obtain ⟨s, reached, loops, ended⟩ := exists_reachable (M := system plainConfig) Free rfl
    timedOutRun (fun s => s.wc.loops = [⟨[97], true⟩, ⟨[98], false⟩] ∧ s.pc.isNil = true) (by decide)
  have at_ : s.pc = .returned (.update "w" [⟨[[98]], 1, []⟩]) none := by
    unfold Pc.isNil at ended
    split at ended
    · assumption
    · cases ended
  obtain ⟨-, -, -, converged⟩ := subject_loops_converge reached
  exact ⟨s, reached, loops, converged "w" _ at_⟩

end WorkerConsumer

end Parti.Durable
