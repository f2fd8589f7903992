/-
# Manager.ErrorCircuit — why the error window degrades a manager

KV errors are admitted to one window of two classes: losses of a whole bucket, and
transient errors of a bucket that does not answer. A healthy operation takes the transient
ones out, a full success takes all out, and entries older than the window go at the next
error. At the threshold the manager degrades, for the class of the last error.

The window holds the newest of the errors that survive (`survivors`) in the history of the
calls, and after an error all of those in time.

* `degrade_reason_truthful`: the reason `kv-unavailable` is always true. The reason of
  whole-bucket loss is, if no transient error is left in the window when the loss is
  recorded.
* `transient_errors_counted_as_loss`: one loss after two transient errors.
-/
import Mathlib.Data.List.Infix
import Mathlib.Tactic.SplitIfs
import Parti.Manager.Lifecycle

namespace Parti.Manager

open Lib List Option

/-! ## Errors -/

/-- What the classifiers find in an error: the sentinels it wraps, whether connectivity or
a missing bucket, stream or consumer caused it, and whether it is a deadline or a lack of
responders. -/
structure KVError where
  streamMissing : Bool
  kvUnavailable : Bool
  wholeBucketLoss : Bool
  timedOut : Bool
deriving DecidableEq

inductive KVErrorRoute where
  | drop
  | streamMissing
  | window
deriving DecidableEq

structure KVErrorDecision where
  route : KVErrorRoute
  transient : Bool
deriving DecidableEq

def classifyKVError : Option KVError → KVErrorDecision
  | none => ⟨.drop, false⟩
  | some err =>
    if err.streamMissing then ⟨.streamMissing, false⟩
    else if !err.wholeBucketLoss && !err.kvUnavailable then ⟨.drop, false⟩
    else ⟨.window, err.kvUnavailable⟩

/-- Wraps a timeout that has no other class. -/
def markKVUnavailable : Option KVError → Option KVError
  | none => none
  | some err =>
    if err.wholeBucketLoss then some err
    else if err.timedOut then some { err with kvUnavailable := true }
    else some err

/-! ## The window -/

/-- Durations and times are in nanoseconds. -/
structure DegradedBehaviorConfig where
  kvErrorThreshold : Int
  kvErrorWindow : Int

/-- Zero values are replaced. -/
def DegradedBehaviorConfig.setDefaults (cfg : DegradedBehaviorConfig) : DegradedBehaviorConfig where
  kvErrorThreshold := if cfg.kvErrorThreshold = 0 then 5 else cfg.kvErrorThreshold
  kvErrorWindow := if cfg.kvErrorWindow = 0 then 30000000000 else cfg.kvErrorWindow

def DegradedBehaviorConfig.validate (cfg : DegradedBehaviorConfig) : Bool :=
  0 ≤ cfg.kvErrorThreshold && 0 ≤ cfg.kvErrorWindow

structure KVErrorEvent where
  at_ : Int
  transient : Bool
deriving DecidableEq

/-- What the calls were, newest first. Kept for the record. -/
inductive Noted where
  | admitted (event : KVErrorEvent)
  | healthy
  | success
deriving DecidableEq

structure Circuit where
  kvErrorWindow : List KVErrorEvent
  kvErrorCount : Int
  lastHeartbeatSuccessAt : Int
  life : Life
  /-- The time of the last call. -/
  clock : Int
  history : List Noted

def degradeReasonKVErrorThreshold : String := "KV error threshold exceeded"

def degradeReasonKVUnavailable : String := "kv-unavailable"

def degradeReason (transient : Bool) : String :=
  if transient then degradeReasonKVUnavailable else degradeReasonKVErrorThreshold

/-- The call with nobody else around. -/
def Life.enterDegraded (life : Life) (now : Int) (reason : String) : Life :=
  if life.state = .shutdown then life
  else if life.degraded ≠ none then life
  else if life.state = .degraded ∨ isValidTransition life.state .degraded then
    { life with state := .degraded, degraded := some ⟨now, reason⟩ }
  else life

def Life.exitDegraded (life : Life) : Life :=
  if life.degraded = none then life
  else if life.state = .degraded then { life with state := .stable, degraded := none }
  else life

def windowLenInt32 (n : Nat) : Int := if n > 2147483647 then 2147483647 else n

/-- The scan for the first entry after `start`; without one nothing is removed. -/
def trim (start : Int) (window : List KVErrorEvent) : List KVErrorEvent :=
  window.drop ((window.findIdx? fun e => start < e.at_).getD 0)

section Calls

variable (cfg : DegradedBehaviorConfig) (s : Circuit) (now : Int)

def Circuit.push (transient : Bool) : Circuit :=
  let window := trim (now - cfg.kvErrorWindow) (s.kvErrorWindow ++ [⟨now, transient⟩])
  { s with
    kvErrorWindow := window
    kvErrorCount := windowLenInt32 window.length
    history := .admitted ⟨now, transient⟩ :: s.history }

def Circuit.recordKVError (err : Option KVError) : Circuit :=
  let decision := classifyKVError err
  if decision.route ≠ .window then s
  else if s.life.degraded ≠ none then s
  else
    let s := s.push cfg now decision.transient
    if cfg.kvErrorThreshold ≤ s.kvErrorCount then
      { s with life := s.life.enterDegraded now (degradeReason decision.transient) }
    else s

def Circuit.recordKVOpError (err : Option KVError) : Circuit :=
  s.recordKVError cfg now (markKVUnavailable err)

def Circuit.recordKVSuccess : Circuit :=
  { s with kvErrorWindow := [], kvErrorCount := 0, history := .success :: s.history }

/-- While degraded only the time is taken. -/
def Circuit.recordKVHealthyOp : Circuit :=
  let s := { s with lastHeartbeatSuccessAt := now, history := .healthy :: s.history }
  if s.life.degraded ≠ none then s
  else if s.kvErrorWindow = [] then s
  else
    let kept := s.kvErrorWindow.filter fun e => !e.transient
    { s with kvErrorWindow := kept, kvErrorCount := windowLenInt32 kept.length }

/-- The calls, and what else happens to the manager: it recovers, it degrades for another
reason, it moves to another state. -/
inductive KVCall where
  | error (err : Option KVError)
  | opError (err : Option KVError)
  | healthyOp
  | success
  | recovers
  | degrades (reason : String)
  | moves (state : State)
deriving DecidableEq

/-- A recovery takes a success before it leaves degraded mode. -/
def Circuit.take : KVCall → Option Circuit
  | .error err => some (s.recordKVError cfg now err)
  | .opError err => some (s.recordKVOpError cfg now err)
  | .healthyOp => some (s.recordKVHealthyOp now)
  | .success => some s.recordKVSuccess
  | .recovers =>
    if s.life.degraded = none then none
    else some { s.recordKVSuccess with life := s.life.exitDegraded }
  | .degrades reason =>
    if reason = degradeReasonKVErrorThreshold ∨ reason = degradeReasonKVUnavailable then none
    else some { s with life := s.life.enterDegraded now reason }
  | .moves state =>
    if s.life.degraded = none ∧ state ≠ .degraded then
      some { s with life.state := state }
    else none

end Calls

/-- All sequences of calls in the order of their times, from a manager that is not
degraded. -/
def circuit (cfg : DegradedBehaviorConfig) : System Circuit (Int × KVCall) where
  init s := s.kvErrorWindow = [] ∧ s.history = [] ∧ s.life.degraded = none
  step s event :=
    if s.clock ≤ event.1 then
      (s.take cfg event.1 event.2).map fun s => { s with clock := event.1 }
    else none

section Alone

attribute [local simp] Program.solo lifeProgram LifePc.next Call.begins live Site.target Site.ended

/-- Step by step, with nobody else around, the two calls are these functions. -/
theorem enterDegraded_alone {T : Type} (t : T) (life : Life) (now : Int) (reason : String) :
    ∃ count, (lifeProgram T).solo t life .idle
      (.enterDegraded ⟨now, reason⟩ :: List.replicate count .go) =
        some (life.enterDegraded now reason, .idle) := by
  unfold Life.enterDegraded
  split_ifs with down present able
  · exact ⟨1, by simp [down]⟩
  · exact ⟨2, by simp [down, present]⟩
  · have free := not_not.mp present
    by_cases there : life.state = .degraded
    · exact ⟨3, by simp [free, there]⟩
    · exact ⟨4, by simp [down, free, there, able.resolve_left there]⟩
  · obtain ⟨there, invalid⟩ := not_or.mp able
    have free := not_not.mp present
    have rolledBack : { life with degraded := none } = life := by rw [← free]
    exact ⟨4, by simp [down, free, there, invalid, rolledBack]⟩

theorem exitDegraded_alone {T : Type} (t : T) (life : Life) :
    ∃ count, (lifeProgram T).solo t life .idle (.exitDegraded :: List.replicate count .go) =
      some (life.exitDegraded, .idle) := by
  unfold Life.exitDegraded
  split_ifs with free there
  · exact ⟨1, by simp [free]⟩
  · exact ⟨3, by simp [free, there]⟩
  · exact ⟨2, by simp [free, there]⟩

end Alone

/-! ## What the history says -/

/-- The errors no success has cleared, the transient ones among them without a healthy
operation after them. The flag says that there was one already. -/
def survivors : Bool → List Noted → List KVErrorEvent
  | _, [] => []
  | _, .success :: _ => []
  | _, .healthy :: rest => survivors true rest
  | healthy, .admitted e :: rest =>
    if e.transient && healthy then survivors healthy rest else e :: survivors healthy rest

def wholeBucketLosses (history : List Noted) : List KVErrorEvent :=
  (history.takeWhile (· ≠ .success)).filterMap fun
    | .admitted e => if e.transient then none else some e
    | _ => none

def inTime (cfg : DegradedBehaviorConfig) (now : Int) (events : List KVErrorEvent) :
    List KVErrorEvent :=
  events.filter fun e => now - cfg.kvErrorWindow < e.at_

theorem survivors_true (history : List Noted) :
    survivors true history = (survivors false history).filter fun e => !e.transient := by
  have lasting : ∀ history, (survivors true history).filter (fun e => !e.transient) =
      survivors true history := by
    intro history
    induction history with
    | nil => rfl
    | cons noted rest ih =>
      cases noted with
      | success => rfl
      | healthy => exact ih
      | admitted e => cases transient : e.transient <;> simp [survivors, transient, ih]
  induction history with
  | nil => rfl
  | cons noted rest ih =>
    cases noted with
    | success => rfl
    | healthy => exact (lasting rest).symm
    | admitted e => cases transient : e.transient <;> simp [survivors, transient, ih]

theorem survivors_true_eq (history : List Noted) :
    survivors true history = wholeBucketLosses history := by
  induction history with
  | nil => rfl
  | cons noted rest ih =>
    cases noted with
    | success => rfl
    | healthy => exact ih
    | admitted e =>
      cases transient : e.transient <;>
        simp [survivors, wholeBucketLosses, transient, ih]

/-! ## What a call does -/

section Steps

variable {cfg : DegradedBehaviorConfig} {s s' : Circuit} {now : Int} {call : KVCall}

theorem windowLenInt32_le (n : Nat) : windowLenInt32 n ≤ n := by
  unfold windowLenInt32
  split <;> omega

theorem Life.enterDegraded_degraded {life : Life} {reason : String} :
    (life.enterDegraded now reason).degraded = life.degraded ∨
      life.degraded = none ∧
        (life.enterDegraded now reason).degraded = some ⟨now, reason⟩ := by
  unfold Life.enterDegraded
  split_ifs with down present
  · exact .inl rfl
  · exact .inl rfl
  · exact .inr ⟨not_not.mp present, rfl⟩
  · exact .inl rfl

inductive Handled (cfg : DegradedBehaviorConfig) (now : Int) (s s' : Circuit) : Prop
  | other (window : s'.kvErrorWindow = s.kvErrorWindow) (history : s'.history = s.history)
      (still : s'.life.degraded = none → s.life.degraded = none)
      (reason : ∀ record, s.life.degraded = none → s'.life.degraded = some record →
        record.reason ≠ degradeReasonKVErrorThreshold ∧ record.reason ≠ degradeReasonKVUnavailable)
  | pushed (transient : Bool) (free : s.life.degraded = none)
      (window : s'.kvErrorWindow =
        trim (now - cfg.kvErrorWindow) (s.kvErrorWindow ++ [⟨now, transient⟩]))
      (history : s'.history = .admitted ⟨now, transient⟩ :: s.history)
      (reason : ∀ record, s'.life.degraded = some record →
        cfg.kvErrorThreshold ≤ s'.kvErrorWindow.length ∧ record.reason = degradeReason transient)
  | healthy (record : s'.life.degraded = s.life.degraded) (history : s'.history = .healthy :: s.history)
      (window : s.life.degraded ≠ none ∧ s'.kvErrorWindow = s.kvErrorWindow ∨
        s'.kvErrorWindow = s.kvErrorWindow.filter fun e => !e.transient)
  | cleared (still : s.life.degraded = none → s'.life.degraded = none)
      (window : s'.kvErrorWindow = []) (history : s'.history = .success :: s.history)

theorem Handled.refl : Handled cfg now s s :=
  .other rfl rfl id fun record free present => by
    rw [free] at present
    cases present

theorem recordKVError_handled (err : Option KVError) : Handled cfg now s (s.recordKVError cfg now err) := by
  unfold Circuit.recordKVError
  dsimp only
  split_ifs with route degraded trips
  · exact .refl
  · exact .refl
  · have free := not_not.mp degraded
    refine .pushed (classifyKVError err).transient free rfl rfl fun record present => ?_
    have long := Int.le_trans trips (windowLenInt32_le _)
    rcases Life.enterDegraded_degraded with same | ⟨_, entered⟩
    · cases present.symm.trans (same.trans free)
    · exact ⟨long, by rw [← some.inj (entered.symm.trans present)]⟩
  · have free := not_not.mp degraded
    refine .pushed (classifyKVError err).transient free rfl rfl fun record present => ?_
    cases present.symm.trans free

theorem recordKVHealthyOp_handled : Handled cfg now s (s.recordKVHealthyOp now) := by
  unfold Circuit.recordKVHealthyOp
  dsimp only
  split_ifs with degraded empty
  · exact .healthy rfl rfl (.inl ⟨degraded, rfl⟩)
  · refine .healthy rfl rfl (.inr ?_)
    have empty : s.kvErrorWindow = [] := empty
    simp [empty]
  · exact .healthy rfl rfl (.inr rfl)

theorem take_handled (taken : s.take cfg now call = some s') : Handled cfg now s s' := by
  cases call with
  | error err =>
    obtain rfl := some.inj taken
    exact recordKVError_handled err
  | opError err =>
    obtain rfl := some.inj taken
    exact recordKVError_handled (markKVUnavailable err)
  | healthyOp =>
    obtain rfl := some.inj taken
    exact recordKVHealthyOp_handled
  | success =>
    obtain rfl := some.inj taken
    exact .cleared id rfl rfl
  | recovers =>
    simp only [Circuit.take] at taken
    split_ifs at taken with free
    obtain rfl := some.inj taken
    exact .cleared (fun none => absurd none free) rfl rfl
  | degrades reason =>
    simp only [Circuit.take] at taken
    split_ifs at taken with ours
    obtain rfl := some.inj taken
    refine .other rfl rfl (fun none => ?_) fun record free present => ?_
    · rcases Life.enterDegraded_degraded with same | ⟨free, _⟩
      · exact same.symm.trans none
      · exact free
    · rcases Life.enterDegraded_degraded with same | ⟨_, entered⟩
      · cases present.symm.trans (same.trans free)
      · rw [← some.inj (entered.symm.trans present)]
        exact not_or.mp ours
  | moves state =>
    simp only [Circuit.take] at taken
    split_ifs at taken
    obtain rfl := some.inj taken
    exact .other rfl rfl id fun record free present => absurd (present.symm.trans free) (by simp)

end Steps

/-! ## Trimming -/

section Trim

variable {window : List KVErrorEvent} {start : Int} {e : KVErrorEvent}

theorem mem_trim (ordered : window.Pairwise fun e f => e.at_ ≤ f.at_)
    (some : ∃ e ∈ window, start < e.at_) (mem : e ∈ trim start window) : start < e.at_ := by
  unfold trim at mem
  cases found : window.findIdx? fun e => start < e.at_ with
  | none =>
    obtain ⟨e, mem, late⟩ := some
    exact absurd (findIdx?_eq_none_iff.mp found e mem) (by simp [late])
  | some i =>
    rw [found, getD_some] at mem
    obtain ⟨inside, late, _⟩ := findIdx?_eq_some_iff_getElem.mp found
    rw [drop_eq_getElem_cons inside] at mem
    have late : start < window[i].at_ := of_decide_eq_true late
    rcases mem_cons.mp mem with rfl | mem
    · exact late
    · obtain ⟨j, below, rfl⟩ := mem_drop_iff_getElem.mp mem
      exact Int.lt_of_lt_of_le late
        (pairwise_iff_getElem.mp ordered i (i + 1 + j) inside (by omega) (by omega))

theorem trim_suffix : trim start window <:+ window := drop_suffix _ _

end Trim

/-! ## Every sequence of calls -/

section Runs

variable {cfg : DegradedBehaviorConfig} {s s' : Circuit} {now : Int} {call : KVCall}

/-- The window is in the order of time, and while the manager is not degraded it holds the
newest of the survivors. -/
structure Faithful (s : Circuit) : Prop where
  past : ∀ e ∈ s.kvErrorWindow, e.at_ ≤ s.clock
  ordered : s.kvErrorWindow.Pairwise fun e f => e.at_ ≤ f.at_
  newest : s.life.degraded = none → s.kvErrorWindow.reverse <+: survivors false s.history

theorem Faithful.ordered_push (faithful : Faithful s) (later : s.clock ≤ now) (transient : Bool) :
    (s.kvErrorWindow ++ [KVErrorEvent.mk now transient]).Pairwise fun e f => e.at_ ≤ f.at_ := by
  refine pairwise_append.mpr ⟨faithful.ordered, pairwise_singleton _ _, ?_⟩
  intro e mem f last
  rw [mem_singleton.mp last]
  exact Int.le_trans (faithful.past e mem) later

theorem Faithful.newest_push (faithful : Faithful s) (free : s.life.degraded = none)
    (start : Int) (transient : Bool) :
    (trim start (s.kvErrorWindow ++ [KVErrorEvent.mk now transient])).reverse <+:
      survivors false (.admitted ⟨now, transient⟩ :: s.history) := by
  have all : (s.kvErrorWindow ++ [KVErrorEvent.mk now transient]).reverse <+:
      survivors false (.admitted ⟨now, transient⟩ :: s.history) := by
    simpa [survivors] using faithful.newest free
  exact ( reverse_prefix.mpr trim_suffix).trans all

theorem Faithful.handled (faithful : Faithful s) (later : s.clock ≤ now) (took : Handled cfg now s s') :
    Faithful { s' with clock := now } := by
  cases took with
  | other window history still reason =>
    refine ⟨fun e mem => ?_, ?_, fun free => ?_⟩
    · rw [window] at mem
      exact Int.le_trans (faithful.past e mem) later
    · rw [window]
      exact faithful.ordered
    · rw [window, history]
      exact faithful.newest (still free)
  | pushed transient free window history reason =>
    refine ⟨fun e mem => ?_, ?_, fun _ => ?_⟩
    · rw [window] at mem
      rcases mem_append.mp (trim_suffix.subset mem) with mem | last
      · exact Int.le_trans (faithful.past e mem) later
      · obtain rfl := mem_singleton.mp last
        exact Int.le_refl now
    · rw [window]
      exact (faithful.ordered_push later transient).sublist trim_suffix.sublist
    · rw [window, history]
      exact faithful.newest_push free _ transient
  | healthy record history window =>
    rcases window with ⟨degraded, window⟩ | window
    · refine ⟨fun e mem => ?_, ?_, fun free => absurd (record.symm.trans free) degraded⟩
      · rw [window] at mem
        exact Int.le_trans (faithful.past e mem) later
      · rw [window]
        exact faithful.ordered
    · refine ⟨fun e mem => ?_, ?_, fun free => ?_⟩
      · rw [window] at mem
        exact Int.le_trans (faithful.past e (mem_filter.mp mem).1) later
      · rw [window]
        exact faithful.ordered.sublist filter_sublist
      · rw [window, history, ← filter_reverse]
        show _ <+: survivors true s.history
        rw [survivors_true]
        exact (faithful.newest (record.symm.trans free)).filter _
  | cleared still window history =>
    refine ⟨fun e mem => ?_, ?_, fun _ => ?_⟩
    · rw [window] at mem
      cases mem
    · rw [window]
      exact .nil
    · rw [window]
      exact nil_prefix

theorem circuit_step (taken : (circuit cfg).step s (now, call) = some s') :
    s.clock ≤ now ∧ ∃ s₁, Handled cfg now s s₁ ∧ s' = { s₁ with clock := now } := by
  simp only [circuit] at taken
  split_ifs at taken with later
  obtain ⟨s₁, took, rfl⟩ := map_eq_some_iff.mp taken
  exact ⟨later, s₁, take_handled took, rfl⟩

theorem faithful_of_reachable {ok}
    (reached : Reachable (circuit cfg) ok s) : Faithful s := by
  refine Reachable.invariant (I := Faithful) ?_ ?_ reached
  · rintro s ⟨empty, unused, _⟩
    refine ⟨fun e mem => ?_, ?_, fun _ => ?_⟩
    · rw [empty] at mem
      cases mem
    · rw [empty]
      exact .nil
    · rw [empty]
      exact nil_prefix
  · rintro s ⟨now, call⟩ s' faithful _ taken
    obtain ⟨later, s₁, took, rfl⟩ := circuit_step taken
    exact faithful.handled later took

/-- No transient error is left in the window at that time. -/
def Unmixed (cfg : DegradedBehaviorConfig) (s : Circuit) (now : Int) : Prop :=
  ∀ e ∈ s.kvErrorWindow, e.transient = true → e.at_ ≤ now - cfg.kvErrorWindow

theorem window_positive {raw : DegradedBehaviorConfig} (accepted : raw.setDefaults.validate = true) :
    0 < raw.setDefaults.kvErrorWindow := by
  obtain ⟨_, window⟩ := (Bool.and_eq_true _ _).mp accepted
  have window : 0 ≤ raw.setDefaults.kvErrorWindow := of_decide_eq_true window
  simp only [DegradedBehaviorConfig.setDefaults] at window ⊢
  split_ifs at window ⊢ <;> omega

theorem length_le_inTime {window events : List KVErrorEvent}
    (late : ∀ e ∈ window, now - cfg.kvErrorWindow < e.at_) (sub : window.reverse.Sublist events) :
    window.length ≤ (inTime cfg now events).length := by
  have all : inTime cfg now window.reverse = window.reverse :=
    filter_eq_self.mpr fun e mem => decide_eq_true (late e (mem_reverse.mp mem))
  have shorter := (sub.filter fun e => now - cfg.kvErrorWindow < e.at_).length_le
  rw [← length_reverse, ← all]
  exact shorter

theorem degrade_reason_truthful (raw : DegradedBehaviorConfig) {record : DegradedRecord}
    (accepted : raw.setDefaults.validate = true)
    (reached : Reachable (circuit raw.setDefaults) Free s)
    (taken : (circuit raw.setDefaults).step s (now, call) = some s')
    (was : s.life.degraded = none) (entered : s'.life.degraded = some record) :
    (record.reason = degradeReasonKVErrorThreshold → Unmixed raw.setDefaults s now →
      raw.setDefaults.kvErrorThreshold ≤
        (inTime raw.setDefaults now (wholeBucketLosses s'.history)).length) ∧
    (record.reason = degradeReasonKVUnavailable →
      raw.setDefaults.kvErrorThreshold ≤
        (inTime raw.setDefaults now (survivors false s'.history)).length) := by
  have faithful := faithful_of_reachable reached
  have positive := window_positive accepted
  obtain ⟨later, s₁, took, rfl⟩ := circuit_step taken
  have faithful' := faithful.handled later took
  have entered : s₁.life.degraded = some record := entered
  cases took with
  | other window history still reason =>
    obtain ⟨other, other'⟩ := reason record was entered
    exact ⟨fun same => absurd same other, fun same => absurd same other'⟩
  | healthy same history window => cases entered.symm.trans (same.trans was)
  | cleared still window history => cases entered.symm.trans (still was)
  | pushed transient free window history reason =>
    obtain ⟨long, reason⟩ := reason record entered
    have late : ∀ e ∈ s₁.kvErrorWindow, now - raw.setDefaults.kvErrorWindow < e.at_ := by
      intro e mem
      rw [window] at mem
      exact mem_trim (faithful.ordered_push later transient)
        ⟨⟨now, transient⟩, by simp, Int.sub_lt_self now positive⟩ mem
    have newest : s₁.kvErrorWindow.reverse.Sublist (survivors false s₁.history) := by
      rw [window, history]
      exact (faithful.newest_push free _ transient).sublist
    refine ⟨fun loss unmixed => ?_, fun _ => ?_⟩
    · have lasting : ∀ e ∈ s₁.kvErrorWindow, e.transient = false := by
        intro e mem
        have late := late e mem
        rw [window] at mem
        rcases mem_append.mp (trim_suffix.subset mem) with mem | last
        · by_contra transient
          have early := unmixed e mem (by simpa using transient)
          omega
        · rw [mem_singleton.mp last]
          cases transient with
          | false => rfl
          | true => exact absurd (loss.symm.trans reason) (by decide)
      have losses : s₁.kvErrorWindow.reverse.Sublist (wholeBucketLosses s₁.history) := by
        rw [← survivors_true_eq, survivors_true]
        have all : s₁.kvErrorWindow.reverse.filter (fun e => !e.transient) =
            s₁.kvErrorWindow.reverse :=
          filter_eq_self.mpr fun e mem => by simp [lasting e (mem_reverse.mp mem)]
        rw [← all]
        exact newest.filter _
      exact Int.le_trans long (Int.ofNat_le.mpr (length_le_inTime late losses))
    · exact Int.le_trans long (Int.ofNat_le.mpr (length_le_inTime late newest))

end Runs

/-! ## Three errors -/

def threeErrors : DegradedBehaviorConfig := ⟨3, 10000000000⟩

def quietCircuit : Circuit := ⟨[], 0, 0, ⟨.stable, none, true⟩, 0, []⟩

def bucketLost : Option KVError := some ⟨false, false, true, false⟩

def deadlineExceeded : Option KVError := some ⟨false, false, false, true⟩

theorem degrade_reason_truthful_losses :
    ∃ s s', Reachable (circuit threeErrors.setDefaults) Free s ∧
      (circuit threeErrors.setDefaults).step s (4, .error bucketLost) = some s' ∧
      s'.life.degraded = some ⟨4, degradeReasonKVErrorThreshold⟩ ∧
      3 ≤ (inTime threeErrors.setDefaults 4 (wholeBucketLosses s'.history)).length := by
  obtain ⟨s, s', reached, taken, window, was, entered⟩ := exists_reachable_step
    (M := circuit threeErrors.setDefaults) (s := quietCircuit) Free ⟨rfl, rfl, rfl⟩
    [(1, .error bucketLost), (2, .healthyOp), (3, .opError bucketLost)] (4, .error bucketLost)
    (fun s s' => s.kvErrorWindow = [⟨1, false⟩, ⟨3, false⟩] ∧ s.life.degraded = none ∧
      s'.life.degraded = some ⟨4, degradeReasonKVErrorThreshold⟩) (by decide)
  have unmixed : Unmixed threeErrors.setDefaults s 4 := by
    intro e mem transient
    rw [window] at mem
    simp only [mem_cons, not_mem_nil, or_false] at mem
    rcases mem with rfl | rfl <;> cases transient
  have truthful := (degrade_reason_truthful threeErrors rfl reached taken was entered).1 rfl unmixed
  exact ⟨s, s', reached, taken, entered, Int.ofNat_le.mp truthful⟩

/-- Two operations exceed their deadline and one finds the bucket gone: the manager
degrades for three losses. -/
theorem transient_errors_counted_as_loss :
    ∃ s s', Reachable (circuit threeErrors.setDefaults) Free s ∧
      (circuit threeErrors.setDefaults).step s (3, .opError bucketLost) = some s' ∧
      s.life.degraded = none ∧
      s'.life.degraded = some ⟨3, degradeReasonKVErrorThreshold⟩ ∧
      (inTime threeErrors.setDefaults 3 (wholeBucketLosses s'.history)).length = 1 :=
  exists_reachable_step (M := circuit threeErrors.setDefaults) (s := quietCircuit)
    _ ⟨rfl, rfl, rfl⟩ [(1, .opError deadlineExceeded), (2,
      .opError deadlineExceeded)] _ _ (by decide)

end Parti.Manager
