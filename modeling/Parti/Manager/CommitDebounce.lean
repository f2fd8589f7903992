/-
# Manager.CommitDebounce — coalescing the commits of a watch session

`stage` keeps a commit back until the timer fires. A later commit that gives this worker the
same share takes its place; one that changes the share sends it out first; one of a lower
version is dropped. The timer and the end of the session both flush.

`debouncing_stutters`: when versions do not decrease, what is dispatched is a subsequence of
what was staged, with the same changes of the worker's share.
-/
import Mathlib.Data.List.Destutter
import Parti.Types.Partition

namespace Parti.Manager.CommitDebounce

open Parti.Types List

def commitContainsWorker (c : AssignmentCommit) (workerID : String) : Bool :=
  c.workers.contains workerID

/-- `Payloads[workerID].PayloadHash`: empty if there is none. -/
def payloadHash (c : AssignmentCommit) (workerID : String) : GoString :=
  ((c.payloads.lookup workerID).map AssignmentPayloadRef.payloadHash).getD []

def workerAssignmentChanged (prev next : AssignmentCommit) (workerID : String) : Bool :=
  if commitContainsWorker prev workerID ≠ commitContainsWorker next workerID then true
  else if !commitContainsWorker prev workerID then false
  else payloadHash prev workerID ≠ payloadHash next workerID

/-- Without a window nothing is ever pending. -/
inductive CommitDebouncer where
  | direct
  | windowed (pending : Option AssignmentCommit)

def newCommitDebouncer (window : Int) : CommitDebouncer :=
  if 0 < window then .windowed none else .direct

def CommitDebouncer.stage (workerID : String) :
    CommitDebouncer → Option AssignmentCommit → CommitDebouncer × Option AssignmentCommit
  | d, none => (d, none)
  | .direct, some commit => (.direct, some commit)
  | .windowed none, some commit => (.windowed (some commit), none)
  | .windowed (some pending), some commit =>
    if commit.version < pending.version then (.windowed (some pending), none)
    else (.windowed (some commit),
      if workerAssignmentChanged pending commit workerID then some pending else none)

def CommitDebouncer.flush : CommitDebouncer → CommitDebouncer × Option AssignmentCommit
  | .direct => (.direct, none)
  | .windowed pending => (.windowed none, pending)

inductive Event where
  | stage (commit : Option AssignmentCommit)
  | flush

def Event.commit : Event → Option AssignmentCommit
  | .stage commit => commit
  | .flush => none

def CommitDebouncer.step (workerID : String) (d : CommitDebouncer) :
    Event → CommitDebouncer × Option AssignmentCommit
  | .stage commit => d.stage workerID commit
  | .flush => d.flush

structure Session where
  debouncer : CommitDebouncer
  staged : List AssignmentCommit
  dispatched : List AssignmentCommit

def Session.step (workerID : String) (s : Session) (event : Event) : Session where
  debouncer := (s.debouncer.step workerID event).1
  staged := event.commit.toList ++ s.staged
  dispatched := (s.debouncer.step workerID event).2.toList ++ s.dispatched

def session (window : Int) (workerID : String) (events : List Event) : Session :=
  events.foldl (Session.step workerID) ⟨newCommitDebouncer window, [], []⟩

/-! ## Shares -/

def share (workerID : String) (c : AssignmentCommit) : Option GoString :=
  if commitContainsWorker c workerID then some (payloadHash c workerID) else none

def changes (workerID : String) (commits : List AssignmentCommit) : List (Option GoString) :=
  (commits.map (share workerID)).destutter (· ≠ ·)

variable {workerID : String} {c p : AssignmentCommit} {commits commits' : List AssignmentCommit}

theorem workerAssignmentChanged_eq_true :
    workerAssignmentChanged p c workerID = true ↔ share workerID p ≠ share workerID c := by
  unfold workerAssignmentChanged share
  cases commitContainsWorker p workerID <;> cases commitContainsWorker c workerID <;> simp

theorem changes_cons (last : commits.head? = commits'.head?)
    (same : changes workerID commits = changes workerID commits') (c : AssignmentCommit) :
    changes workerID (c :: commits) = changes workerID (c :: commits') := by
  cases commits with
  | nil =>
    cases commits' with
    | nil => rfl
    | cons => cases last
  | cons a rest =>
    cases commits' with
    | nil => cases last
    | cons b rest' =>
      cases last
      simp only [changes, map_cons, destutter_cons_cons, ← destutter_cons'] at same ⊢
      by_cases new : share workerID c = share workerID a <;> simpa [new] using same

/-! ## Sessions -/

def CommitDebouncer.pending : CommitDebouncer → Option AssignmentCommit
  | .direct => none
  | .windowed pending => pending

/-- What will have been dispatched after a flush. -/
def Session.held (s : Session) : List AssignmentCommit :=
  s.debouncer.pending.toList ++ s.dispatched

structure Stutters (workerID : String) (s : Session) : Prop where
  last : s.held.head? = s.staged.head?
  sublist : s.held.Sublist s.staged
  shares : changes workerID s.held = changes workerID s.staged

def Session.Ordered (s : Session) : Prop :=
  s.staged.Pairwise fun later earlier => earlier.version ≤ later.version

variable {s s' : Session} {event : Event}

theorem Stutters.add (stutters : Stutters workerID s) (staged : s'.staged = c :: s.staged)
    (held : s'.held = c :: s.held) : Stutters workerID s' where
  last := by rw [staged, held]; rfl
  sublist := by
    rw [staged, held]
    exact stutters.sublist.cons_cons c
  shares := by
    rw [staged, held]
    exact changes_cons stutters.last stutters.shares c

theorem Stutters.step (stutters : Stutters workerID s) (ordered : (s.step workerID event).Ordered) :
    Stutters workerID (s.step workerID event) := by
  obtain ⟨debouncer, staged, dispatched⟩ := s
  cases event with
  | flush => cases debouncer <;> exact ⟨stutters.last, stutters.sublist, stutters.shares⟩
  | stage commit =>
    cases commit with
    | none => cases debouncer <;> exact stutters
    | some c =>
      cases debouncer with
      | direct => exact stutters.add rfl rfl
      | windowed pending =>
        cases pending with
        | none => exact stutters.add rfl rfl
        | some p =>
          -- the pending commit is the last one staged, so this one is not below it
          obtain ⟨older, rfl⟩ := head?_eq_some_iff.mp stutters.last.symm
          have le : p.version ≤ c.version := rel_of_pairwise_cons ordered mem_cons_self
          simp only [Session.step, CommitDebouncer.step, CommitDebouncer.stage,
            if_neg (Int.not_lt.mpr le), Event.commit]
          by_cases changed : workerAssignmentChanged p c workerID = true
          · rw [if_pos changed]
            exact stutters.add rfl rfl
          · rw [if_neg changed]
            have same : share workerID p = share workerID c := by
              simpa [workerAssignmentChanged_eq_true] using changed
            have shares : changes workerID (p :: dispatched) = changes workerID (p :: older) :=
              stutters.shares
            refine ⟨rfl, (sublist_of_cons_sublist stutters.sublist).cons_cons c, ?_⟩
            simpa [Session.held, CommitDebouncer.pending, changes, same,
              destutter_cons_cons, ← destutter_cons'] using shares

/-- What goes out is the latest commit, or the one before a commit that changes the share. -/
theorem Stutters.dispatches (stutters : Stutters workerID s)
    (out : (s.debouncer.step workerID event).2 = some p) :
    (s.step workerID event).staged.head? = some p ∨
      s.staged.head? = some p ∧ ∃ c, event = .stage (some c) ∧ share workerID c ≠ share workerID p := by
  obtain ⟨debouncer, staged, dispatched⟩ := s
  cases event with
  | flush =>
    cases debouncer with
    | direct => cases out
    | windowed pending =>
      cases out
      exact .inl stutters.last.symm
  | stage commit =>
    cases commit with
    | none => cases debouncer <;> cases out
    | some c =>
      cases debouncer with
      | direct => exact .inl out
      | windowed pending =>
        cases pending with
        | none => cases out
        | some p =>
          simp only [CommitDebouncer.step, CommitDebouncer.stage] at out
          split_ifs at out with older changed
          cases out
          refine .inr ⟨stutters.last.symm, c, rfl, ?_⟩
          exact (workerAssignmentChanged_eq_true.mp changed).symm

theorem stutters_of_session (window : Int) (events : List Event)
    (ordered : (session window workerID events).Ordered) :
    Stutters workerID (session window workerID events) := by
  induction events using List.reverseRecOn with
  | nil =>
    unfold session newCommitDebouncer
    split <;> exact ⟨rfl, .slnil, rfl⟩
  | append_singleton events event ih =>
    simp only [session, foldl_append, foldl_cons, foldl_nil] at ordered ⊢
    exact (ih (pairwise_append.mp ordered).2.1).step ordered

theorem debouncing_stutters (window : Int) (workerID : String) (events : List Event) :
    let s := session window workerID events
    (s.Ordered → (s.step workerID .flush).dispatched.Sublist s.staged ∧
      changes workerID (s.step workerID .flush).dispatched = changes workerID s.staged ∧
      ∀ event p, (s.debouncer.step workerID event).2 = some p →
        (s.step workerID event).staged.head? = some p ∨
          s.staged.head? = some p ∧
            ∃ c, event = .stage (some c) ∧ share workerID c ≠ share workerID p) ∧
    ∀ p c, s.debouncer = .windowed (some p) → c.version < p.version →
      s.debouncer.stage workerID (some c) = (s.debouncer, none) := by
  intro s
  refine ⟨fun ordered => ?_, fun p c pending older => ?_⟩
  · have stutters := stutters_of_session window events ordered
    have flushed : (s.step workerID .flush).dispatched = s.held := by
      simp only [Session.step, Session.held, CommitDebouncer.step]
      cases s.debouncer <;> rfl
    rw [flushed]
    exact ⟨stutters.sublist, stutters.shares, fun event p out => stutters.dispatches out⟩
  · simp [pending, CommitDebouncer.stage, older]

def emptyCommit (version : Int) : AssignmentCommit :=
  ⟨version, 0, 0, false, 0, [], ∅, 0, 0, 0, 0, ""⟩

theorem debouncing_stutters_twice :
    ((session 1 "w" [.stage (emptyCommit 1), .stage (emptyCommit 2)]).step "w" .flush).dispatched =
        [emptyCommit 2] ∧
      changes "w" [emptyCommit 2] = changes "w" [emptyCommit 2, emptyCommit 1] :=
  ⟨rfl, ((debouncing_stutters 1 "w" [.stage (emptyCommit 1), .stage (emptyCommit 2)]).1
    (by unfold Session.Ordered; decide)).2.1⟩

end Parti.Manager.CommitDebounce
