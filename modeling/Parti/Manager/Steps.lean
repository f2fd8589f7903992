/-
# Manager.Steps — what each step of a worker's goroutines can do

For every function of `Manager.Worker` the steps it can take, one constructor a
step, with what the goroutine has just learned as hypotheses. `next_took` says
that these are all: the invariants of the development go through `Took` and
never unfold the functions.

Until the startup runner enters its first apply it is alone (`startup_alone`):
no other goroutine has started, and of the cells only the snapshot it read from
the bucket is set.
-/
import Parti.Manager.Worker

namespace Parti.Manager

open Parti.Types Option
open Lib

section Relations

variable {T : Type} {cfg : Config} (cells : Cells T)

inductive AliasPc.Step (a : WorkerAssignment) : AliasPc a → Turn (Cells T) (Pc cfg) T → Prop
  | staleLeader (named : a.leaderRevision ≠ 0)
      (behind : a.leaderRevision < cells.lastSeenLeaderRevision) : Step a .seen (move cells .idle)
  | seen (fresh : a.leaderRevision = 0 ∨ cells.lastSeenLeaderRevision ≤ a.leaderRevision) :
      Step a .seen (move cells (.legacy a (.current cells.lastSeenLeaderRevision)))
  | known {lastSeen} (old : a.version ≤ cells.assignment.version) :
      Step a (.current lastSeen) (move cells .idle)
  | newer {lastSeen} (new : cells.assignment.version < a.version) :
      Step a (.current lastSeen) (move cells (.legacy a (.raise lastSeen .load)))
  | raiseAgain {lastSeen loop again} :
      Step a (.raise lastSeen loop) (move cells (.legacy a (.raise lastSeen again)))
  | raiseKept {lastSeen loop} (kept : raises a.target cells.highestAcceptedTarget = false) :
      Step a (.raise lastSeen loop) (move cells (.legacy a (.record lastSeen false)))
  | raised {lastSeen loop} (ahead : raises a.target cells.highestAcceptedTarget = true) :
      Step a (.raise lastSeen loop) (move { cells with highestAcceptedTarget := some a.target }
          (.legacy a (.record lastSeen true)))
  | record {lastSeen raised} : Step a (.record lastSeen raised)
        (move { cells with lastSeenAlias := some a } (.legacy a (.authority lastSeen raised)))
  | wins {lastSeen raised}
      (chosen : selectAuthority cells.lastObservedCommit (some a) lastSeen = .legacyAlias) :
      Step a (.authority lastSeen raised) (move cells (.apply .legacy a .enter))
  | loses {lastSeen raised}
      (other : selectAuthority cells.lastObservedCommit (some a) lastSeen ≠ .legacyAlias) :
      Step a (.authority lastSeen raised) (move cells .idle)

variable (c : AssignmentCommit) in
inductive CommitPc.Step : CommitPc c → Turn (Cells T) (Pc cfg) T → Prop
  | known (old : c.version ≤ cells.assignment.version) :
      Step .current (move cells (.commit c .noop))
  | newer (new : cells.assignment.version < c.version) :
      Step .current (move cells (.commit c .seen))
  | noop : Step .noop
        (move { cells with lastObservedCommit := some c } (.commit c (.noopSeen .load)))
  | noopAgain {loop again} : Step (.noopSeen loop) (move cells (.commit c (.noopSeen again)))
  | noopDone {loop rev} (settled : Settled (advances c.leaderRevision) c.leaderRevision
        cells.lastSeenLeaderRevision rev) :
      Step (.noopSeen loop) (move { cells with lastSeenLeaderRevision := rev } .idle)
  | staleLeader (behind : c.leaderRevision < cells.lastSeenLeaderRevision) :
      Step .seen (move cells .idle)
  | seen (fresh : cells.lastSeenLeaderRevision ≤ c.leaderRevision) :
      Step .seen (move cells (.commit c (.observe cells.lastSeenLeaderRevision)))
  | observe {lastSeen} : Step (.observe lastSeen)
        (move { cells with lastObservedCommit := some c } (.commit c (.authority lastSeen)))
  | wins {lastSeen} (chosen : selectAuthority (some c) cells.lastSeenAlias lastSeen = .commit) :
      Step (.authority lastSeen) (move cells (.commit c .claim))
  | loses {lastSeen} (other : selectAuthority (some c) cells.lastSeenAlias lastSeen ≠ .commit) :
      Step (.authority lastSeen) (move cells .idle)
  | busy (inFlight : cells.pendingApplyInFlight = true) :
      Step .claim (move cells (.commit c (.coalesce .load)))
  | claim (free : cells.pendingApplyInFlight = false) :
      Step .claim (move { cells with pendingApplyInFlight := true } (.commit c (.raise .load)))
  | coalesceAgain {loop again} : Step (.coalesce loop) (move cells (.commit c (.coalesce again)))
  | coalesced {loop stash}
      (settled : Settled (supersedesCommit c) (some c) cells.stashedCommit stash) :
      Step (.coalesce loop) (move { cells with stashedCommit := stash } .idle)
  | raiseAgain {loop again} : Step (.raise loop) (move cells (.commit c (.raise again)))
  | raised {loop fence} (settled : Settled (raises (commitTarget c)) (some (commitTarget c))
        cells.highestAcceptedTarget fence) :
      Step (.raise loop) (move { cells with highestAcceptedTarget := fence } (.commit c .build))
  | built {a} (at_ : a.target = commitTarget c) : Step .build (move cells (.apply .commit a .enter))
  | unbuilt : Step .build (move cells (.commit c .unfetched))
  | unfetched :
      Step .unfetched (move { cells with pendingApplyInFlight := false } (.commit c .replace))
  | replaced {pending} (stashed : cells.stashedCommit = some pending)
      (supersedes : commitSupersedesForStash pending c = true) :
      Step .replace (move { cells with stashedCommit := none } (.commit pending .current))
  | unreplaced (own : ∀ pending ∈ cells.stashedCommit, commitSupersedesForStash pending c = false) :
      Step .replace (move { cells with stashedCommit := none } (.commit c (.stash .load)))
  | stashAgain {loop again} : Step (.stash loop) (move cells (.commit c (.stash again)))
  | stashed {loop stash}
      (settled : Settled (supersedesCommit c) (some c) cells.fetchRetry.stash stash) :
      Step (.stash loop) (move { cells with fetchRetry.stash := stash } (.commit c .wake))
  | wake {fresh} : Step .wake ⟨{ cells with fetchRetry := cells.fetchRetry.activate.1 }, .idle,
          if cells.fetchRetry.activate.2 then some (fresh, .fetchLoop .wait) else none⟩

variable (t : T) (caller : Caller) (a : WorkerAssignment) in
inductive ApplyPc.Step : ApplyPc cfg a → Turn (Cells T) (Pc cfg) T → Prop
  | rejected (mismatch : labelIncarnationMismatch cfg a = true) :
      Step .enter (move cells (caller.rejected a))
  | enter (labels : labelIncarnationMismatch cfg a = false) :
      Step .enter (move cells (.apply caller a .lock))
  | lock (free : cells.applyStoreMu = none) : Step .lock
        (move { cells with applyStoreMu := some t } (.apply caller a .staleGate))
  | stale (behind : isApplyResultStale a.target cells.assignment.target = true) :
      Step .staleGate (move cells (.apply caller a .dropped))
  | fresh (ahead : isApplyResultStale a.target cells.assignment.target = false) :
      Step .staleGate (move cells (.apply caller a .fenceGate))
  | fenced {fence} (at_ : cells.highestAcceptedTarget = some fence)
      (behind : isApplyResultStale a.target fence = true) :
      Step .fenceGate (move cells (.apply caller a .dropped))
  | accepted
      (ahead : ∀ fence ∈ cells.highestAcceptedTarget, isApplyResultStale a.target fence = false) :
      Step .fenceGate (move cells (.apply caller a (.raise .load)))
  | raiseAgain {loop again} : Step (.raise loop) (move cells (.apply caller a (.raise again)))
  | raised {loop fence}
      (settled : Settled (raises a.target) (some a.target) cells.highestAcceptedTarget fence) :
      Step (.raise loop)
        (move { cells with highestAcceptedTarget := fence } (.apply caller a .apply))
  | applied : Step .apply (move cells (.apply caller a (.seen .load)))
  | applyFailed : Step .apply (move cells (.apply caller a .failed))
  | failed : Step .failed
        (move { cells with applyStoreMu := none } (.apply caller a (.stash .load)))
  | stashAgain {loop again} : Step (.stash loop) (move cells (.apply caller a (.stash again)))
  | stashed {loop stash}
      (settled : Settled (supersedesRetry cfg a) (some a) cells.applyRetry.stash stash) :
      Step (.stash loop) (move { cells with applyRetry.stash := stash } (.apply caller a .wake))
  | wake {fresh} : Step .wake
        ⟨{ cells with applyRetry := cells.applyRetry.activate.1 }, caller.failed a,
          if cells.applyRetry.activate.2 then some (fresh, .applyLoop .wait) else none⟩
  | seenAgain {loop again} : Step (.seen loop) (move cells (.apply caller a (.seen again)))
  | seen {loop rev} (settled : Settled (advances a.leaderRevision) a.leaderRevision
        cells.lastSeenLeaderRevision rev) : Step (.seen loop)
        (move { cells with lastSeenLeaderRevision := rev } (.apply caller a .store))
  | store : Step .store (move { cells with assignment := a } (.apply caller a .committed))
  | committed : Step .committed
        (move { cells with committedAssignment := some a } (.apply caller a .ack))
  | ack : Step .ack (move { cells with
          applied := setAppliedAssignment cfg a cells.applied, acknowledged := true }
          (.apply caller a .unlock))
  | unlock : Step .unlock (move { cells with applyStoreMu := none } (.apply caller a .mark))
  | mark : Step .mark (move cells (caller.returned a))
  | dropped : Step .dropped (move { cells with applyStoreMu := none } (caller.returned a))

variable {α : Type} (slot : Cells T → Retry α) (set : Cells T → Retry α → Cells T)
  (at_ : Loop → Pc cfg) (work : α → Pc cfg) in
/-- Both retry loops, between two items. `slot` and `set` say which. -/
inductive LoopStep : Loop → Turn (Cells T) (Pc cfg) T → Prop
  | empty (nothing : (slot cells).stash = none) : LoopStep .wait
        (move (set cells { slot cells with stash := none }) (at_ .leave))
  | take {item} (stashed : (slot cells).stash = some item) : LoopStep .wait
        (move (set cells { slot cells with stash := none }) (work item))
  | more (another : (slot cells).stash.isSome = true) :
      LoopStep .check (move (set cells (slot cells)) (at_ .wait))
  | nothing (none : (slot cells).stash.isSome = false) :
      LoopStep .check (move (set cells (slot cells)) (at_ .leave))
  | leave : LoopStep .leave (move (set cells { slot cells with active := false }) (at_ .recheck))
  | recheck (another : (slot cells).stash.isSome = true) :
      LoopStep .recheck (move (set cells (slot cells)) (at_ .rewake))
  | gone (none : (slot cells).stash.isSome = false) :
      LoopStep .recheck (move (set cells (slot cells)) .idle)
  | respawn {fresh} (won : (slot cells).activate.2 = true) : LoopStep .rewake
        ⟨set cells (slot cells).activate.1, .idle, some (fresh, at_ .wait)⟩
  | lost (other : (slot cells).activate.2 = false) :
      LoopStep .rewake (move (set cells (slot cells).activate.1) .idle)

inductive FetchPc.Step (c : AssignmentCommit) : FetchPc c → Turn (Cells T) (Pc cfg) T → Prop
  | fenced {fence} (at_ : cells.highestAcceptedTarget = some fence)
      (behind : isApplyResultStale (commitTarget c) fence = true) :
      Step c .fence (move cells (.fetchLoop .check))
  | accepted (ahead : ∀ fence ∈ cells.highestAcceptedTarget,
        isApplyResultStale (commitTarget c) fence = false) :
      Step c .fence (move cells (.fetch c .build))
  | built {a} (at_ : a.target = commitTarget c) :
      Step c .build (move cells (.apply .fetchRetry a .enter))
  | unbuilt : Step c .build (move cells (.fetch c (.stash .load)))
  | stashAgain {loop again} : Step c (.stash loop) (move cells (.fetch c (.stash again)))
  | stashed {loop stash}
      (settled : Settled (supersedesCommit c) (some c) cells.fetchRetry.stash stash) :
      Step c (.stash loop) (move { cells with fetchRetry.stash := stash } (.fetchLoop .wait))

variable (t : T) (input : Input T) in
inductive RecoverPc.Step : RecoverPc cfg → Turn (Cells T) (Pc cfg) T → Prop
  | found {a} (read : input = .fetched (some a)) : Step .get (move cells (.recover (.lock a)))
  | unread : Step .get (move cells .idle)
  | lock {a} (free : cells.applyStoreMu = none) : Step (.lock a)
        (move { cells with applyStoreMu := some t } (.recover (.gate a)))
  | stale {a} (behind : isApplyResultStale a.target cells.assignment.target = true) :
      Step (.gate a) (move cells (.recover .unlock))
  | fresh {a} (ahead : isApplyResultStale a.target cells.assignment.target = false) :
      Step (.gate a) (move cells (.recover (.seen a .load)))
  | seenAgain {a loop again} : Step (.seen a loop) (move cells (.recover (.seen a again)))
  | seen {a loop rev} (settled : Settled (advances a.leaderRevision) a.leaderRevision
        cells.lastSeenLeaderRevision rev) : Step (.seen a loop)
        (move { cells with lastSeenLeaderRevision := rev } (.recover (.store a)))
  | store {a} : Step (.store a) (move { cells with assignment := a } (.recover .unlock))
  | unlock : Step .unlock (move { cells with applyStoreMu := none } (.recover .current))
  | current : Step .current (move cells (.recover (.committed cells.assignment)))
  | settled {cur} (done : currentAssignmentApplied cfg cells.committedAssignment cur = true) :
      Step (.committed cur) (move cells (.recover .exit))
  | unsettled {cur} (open_ : currentAssignmentApplied cfg cells.committedAssignment cur = false) :
      Step (.committed cur) (move cells (.recover (.stash cur .load)))
  | stashAgain {cur loop again} : Step (.stash cur loop) (move cells (.recover (.stash cur again)))
  | stashed {cur loop} {stash}
      (settled : Settled (supersedesRetry cfg cur) (some cur) cells.applyRetry.stash stash) :
      Step (.stash cur loop) (move { cells with applyRetry.stash := stash } (.recover .wake))
  | wake {fresh} : Step .wake ⟨{ cells with applyRetry := cells.applyRetry.activate.1 }, .idle,
          if cells.applyRetry.activate.2 then some (fresh, .applyLoop .wait) else none⟩
  | exit : Step .exit (move cells .idle)

variable (input : Input T) in
inductive StartPc.Step : StartPc → Turn (Cells T) (Pc cfg) T → Prop
  | found {a} (read : input = .fetched (some a)) :
      Step .wait (move { cells with assignment := a } (.start .current))
  | unread (read : input = .fetched none) : Step .wait (move cells (.start (.finish false)))
  | current : Step .current (move cells (.start (.commit cells.assignment)))
  | commit {initial c} (read : input = .latest (some c)) (new : initial.version ≤ c.version) :
      Step (.commit initial) (move cells (.start (.build initial c)))
  | noCommit {initial} : Step (.commit initial) (move cells (startFromAlias initial))
  | built {initial a c} (at_ : a.target = commitTarget c) :
      Step (.build initial c) (move cells (.apply (.startCommit c) a .enter))
  | unbuilt {initial c} : Step (.build initial c) (move cells (startFromAlias initial))
  | coldStore : Step .coldStore (move { cells with assignment := .empty } (.start .coldCommitted))
  | coldCommitted : Step .coldCommitted
        (move { cells with committedAssignment := some .empty } (.start .coldAck))
  | coldAck : Step .coldAck (move { cells with
          applied := setAppliedAssignment cfg .empty cells.applied, acknowledged := true }
          (.start .coldMark))
  | coldMark : Step .coldMark (move cells (.start (.finish true)))
  | observe {c} : Step (.observe c)
        (move { cells with lastObservedCommit := some c } (.start (.finish true)))
  | clear : Step .clear (move { cells with assignment := .empty } (.start (.finish true)))
  | finish {applyOK} : Step (.finish applyOK) (move { cells with startup := .monitoring } .idle)

variable (t : T) (input : Input T) in
/-- **Every step of a goroutine.** -/
inductive Took : Pc cfg → Turn (Cells T) (Pc cfg) T → Prop
  | deliverAlias {a} (given : input = .legacy a)
      (monitored : cells.startup = .monitoring) : Took .idle (move cells (.legacy a .seen))
  | deliverCommit {c} (given : input = .commit c)
      (monitored : cells.startup = .monitoring) : Took .idle (move cells (.commit c .current))
  | recover (monitored : cells.startup = .monitoring) : Took .idle (move cells (.recover .get))
  | boot (first : cells.startup = .pending) :
      Took .idle (move { cells with startup := .running } (.start .wait))
  | legacy {a pc turn} (step : pc.Step cells a turn) : Took (.legacy a pc) turn
  | commit {c pc turn} (step : pc.Step cells c turn) : Took (.commit c pc) turn
  | release {a} : Took (.commitRelease a)
        (move { cells with pendingApplyInFlight := false } (.commitDrain a))
  | drain {a} : Took (.commitDrain a)
        (move { cells with stashedCommit := none } (drain a cells.stashedCommit))
  | apply {caller a pc} {turn} (step : pc.Step cells t caller a turn) :
      Took (.apply caller a pc) turn
  | applyLoop {loop turn}
      (step : LoopStep cells Cells.applyRetry (fun cells r => { cells with applyRetry := r })
        .applyLoop (fun a => .apply .applyRetry a .enter) loop turn) : Took (.applyLoop loop) turn
  | fetchLoop {loop turn}
      (step : LoopStep cells Cells.fetchRetry (fun cells r => { cells with fetchRetry := r })
        .fetchLoop (fun c => .fetch c .fence) loop turn) : Took (.fetchLoop loop) turn
  | fetch {c pc turn} (step : pc.Step cells c turn) : Took (.fetch c pc) turn
  | recovering {pc turn} (step : pc.Step cells t input turn) : Took (.recover pc) turn
  | start {pc turn} (step : pc.Step cells input turn) : Took (.start pc) turn

end Relations

variable {cfg : Config}

theorem Pc.not_isIdle {pc : Pc cfg} (busy : pc ≠ .idle) : pc.isIdle = false := by
  cases pc with
  | idle => exact absurd rfl busy
  | _ => rfl

variable {P : Pc cfg → Prop}

theorem startFromAlias_cases {initial} (cold : P (.start .coldStore))
    (applies : P (.apply .startAlias initial .enter)) : P (startFromAlias initial) := by
  unfold startFromAlias
  split
  · exact cold
  · exact applies

theorem drain_cases {a} {pending} (ends : P .idle)
    (goes_on : ∀ c ∈ pending, P (.commit c .current)) : P (drain a pending) := by
  cases pending with
  | none => exact ends
  | some c =>
    show P (if commitSupersedesAppliedForDrain c a then .commit c .current else .idle)
    split
    · exact goes_on c rfl
    · exact ends

theorem settled_advances {rev cur cur' : Nat} (settled : Settled (advances rev) rev cur cur') :
    cur ≤ cur' ∧ rev ≤ cur' ∧ cur' ≤ max cur rev := by
  obtain ⟨kept, rfl⟩ | ⟨ahead, rfl⟩ := settled
  · have behind : ¬cur' < rev := by simpa [advances] using kept
    omega
  · have before : cur < cur' := by simpa [advances] using ahead
    omega

/-! ## There are no others -/

section Inversion

variable {T : Type} {cfg : Config} {cells : Cells T} {t : T} {input : Input T}
  {turn : Turn (Cells T) (Pc cfg) T} {a : WorkerAssignment} {c : AssignmentCommit}
  {pc start : Pc cfg}

theorem AliasPc.next_step (pc : AliasPc a) :
    pc.Step cells a (pc.next cells a : Turn (Cells T) (Pc cfg) T) := by
  cases pc with
  | seen =>
    simp only [next]
    split
    next stale => exact .staleLeader stale.1 stale.2
    next fresh => exact .seen (by omega)
  | current lastSeen =>
    simp only [next]
    split
    next old => exact .known old
    next new => exact .newer (by omega)
  | raise lastSeen loop =>
    simp only [next]
    obtain ⟨again, turned⟩ | ⟨kept, turned⟩ | ⟨ahead, turned⟩ :=
      loop.turn_cases (some a.target) cells.highestAcceptedTarget
    · rw [turned]
      exact .raiseAgain
    · rw [turned]
      exact .raiseKept kept
    · rw [turned]
      exact .raised ahead
  | record lastSeen raised => exact .record
  | authority lastSeen raised =>
    simp only [next]
    split
    next chosen => exact .wins chosen
    next other => exact .loses other

theorem wakeLoop_eq_some {won : Bool} (moved : wakeLoop won cells pc start input = some turn) :
    ∃ fresh, turn = ⟨cells, pc, if won then some (fresh, start) else none⟩ := by
  cases input with
  | spawn fresh => exact ⟨fresh, (some.inj moved).symm⟩
  | _ => cases moved

theorem CommitPc.next_step (pc : CommitPc c) (moved : pc.next cells c input = some turn) :
    pc.Step cells c turn := by
  cases pc with
  | current => exact some_ite moved .known fun _ => .newer (by omega)
  | noop => cases moved; exact .noop
  | noopSeen loop =>
    cases moved
    exact loop.turn_rule (fun _ => .noopAgain) (fun _ => .noopDone) fun _ => .noopDone
  | seen => exact some_ite moved .staleLeader fun _ => .seen (by omega)
  | observe lastSeen => cases moved; exact .observe
  | authority lastSeen => exact some_ite moved .wins .loses
  | claim => exact some_ite moved .busy fun free => .claim (by simpa using free)
  | coalesce loop =>
    cases moved
    exact loop.turn_rule (fun _ => .coalesceAgain) (fun _ => .coalesced) fun _ => .coalesced
  | raise loop =>
    cases moved
    exact loop.turn_rule (fun _ => .raiseAgain) (fun _ => .raised) fun _ => .raised
  | build =>
    cases input with
    | payload found =>
      simp only [next] at moved
      split at moved
      next a built => cases moved; exact .built (buildAssignmentFromCommit_target built)
      next => cases moved; exact .unbuilt
    | _ => cases moved
  | unfetched => cases moved; exact .unfetched
  | replace =>
    simp only [next, some.injEq] at moved
    subst moved
    split
    next pending stashed =>
      split
      next supersedes => exact .replaced stashed supersedes
      next own => exact .unreplaced (by simpa [stashed] using own)
    next empty => exact .unreplaced (by simp [empty])
  | stash loop =>
    cases moved
    exact loop.turn_rule (fun _ => .stashAgain) (fun _ => .stashed) fun _ => .stashed
  | wake =>
    obtain ⟨fresh, rfl⟩ := wakeLoop_eq_some moved
    exact .wake

theorem ApplyPc.next_step {caller : Caller} (pc : ApplyPc cfg a)
    (moved : pc.next cells t caller a input = some turn) : pc.Step cells t caller a turn := by
  cases pc with
  | enter => exact some_ite moved .rejected fun labels => .enter (by simpa using labels)
  | lock => exact some_guard moved .lock
  | staleGate => exact some_ite moved .stale fun ahead => .fresh (by simpa using ahead)
  | fenceGate =>
    simp only [next] at moved
    split at moved
    next fence at_ =>
      split at moved
      next behind => cases moved; exact .fenced at_ behind
      next ahead => cases moved; exact .accepted (by simpa [at_] using ahead)
    next none => cases moved; exact .accepted (by simp [none])
  | raise loop =>
    cases moved
    exact loop.turn_rule (fun _ => .raiseAgain) (fun _ => .raised) fun _ => .raised
  | apply =>
    cases input with
    | applied ok =>
      cases ok with
      | true => cases moved; exact .applied
      | false => cases moved; exact .applyFailed
    | _ => cases moved
  | failed => cases moved; exact .failed
  | stash loop =>
    cases moved
    exact loop.turn_rule (fun _ => .stashAgain) (fun _ => .stashed) fun _ => .stashed
  | wake =>
    obtain ⟨fresh, rfl⟩ := wakeLoop_eq_some moved
    exact .wake
  | seen loop =>
    cases moved
    exact loop.turn_rule (fun _ => .seenAgain) (fun _ => .seen) fun _ => .seen
  | store => cases moved; exact .store
  | committed => cases moved; exact .committed
  | ack => cases moved; exact .ack
  | unlock => cases moved; exact .unlock
  | mark => cases moved; exact .mark
  | dropped => cases moved; exact .dropped

theorem loopNext_step {α : Type} {slot} {set} {at_} {work : α → Pc cfg} {loop : Loop}
    (moved : loopNext slot set at_ work cells input loop = some turn) :
    LoopStep cells slot set at_ work loop turn := by
  cases loop with
  | wait =>
    cases stashed : (slot cells).stash with
    | none =>
      simp only [loopNext, Loop.turn, stashed, some.injEq] at moved
      exact moved ▸ .empty stashed
    | some item =>
      simp only [loopNext, Loop.turn, stashed, some.injEq] at moved
      exact moved ▸ .take stashed
  | check =>
    by_cases stashed : (slot cells).stash.isSome = true
    · simp only [loopNext, Loop.turn, if_pos stashed, some.injEq] at moved
      exact moved ▸ .more stashed
    · simp only [loopNext, Loop.turn, if_neg stashed, some.injEq] at moved
      exact moved ▸ .nothing (by simpa using stashed)
  | leave => exact some.inj moved ▸ .leave
  | recheck =>
    by_cases stashed : (slot cells).stash.isSome = true
    · simp only [loopNext, Loop.turn, if_pos stashed, some.injEq] at moved
      exact moved ▸ .recheck stashed
    · simp only [loopNext, Loop.turn, if_neg stashed, some.injEq] at moved
      exact moved ▸ .gone (by simpa using stashed)
  | rewake =>
    by_cases won : (slot cells).activate.2 = true
    · simp only [loopNext, Loop.turn, if_pos won] at moved
      obtain ⟨fresh, rfl⟩ := wakeLoop_eq_some moved
      exact .respawn won
    · simp only [loopNext, Loop.turn, if_neg won, some.injEq] at moved
      exact moved ▸ .lost (by simpa using won)

theorem FetchPc.next_step (pc : FetchPc c) (moved : pc.next cells c input = some turn) :
    pc.Step cells c turn := by
  cases pc with
  | fence =>
    simp only [next] at moved
    split at moved
    next fence at_ =>
      split at moved
      next behind => cases moved; exact .fenced at_ behind
      next ahead => cases moved; exact .accepted (by simpa [at_] using ahead)
    next none => cases moved; exact .accepted (by simp [none])
  | build =>
    cases input with
    | payload found =>
      simp only [next] at moved
      split at moved
      next a built => cases moved; exact .built (buildAssignmentFromCommit_target built)
      next => cases moved; exact .unbuilt
    | _ => cases moved
  | stash loop =>
    cases moved
    exact loop.turn_rule (fun _ => .stashAgain) (fun _ => .stashed) fun _ => .stashed

theorem RecoverPc.next_step (pc : RecoverPc cfg) (moved : pc.next cells t input = some turn) :
    pc.Step cells t input turn := by
  cases pc with
  | get =>
    cases input with
    | fetched found =>
      cases found with
      | some a => cases moved; exact .found rfl
      | none => cases moved; exact .unread
    | _ => cases moved
  | lock a => exact some_guard moved .lock
  | gate a => exact some_ite moved .stale fun ahead => .fresh (by simpa using ahead)
  | seen a loop =>
    cases moved
    exact loop.turn_rule (fun _ => .seenAgain) (fun _ => .seen) fun _ => .seen
  | store a => cases moved; exact .store
  | unlock => cases moved; exact .unlock
  | current => cases moved; exact .current
  | committed cur => exact some_ite moved .settled fun open_ => .unsettled (by simpa using open_)
  | stash cur loop =>
    cases moved
    exact loop.turn_rule (fun _ => .stashAgain) (fun _ => .stashed) fun _ => .stashed
  | wake =>
    obtain ⟨fresh, rfl⟩ := wakeLoop_eq_some moved
    exact .wake
  | exit =>
    cases input with
    | gates pass => cases moved; exact .exit
    | _ => cases moved

theorem StartPc.next_step (pc : StartPc) (moved : pc.next cells input = some turn) :
    pc.Step cells input turn := by
  cases pc with
  | wait =>
    cases input with
    | fetched found =>
      cases found with
      | some a => cases moved; exact .found rfl
      | none => cases moved; exact .unread rfl
    | _ => cases moved
  | current => cases moved; exact .current
  | commit initial =>
    cases input with
    | latest found =>
      cases found with
      | some c => exact some_ite moved (fun new => .commit rfl new) fun _ => .noCommit
      | none => cases moved; exact .noCommit
    | _ => cases moved
  | build initial c =>
    cases input with
    | payload found =>
      simp only [next] at moved
      split at moved
      next a built => cases moved; exact .built (buildAssignmentFromCommit_target built)
      next => cases moved; exact .unbuilt
    | _ => cases moved
  | coldStore => cases moved; exact .coldStore
  | coldCommitted => cases moved; exact .coldCommitted
  | coldAck => cases moved; exact .coldAck
  | coldMark => cases moved; exact .coldMark
  | observe c => cases moved; exact .observe
  | clear => cases moved; exact .clear
  | finish applyOK => cases moved; exact .finish

/-- **Inversion.** A step is one of those listed. -/
theorem next_took (moved : next cells t pc input = some turn) : Took cells t input pc turn := by
  cases pc with
  | idle =>
    cases input with
    | legacy a => exact some_guard moved fun monitored => .deliverAlias rfl monitored
    | commit c => exact some_guard moved fun monitored => .deliverCommit rfl monitored
    | recover => exact some_guard moved .recover
    | boot => exact some_guard moved .boot
    | _ => cases moved
  | legacy a pc => cases moved; exact .legacy pc.next_step
  | commit c pc => exact .commit (pc.next_step moved)
  | commitRelease a => cases moved; exact .release
  | commitDrain a => cases moved; exact .drain
  | apply caller a pc => exact .apply (pc.next_step moved)
  | applyLoop loop => exact .applyLoop (loopNext_step moved)
  | fetchLoop loop => exact .fetchLoop (loopNext_step moved)
  | fetch c pc => exact .fetch (pc.next_step moved)
  | recover pc => exact .recovering (pc.next_step moved)
  | start pc => exact .start (pc.next_step moved)

theorem Took.spawned_loop {fresh : T} (took : Took cells t input pc turn)
    (spawned : turn.spawned = some (fresh, start)) :
    start = .applyLoop .wait ∨ start = .fetchLoop .wait := by
  have of_wake : ∀ (won : Bool) (name : T) (loop : Pc cfg),
      (if won then some (name, loop) else none) = some (fresh, start) → start = loop := by
    intro won name loop same
    cases won with
    | false => cases same
    | true => cases same; rfl
  cases took with
  | commit step =>
    cases step with
    | wake => exact .inr (of_wake _ _ _ spawned)
    | _ => cases spawned
  | apply step | recovering step =>
    cases step with
    | wake => exact .inl (of_wake _ _ _ spawned)
    | _ => cases spawned
  | applyLoop step =>
    cases step with
    | respawn => cases spawned; exact .inl rfl
    | _ => cases spawned
  | fetchLoop step =>
    cases step with
    | respawn => cases spawned; exact .inr rfl
    | _ => cases spawned
  | legacy step | fetch step | start step => cases step <;> cases spawned
  | _ => cases spawned

end Inversion

/-! ## The startup runner is alone -/

variable {T : Type} {cfg : Config} {a : WorkerAssignment}

def Pc.early : Pc cfg → Bool
  | .start .wait | .start .current | .start (.commit _) | .start (.build _ _) => true
  | .start .coldStore | .start .coldCommitted | .start .clear => true
  | .apply (.startCommit _) _ .enter | .apply .startAlias _ .enter => true
  | _ => false

def Cells.Untouched (cells : Cells T) : Prop :=
  cells = { Cells.initial with assignment := cells.assignment, startup := .running }

theorem Cells.Untouched.with_assignment {cells : Cells T} (untouched : cells.Untouched) :
    Cells.Untouched { cells with assignment := a } := by
  unfold Cells.Untouched at untouched ⊢
  rw [untouched]

structure Alone (s : Pool (Cells T) (Pc cfg) T) : Prop where
  unstarted : s.cells.startup = .pending → s.cells = .initial ∧ ∀ t, s.pcs t = .idle
  early : ∀ t, (s.pcs t).early = true →
    s.cells.Untouched ∧ ∀ u, u ≠ t → s.pcs u = .idle

variable {cells : Cells T} {t : T} {input : Input T} {pc : Pc cfg}
  {turn : Turn (Cells T) (Pc cfg) T}

theorem drain_early (a : WorkerAssignment) (pending : Option AssignmentCommit) :
    (drain a pending : Pc cfg).early = false :=
  drain_cases (P := fun pc => pc.early = false) rfl fun _ _ => rfl

theorem ApplyPc.Step.early {caller : Caller} {pc}
    (step : pc.Step cells t caller a turn) (ends : turn.pc.early = true) :
    (Pc.apply caller a pc).early = true ∧ turn.spawned = none ∧ turn.cells = cells := by
  cases step with
  | rejected =>
    cases caller with
    | startCommit | startAlias => exact ⟨rfl, rfl, rfl⟩
    | _ => cases ends
  | _ => cases caller <;> cases ends

theorem Took.early (took : Took cells t input pc turn) (ends : turn.pc.early = true) :
    (pc = .idle ∧ cells.startup = .pending ∧
      turn = move { cells with startup := .running } (.start .wait)) ∨
    (pc.early = true ∧ turn.spawned = none ∧ (cells.Untouched → turn.cells.Untouched)) := by
  cases took with
  | boot first => exact .inl ⟨rfl, first, rfl⟩
  | deliverAlias | deliverCommit | recover | release => cases ends
  | drain =>
    have off : (Manager.drain _ _ : Pc cfg).early = true := ends
    rw [drain_early] at off
    cases off
  | legacy step | commit step | applyLoop step | fetchLoop step | fetch step | recovering step =>
    cases step <;> cases ends
  | apply step =>
    obtain ⟨begins, alone, same⟩ := step.early ends
    exact .inr ⟨begins, alone, fun untouched => same ▸ untouched⟩
  | start step =>
    cases step with
    | found | coldStore | clear =>
      exact .inr ⟨rfl, rfl, fun untouched => untouched.with_assignment⟩
    | current | commit | noCommit | built | unbuilt => exact .inr ⟨rfl, rfl, id⟩
    | _ => cases ends

theorem Took.boots (took : Took cells t input .idle turn) (early : cells.startup ≠ .monitoring) :
    cells.startup = .pending ∧ turn.cells.startup = .running := by
  generalize at_ : (Pc.idle : Pc cfg) = pc at took
  cases took with
  | deliverAlias _ monitored | deliverCommit _ monitored | recover monitored =>
    exact absurd monitored early
  | boot first => exact ⟨first, rfl⟩
  | _ => cases at_

theorem Took.pending (took : Took cells t input pc turn) (later : turn.cells.startup = .pending) :
    cells.startup = .pending := by
  cases took with
  | boot => cases later
  | legacy step | commit step | apply step | applyLoop step | fetchLoop step | fetch step
  | recovering step => cases step <;> exact later
  | start step =>
    cases step with
    | finish => cases later
    | _ => exact later
  | _ => exact later

variable [DecidableEq T]

/-- **The startup runner is alone until its first apply.** -/
theorem startup_alone {ok}
    {s} (reached : Reachable (worker T cfg) ok s) : Alone s := by
  refine Reachable.invariant (I := Alone) ?_ ?_ reached
  · rintro s ⟨starts, all⟩
    refine ⟨fun _ => ⟨starts, all⟩, fun t early => ?_⟩
    rw [all t] at early
    cases early
  · rintro s ⟨t, input⟩ s' alone _ taken
    obtain ⟨turn, moved, fits, rfl⟩ := Program.step_eq_some.mp taken
    have took : Took s.cells t input (s.pcs t) turn := next_took moved
    refine ⟨fun pending => ?_, fun u early => ?_⟩
    · -- a startup that is still pending leaves no step but the first
      rw [Turn.pool_cells] at pending
      have before := took.pending pending
      obtain ⟨_, all⟩ := alone.unstarted before
      rw [all t] at took
      have running := (took.boots (by rw [before]; simp)).2
      rw [pending] at running
      cases running
    · obtain ⟨rfl, at_⟩ | ⟨other, rests, spawned⟩ | ⟨other, at_⟩ := Turn.pool_pcs fits u
      · rw [at_] at early
        rw [Turn.pool_cells]
        obtain ⟨idle, first, turned⟩ | ⟨begins, nobody, keeps⟩ := took.early early
        · obtain ⟨fresh, all⟩ := alone.unstarted first
          subst turned
          refine ⟨by rw [fresh]; rfl, fun v other => ?_⟩
          show Function.update s.pcs u _ v = _
          rw [Function.update_of_ne other, all v]
        · obtain ⟨untouched, all⟩ := alone.early u begins
          refine ⟨keeps untouched, fun v other => ?_⟩
          simp only [Turn.pool, nobody, Function.update_of_ne other]
          exact all v other
      · obtain loop | loop := took.spawned_loop spawned <;>
          (rw [loop] at early; cases early)
      · rw [at_] at early
        obtain ⟨untouched, all⟩ := alone.early u early
        rw [all t (Ne.symm other)] at took
        have running : s.cells.startup = .running := by rw [untouched]
        have pending := (took.boots (by rw [running]; simp)).1
        rw [running] at pending
        cases pending

end Parti.Manager
