/-
# Manager.Monotone — a worker's state never goes back

The stored snapshot, the committed assignment, the accepted-target fence and the
acknowledgement are read and written by five kinds of goroutine, partly under
`applyStoreMu` and partly by compare-and-swap. Targets of version one and above
are compared by version and leader revision throughout, and in this order none
of the four ever goes down.

`Ordered` is what holds of the cells, `Pc.knows` what a goroutine knows about
them, and `Rises` what its step may do to them.

* `worker_never_regresses`: every step of every run.
-/
import Parti.Manager.Steps

namespace Parti.Manager

open Parti.Types Option
open Lib AcceptedTarget

def Input.Versioned {T : Type} : Input T → Prop
  | .legacy a => 1 ≤ a.version
  | .commit c => 1 ≤ c.version
  | .fetched (some a) => 1 ≤ a.version
  | .latest (some c) => 1 ≤ c.version
  | _ => True

/-! ## The invariant -/

section Invariant

variable {T : Type} {cfg : Config} {cells' cells : Cells T}

structure Ordered (cells : Cells T) : Prop where
  fence : ∀ f ∈ cells.highestAcceptedTarget, 1 ≤ f.version
  retry : ∀ a ∈ cells.applyRetry.stash, 1 ≤ a.version
  fetch : ∀ c ∈ cells.fetchRetry.stash, 1 ≤ c.version
  coalesced : ∀ c ∈ cells.stashedCommit, 1 ≤ c.version
  committed : ∀ c ∈ cells.committedAssignment,
    c.target ≤ cells.assignment.target ∧ cells.applied.target ≤ c.target
  unacknowledged : cells.committedAssignment = none → cells.applied = .zero
  led : cells.committedAssignment ≠ none →
    cells.assignment.leaderRevision ≤ cells.lastSeenLeaderRevision

/-- In the apply pipeline: the mutex, and from the stale gate on that the
snapshot is no newer than the target. -/
def ApplyPc.knows (cells : Cells T) (t : T) (a : WorkerAssignment) : ApplyPc cfg a → Prop
  | .enter | .lock | .stash _ | .wake | .mark => True
  | .staleGate | .dropped | .failed | .unlock => cells.applyStoreMu = some t
  | .fenceGate | .raise _ | .apply | .seen _ =>
    cells.applyStoreMu = some t ∧ cells.assignment.target ≤ a.target
  | .store =>
    cells.applyStoreMu = some t ∧ cells.assignment.target ≤ a.target ∧
      a.leaderRevision ≤ cells.lastSeenLeaderRevision
  | .committed =>
    cells.applyStoreMu = some t ∧ cells.assignment = a ∧
      a.leaderRevision ≤ cells.lastSeenLeaderRevision
  | .ack => cells.applyStoreMu = some t ∧ cells.committedAssignment = some a

def RecoverPc.knows (cells : Cells T) (t : T) : RecoverPc cfg → Prop
  | .get | .wake | .exit => True
  | .lock a => 1 ≤ a.version
  | .gate a => 1 ≤ a.version ∧ cells.applyStoreMu = some t
  | .seen a _ =>
    1 ≤ a.version ∧ cells.applyStoreMu = some t ∧ cells.assignment.target ≤ a.target
  | .store a =>
    1 ≤ a.version ∧ cells.applyStoreMu = some t ∧ cells.assignment.target ≤ a.target ∧
      a.leaderRevision ≤ cells.lastSeenLeaderRevision
  | .unlock => cells.applyStoreMu = some t ∧ 1 ≤ cells.assignment.version
  | .current => 1 ≤ cells.assignment.version
  | .committed cur | .stash cur _ => 1 ≤ cur.version

/-- The cold start is not taken: what was read has a version. -/
def StartPc.knows (cells : Cells T) : StartPc → Prop
  | .observe _ | .clear | .finish _ => True
  | .wait => cells.assignment = .empty
  | .current => 1 ≤ cells.assignment.version
  | .commit initial => 1 ≤ initial.version
  | .build initial c => 1 ≤ initial.version ∧ 1 ≤ c.version
  | .coldStore | .coldCommitted | .coldAck | .coldMark => False

def Pc.knows (cells : Cells T) (t : T) : Pc cfg → Prop
  | .legacy a _ => 1 ≤ a.version
  | .commit c _ => 1 ≤ c.version
  | .apply _ a pc => 1 ≤ a.version ∧ pc.knows cells t
  | .fetch c _ => 1 ≤ c.version
  | .recover pc => pc.knows cells t
  | .start pc => pc.knows cells
  | _ => True

/-- What a step of goroutine `t` may do to the cells: they rise, and while
another goroutine holds the mutex what it protects stays. -/
structure Rises (t : T) (cells cells' : Cells T) : Prop where
  snapshot : cells.assignment.target ≤ cells'.assignment.target
  committed : ∀ c ∈ cells.committedAssignment,
    ∃ c' ∈ cells'.committedAssignment, c.target ≤ c'.target
  fence : ∀ f ∈ cells.highestAcceptedTarget, ∃ f' ∈ cells'.highestAcceptedTarget, f ≤ f'
  acknowledged : cells.applied.target ≤ cells'.applied.target
  seen : cells.lastSeenLeaderRevision ≤ cells'.lastSeenLeaderRevision
  locked : ∀ u, u ≠ t → cells.applyStoreMu = some u →
    cells'.applyStoreMu = some u ∧ cells'.assignment = cells.assignment ∧
      cells'.committedAssignment = cells.committedAssignment

theorem Rises.of_eq {t : T} (assignment : cells'.assignment = cells.assignment)
    (committed : cells'.committedAssignment = cells.committedAssignment)
    (fence : cells'.highestAcceptedTarget = cells.highestAcceptedTarget)
    (applied : cells'.applied = cells.applied)
    (seen : cells'.lastSeenLeaderRevision = cells.lastSeenLeaderRevision)
    (mutex : cells'.applyStoreMu = cells.applyStoreMu) : Rises t cells cells' := by
  refine ⟨by rw [assignment], ?_, ?_, by rw [applied], by rw [seen], ?_⟩
  · intro c at_
    exact ⟨c, by rwa [committed], le_rfl⟩
  · intro f at_
    exact ⟨f, by rwa [fence], le_rfl⟩
  · intro u _ held
    exact ⟨by rwa [mutex], assignment, committed⟩

theorem Rises.refl (t : T) (cells : Cells T) : Rises t cells cells := .of_eq rfl rfl rfl rfl rfl rfl

theorem Pc.knows_rises {t u : T} {pc : Pc cfg} (knows : pc.knows cells u) (late : pc.early = false)
    (rises : Rises t cells cells') (other : u ≠ t) : pc.knows cells' u := by
  have version_le := version_le rises.snapshot
  have seen_le := rises.seen
  have locked := rises.locked u other
  cases pc with
  | apply caller a pc =>
    refine ⟨knows.1, ?_⟩
    have knows := knows.2
    cases pc with
    | staleGate | dropped | failed | unlock => exact (locked knows).1
    | fenceGate | raise | apply | seen =>
      obtain ⟨held, same, _⟩ := locked knows.1
      exact ⟨held, same ▸ knows.2⟩
    | store =>
      obtain ⟨held, same, _⟩ := locked knows.1
      exact ⟨held, same ▸ knows.2.1, knows.2.2.trans seen_le⟩
    | committed =>
      obtain ⟨held, same, _⟩ := locked knows.1
      exact ⟨held, same.trans knows.2.1, knows.2.2.trans seen_le⟩
    | ack =>
      obtain ⟨held, _, same⟩ := locked knows.1
      exact ⟨held, same.trans knows.2⟩
    | _ => trivial
  | recover pc =>
    cases pc with
    | gate a => exact ⟨knows.1, (locked knows.2).1⟩
    | seen a loop =>
      obtain ⟨held, same, _⟩ := locked knows.2.1
      exact ⟨knows.1, held, same ▸ knows.2.2⟩
    | store a =>
      obtain ⟨held, same, _⟩ := locked knows.2.1
      exact ⟨knows.1, held, same ▸ knows.2.2.1, knows.2.2.2.trans seen_le⟩
    | unlock =>
      obtain ⟨held, same, _⟩ := locked knows.1
      exact ⟨held, same ▸ knows.2⟩
    | current => exact le_trans knows version_le
    | _ => exact knows
  | start pc =>
    cases pc with
    | wait | current => cases late
    | _ => exact knows
  | _ => exact knows

end Invariant

/-! ## One step -/

section Loops

variable {T : Type} {cells : Cells T}

theorem Ordered.raised (ordered : Ordered cells) {target} (versioned : 1 ≤ target.version) {fence}
    (settled : Settled (raises target) (some target) cells.highestAcceptedTarget fence) :
    (∀ f ∈ fence, 1 ≤ f.version) ∧
      ∀ f ∈ cells.highestAcceptedTarget, ∃ f' ∈ fence, f ≤ f' := by
  obtain ⟨_, rfl⟩ | ⟨ahead, rfl⟩ := settled
  · exact ⟨ordered.fence, fun f at_ => ⟨f, at_, le_rfl⟩⟩
  · refine ⟨?_, fun f at_ => ⟨target, rfl, ?_⟩⟩
    · rintro f ⟨⟩
      exact versioned
    · have named := ordered.fence f at_
      rw [mem_def.mp at_] at ahead
      have older : f < target := (isApplyResultStale_iff (by omega)).mp ahead
      exact older.le

end Loops

section Steps

variable {T : Type} {cfg : Config} {cells : Cells T} {t : T} {input : Input T}
  {turn : Turn (Cells T) (Pc cfg) T}

theorem Cells.Untouched.ordered (untouched : cells.Untouched) : Ordered cells := by
  rw [untouched]
  refine ⟨?_, ?_, ?_, ?_, ?_, fun _ => rfl, fun off => absurd rfl off⟩
  all_goals
    intro item off
    cases off

structure Keeps (t : T) (cells : Cells T) (turn : Turn (Cells T) (Pc cfg) T) : Prop where
  ordered : Ordered turn.cells
  knows : turn.pc.knows turn.cells t
  rises : Rises t cells turn.cells

variable {pc : Pc cfg} {a : WorkerAssignment} {c : AssignmentCommit}

theorem Keeps.moved (ordered : Ordered cells) (knows : pc.knows cells t) :
    Keeps t cells (move cells pc) :=
  ⟨ordered, knows, .of_eq rfl rfl rfl rfl rfl rfl⟩

theorem Keeps.raised (ordered : Ordered cells) {target} (versioned : 1 ≤ target.version) {fence}
    (settled : Settled (raises target) (some target) cells.highestAcceptedTarget fence)
    (knows : pc.knows { cells with highestAcceptedTarget := fence } t) :
    Keeps t cells (move { cells with highestAcceptedTarget := fence } pc) := by
  obtain ⟨named, rises⟩ := ordered.raised versioned settled
  exact ⟨{ ordered with fence := named }, knows, { Rises.refl t cells with fence := rises }⟩

theorem Keeps.advanced (ordered : Ordered cells) {rev : Nat}
    (later : cells.lastSeenLeaderRevision ≤ rev)
    (knows : pc.knows { cells with lastSeenLeaderRevision := rev } t) :
    Keeps t cells (move { cells with lastSeenLeaderRevision := rev } pc) :=
  ⟨{ ordered with led := fun some => (ordered.led some).trans later }, knows,
    { Rises.refl t cells with seen := later }⟩

theorem Keeps.locked (ordered : Ordered cells) (free : cells.applyStoreMu = none)
    (knows : pc.knows { cells with applyStoreMu := some t } t) :
    Keeps t cells (move { cells with applyStoreMu := some t } pc) := by
  refine ⟨{ ordered with }, knows, { Rises.refl t cells with locked := fun u _ held => ?_ }⟩
  rw [free] at held
  cases held

theorem Keeps.unlocked (ordered : Ordered cells) (held : cells.applyStoreMu = some t)
    (knows : pc.knows { cells with applyStoreMu := none } t) :
    Keeps t cells (move { cells with applyStoreMu := none } pc) := by
  refine ⟨{ ordered with }, knows, { Rises.refl t cells with locked := fun u other at_u => ?_ }⟩
  rw [held] at at_u
  exact absurd (some.inj at_u).symm other

theorem Keeps.stored (ordered : Ordered cells) (held : cells.applyStoreMu = some t)
    (newer : cells.assignment.target ≤ a.target)
    (led : a.leaderRevision ≤ cells.lastSeenLeaderRevision)
    (knows : pc.knows { cells with assignment := a } t) :
    Keeps t cells (move { cells with assignment := a } pc) := by
  refine ⟨{ ordered with
    committed := fun c at_ => ?_
    led := fun _ => led }, knows, { Rises.refl t cells with
    snapshot := newer
    locked := fun u other at_u => ?_ }⟩
  · obtain ⟨below, acked⟩ := ordered.committed c at_
    exact ⟨below.trans newer, acked⟩
  · rw [held] at at_u
    exact absurd (some.inj at_u).symm other

theorem AliasPc.Step.keeps {pc : AliasPc a} (step : pc.Step cells a turn) (ordered : Ordered cells)
    (versioned : 1 ≤ a.version) : Keeps t cells turn := by
  cases step with
  | staleLeader | known | loses => exact .moved ordered trivial
  | seen | newer | raiseAgain | raiseKept => exact .moved ordered versioned
  | raised ahead => exact .raised ordered versioned (.inr ⟨ahead, rfl⟩) versioned
  | record => exact ⟨{ ordered with }, versioned, { Rises.refl t cells with }⟩
  | wins => exact .moved ordered ⟨versioned, trivial⟩

theorem CommitPc.Step.keeps {pc : CommitPc c} (step : pc.Step cells c turn)
    (ordered : Ordered cells) (versioned : 1 ≤ c.version) : Keeps t cells turn := by
  cases step with
  | staleLeader | loses => exact .moved ordered trivial
  | known | newer | noopAgain | seen | wins | busy | coalesceAgain | raiseAgain | unbuilt
  | stashAgain =>
    exact .moved ordered versioned
  | noop | observe | claim | unfetched =>
    exact ⟨{ ordered with }, versioned, { Rises.refl t cells with }⟩
  | noopDone settled => exact .advanced ordered (settled_advances settled).1 trivial
  | coalesced settled =>
    exact ⟨{ ordered with coalesced := settled_stash settled ordered.coalesced versioned },
      trivial, { Rises.refl t cells with }⟩
  | raised settled => exact .raised ordered versioned settled versioned
  | @built a at_ =>
    have same : a.version = c.version := congrArg version at_
    exact .moved ordered ⟨by rw [same]; exact versioned, trivial⟩
  | replaced stashed supersedes =>
    exact ⟨{ ordered with coalesced := nofun },
      ordered.coalesced _ stashed, { Rises.refl t cells with }⟩
  | unreplaced =>
    exact ⟨{ ordered with coalesced := nofun },
      versioned, { Rises.refl t cells with }⟩
  | stashed settled =>
    exact ⟨{ ordered with fetch := settled_stash settled ordered.fetch versioned },
      versioned, { Rises.refl t cells with }⟩
  | wake => exact ⟨{ ordered with }, trivial, { Rises.refl t cells with }⟩

theorem Caller.knows (caller : Caller) (a : WorkerAssignment) (cells : Cells T) (t : T) :
    (caller.returned a : Pc cfg).knows cells t ∧ (caller.failed a : Pc cfg).knows cells t ∧
      (caller.rejected a : Pc cfg).knows cells t := by
  cases caller <;> exact ⟨trivial, trivial, trivial⟩

theorem ApplyPc.Step.keeps {caller : Caller} {pc : ApplyPc cfg a}
    (step : pc.Step cells t caller a turn) (ordered : Ordered cells) (versioned : 1 ≤ a.version)
    (knows : pc.knows cells t a) : Keeps t cells turn := by
  have named : a.target.version ≠ 0 := by
    have same : a.target.version = a.version := rfl
    omega
  cases step with
  | rejected => exact .moved ordered (caller.knows a cells t).2.2
  | enter | stashAgain => exact .moved ordered ⟨versioned, trivial⟩
  | lock free => exact .locked ordered free ⟨versioned, rfl⟩
  | stale | accepted | raiseAgain | applied | seenAgain => exact .moved ordered ⟨versioned, knows⟩
  | fresh ahead =>
    exact .moved ordered ⟨versioned, knows, (isApplyResultStale_eq_false named).mp ahead⟩
  | fenced | applyFailed => exact .moved ordered ⟨versioned, knows.1⟩
  | raised settled => exact .raised ordered versioned settled ⟨versioned, knows⟩
  | failed | unlock => exact .unlocked ordered knows ⟨versioned, trivial⟩
  | stashed settled =>
    exact ⟨{ ordered with retry := settled_stash settled ordered.retry versioned },
      ⟨versioned, trivial⟩, { Rises.refl t cells with }⟩
  | wake =>
    exact ⟨{ ordered with }, (caller.knows a _ t).2.1, { Rises.refl t cells with }⟩
  | seen settled =>
    obtain ⟨later, seen, _⟩ := settled_advances settled
    exact .advanced ordered later ⟨versioned, knows.1, knows.2, seen⟩
  | store => exact .stored ordered knows.1 knows.2.1 knows.2.2 ⟨versioned, knows.1, rfl, knows.2.2⟩
  | committed =>
    obtain ⟨held, stored, led⟩ := knows
    -- what was acknowledged before is no newer than what was committed, or nothing was
    have acked : cells.applied.target ≤ a.target := by
      cases before : cells.committedAssignment with
      | none =>
        rw [ordered.unacknowledged before, le_iff]
        left
        show (0 : Int) < a.version
        omega
      | some c =>
        obtain ⟨below, acked⟩ := ordered.committed c before
        exact acked.trans (stored ▸ below)
    refine ⟨{ ordered with
      committed := ?_
      unacknowledged := nofun
      led := fun _ => by rw [stored]; exact led }, ⟨versioned, held, rfl⟩,
      { Rises.refl t cells with
        committed := fun c at_ => ⟨a, rfl, stored ▸ (ordered.committed c at_).1⟩
        locked := fun u other at_u => ?_ }⟩
    · rintro c ⟨⟩
      refine ⟨?_, acked⟩
      show a.target ≤ cells.assignment.target
      rw [stored]
    · rw [held] at at_u
      exact absurd (some.inj at_u).symm other
  | ack =>
    obtain ⟨held, committed⟩ := knows
    have acked := (ordered.committed a committed).2
    have same : (setAppliedAssignment cfg a cells.applied).target = a.target :=
      setAppliedAssignment_target acked
    refine ⟨{ ordered with
      committed := fun c at_ => ?_
      unacknowledged := fun off => ?_ }, ⟨versioned, held⟩,
      { Rises.refl t cells with acknowledged := ?_ }⟩
    · have only : c = a := some.inj ((mem_def.mp at_).symm.trans committed)
      subst only
      exact ⟨(ordered.committed c committed).1, same.le⟩
    · have none : cells.committedAssignment = none := off
      rw [committed] at none
      cases none
    · exact acked.trans same.ge
  | mark => exact .moved ordered (caller.knows a cells t).1
  | dropped => exact .unlocked ordered knows (caller.knows a _ t).1

theorem FetchPc.Step.keeps {pc : FetchPc c} (step : pc.Step cells c turn) (ordered : Ordered cells)
    (versioned : 1 ≤ c.version) : Keeps t cells turn := by
  cases step with
  | fenced => exact .moved ordered trivial
  | accepted | unbuilt | stashAgain => exact .moved ordered versioned
  | @built a at_ =>
    have same : a.version = c.version := congrArg version at_
    exact .moved ordered ⟨by rw [same]; exact versioned, trivial⟩
  | stashed settled =>
    exact ⟨{ ordered with fetch := settled_stash settled ordered.fetch versioned },
      trivial, { Rises.refl t cells with }⟩

theorem RecoverPc.Step.keeps {pc : RecoverPc cfg} (step : pc.Step cells t input turn)
    (ordered : Ordered cells) (versioned : input.Versioned) (knows : pc.knows cells t) :
    Keeps t cells turn := by
  cases step with
  | found read =>
    subst read
    exact .moved ordered versioned
  | unread | settled | exit => exact .moved ordered trivial
  | lock free => exact .locked ordered free ⟨knows, rfl⟩
  | @stale a behind =>
    refine .moved ordered ⟨knows.2, ?_⟩
    have named : a.target.version ≠ 0 := by
      have at_least : 1 ≤ a.target.version := knows.1
      omega
    have older := (isApplyResultStale_iff named).mp behind
    exact le_trans knows.1 (version_le older.le)
  | @fresh a ahead =>
    have named : a.target.version ≠ 0 := by
      have at_least : 1 ≤ a.target.version := knows.1
      omega
    exact .moved ordered ⟨knows.1, knows.2, (isApplyResultStale_eq_false named).mp ahead⟩
  | seenAgain | current | unsettled | stashAgain => exact .moved ordered knows
  | seen settled =>
    obtain ⟨later, seen, _⟩ := settled_advances settled
    exact .advanced ordered later ⟨knows.1, knows.2.1, knows.2.2, seen⟩
  | store => exact .stored ordered knows.2.1 knows.2.2.1 knows.2.2.2 ⟨knows.2.1, knows.1⟩
  | unlock => exact .unlocked ordered knows.1 knows.2
  | stashed settled =>
    exact ⟨{ ordered with retry := settled_stash settled ordered.retry knows },
      trivial, { Rises.refl t cells with }⟩
  | wake => exact ⟨{ ordered with }, trivial, { Rises.refl t cells with }⟩

/-- The startup runner alone can step back: it clears what it read when that
was computed for another incarnation of the worker. -/
theorem StartPc.Step.keeps {pc} (step : pc.Step cells input turn)
    (ordered : Ordered cells) (versioned : input.Versioned) (knows : pc.knows cells)
    (alone : (.start pc : Pc cfg).early = true → cells.Untouched) :
    Ordered turn.cells ∧ turn.pc.knows turn.cells t ∧ (pc ≠ .clear → Rises t cells turn.cells) := by
  have of_moved : ∀ {pc' : Pc cfg}, pc'.knows cells t →
      Ordered cells ∧ pc'.knows cells t ∧ (pc ≠ .clear → Rises t cells cells) :=
    fun knows' => ⟨ordered, knows', fun _ => .refl t cells⟩
  have from_alias : ∀ {initial : WorkerAssignment}, 1 ≤ initial.version →
      (startFromAlias initial : Pc cfg).knows cells t := by
    intro initial named
    rw [startFromAlias, if_neg (by rintro ⟨zero, _⟩; omega)]
    exact ⟨named, trivial⟩
  cases step with
  | @found a read =>
    subst read
    have untouched := alone rfl
    refine ⟨untouched.with_assignment.ordered, versioned, fun _ => { Rises.refl t cells with
      snapshot := ?_
      locked := fun u _ held => ?_ }⟩
    · rw [show cells.assignment = .empty from knows, le_iff]
      left
      show (0 : Int) < a.version
      have at_least : 1 ≤ a.version := versioned
      omega
    · rw [untouched] at held
      cases held
  | unread => exact of_moved trivial
  | current => exact of_moved knows
  | commit read =>
    subst read
    exact of_moved ⟨knows, versioned⟩
  | noCommit => exact of_moved (from_alias knows)
  | @built initial a c at_ =>
    have same : a.version = c.version := congrArg version at_
    refine of_moved ⟨?_, trivial⟩
    rw [same]
    exact knows.2
  | unbuilt => exact of_moved (from_alias knows.1)
  | coldStore | coldCommitted | coldAck | coldMark => exact knows.elim
  | observe | finish =>
    exact ⟨{ ordered with }, trivial, fun _ => { Rises.refl t cells with }⟩
  | clear => exact ⟨(alone rfl).with_assignment.ordered, trivial, fun off => absurd rfl off⟩

/-- **Every step keeps the invariant**, and raises the cells unless it clears
what the startup runner read. -/
theorem Took.keeps (took : Took cells t input pc turn) (ordered : Ordered cells)
    (versioned : input.Versioned) (knows : pc.knows cells t)
    (alone : pc.early = true → cells.Untouched)
    (fresh : cells.startup = .pending → cells = .initial) :
    Ordered turn.cells ∧ turn.pc.knows turn.cells t ∧
      (pc ≠ .start .clear → Rises t cells turn.cells) := by
  have of_keeps : Keeps t cells turn →
      Ordered turn.cells ∧ turn.pc.knows turn.cells t ∧
        (pc ≠ .start .clear → Rises t cells turn.cells) :=
    fun keeps => ⟨keeps.ordered, keeps.knows, fun _ => keeps.rises⟩
  cases took with
  | deliverAlias given | deliverCommit given =>
    subst given
    exact of_keeps (.moved ordered versioned)
  | recover => exact of_keeps (.moved ordered trivial)
  | boot first =>
    refine of_keeps ⟨{ ordered with }, ?_, { Rises.refl t cells with }⟩
    show cells.assignment = .empty
    rw [fresh first]
    rfl
  | legacy step | commit step | fetch step => exact of_keeps (step.keeps ordered knows)
  | release => exact of_keeps ⟨{ ordered with }, trivial, { Rises.refl t cells with }⟩
  | drain =>
    exact of_keeps ⟨{ ordered with coalesced := nofun },
      drain_cases trivial ordered.coalesced, { Rises.refl t cells with }⟩
  | apply step => exact of_keeps (step.keeps ordered knows.1 knows.2)
  | applyLoop step =>
    cases step with
    | take stashed =>
      exact of_keeps ⟨{ ordered with retry := nofun },
        ⟨ordered.retry _ stashed, trivial⟩, { Rises.refl t cells with }⟩
    | empty =>
      exact of_keeps ⟨{ ordered with retry := nofun }, trivial,
        { Rises.refl t cells with }⟩
    | _ => exact of_keeps ⟨{ ordered with }, trivial, { Rises.refl t cells with }⟩
  | fetchLoop step =>
    cases step with
    | take stashed =>
      exact of_keeps ⟨{ ordered with fetch := nofun },
        ordered.fetch _ stashed, { Rises.refl t cells with }⟩
    | empty =>
      exact of_keeps ⟨{ ordered with fetch := nofun }, trivial,
        { Rises.refl t cells with }⟩
    | _ => exact of_keeps ⟨{ ordered with }, trivial, { Rises.refl t cells with }⟩
  | recovering step => exact of_keeps (step.keeps ordered versioned knows)
  | start step =>
    obtain ⟨ordered', knows', rises⟩ := step.keeps ordered versioned knows alone
    exact ⟨ordered', knows', fun later => rises fun off => later (by rw [off])⟩

end Steps

/-! ## Every run -/

variable {T : Type} [DecidableEq T] {cfg : Config} {s s' : Pool (Cells T) (Pc cfg) T}

instance versionedDecidable {T : Type} : DecidablePred (Input.Versioned (T := T))
  | .legacy a => inferInstanceAs (Decidable (1 ≤ a.version))
  | .commit c => inferInstanceAs (Decidable (1 ≤ c.version))
  | .fetched (some a) => inferInstanceAs (Decidable (1 ≤ a.version))
  | .latest (some c) => inferInstanceAs (Decidable (1 ≤ c.version))
  | .fetched none | .latest none => .isTrue trivial
  | .go | .recover | .boot | .payload _ | .applied _ | .gates _ | .spawn _ => .isTrue trivial

/-- The guard of the runs considered. -/
def Versions (T : Type) (cfg : Config) (_ : Pool (Cells T) (Pc cfg) T) (event : T × Input T) : Prop :=
  event.2.Versioned

instance versionsDecidable (s : Pool (Cells T) (Pc cfg) T) (event : T × Input T) :
    Decidable (Versions T cfg s event) :=
  versionedDecidable event.2

omit [DecidableEq T] in
theorem Took.keeps_alone {t : T} {input} {turn}
    (took : Took s.cells t input (s.pcs t) turn) (alone : Alone s) (ordered : Ordered s.cells)
    (versioned : input.Versioned) (knows : (s.pcs t).knows s.cells t) :
    Ordered turn.cells ∧ turn.pc.knows turn.cells t ∧
      (s.pcs t ≠ .start .clear → Rises t s.cells turn.cells) :=
  took.keeps ordered versioned knows (fun early => (alone.early t early).1)
    fun pending => (alone.unstarted pending).1

theorem ordered_of_reachable (reached : Reachable (worker T cfg) (Versions T cfg) s) :
    Ordered s.cells ∧ ∀ t, (s.pcs t).knows s.cells t := by
  refine Reachable.knows (K := Alone) (I := Ordered) (N := fun cells t pc => pc.knows cells t)
    (fun _ => startup_alone) ?_ ?_ reached
  · rintro cells rfl
    refine ⟨⟨?_, ?_, ?_, ?_, ?_, fun _ => rfl, fun off => absurd rfl off⟩, fun _ => trivial⟩
    all_goals
      intro item off
      cases off
  · intro s t input turn alone versioned ordered knows moved
    have took : Took s.cells t input (s.pcs t) turn := next_took moved
    obtain ⟨ordered', knows', rises⟩ := took.keeps_alone alone ordered versioned knows
    refine ⟨ordered', knows', fun u other knows_u => ?_, fun fresh pc spawned => ?_⟩
    · by_cases early : (s.pcs u).early = true
      · -- nobody else moves before the startup runner's first apply
        obtain ⟨untouched, idle⟩ := alone.early u early
        rw [idle t (Ne.symm other)] at took
        have pending := (took.boots (by rw [untouched]; nofun)).1
        rw [untouched] at pending
        cases pending
      · by_cases clears : s.pcs t = .start .clear
        · have idle := (alone.early t (by rw [clears]; rfl)).2 u other
          rw [idle]
          trivial
        · exact Pc.knows_rises knows_u (by simpa using early) (rises clears) other
    · obtain rfl | rfl := took.spawned_loop spawned <;> trivial

theorem worker_never_regresses {event : T × Input T}
    (reached : Reachable (worker T cfg) (Versions T cfg) s) (versioned : event.2.Versioned)
    (taken : (worker T cfg).step s event = some s') (kept : s.pcs event.1 ≠ .start .clear) :
    s.cells.assignment.target ≤ s'.cells.assignment.target ∧
    (∀ c ∈ s.cells.committedAssignment,
      ∃ c' ∈ s'.cells.committedAssignment, c.target ≤ c'.target) ∧
    (∀ f ∈ s.cells.highestAcceptedTarget, ∃ f' ∈ s'.cells.highestAcceptedTarget, f ≤ f') ∧
    s.cells.applied.target ≤ s'.cells.applied.target ∧
    s.cells.lastSeenLeaderRevision ≤ s'.cells.lastSeenLeaderRevision ∧
    (s'.cells.committedAssignment ≠ none →
      s'.cells.assignment.leaderRevision ≤ s'.cells.lastSeenLeaderRevision) := by
  obtain ⟨t, input⟩ := event
  obtain ⟨turn, moved, _, rfl⟩ := Program.step_eq_some.mp taken
  have took : Took s.cells t input (s.pcs t) turn := next_took moved
  obtain ⟨ordered, knows⟩ := ordered_of_reachable reached
  obtain ⟨ordered', _, rises⟩ :=
    took.keeps_alone (startup_alone reached) ordered versioned (knows t)
  rw [Turn.pool_cells]
  have up := rises kept
  exact ⟨up.snapshot, up.committed, up.fence, up.acknowledged, up.seen, ordered'.led⟩

/-- A worker at version one is about to store version two of the same leader. -/
def secondApply {T : Type} (t u : T) : List (T × Input T) :=
  startedWith t (plainAssignment 1 1) ++ [(u, .legacy (plainAssignment 2 1))] ++ goes u 11 ++
    [(u, .applied true)] ++ goes u 1

theorem worker_never_regresses_second :
    ∃ s s', Reachable (worker (Fin 2) plainConfig) (Versions (Fin 2) plainConfig) s ∧
      (worker (Fin 2) plainConfig).step s (1, .go) = some s' ∧
      s.cells.assignment = plainAssignment 1 1 ∧ s'.cells.assignment = plainAssignment 2 1 ∧
      s.cells.assignment.target ≤ s'.cells.assignment.target ∧
      s'.cells.assignment.leaderRevision ≤ s'.cells.lastSeenLeaderRevision := by
  obtain ⟨s, s', reached, taken, was, is, committed, late⟩ := exists_reachable_step
    (Versions (Fin 2) plainConfig) (startPool_init _ _) (secondApply 0 1) (1, .go) (fun s s' =>
      s.cells.assignment = plainAssignment 1 1 ∧ s'.cells.assignment = plainAssignment 2 1 ∧
      s'.cells.committedAssignment ≠ none ∧ (s.pcs 1).early = false) (by decide)
  have versioned : ((1, .go) : Fin 2 × Input (Fin 2)).2.Versioned := trivial
  have kept : s.pcs 1 ≠ .start .clear := by
    intro clears
    rw [clears] at late
    cases late
  have up := worker_never_regresses reached versioned taken kept
  exact ⟨s, s', reached, taken, was, is, up.1, up.2.2.2.2.2 committed⟩

/-- The first apply of the startup runner fails. Its snapshot keeps the leader
revision that was read, and none was seen. -/
theorem failed_first_apply_unseen :
    ∃ s, Reachable (worker (Fin 2) plainConfig) (Versions (Fin 2) plainConfig) s ∧
      s.cells.startup = .monitoring ∧ s.cells.applyRetry.stash = some (plainAssignment 1 1) ∧
      s.cells.lastSeenLeaderRevision < s.cells.assignment.leaderRevision :=
  exists_reachable _ (startPool_init _ _) (failedStart 0 1 (plainAssignment 1 1)) _ (by decide)

end Parti.Manager
