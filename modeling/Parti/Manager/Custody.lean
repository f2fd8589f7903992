/-
# Manager.Custody — who answers for the accepted target

`highestAcceptedTarget` is raised when a target is admitted. From then on older
candidates are dropped at the fence, so somebody has to bring the admitted target, or
a later one, to the snapshot. `Pc.carries` is the target a goroutine is bringing; with
the snapshot and the two retry stashes it says who answers for a target (`Owned`).

Three gates behind the admission can let go of a target that nobody else holds:
the authority decision after an alias has raised the fence, the label guard, and
the commit handler that turns from a commit whose payload it could not fetch to
one that came in meanwhile. `Hands` asks that they do not.

Version zero is older than every other version and than no version zero,
whatever the leader revisions; `floor` makes this an order.

* `fenced_target_is_owned`: in every run with `Hands`, whoever is dropped at the
  fence is dropped for a target that somebody answers for.
* `losing_alias_strands_worker`: a run without.
-/
import Parti.Manager.Gates

namespace Parti.Manager

open Parti.Types Option
open Lib AcceptedTarget

/-! ## The order of the gates -/

def AcceptedTarget.floor (target : AcceptedTarget) : AcceptedTarget :=
  if target.version = 0 then ⟨0, 0⟩ else target

/-- Versions as they are published. -/
def AcceptedTarget.Counted (target : AcceptedTarget) : Prop := 0 ≤ target.version

section Floor

variable {a b : AcceptedTarget}

theorem AcceptedTarget.floor_named (named : a.version ≠ 0) : a.floor = a := if_neg named

theorem AcceptedTarget.floor_zero (zero : a.version = 0) : a.floor = ⟨0, 0⟩ := if_pos zero

theorem AcceptedTarget.floor_mono (counted : a.Counted) (le : a ≤ b) : a.floor ≤ b.floor := by
  have nonneg : 0 ≤ a.version := counted
  have version_le := version_le le
  by_cases zero : a.version = 0
  · by_cases zero' : b.version = 0
    · rw [floor_zero zero, floor_zero zero']
    · rw [floor_zero zero, floor_named zero', le_iff]
      left
      show (0 : Int) < b.version
      omega
  · rw [floor_named zero, floor_named (by omega)]
    exact le

theorem isApplyResultStale_iff_floor (counted : a.Counted) (counted' : b.Counted) :
    isApplyResultStale a b = true ↔ a.floor < b.floor := by
  have nonneg : 0 ≤ a.version := counted
  have nonneg' : 0 ≤ b.version := counted'
  by_cases zero : a.version = 0
  · rw [isApplyResultStale, if_pos zero, floor_zero zero]
    by_cases zero' : b.version = 0
    · simp [zero', floor_zero zero']
    · rw [floor_named zero', lt_iff]
      simp only [bne_iff_ne, ne_eq, zero', not_false_eq_true, true_iff]
      left
      show (0 : Int) < b.version
      omega
  · rw [isApplyResultStale_iff zero, floor_named zero]
    by_cases zero' : b.version = 0
    · rw [floor_zero zero', lt_iff, lt_iff]
      show _ ↔ a.version < 0 ∨ a.version = 0 ∧ a.leaderRevision < 0
      omega
    · rw [floor_named zero']

theorem floor_le_of_fresh (counted : a.Counted) (counted' : b.Counted)
    (fresh : isApplyResultStale a b = false) : b.floor ≤ a.floor := by
  rw [← not_lt, ← isApplyResultStale_iff_floor counted counted', fresh]
  simp

theorem le_of_floor_le {fence x} (counted : a.Counted)
    (counted' : fence.Counted) (behind : isApplyResultStale a fence = true)
    (le : fence.floor ≤ x.floor) : fence ≤ x := by
  have nonneg : 0 ≤ a.version := counted
  have nonneg' : 0 ≤ fence.version := counted'
  have ahead := (isApplyResultStale_iff_floor counted counted').mp behind
  have named : fence.version ≠ 0 := by
    intro zero
    rw [floor_zero zero] at ahead
    by_cases zero' : a.version = 0
    · rw [floor_zero zero'] at ahead
      exact lt_irrefl _ ahead
    · rw [floor_named zero', lt_iff] at ahead
      have below : a.version < 0 ∨ a.version = 0 ∧ a.leaderRevision < 0 := ahead
      omega
  rw [floor_named named] at le
  by_cases zero : x.version = 0
  · rw [floor_zero zero, le_iff] at le
    have below : fence.version < 0 ∨ fence.version = 0 ∧ fence.leaderRevision ≤ 0 := le
    omega
  · rwa [floor_named zero] at le

end Floor

/-! ## Custody -/

section Custody

variable {T : Type} {cfg : Config}

/-- The apply pipeline has its target in hand until it is stored, dropped or in
the stash. -/
def ApplyPc.carries (a : WorkerAssignment) : ApplyPc cfg a → Option AcceptedTarget
  | .wake | .committed | .ack | .unlock | .mark | .dropped => none
  | _ => some a.target

/-- The target a goroutine has admitted and is bringing. An alias counts from
when it raised the fence, a commit from when it passed it. -/
def Pc.carries : Pc cfg → Option AcceptedTarget
  | .legacy a (.record _ true) | .legacy a (.authority _ true) => some a.target
  | .commit c .build | .commit c .unfetched | .commit c .replace | .commit c (.stash _) =>
    some (commitTarget c)
  | .apply _ a pc => pc.carries a
  | .fetch c _ => some (commitTarget c)
  | _ => none

/-- A target of the kind is stored, or waits for a retry. -/
def Cells.keeps (cells : Cells T) (Q : AcceptedTarget → Prop) : Prop :=
  Q cells.assignment.target ∨ (∃ a ∈ cells.applyRetry.stash, Q a.target) ∨
    ∃ c ∈ cells.fetchRetry.stash, Q (commitTarget c)

def Owned (s : Pool (Cells T) (Pc cfg) T) (Q : AcceptedTarget → Prop) : Prop :=
  s.cells.keeps Q ∨ ∃ t, ∃ x ∈ (s.pcs t).carries, Q x

/-- A goroutine about to be compared with the fence, and its candidate. -/
def Pc.compares : Pc cfg → Option AcceptedTarget
  | .apply _ a .fenceGate => some a.target
  | .fetch c .fence => some (commitTarget c)
  | _ => none

/-- Nobody lets go of a target that the fence was raised for: an alias that
raised it is chosen; what the label guard rejects is behind the fence; and no
later commit waits for a handler that could not fetch its own. -/
def Pc.hands (cells : Cells T) : Pc cfg → Bool
  | .legacy a (.authority lastSeen true) =>
    decide (selectAuthority cells.lastObservedCommit (some a) lastSeen = .legacyAlias)
  | .apply _ a .enter =>
    !labelIncarnationMismatch cfg a ||
      cells.highestAcceptedTarget.all (isApplyResultStale a.target)
  | .commit c .replace =>
    cells.stashedCommit.all fun pending => !commitSupersedesForStash pending c
  | _ => true

/-- The guard of the runs considered. -/
def Hands (T : Type) (cfg : Config) (s : Pool (Cells T) (Pc cfg) T) (event : T × Input T) : Prop :=
  event.2.Brings AcceptedTarget.Counted ∧ (s.pcs event.1).hands s.cells = true

variable {cells cells' : Cells T} {Q R : AcceptedTarget → Prop}

theorem Cells.keeps.mono (kept : cells.keeps Q) (weaker : ∀ x, Q x → R x) : cells.keeps R := by
  obtain stored | ⟨a, at_, holds⟩ | ⟨c, at_, holds⟩ := kept
  · exact .inl (weaker _ stored)
  · exact .inr (.inl ⟨a, at_, weaker _ holds⟩)
  · exact .inr (.inr ⟨c, at_, weaker _ holds⟩)

theorem Owned.mono {s : Pool (Cells T) (Pc cfg) T} (owned : Owned s Q) (weaker : ∀ x, Q x → R x) :
    Owned s R := by
  obtain kept | ⟨t, x, at_, holds⟩ := owned
  · exact .inl (kept.mono weaker)
  · exact .inr ⟨t, x, at_, weaker _ holds⟩

/-- As far as the fence `f` goes. -/
def Reaches (f x : AcceptedTarget) : Prop := f.floor ≤ x.floor

/-- Some target as late as `f` is in the cells or in the goroutine's hands. -/
def Covered (cells : Cells T) (pc : Pc cfg) (f : AcceptedTarget) : Prop :=
  cells.keeps (Reaches f) ∨ ∃ x ∈ pc.carries, Reaches f x

/-- What a step does about a fence: it carries its target, or it leaves it and
lets go of nothing. -/
structure Answers (cells : Cells T) (pc : Pc cfg) (turn : Turn (Cells T) (Pc cfg) T) : Prop where
  fence : ∀ f ∈ turn.cells.highestAcceptedTarget,
    (∃ x ∈ turn.pc.carries, Reaches f x) ∨
      (f ∈ cells.highestAcceptedTarget ∧ (Covered cells pc f → Covered turn.cells turn.pc f))

end Custody

/-! ## One step -/

section Steps

variable {T : Type} {cfg : Config} {cells : Cells T} {t : T} {input : Input T} {pc : Pc cfg}
  {turn : Turn (Cells T) (Pc cfg) T}

theorem Answers.moved (fence : turn.cells.highestAcceptedTarget = cells.highestAcceptedTarget)
    (assignment : turn.cells.assignment = cells.assignment)
    (retry : turn.cells.applyRetry.stash = cells.applyRetry.stash)
    (fetch : turn.cells.fetchRetry.stash = cells.fetchRetry.stash)
    (carried : ∀ x ∈ pc.carries, x ∈ turn.pc.carries) : Answers cells pc turn := by
  refine ⟨fun f at_ => ?_⟩
  rw [fence] at at_
  refine .inr ⟨at_, fun covered => ?_⟩
  obtain kept | ⟨x, held, reaches⟩ := covered
  · left
    unfold Cells.keeps
    rw [assignment, retry, fetch]
    exact kept
  · exact .inr ⟨x, carried x held, reaches⟩

theorem Answers.kept (fence : turn.cells.highestAcceptedTarget = cells.highestAcceptedTarget)
    (cells_keep : ∀ f ∈ cells.highestAcceptedTarget, cells.keeps (Reaches f) →
      Covered turn.cells turn.pc f)
    (carried : ∀ f ∈ cells.highestAcceptedTarget, ∀ x ∈ pc.carries, Reaches f x →
      Covered turn.cells turn.pc f) : Answers cells pc turn := by
  refine ⟨fun f at_ => ?_⟩
  rw [fence] at at_
  refine .inr ⟨at_, fun covered => ?_⟩
  obtain kept | ⟨x, held, reaches⟩ := covered
  · exact cells_keep f at_ kept
  · exact carried f at_ x held reaches

variable {pc' : Pc cfg} {c : AssignmentCommit} {a : WorkerAssignment} {target : AcceptedTarget}

theorem Answers.raised {fence}
    (settled : Settled (raises target) (some target) cells.highestAcceptedTarget fence)
    (carries : pc'.carries = some target) (before : ∀ x ∈ pc.carries, x = target) :
    Answers cells pc (move { cells with highestAcceptedTarget := fence } pc') := by
  refine ⟨fun f at_ => ?_⟩
  obtain ⟨_, rfl⟩ | ⟨_, rfl⟩ := settled
  · refine .inr ⟨at_, fun covered => ?_⟩
    obtain kept | ⟨x, held, reaches⟩ := covered
    · exact .inl kept
    · exact .inr ⟨target, carries, before x held ▸ reaches⟩
  · cases at_
    exact .inl ⟨target, carries, le_rfl⟩

theorem settled_reaches {α : Type} {beats} {new : α} {cur cur'}
    (target : α → AcceptedTarget) (empty : beats none = true)
    (loses : ∀ y, beats (some y) = false → target new ≤ target y)
    (wins : ∀ y, beats (some y) = true → target y ≤ target new)
    (settled : Settled beats (some new) cur cur') (counted : (target new).Counted)
    (counted_cur : ∀ y ∈ cur, (target y).Counted) {f} :
    (Reaches f (target new) → ∃ y ∈ cur', Reaches f (target y)) ∧
      ((∃ y ∈ cur, Reaches f (target y)) → ∃ y ∈ cur', Reaches f (target y)) := by
  obtain ⟨kept, rfl⟩ | ⟨ahead, rfl⟩ := settled
  · refine ⟨fun reaches => ?_, id⟩
    cases cur' with
    | none =>
      rw [empty] at kept
      cases kept
    | some y => exact ⟨y, rfl, reaches.trans (floor_mono counted (loses y kept))⟩
  · refine ⟨fun reaches => ⟨new, rfl, reaches⟩, ?_⟩
    rintro ⟨y, at_, reaches⟩
    have counted_y := counted_cur y at_
    rw [mem_def.mp at_] at ahead
    exact ⟨new, rfl, reaches.trans (floor_mono counted_y (wins y ahead))⟩

theorem Answers.fetchStashed {stash}
    (settled : Settled (supersedesCommit c) (some c) cells.fetchRetry.stash stash)
    (counted : (commitTarget c).Counted) (targets : cells.Targets AcceptedTarget.Counted)
    (carried : ∀ x ∈ pc.carries, x = commitTarget c) :
    Answers cells pc
      (move { cells with fetchRetry.stash := stash } pc') := by
  have put := fun f => settled_reaches (f := f) commitTarget rfl
    (fun _ => le_of_not_commitSupersedes) (fun _ => commitSupersedesForStash_le) settled counted
    targets.fetch
  refine .kept rfl (fun f _ kept => ?_) fun f _ x held reaches => ?_
  · obtain stored | waits | waits := kept
    · exact .inl (.inl stored)
    · exact .inl (.inr (.inl waits))
    · exact .inl (.inr (.inr ((put f).2 waits)))
  · rw [carried x held] at reaches
    exact .inl (.inr (.inr ((put f).1 reaches)))

theorem Answers.applyStashed {stash}
    (settled : Settled (supersedesRetry cfg a) (some a) cells.applyRetry.stash stash)
    (counted : a.target.Counted) (targets : cells.Targets AcceptedTarget.Counted)
    (carried : ∀ x ∈ pc.carries, x = a.target) :
    Answers cells pc
      (move { cells with applyRetry.stash := stash } pc') := by
  have put := fun f => settled_reaches (f := f) WorkerAssignment.target rfl
    (fun _ => le_of_not_assignmentSupersedes) (fun _ => assignmentSupersedesForStash_le) settled
    counted targets.retry
  refine .kept rfl (fun f _ kept => ?_) fun f _ x held reaches => ?_
  · obtain stored | waits | waits := kept
    · exact .inl (.inl stored)
    · exact .inl (.inr (.inl ((put f).2 waits)))
    · exact .inl (.inr (.inr waits))
  · rw [carried x held] at reaches
    exact .inl (.inr (.inl ((put f).1 reaches)))

theorem Answers.stored (admits : cells.Admits t a) (counted : a.target.Counted)
    (targets : cells.Targets AcceptedTarget.Counted) (carried : ∀ x ∈ pc.carries, x = a.target) :
    Answers cells pc (move { cells with assignment := a } pc') := by
  have later := floor_le_of_fresh counted targets.snapshot admits.2
  refine .kept rfl (fun f _ kept => ?_) fun f _ x held reaches => ?_
  · obtain stored | waits := kept
    · exact .inl (.inl (le_trans stored later))
    · exact .inl (.inr waits)
  · rw [carried x held] at reaches
    exact .inl (.inl reaches)

theorem Answers.behind (counted : target.Counted) (targets : cells.Targets AcceptedTarget.Counted)
    (behind : ∀ f ∈ cells.highestAcceptedTarget, isApplyResultStale target f = true)
    (carried : ∀ x ∈ pc.carries, x = target) : Answers cells pc (move cells pc') := by
  refine .kept rfl (fun f _ kept => .inl kept) fun f at_ x held reaches => ?_
  rw [carried x held] at reaches
  have older := (isApplyResultStale_iff_floor counted (targets.fence f at_)).mp (behind f at_)
  exact absurd reaches (not_le.mpr older)

theorem AliasPc.Step.answers {pc} (step : pc.Step cells a turn)
    (hands : (.legacy a pc : Pc cfg).hands cells = true) : Answers cells (.legacy a pc) turn := by
  cases step with
  | raised ahead => exact .raised (.inr ⟨ahead, rfl⟩) rfl nofun
  | @record _ raised | @wins _ raised =>
    cases raised with
    | false => exact .moved rfl rfl rfl rfl nofun
    | true => exact .moved rfl rfl rfl rfl fun _ at_ => at_
  | @loses lastSeen raised other =>
    cases raised with
    | false => exact .moved rfl rfl rfl rfl nofun
    | true => exact absurd (of_decide_eq_true hands) other
  | _ => exact .moved rfl rfl rfl rfl nofun

theorem CommitPc.Step.answers {pc} (step : pc.Step cells c turn)
    (counted : (commitTarget c).Counted) (targets : cells.Targets AcceptedTarget.Counted)
    (hands : (.commit c pc : Pc cfg).hands cells = true) : Answers cells (.commit c pc) turn := by
  cases step with
  | raised settled => exact .raised settled rfl nofun
  | built at_ => exact .moved rfl rfl rfl rfl fun _ held => (congrArg some at_).trans held
  | unbuilt | unfetched | unreplaced | stashAgain => exact .moved rfl rfl rfl rfl fun _ at_ => at_
  | replaced stashed supersedes => simp [Pc.hands, stashed, supersedes] at hands
  | stashed settled =>
    exact .fetchStashed settled counted targets fun x held => (some.inj held).symm
  | _ => exact .moved rfl rfl rfl rfl nofun

theorem ApplyPc.Step.answers {caller : Caller} {pc}
    (step : pc.Step cells t caller a turn) (counted : a.target.Counted)
    (targets : cells.Targets AcceptedTarget.Counted) (gated : pc.gated cells t a)
    (hands : (.apply caller a pc : Pc cfg).hands cells = true) :
    Answers cells (.apply caller a pc) turn := by
  have only : ∀ x ∈ (some a.target : Option AcceptedTarget), x = a.target :=
    fun x held => (some.inj held).symm
  cases step with
  | rejected mismatch =>
    have behind : cells.highestAcceptedTarget.all (isApplyResultStale a.target) = true := by
      simpa [Pc.hands, mismatch] using hands
    exact .behind counted targets ((all_eq_true _ _).mp behind) only
  | stale behind =>
    have later := (isApplyResultStale_iff_floor counted targets.snapshot).mp behind
    refine .kept rfl (fun f _ kept => .inl kept) fun f _ x held reaches => .inl (.inl ?_)
    rw [only x held] at reaches
    exact le_trans reaches later.le
  | fenced at_ behind =>
    refine .behind counted targets (fun f at_f => ?_) only
    rw [at_] at at_f
    cases at_f
    exact behind
  | raised settled => exact .raised settled rfl only
  | stashed settled => exact .applyStashed settled counted targets only
  | store => exact .stored gated counted targets only
  | wake | committed | ack | unlock | mark | dropped =>
    exact .moved rfl rfl rfl rfl nofun
  | _ => exact .moved rfl rfl rfl rfl fun _ at_ => at_

theorem FetchPc.Step.answers {pc} (step : pc.Step cells c turn)
    (counted : (commitTarget c).Counted) (targets : cells.Targets AcceptedTarget.Counted) :
    Answers cells (.fetch c pc) turn := by
  cases step with
  | fenced at_ behind =>
    refine .behind counted targets (fun f at_f => ?_) fun x held => (some.inj held).symm
    rw [at_] at at_f
    cases at_f
    exact behind
  | built at_ => exact .moved rfl rfl rfl rfl fun _ held => (congrArg some at_).trans held
  | stashed settled =>
    exact .fetchStashed settled counted targets fun x held => (some.inj held).symm
  | _ => exact .moved rfl rfl rfl rfl fun _ at_ => at_

theorem RecoverPc.Step.answers {pc} (step : pc.Step cells t input turn)
    (counted : (.recover pc : Pc cfg).targets AcceptedTarget.Counted)
    (targets : cells.Targets AcceptedTarget.Counted) (gated : pc.gated cells t) :
    Answers cells (.recover pc) turn := by
  cases step with
  | store => exact .stored gated counted targets nofun
  | stashed settled => exact .applyStashed settled counted targets nofun
  | _ => exact .moved rfl rfl rfl rfl nofun

theorem StartPc.Step.answers {pc} (step : pc.Step cells input turn)
    (alone : (.start pc : Pc cfg).early = true → cells.Untouched) :
    Answers cells (.start pc) turn := by
  have replaced : ∀ (a : WorkerAssignment) (pc' : Pc cfg), (.start pc : Pc cfg).early = true →
      Answers cells (.start pc) (move { cells with assignment := a } pc') := by
    intro a pc' early
    refine ⟨fun f at_ => ?_⟩
    have unraised : cells.highestAcceptedTarget = none := by rw [alone early]; rfl
    have held : cells.highestAcceptedTarget = some f := at_
    rw [unraised] at held
    cases held
  cases step with
  | found | coldStore | clear => exact replaced _ _ rfl
  | _ => exact .moved rfl rfl rfl rfl nofun

theorem Took.answers (took : Took cells t input pc turn)
    (targets : cells.Targets AcceptedTarget.Counted) (counted : pc.targets AcceptedTarget.Counted)
    (gated : pc.gated cells t) (hands : pc.hands cells = true)
    (alone : pc.early = true → cells.Untouched) : Answers cells pc turn := by
  cases took with
  | legacy step => exact step.answers hands
  | commit step => exact step.answers counted targets hands
  | apply step => exact step.answers counted targets gated hands
  | fetch step => exact step.answers counted targets
  | recovering step => exact step.answers counted targets gated
  | start step => exact step.answers alone
  | applyLoop step =>
    cases step with
    | take stashed =>
      refine .kept rfl (fun f _ kept => ?_) nofun
      obtain stored | ⟨a, at_, reaches⟩ | waits := kept
      · exact .inl (.inl stored)
      · rw [stashed] at at_
        cases at_
        exact .inr ⟨_, rfl, reaches⟩
      · exact .inl (.inr (.inr waits))
    | empty nothing => exact .moved rfl rfl nothing.symm rfl nofun
    | _ => exact .moved rfl rfl rfl rfl nofun
  | fetchLoop step =>
    cases step with
    | take stashed =>
      refine .kept rfl (fun f _ kept => ?_) nofun
      obtain stored | waits | ⟨c, at_, reaches⟩ := kept
      · exact .inl (.inl stored)
      · exact .inl (.inr (.inl waits))
      · rw [stashed] at at_
        cases at_
        exact .inr ⟨_, rfl, reaches⟩
    | empty nothing => exact .moved rfl rfl rfl nothing.symm nofun
    | _ => exact .moved rfl rfl rfl rfl nofun
  | _ => exact .moved rfl rfl rfl rfl nofun

end Steps

/-! ## Every run -/

variable {T : Type} [DecidableEq T] {cfg : Config} {s : Pool (Cells T) (Pc cfg) T}

theorem counted_of_reachable (reached : Reachable (worker T cfg) (Hands T cfg) s) :
    s.cells.Targets AcceptedTarget.Counted ∧ ∀ t, (s.pcs t).targets AcceptedTarget.Counted :=
  targets_of_reachable (show (0 : Int) ≤ 0 from le_rfl) (fun _ _ hands => hands.1) reached

theorem owned_of_reachable (reached : Reachable (worker T cfg) (Hands T cfg) s) :
    ∀ f ∈ s.cells.highestAcceptedTarget, Owned s (Reaches f) := by
  refine Reachable.invariant_with
    (K := fun s => Alone s ∧ (∀ t, (s.pcs t).gated s.cells t) ∧
      s.cells.Targets AcceptedTarget.Counted ∧ ∀ t, (s.pcs t).targets AcceptedTarget.Counted)
    (I := fun s => ∀ f ∈ s.cells.highestAcceptedTarget, Owned s (Reaches f)) ?_ ?_ ?_ reached
  · intro s reached
    exact ⟨startup_alone reached, gated_of_reachable reached, counted_of_reachable reached⟩
  · rintro s ⟨starts, _⟩ f at_
    rw [starts] at at_
    cases at_
  · rintro s ⟨t, input⟩ s' ⟨alone, gated, targets, counted⟩ owned ⟨_, hands⟩ taken f at_
    obtain ⟨turn, moved, fits, rfl⟩ := Program.step_eq_some.mp taken
    have took : Took s.cells t input (s.pcs t) turn := next_took moved
    rw [Turn.pool_cells] at at_
    have of_covered : Covered turn.cells turn.pc f → Owned (turn.pool s.pcs t) (Reaches f) := by
      rintro (kept | ⟨x, held, reaches⟩)
      · left
        rw [Turn.pool_cells]
        exact kept
      · exact .inr ⟨t, x, by rw [Turn.pool_self fits]; exact held, reaches⟩
    have answers := took.answers targets (counted t) (gated t) hands
      fun early => (alone.early t early).1
    obtain carries | ⟨before, keeps⟩ := answers.fence f at_
    · exact of_covered (.inr carries)
    · obtain kept | ⟨u, x, held, reaches⟩ := owned f before
      · exact of_covered (keeps (.inl kept))
      · by_cases mover : u = t
        · subst mover
          exact of_covered (keeps (.inr ⟨x, held, reaches⟩))
        · -- another goroutine carries it, so it is busy and stays where it is
          have busy : (s.pcs u).isIdle = false := by
            refine Pc.not_isIdle fun idle => ?_
            rw [idle] at held
            cases held
          exact .inr ⟨u, x, by rw [Turn.pool_busy fits mover busy]; exact held, reaches⟩

/-- **Whoever is dropped at the fence is dropped for a target that somebody
answers for.** -/
theorem fenced_target_is_owned (reached : Reachable (worker T cfg) (Hands T cfg) s) {t : T}
    {candidate fence : AcceptedTarget} (compared : (s.pcs t).compares = some candidate)
    (at_ : s.cells.highestAcceptedTarget = some fence)
    (behind : isApplyResultStale candidate fence = true) : Owned s (fence ≤ ·) := by
  obtain ⟨targets, counted⟩ := counted_of_reachable reached
  have own : candidate.Counted := by
    have counted := counted t
    cases at_t : s.pcs t with
    | apply caller a pc =>
      rw [at_t] at compared counted
      cases pc with
      | fenceGate => cases compared; exact counted
      | _ => cases compared
    | fetch c pc =>
      rw [at_t] at compared counted
      cases pc with
      | fence => cases compared; exact counted
      | _ => cases compared
    | _ =>
      rw [at_t] at compared
      cases compared
  exact (owned_of_reachable reached fence at_).mono
    fun x => le_of_floor_le own (targets.fence fence at_) behind

instance countedDecidable : DecidablePred AcceptedTarget.Counted :=
  fun target => inferInstanceAs (Decidable (0 ≤ target.version))

instance handsDecidable (s : Pool (Cells T) (Pc cfg) T) (event : T × Input T) :
    Decidable (Hands T cfg s event) :=
  inferInstanceAs (Decidable (_ ∧ _))

/-- Version two failed to apply and waits for its retry; version three is
admitted and being applied when the retry comes to the fence. -/
def overtakenRetry {T : Type} (t u loop : T) : List (T × Input T) :=
  startedWith t (plainAssignment 1 1) ++ [(u, .legacy (plainAssignment 2 1))] ++ goes u 11 ++
    [(u, .applied false)] ++ goes u 3 ++ [(u, .spawn loop)] ++
    [(t, .legacy (plainAssignment 3 1))] ++ goes t 6 ++ goes loop 4

theorem fenced_target_is_owned_retry :
    ∃ s, Reachable (worker (Fin 3) plainConfig) (Hands (Fin 3) plainConfig) s ∧
      (s.pcs 2).compares = some ⟨2, 1⟩ ∧ s.cells.highestAcceptedTarget = some ⟨3, 1⟩ ∧
      Owned s (⟨3, 1⟩ ≤ ·) := by
  obtain ⟨s, reached, compares, fence⟩ := exists_reachable (Hands (Fin 3) plainConfig)
    (startPool_init _ _) (overtakenRetry 0 1 2) (fun s => (s.pcs 2).compares = some ⟨2, 1⟩ ∧
      s.cells.highestAcceptedTarget = some ⟨3, 1⟩) (by decide)
  exact ⟨s, reached, compares, fence, fenced_target_is_owned reached compares fence (by decide)⟩

/-- The same with a commit of version two. The alias of version three raises the
fence and then loses to the commit, which is of the same leader. -/
def losingAlias {T : Type} (t u loop : T) : List (T × Input T) :=
  startedWith t (plainAssignment 1 1) ++ [(u, .commit (plainCommit 2 1))] ++ goes u 7 ++
    [(u, .payload none)] ++ goes u 5 ++ [(u, .applied false)] ++ goes u 3 ++ [(u, .spawn loop)] ++
    goes u 2 ++ [(t, .legacy (plainAssignment 3 1))] ++ goes t 6 ++ goes loop 4

theorem losing_alias_strands_worker :
    ∃ s, Reachable (worker (Fin 3) plainConfig) Free s ∧
      (s.pcs 2).compares = some ⟨2, 1⟩ ∧ s.cells.highestAcceptedTarget = some ⟨3, 1⟩ ∧
      isApplyResultStale ⟨2, 1⟩ ⟨3, 1⟩ = true ∧ ¬Owned s (⟨3, 1⟩ ≤ ·) := by
  obtain ⟨s, reached, compares, fence, snapshot, retry, fetch, carried⟩ := exists_reachable Free
    (startPool_init (Fin 3) plainConfig) (losingAlias 0 1 2) (fun s => (s.pcs 2).compares = some ⟨2, 1⟩ ∧
      s.cells.highestAcceptedTarget = some ⟨3, 1⟩ ∧ s.cells.assignment.target = ⟨1, 1⟩ ∧
      s.cells.applyRetry.stash = none ∧ s.cells.fetchRetry.stash = none ∧
      ∀ t, ∀ x ∈ (s.pcs t).carries, ¬(⟨3, 1⟩ : AcceptedTarget) ≤ x) (by decide)
  refine ⟨s, reached, compares, fence, by decide, ?_⟩
  rintro ((stored | ⟨a, waits, _⟩ | ⟨c, waits, _⟩) | ⟨t, x, carries, later⟩)
  · rw [snapshot] at stored
    exact absurd stored (by decide)
  · rw [retry] at waits
    cases waits
  · rw [fetch] at waits
    cases waits
  · exact carried t x carries later

end Parti.Manager
