/-
# Manager.Gates — what the mutex protects, and where targets come from

Two facts about every run of a worker, whatever is delivered to it.

* `gated_of_reachable`: who passed the stale gate holds `applyStoreMu` until it
  has stored, and meanwhile the snapshot is the one it was compared with. So a
  store never puts a staler target in the snapshot's place.
* `targets_of_reachable`: a property of targets that everything delivered or read
  has, and the empty assignment, holds of every target in the cells and in the
  hands of a goroutine.
-/
import Parti.Manager.Steps

namespace Parti.Manager

open Parti.Types
open Lib

/-! ## The mutex -/

section Mutex

variable {T : Type} {cfg : Config}

def Cells.Admits (cells : Cells T) (t : T) (a : WorkerAssignment) : Prop :=
  cells.applyStoreMu = some t ∧ isApplyResultStale a.target cells.assignment.target = false

def ApplyPc.gated (cells : Cells T) (t : T) (a : WorkerAssignment) : ApplyPc cfg a → Prop
  | .enter | .lock | .stash _ | .wake | .mark => True
  | .staleGate | .dropped | .failed | .committed | .ack | .unlock => cells.applyStoreMu = some t
  | .fenceGate | .raise _ | .apply | .seen _ | .store => cells.Admits t a

def RecoverPc.gated (cells : Cells T) (t : T) : RecoverPc cfg → Prop
  | .gate _ | .unlock => cells.applyStoreMu = some t
  | .seen a _ | .store a => cells.Admits t a
  | _ => True

def Pc.gated (cells : Cells T) (t : T) : Pc cfg → Prop
  | .apply _ a pc => pc.gated cells t a
  | .recover pc => pc.gated cells t
  | _ => True

/-- A step of `t` respects the mutex: while another goroutine holds it, it goes
on holding it and the snapshot stays. -/
def Respects (t : T) (cells cells' : Cells T) : Prop :=
  ∀ u, u ≠ t → cells.applyStoreMu = some u →
    cells'.applyStoreMu = some u ∧ cells'.assignment = cells.assignment

variable {t : T} {cells cells' : Cells T} {a : WorkerAssignment} {pc : Pc cfg}

theorem Respects.of_eq (mutex : cells'.applyStoreMu = cells.applyStoreMu)
    (assignment : cells'.assignment = cells.assignment) : Respects t cells cells' := by
  intro u _ held
  exact ⟨by rw [mutex]; exact held, assignment⟩

theorem Respects.of_held (held : cells.applyStoreMu = some t) :
    Respects t cells cells' := by
  intro u other at_u
  rw [held] at at_u
  exact absurd (Option.some.inj at_u).symm other

theorem Respects.of_free (free : cells.applyStoreMu = none) :
    Respects t cells cells' := by
  intro u _ held
  rw [free] at held
  cases held

theorem Cells.Admits.respected {u : T} (admits : cells.Admits u a)
    (respects : Respects t cells cells') (other : u ≠ t) : cells'.Admits u a := by
  obtain ⟨held, same⟩ := respects u other admits.1
  refine ⟨held, ?_⟩
  rw [same]
  exact admits.2

theorem Pc.gated_respected {u : T} (gated : pc.gated cells u) (respects : Respects t cells cells')
    (other : u ≠ t) : pc.gated cells' u := by
  cases pc with
  | apply caller a pc =>
    cases pc with
    | enter | lock | stash | wake | mark => trivial
    | staleGate | dropped | failed | committed | ack | unlock => exact (respects u other gated).1
    | fenceGate | raise | apply | seen | store => exact gated.respected respects other
  | recover pc =>
    cases pc with
    | gate | unlock => exact (respects u other gated).1
    | seen | store => exact gated.respected respects other
    | _ => trivial
  | _ => trivial

variable {cells : Cells T} {t : T} {input : Input T} {turn : Turn (Cells T) (Pc cfg) T}

theorem Caller.gated (caller : Caller) (a : WorkerAssignment) (cells : Cells T) (t : T) :
    (caller.returned a : Pc cfg).gated cells t ∧ (caller.failed a : Pc cfg).gated cells t ∧
      (caller.rejected a : Pc cfg).gated cells t := by
  cases caller <;> exact ⟨trivial, trivial, trivial⟩

theorem ApplyPc.Step.gated {caller : Caller} {pc : ApplyPc cfg a}
    (step : pc.Step cells t caller a turn) (gated : pc.gated cells t a) :
    turn.pc.gated turn.cells t ∧ Respects t cells turn.cells := by
  cases step with
  | rejected => exact ⟨(caller.gated a cells t).2.2, .of_eq rfl rfl⟩
  | mark => exact ⟨(caller.gated a cells t).1, .of_eq rfl rfl⟩
  | wake => exact ⟨(caller.gated a _ t).2.1, .of_eq rfl rfl⟩
  | dropped => exact ⟨(caller.gated a _ t).1, .of_held gated⟩
  | enter | stashAgain | stashed => exact ⟨trivial, .of_eq rfl rfl⟩
  | lock free => exact ⟨rfl, .of_free free⟩
  | fresh ahead => exact ⟨⟨gated, ahead⟩, .of_eq rfl rfl⟩
  | fenced | applyFailed => exact ⟨gated.1, .of_eq rfl rfl⟩
  | failed | unlock => exact ⟨trivial, .of_held gated⟩
  | store => exact ⟨gated.1, .of_held gated.1⟩
  | stale | accepted | raiseAgain | raised | applied | seenAgain | seen | committed | ack =>
    exact ⟨gated, .of_eq rfl rfl⟩

theorem RecoverPc.Step.gated {pc : RecoverPc cfg} (step : pc.Step cells t input turn)
    (gated : pc.gated cells t) : turn.pc.gated turn.cells t ∧ Respects t cells turn.cells := by
  cases step with
  | lock free => exact ⟨rfl, .of_free free⟩
  | fresh ahead => exact ⟨⟨gated, ahead⟩, .of_eq rfl rfl⟩
  | store => exact ⟨gated.1, .of_held gated.1⟩
  | unlock => exact ⟨trivial, .of_held gated⟩
  | stale | seenAgain | seen => exact ⟨gated, .of_eq rfl rfl⟩
  | _ => exact ⟨trivial, .of_eq rfl rfl⟩

theorem Took.gated (took : Took cells t input pc turn) (gated : pc.gated cells t)
    (alone : pc.early = true → cells.Untouched) :
    turn.pc.gated turn.cells t ∧ Respects t cells turn.cells := by
  have untaken : pc.early = true → cells.applyStoreMu = none := by
    intro early
    rw [alone early]
    rfl
  cases took with
  | apply step | recovering step => exact step.gated gated
  | legacy step | commit step | applyLoop step | fetchLoop step | fetch step =>
    cases step <;> exact ⟨trivial, .of_eq rfl rfl⟩
  | drain =>
    exact ⟨drain_cases trivial fun _ _ => trivial, .of_eq rfl rfl⟩
  | start step =>
    cases step with
    | found | coldStore | clear => exact ⟨trivial, .of_free (untaken rfl)⟩
    | noCommit | unbuilt => exact ⟨startFromAlias_cases trivial trivial, .of_eq rfl rfl⟩
    | _ => exact ⟨trivial, .of_eq rfl rfl⟩
  | _ => exact ⟨trivial, .of_eq rfl rfl⟩

variable [DecidableEq T] {ok : Pool (Cells T) (Pc cfg) T → T × Input T → Prop}
  {s : Pool (Cells T) (Pc cfg) T}

theorem gated_of_reachable (reached : Reachable (worker T cfg) ok s) :
    ∀ t, (s.pcs t).gated s.cells t := by
  refine (Reachable.knows (K := Alone) (I := fun _ => True)
    (N := fun cells t pc => pc.gated cells t) (fun _ => startup_alone) ?_ ?_ reached).2
  · intro cells _
    exact ⟨trivial, fun _ => trivial⟩
  · intro s t input turn alone _ _ gated moved
    have took : Took s.cells t input (s.pcs t) turn := next_took moved
    obtain ⟨own, respects⟩ := took.gated gated fun early => (alone.early t early).1
    refine ⟨trivial, own, fun u other gated => Pc.gated_respected gated respects other, ?_⟩
    intro fresh pc spawned
    obtain rfl | rfl := took.spawned_loop spawned <;> trivial

end Mutex

/-! ## Targets -/

variable {T : Type} {cfg : Config}

def Input.Brings (P : AcceptedTarget → Prop) : Input T → Prop
  | .legacy a => P a.target
  | .commit c => P (commitTarget c)
  | .fetched (some a) => P a.target
  | .latest (some c) => P (commitTarget c)
  | _ => True

instance bringsDecidable (P : AcceptedTarget → Prop) [DecidablePred P] :
    DecidablePred (Input.Brings (T := T) P)
  | .legacy a => inferInstanceAs (Decidable (P a.target))
  | .commit c => inferInstanceAs (Decidable (P (commitTarget c)))
  | .fetched (some a) => inferInstanceAs (Decidable (P a.target))
  | .latest (some c) => inferInstanceAs (Decidable (P (commitTarget c)))
  | .fetched none | .latest none => .isTrue trivial
  | .go | .recover | .boot | .payload _ | .applied _ | .gates _ | .spawn _ => .isTrue trivial

variable (P : AcceptedTarget → Prop)

structure Cells.Targets (cells : Cells T) : Prop where
  snapshot : P cells.assignment.target
  fence : ∀ f ∈ cells.highestAcceptedTarget, P f
  retry : ∀ a ∈ cells.applyRetry.stash, P a.target
  fetch : ∀ c ∈ cells.fetchRetry.stash, P (commitTarget c)
  coalesced : ∀ c ∈ cells.stashedCommit, P (commitTarget c)

def Pc.targets : Pc cfg → Prop
  | .legacy a _ | .apply _ a _ => P a.target
  | .commit c _ | .fetch c _ => P (commitTarget c)
  | .recover (.lock a) | .recover (.gate a) | .recover (.seen a _) | .recover (.store a) => P a.target
  | .recover (.committed cur) | .recover (.stash cur _) => P cur.target
  | .start (.commit initial) => P initial.target
  | .start (.build initial c) => P initial.target ∧ P (commitTarget c)
  | _ => True

variable {P} {cells : Cells T} {t : T} {input : Input T} {turn : Turn (Cells T) (Pc cfg) T}

theorem Caller.targets (caller : Caller) (a : WorkerAssignment) :
    (caller.returned a : Pc cfg).targets P ∧ (caller.failed a : Pc cfg).targets P ∧
      (caller.rejected a : Pc cfg).targets P := by
  cases caller <;> exact ⟨trivial, trivial, trivial⟩

theorem CommitPc.Step.targets {c} {pc : CommitPc c} (step : pc.Step cells c turn)
    (holds : cells.Targets P) (own : P (commitTarget c)) :
    turn.cells.Targets P ∧ turn.pc.targets P := by
  cases step with
  | staleLeader | loses | noopDone | wake => exact ⟨{ holds with }, trivial⟩
  | coalesced settled =>
    exact ⟨{ holds with coalesced := settled_stash settled holds.coalesced own }, trivial⟩
  | raised settled =>
    exact ⟨{ holds with fence := settled_stash settled holds.fence own }, own⟩
  | built at_ => exact ⟨holds, (congrArg P at_).mpr own⟩
  | replaced stashed =>
    exact ⟨{ holds with coalesced := nofun }, holds.coalesced _ stashed⟩
  | unreplaced => exact ⟨{ holds with coalesced := nofun }, own⟩
  | stashed settled => exact ⟨{ holds with fetch := settled_stash settled holds.fetch own }, own⟩
  | _ => exact ⟨{ holds with }, own⟩

theorem ApplyPc.Step.targets {caller : Caller} {a} {pc : ApplyPc cfg a}
    (step : pc.Step cells t caller a turn) (holds : cells.Targets P) (own : P a.target) :
    turn.cells.Targets P ∧ turn.pc.targets P := by
  cases step with
  | rejected => exact ⟨holds, (caller.targets a).2.2⟩
  | wake => exact ⟨{ holds with }, (caller.targets a).2.1⟩
  | mark => exact ⟨holds, (caller.targets a).1⟩
  | dropped => exact ⟨{ holds with }, (caller.targets a).1⟩
  | raised settled => exact ⟨{ holds with fence := settled_stash settled holds.fence own }, own⟩
  | stashed settled => exact ⟨{ holds with retry := settled_stash settled holds.retry own }, own⟩
  | store => exact ⟨{ holds with snapshot := own }, own⟩
  | _ => exact ⟨{ holds with }, own⟩

theorem RecoverPc.Step.targets {pc} (step : pc.Step cells t input turn)
    (holds : cells.Targets P) (brings : input.Brings P) (own : (.recover pc : Pc cfg).targets P) :
    turn.cells.Targets P ∧ turn.pc.targets P := by
  cases step with
  | found read => subst read; exact ⟨holds, brings⟩
  | lock | fresh | seenAgain | seen | unsettled | stashAgain => exact ⟨{ holds with }, own⟩
  | store => exact ⟨{ holds with snapshot := own }, trivial⟩
  | current => exact ⟨holds, holds.snapshot⟩
  | stashed settled =>
    exact ⟨{ holds with retry := settled_stash settled holds.retry own }, trivial⟩
  | _ => exact ⟨{ holds with }, trivial⟩

theorem StartPc.Step.targets (empty : P WorkerAssignment.empty.target) {pc}
    (step : pc.Step cells input turn) (holds : cells.Targets P) (brings : input.Brings P)
    (own : (.start pc : Pc cfg).targets P) : turn.cells.Targets P ∧ turn.pc.targets P := by
  cases step with
  | found read => subst read; exact ⟨{ holds with snapshot := brings }, trivial⟩
  | current => exact ⟨holds, holds.snapshot⟩
  | commit read => subst read; exact ⟨holds, own, brings⟩
  | noCommit => exact ⟨holds, startFromAlias_cases trivial own⟩
  | built at_ => exact ⟨holds, (congrArg P at_).mpr own.2⟩
  | unbuilt => exact ⟨holds, startFromAlias_cases trivial own.1⟩
  | coldStore | clear => exact ⟨{ holds with snapshot := empty }, trivial⟩
  | _ => exact ⟨{ holds with }, trivial⟩

theorem Took.targets (empty : P WorkerAssignment.empty.target) {pc : Pc cfg}
    (took : Took cells t input pc turn) (holds : cells.Targets P) (brings : input.Brings P)
    (own : pc.targets P) : turn.cells.Targets P ∧ turn.pc.targets P := by
  cases took with
  | deliverAlias given | deliverCommit given => subst given; exact ⟨holds, brings⟩
  | recover | boot | release => exact ⟨{ holds with }, trivial⟩
  | legacy step =>
    cases step with
    | staleLeader | known | loses => exact ⟨holds, trivial⟩
    | raised ahead =>
      exact ⟨{ holds with fence := settled_stash (.inr ⟨ahead, rfl⟩) holds.fence own }, own⟩
    | _ => exact ⟨{ holds with }, own⟩
  | commit step | apply step => exact step.targets holds own
  | drain =>
    exact ⟨{ holds with coalesced := nofun },
      drain_cases trivial holds.coalesced⟩
  | applyLoop step =>
    cases step with
    | take stashed =>
      exact ⟨{ holds with retry := nofun }, holds.retry _ stashed⟩
    | empty => exact ⟨{ holds with retry := nofun }, trivial⟩
    | _ => exact ⟨{ holds with }, trivial⟩
  | fetchLoop step =>
    cases step with
    | take stashed =>
      exact ⟨{ holds with fetch := nofun }, holds.fetch _ stashed⟩
    | empty => exact ⟨{ holds with fetch := nofun }, trivial⟩
    | _ => exact ⟨{ holds with }, trivial⟩
  | fetch step =>
    cases step with
    | fenced => exact ⟨holds, trivial⟩
    | built at_ => exact ⟨holds, (congrArg P at_).mpr own⟩
    | stashed settled =>
      exact ⟨{ holds with fetch := settled_stash settled holds.fetch own }, trivial⟩
    | _ => exact ⟨holds, own⟩
  | recovering step => exact step.targets holds brings own
  | start step => exact step.targets empty holds brings own

variable [DecidableEq T] {ok : Pool (Cells T) (Pc cfg) T → T × Input T → Prop}
  {s : Pool (Cells T) (Pc cfg) T}

theorem targets_of_reachable (empty : P WorkerAssignment.empty.target)
    (brings : ∀ s event, ok s event → event.2.Brings P) (reached : Reachable (worker T cfg) ok s) :
    s.cells.Targets P ∧ ∀ t, (s.pcs t).targets P := by
  refine Reachable.knows (K := fun _ => True) (I := Cells.Targets P) (N := fun _ _ pc => pc.targets P)
    (fun _ _ => trivial) ?_ ?_ reached
  · rintro cells rfl
    refine ⟨⟨empty, ?_, ?_, ?_, ?_⟩, fun _ => trivial⟩
    all_goals
      intro item off
      cases off
  · intro s t input turn _ allowed holds own moved
    have took : Took s.cells t input (s.pcs t) turn := next_took moved
    obtain ⟨holds', own'⟩ := took.targets empty holds (brings s _ allowed) own
    refine ⟨holds', own', fun _ _ => id, fun fresh pc spawned => ?_⟩
    obtain rfl | rfl := took.spawned_loop spawned <;> trivial

def Brought (events : T × Input T → Prop) (target : AcceptedTarget) : Prop :=
  target = WorkerAssignment.empty.target ∨ ∃ event, events event ∧ ¬event.2.Brings (· ≠ target)

/-- **A worker makes nothing up**: in whatever order commits, aliases, retries and refreshes
come, the version and leader of the stored assignment were delivered or read. -/
theorem assignment_was_brought {events : T × Input T → Prop}
    (reached : Reachable (worker T cfg) (fun _ => events) s) :
    Brought events s.cells.assignment.target := by
  refine (targets_of_reachable (P := Brought events) (.inl rfl) ?_ reached).1.snapshot
  rintro _ ⟨t, input⟩ came
  cases input with
  | legacy | commit => exact .inr ⟨_, came, fun other => other rfl⟩
  | fetched found | latest found =>
    cases found with
    | none => trivial
    | some => exact .inr ⟨_, came, fun other => other rfl⟩
  | _ => trivial

theorem assignment_was_brought_alias :
    ∃ s, Reachable (worker Unit plainConfig) (fun _ event => event.2.Brings (· = ⟨1, 1⟩)) s ∧
      s.cells.assignment.target = ⟨1, 1⟩ ∧
      Brought (T := Unit) (·.2.Brings (· = ⟨1, 1⟩)) s.cells.assignment.target :=
  exists_reachable_and (startPool_init _ _) (startedWith () (plainAssignment 1 1)) (by decide)
    fun _ reached _ => assignment_was_brought reached

end Parti.Manager
