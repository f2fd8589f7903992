/-
# Manager.LeaderFence — when the stale-leader fence holds at the store

An assignment is tested against `lastSeenLeaderRevision` when it is delivered,
and stored later, by an apply that may wait, fail and be retried, or by a refresh
that is never tested. Meanwhile commits that bring nothing new still advance the
last seen revision. So the fence does not hold at the store as such
(`superseded_alias_stored`).

The fence holds at the store if the last seen revision does not advance past an
accepted target that may still be stored, and if a refresh brings nothing of a
superseded leader (`Fenced`). A target may not be stored any more if it is stale next
to the snapshot, or next to what the holder of the mutex is about to store (`Doomed`).

* `store_is_not_superseded`: in every such run, every store.
-/
import Parti.Manager.Gates

namespace Parti.Manager

open Parti.Types
open Lib

/-! ## Accepted targets -/

/-- The last seen revision is not past the target's, if it has one. -/
def Passed (lastSeen : Nat) (target : AcceptedTarget) : Prop :=
  target.leaderRevision = 0 ∨ lastSeen ≤ target.leaderRevision

instance (lastSeen : Nat) (target : AcceptedTarget) : Decidable (Passed lastSeen target) :=
  inferInstanceAs (Decidable (_ ∨ _))

section Accepted

variable {T : Type} {cfg : Config}

/-- Until its commit is stored for a retry, or built. -/
def CommitPc.accepts {c : AssignmentCommit} : CommitPc c → Bool
  | .current | .noop | .noopSeen _ | .seen | .coalesce _ | .wake => false
  | _ => true

def ApplyPc.accepts {a : WorkerAssignment} : ApplyPc cfg a → Bool
  | .committed | .ack | .unlock | .mark | .dropped | .wake => false
  | _ => true

def Pc.accepted : Pc cfg → Option AcceptedTarget
  | .legacy _ .seen => none
  | .legacy a _ => some a.target
  | .commit c pc => if pc.accepts then some (commitTarget c) else none
  | .apply _ a pc => if pc.accepts then some a.target else none
  | .fetch c _ => some (commitTarget c)
  | .recover (.lock a) | .recover (.gate a) | .recover (.seen a _) | .recover (.store a)
  | .recover (.stash a _) => some a.target
  | _ => none

/-- Of what waits for a retry. -/
structure Cells.Stashes (P : AcceptedTarget → Prop) (cells : Cells T) : Prop where
  retry : ∀ a ∈ cells.applyRetry.stash, P a.target
  fetch : ∀ c ∈ cells.fetchRetry.stash, P (commitTarget c)

structure Accepted (P : AcceptedTarget → Prop) (s : Pool (Cells T) (Pc cfg) T) : Prop where
  stashes : s.cells.Stashes P
  pcs : ∀ t, ∀ target ∈ (s.pcs t).accepted, P target

theorem Accepted.mono {P Q : AcceptedTarget → Prop} {s : Pool (Cells T) (Pc cfg) T}
    (accepted : Accepted P s) (weaker : ∀ target, P target → Q target) : Accepted Q s where
  stashes := ⟨fun a here => weaker _ (accepted.stashes.retry a here),
    fun c here => weaker _ (accepted.stashes.fetch c here)⟩
  pcs t target here := weaker _ (accepted.pcs t target here)

def Pc.storing : Pc cfg → Option WorkerAssignment
  | .apply _ a .store => some a
  | .recover (.store a) => some a
  | _ => none

def Input.read : Input T → Option WorkerAssignment
  | .fetched found => found
  | _ => none

def Pc.stores (input : Input T) : Pc cfg → Option WorkerAssignment
  | .start .wait => input.read
  | .start .coldStore => some .empty
  | .start .clear => some .empty
  | pc => pc.storing

def Doomed (s : Pool (Cells T) (Pc cfg) T) (target : AcceptedTarget) : Prop :=
  isApplyResultStale target s.cells.assignment.target = true ∨
    ∃ u, ∃ a ∈ (s.pcs u).storing, isApplyResultStale target a.target = true

/-- What a refresh reads, or takes up again because it was not applied. -/
def Pc.refreshes (cells : Cells T) (input : Input T) : Pc cfg → Option WorkerAssignment
  | .recover .get => input.read
  | .recover (.committed cur) =>
    if currentAssignmentApplied cfg cells.committedAssignment cur then none else some cur
  | _ => none

/-! ## One step -/

variable {P : AcceptedTarget → Prop} {cells : Cells T} {t : T} {input : Input T} {pc : Pc cfg}
  {turn : Turn (Cells T) (Pc cfg) T}

theorem Caller.unaccepted (caller : Caller) (a : WorkerAssignment) :
    (caller.returned a : Pc cfg).accepted = none ∧ (caller.failed a : Pc cfg).accepted = none ∧
      (caller.rejected a : Pc cfg).accepted = none := by
  cases caller <;> exact ⟨rfl, rfl, rfl⟩

theorem none_accepted (none : pc.accepted = none) : ∀ target ∈ pc.accepted, P target := by
  rw [none]
  nofun

theorem some_accepted {target} (some : pc.accepted = some target) (holds : P target) :
    ∀ target ∈ pc.accepted, P target := by
  rw [some]
  rintro _ ⟨⟩
  exact holds

theorem CommitPc.Step.accepts {c} {pc : CommitPc c} (step : pc.Step cells c turn)
    (holds : cells.Stashes P) (own : ∀ target ∈ (.commit c pc : Pc cfg).accepted, P target)
    (tested : Passed cells.lastSeenLeaderRevision (commitTarget c) →
      turn.cells.lastSeenLeaderRevision = cells.lastSeenLeaderRevision → P (commitTarget c)) :
    turn.cells.Stashes P ∧ ∀ target ∈ turn.pc.accepted, P target := by
  cases step with
  | seen fresh => exact ⟨holds, some_accepted rfl (tested (.inr fresh) rfl)⟩
  | observe | wins | claim | raiseAgain | raised | unbuilt | unfetched | unreplaced | stashAgain =>
    exact ⟨{ holds with }, own⟩
  | built at_ => exact ⟨holds, some_accepted rfl (at_ ▸ own _ rfl)⟩
  | stashed settled =>
    exact ⟨{ holds with fetch := settled_stash settled holds.fetch (own _ rfl) },
      none_accepted rfl⟩
  | _ => exact ⟨{ holds with }, none_accepted rfl⟩

theorem ApplyPc.Step.accepts {caller : Caller} {a} {pc : ApplyPc cfg a}
    (step : pc.Step cells t caller a turn) (holds : cells.Stashes P)
    (own : ∀ target ∈ (.apply caller a pc : Pc cfg).accepted, P target) :
    turn.cells.Stashes P ∧ ∀ target ∈ turn.pc.accepted, P target := by
  cases step with
  | rejected => exact ⟨holds, none_accepted (caller.unaccepted a).2.2⟩
  | mark => exact ⟨holds, none_accepted (caller.unaccepted a).1⟩
  | dropped => exact ⟨{ holds with }, none_accepted (caller.unaccepted a).1⟩
  | wake => exact ⟨{ holds with }, none_accepted (caller.unaccepted a).2.1⟩
  | stale | fenced | store | committed | ack | unlock =>
    exact ⟨{ holds with }, none_accepted rfl⟩
  | stashed settled =>
    exact ⟨{ holds with retry := settled_stash settled holds.retry (own _ rfl) },
      none_accepted rfl⟩
  | _ => exact ⟨{ holds with }, own⟩

theorem RecoverPc.Step.accepts {pc} (step : pc.Step cells t input turn) (holds : cells.Stashes P)
    (own : ∀ target ∈ (.recover pc : Pc cfg).accepted, P target)
    (refreshes : ∀ a ∈ (.recover pc : Pc cfg).refreshes cells input,
      Passed cells.lastSeenLeaderRevision a.target)
    (tested : ∀ target, Passed cells.lastSeenLeaderRevision target →
      turn.cells.lastSeenLeaderRevision = cells.lastSeenLeaderRevision → P target) :
    turn.cells.Stashes P ∧ ∀ target ∈ turn.pc.accepted, P target := by
  cases step with
  | found read =>
    subst read
    exact ⟨holds, some_accepted rfl (tested _ (refreshes _ rfl) rfl)⟩
  | @unsettled cur open_ =>
    have again : (.recover (.committed cur) : Pc cfg).refreshes cells input = some cur := by
      simp [Pc.refreshes, open_]
    exact ⟨holds, some_accepted rfl (tested _ (refreshes cur again) rfl)⟩
  | stashed settled =>
    exact ⟨{ holds with retry := settled_stash settled holds.retry (own _ rfl) },
      none_accepted rfl⟩
  | lock | fresh | seenAgain | seen | stashAgain => exact ⟨{ holds with }, own⟩
  | _ => exact ⟨{ holds with }, none_accepted rfl⟩

theorem StartPc.Step.accepts {pc} (step : pc.Step cells input turn) (holds : cells.Stashes P)
    (unseen : (.start pc : Pc cfg).early = true → cells.lastSeenLeaderRevision = 0)
    (tested : ∀ target, Passed cells.lastSeenLeaderRevision target →
      turn.cells.lastSeenLeaderRevision = cells.lastSeenLeaderRevision → P target) :
    turn.cells.Stashes P ∧ ∀ target ∈ turn.pc.accepted, P target := by
  cases step with
  | noCommit | unbuilt =>
    refine ⟨holds, startFromAlias_cases (P := fun pc => ∀ target ∈ pc.accepted, P target)
      (none_accepted rfl) (some_accepted rfl (tested _ ?_ rfl))⟩
    exact .inr (unseen rfl ▸ Nat.zero_le _)
  | built => exact ⟨holds, some_accepted rfl (tested _ (.inr (unseen rfl ▸ Nat.zero_le _)) rfl)⟩
  | _ => exact ⟨{ holds with }, none_accepted rfl⟩

/-- **What a step accepts** was accepted before, or has passed the fence, or a refresh brought
it. -/
theorem Took.accepts (took : Took cells t input pc turn) (holds : cells.Stashes P)
    (own : ∀ target ∈ pc.accepted, P target)
    (refreshes : ∀ a ∈ pc.refreshes cells input, Passed cells.lastSeenLeaderRevision a.target)
    (tested : ∀ target, Passed cells.lastSeenLeaderRevision target →
      turn.cells.lastSeenLeaderRevision = cells.lastSeenLeaderRevision → P target)
    (unseen : pc.early = true → cells.lastSeenLeaderRevision = 0) :
    turn.cells.Stashes P ∧ ∀ target ∈ turn.pc.accepted, P target := by
  cases took with
  | legacy step =>
    cases step with
    | seen fresh => exact ⟨holds, some_accepted rfl (tested _ fresh rfl)⟩
    | staleLeader | known | loses => exact ⟨holds, none_accepted rfl⟩
    | _ => exact ⟨{ holds with }, own⟩
  | commit step => exact step.accepts holds own (tested _)
  | apply step => exact step.accepts holds own
  | recovering step => exact step.accepts holds own refreshes tested
  | start step => exact step.accepts holds unseen tested
  | drain =>
    exact ⟨{ holds with },
      none_accepted (drain_cases (P := fun pc => pc.accepted = none) rfl fun _ _ => rfl)⟩
  | applyLoop step =>
    cases step with
    | take stashed =>
      exact ⟨{ holds with retry := nofun }, some_accepted rfl (holds.retry _ stashed)⟩
    | empty => exact ⟨{ holds with retry := nofun }, none_accepted rfl⟩
    | _ => exact ⟨{ holds with }, none_accepted rfl⟩
  | fetchLoop step =>
    cases step with
    | take stashed =>
      exact ⟨{ holds with fetch := nofun }, some_accepted rfl (holds.fetch _ stashed)⟩
    | empty => exact ⟨{ holds with fetch := nofun }, none_accepted rfl⟩
    | _ => exact ⟨{ holds with }, none_accepted rfl⟩
  | fetch step =>
    cases step with
    | fenced => exact ⟨holds, none_accepted rfl⟩
    | built at_ => exact ⟨holds, some_accepted rfl (at_ ▸ own _ rfl)⟩
    | stashed settled =>
      exact ⟨{ holds with fetch := settled_stash settled holds.fetch (own _ rfl) },
        none_accepted rfl⟩
    | _ => exact ⟨holds, own⟩
  | _ => exact ⟨{ holds with }, none_accepted rfl⟩

theorem Took.assignment_eq (took : Took cells t input pc turn) :
    turn.cells.assignment = (pc.stores input).getD cells.assignment := by
  cases took with
  | legacy step | commit step | apply step | applyLoop step | fetchLoop step | fetch step
  | recovering step => cases step <;> rfl
  | start step =>
    cases step with
    | found read | unread read => subst read; rfl
    | _ => rfl
  | _ => rfl

theorem Pc.gated_storing {a} (gated : pc.gated cells t) (storing : pc.storing = some a) :
    cells.Admits t a := by
  cases pc with
  | apply caller b pc =>
    cases pc with
    | store => cases storing; exact gated
    | _ => cases storing
  | recover pc =>
    cases pc with
    | store b => cases storing; exact gated
    | _ => cases storing
  | _ => cases storing

theorem Pc.accepted_of_storing {a} (storing : pc.storing = some a) :
    pc.accepted = some a.target := by
  cases pc with
  | apply caller b pc => cases pc <;> cases storing; rfl
  | recover pc => cases pc <;> cases storing; rfl
  | _ => cases storing

theorem Pc.stores_of_late (late : pc.early = false) : pc.stores input = pc.storing := by
  cases pc with
  | start pc =>
    cases pc with
    | wait | coldStore | clear => cases late
    | _ => rfl
  | _ => rfl

theorem Cells.Untouched.unseen (untouched : cells.Untouched) :
    cells.lastSeenLeaderRevision = 0 := by
  rw [untouched]
  rfl

end Accepted

/-! ## Every run -/

section Runs

variable {T : Type} [DecidableEq T] {cfg : Config} {s s' : Pool (Cells T) (Pc cfg) T}

theorem Doomed.step {event : T × Input T} {target} (doomed : Doomed s target)
    (taken : (worker T cfg).step s event = some s') (late : (s.pcs event.1).early = false)
    (gated : ∀ t, (s.pcs t).gated s.cells t) : Doomed s' target := by
  obtain ⟨t, input⟩ := event
  obtain ⟨turn, moved, fits, rfl⟩ := Program.step_eq_some.mp taken
  have took : Took s.cells t input (s.pcs t) turn := next_took moved
  have snapshot := took.assignment_eq
  rw [Pc.stores_of_late late] at snapshot
  rcases doomed with stale | ⟨u, a, storing, stale⟩
  · refine .inl ?_
    rw [Turn.pool_cells, snapshot]
    cases storing : (s.pcs t).storing with
    | none => exact stale
    | some a => exact isApplyResultStale_trans stale (Pc.gated_storing (gated t) storing).2
  · obtain rfl | other := eq_or_ne u t
    · refine .inl ?_
      rw [Turn.pool_cells, snapshot, storing]
      exact stale
    · refine .inr ⟨u, a, ?_, stale⟩
      rcases Turn.pool_pcs fits u with ⟨same, -⟩ | ⟨-, idle, -⟩ | ⟨-, stays⟩
      · exact absurd same other
      · have waits : (s.pcs u).isIdle = true := idle
        rw [Pc.not_isIdle fun rests => by rw [rests] at storing; cases storing] at waits
        cases waits
      · rw [stays]
        exact storing

/-- **The guard of the runs considered.** A step that advances the last seen revision leaves no
accepted target behind that may still be stored, and refreshes bring nothing superseded. -/
def Fenced (T : Type) [DecidableEq T] (cfg : Config) (s : Pool (Cells T) (Pc cfg) T)
    (event : T × Input T) : Prop :=
  (∀ s' ∈ (worker T cfg).step s event,
    s.cells.lastSeenLeaderRevision < s'.cells.lastSeenLeaderRevision →
      Accepted (fun target => Passed s'.cells.lastSeenLeaderRevision target ∨ Doomed s' target) s) ∧
  ∀ a ∈ (s.pcs event.1).refreshes s.cells event.2, Passed s.cells.lastSeenLeaderRevision a.target

theorem accepted_of_reachable (reached : Reachable (worker T cfg) (Fenced T cfg) s) :
    Accepted (fun target => Passed s.cells.lastSeenLeaderRevision target ∨ Doomed s target) s := by
  refine Reachable.invariant_with (K := fun s => Alone s ∧ ∀ t, (s.pcs t).gated s.cells t)
    (I := fun s => Accepted
      (fun target => Passed s.cells.lastSeenLeaderRevision target ∨ Doomed s target) s)
    (fun s reached => ⟨startup_alone reached, gated_of_reachable reached⟩) ?_ ?_ reached
  · rintro s ⟨initial, idle⟩
    refine ⟨⟨?_, ?_⟩, fun t => none_accepted (by rw [idle t]; rfl)⟩
    · rw [initial]
      nofun
    · rw [initial]
      nofun
  · rintro s ⟨t, input⟩ s' ⟨alone, gated⟩ accepted ⟨advances, refreshes⟩ taken
    have unseen : (s.pcs t).early = true → s.cells.lastSeenLeaderRevision = 0 :=
      fun early => (alone.early t early).1.unseen
    have old : Accepted
        (fun target => Passed s'.cells.lastSeenLeaderRevision target ∨ Doomed s' target) s := by
      by_cases ahead : s.cells.lastSeenLeaderRevision < s'.cells.lastSeenLeaderRevision
      · exact advances s' taken ahead
      have still : ∀ {target}, Passed s.cells.lastSeenLeaderRevision target →
          Passed s'.cells.lastSeenLeaderRevision target :=
        Or.imp_right (not_lt.mp ahead).trans
      refine accepted.mono fun target safe => ?_
      rcases safe with passed | doomed
      · exact .inl (still passed)
      · by_cases early : (s.pcs t).early = true
        · exact .inl (still (.inr (unseen early ▸ Nat.zero_le _)))
        · exact .inr (doomed.step taken (by simpa using early) gated)
    obtain ⟨turn, moved, fits, rfl⟩ := Program.step_eq_some.mp taken
    have took : Took s.cells t input (s.pcs t) turn := next_took moved
    obtain ⟨stashes, own⟩ := took.accepts old.stashes (old.pcs t) refreshes
      (fun target passed same => .inl (by rwa [Turn.pool_cells, same])) unseen
    refine ⟨(Turn.pool_cells turn s.pcs (t := t)).symm ▸ stashes, fun u => ?_⟩
    rcases Turn.pool_pcs fits u with ⟨-, here⟩ | ⟨-, -, spawned⟩ | ⟨-, stays⟩
    · rw [here]
      exact own
    · obtain loop | loop := took.spawned_loop spawned <;>
        exact none_accepted (by rw [loop]; rfl)
    · rw [stays]
      exact old.pcs u

omit [DecidableEq T] in
/-- What is about to be stored is not doomed: it was not stale when the mutex was taken, and
nobody else is about to store. -/
theorem not_doomed {t : T} {a} (gated : ∀ t, (s.pcs t).gated s.cells t)
    (storing : (s.pcs t).storing = some a) : ¬Doomed s a.target := by
  obtain ⟨held, fresh⟩ := Pc.gated_storing (gated t) storing
  rintro (stale | ⟨u, b, other, stale⟩)
  · rw [fresh] at stale
    cases stale
  · have holder := (Pc.gated_storing (gated u) other).1
    obtain rfl : u = t := Option.some.inj (holder.symm.trans held)
    cases storing.symm.trans other
    rw [isApplyResultStale_self] at stale
    cases stale

theorem store_is_not_superseded {event : T × Input T}
    (reached : Reachable (worker T cfg) (Fenced T cfg) s)
    (taken : (worker T cfg).step s event = some s') :
    s'.cells.assignment = ((s.pcs event.1).stores event.2).getD s.cells.assignment ∧
    ∀ a ∈ (s.pcs event.1).stores event.2, a.leaderRevision ≠ 0 →
      s.cells.lastSeenLeaderRevision ≤ a.leaderRevision := by
  obtain ⟨t, input⟩ := event
  obtain ⟨turn, moved, _, rfl⟩ := Program.step_eq_some.mp taken
  have took : Took s.cells t input (s.pcs t) turn := next_took moved
  refine ⟨by rw [Turn.pool_cells]; exact took.assignment_eq, fun a stored named => ?_⟩
  by_cases early : (s.pcs t).early = true
  · rw [((startup_alone reached).early t early).1.unseen]
    exact Nat.zero_le _
  · rw [Pc.stores_of_late (by simpa using early)] at stored
    have accepted := (accepted_of_reachable reached).pcs t _ (Pc.accepted_of_storing stored)
    rcases accepted with (zero | seen) | doomed
    · exact absurd zero named
    · exact seen
    · exact absurd doomed (not_doomed (gated_of_reachable reached) stored)

end Runs

/-! ## Runs -/

section Decidable

variable {n : Nat} {cfg : Config} {s : Pool (Cells (Fin n)) (Pc cfg) (Fin n)}

instance (P : AcceptedTarget → Prop) [DecidablePred P] : Decidable (Accepted P s) :=
  decidable_of_iff (((∀ a ∈ s.cells.applyRetry.stash, P a.target) ∧
      ∀ c ∈ s.cells.fetchRetry.stash, P (commitTarget c)) ∧
      ∀ t, ∀ target ∈ (s.pcs t).accepted, P target)
    ⟨fun h => ⟨⟨h.1.1, h.1.2⟩, h.2⟩, fun h => ⟨⟨h.1.1, h.1.2⟩, h.2⟩⟩

instance (target : AcceptedTarget) : Decidable (Doomed s target) :=
  inferInstanceAs (Decidable (_ ∨ ∃ u, ∃ a ∈ (s.pcs u).storing, _))

instance (event : Fin n × Input (Fin n)) : Decidable (Fenced (Fin n) cfg s event) :=
  inferInstanceAs (Decidable ((∀ s' ∈ (worker (Fin n) cfg).step s event, _) ∧ _))

end Decidable

/-- A worker of leader five rejects an alias of leader four and is about to store version two, of
the next leader. -/
def nextLeader {T : Type} (t u : T) : List (T × Input T) :=
  startedWith t (plainAssignment 1 5) ++ [(u, .legacy (plainAssignment 3 4))] ++ goes u 1 ++
    [(u, .legacy (plainAssignment 2 6))] ++ goes u 11 ++ [(u, .applied true)] ++ goes u 2

theorem store_is_not_superseded_next :
    ∃ s s', Reachable (worker (Fin 2) plainConfig) (Fenced _ _) s ∧
      (worker (Fin 2) plainConfig).step s (1, .go) = some s' ∧
      s'.cells.assignment = plainAssignment 2 6 ∧ s.cells.lastSeenLeaderRevision ≤ 6 := by
  obtain ⟨s, s', reached, taken, stores⟩ := exists_reachable_step (Fenced _ _)
    (startPool_init (Fin 2) plainConfig) (nextLeader 0 1) (1, .go) (fun s s' =>
      (s.pcs 1).stores (.go : Input (Fin 2)) = some (plainAssignment 2 6)) (by decide)
  obtain ⟨stored, fenced⟩ := store_is_not_superseded reached taken
  refine ⟨s, s', reached, taken, ?_, fenced _ stores (by decide)⟩
  rw [stored]
  show ((s.pcs 1).stores .go).getD _ = _
  rw [stores]
  rfl

/-- An alias of leader five passes the fence. Before it is applied, a commit of
leader seven that brings no new version is observed. The alias is stored all
the same. -/
def overtakenAlias {T : Type} (t u : T) : List (T × Input T) :=
  startedWith t (plainAssignment 1 5) ++ [(u, .legacy (plainAssignment 2 5))] ++ goes u 6 ++
    [(t, .commit (plainCommit 1 7))] ++ goes t 4 ++ goes u 5 ++ [(u, .applied true)] ++ goes u 1

theorem superseded_alias_stored :
    ∃ s s', Reachable (worker (Fin 2) plainConfig) Free s ∧
      (worker (Fin 2) plainConfig).step s (1, .go) = some s' ∧
      s.cells.assignment = plainAssignment 1 5 ∧ s'.cells.assignment = plainAssignment 2 5 ∧
      s.cells.lastSeenLeaderRevision = 7 :=
  exists_reachable_step _ (startPool_init _ _) (overtakenAlias 0 1) _ _ (by decide)

end Parti.Manager
