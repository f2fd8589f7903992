/-
# Calculator.PendingUpdate — a partition change stays owed until it is published

A change signal is taken off its channel; from then on only the two flags and the
monitors' own program counters remember it. A busy claim, recovery grace and a
suspicious partition list put the flag back; a deferral hands the change to the
label monitor; a suspicious worker list, an empty one and a hard error put nothing
back (`suspicious_workers_unowed`).

`change_stays_owed` is the guarantee up to that third kind: in every reachable
state the newest signal is covered, flagged, in the hands of a monitor, or lapsed.
-/
import Mathlib.Data.Fintype.Basic
import Mathlib.Order.MinMax
import Parti.Calculator.Monitors

namespace Parti.Calculator

open Lib

variable {R : Type} {s t : Monitors R}

/-! ## What the label monitor answers for -/

/-- Every signal is looked after without the partition monitor: covered, owed by
the label flag, in the hands of the label monitor, or lapsed. -/
def Secured (s : Monitors R) : Prop :=
  s.signals ≤ s.covered ∨ s.pendingLabelRecheck = true ∨
    (s.label ≠ .idle ∧ s.signals ≤ s.taken) ∨ s.signals ≤ s.lapsed

/-- The label monitor's rebalance looks at a snapshot that is newer than the flag
it took, and leaves the flag or a published snapshot behind as it ends. -/
structure LabelAnswers (s : Monitors R) : Prop where
  taken : s.label ≠ .idle → s.taken ≤ s.signals
  seen : ∀ n, s.label = .rebalancing (.deciding n) → s.taken ≤ n
  covers : ∀ o, s.label = .rebalancing (.ended o) → o.covers = true → s.taken ≤ s.covered
  defers : s.label = .rebalancing (.ended .deferred) → s.pendingLabelRecheck = true

/-- The partition monitor's snapshot has every signal: the monitor receives none
while it is busy. -/
structure PartitionAnswers (s : Monitors R) : Prop where
  seen : ∀ n, s.partition = .rebalancing (.deciding n) → n = s.signals
  ended : ∀ o, s.partition = .rebalancing (.ended o) →
    o.covers = true ∨ o.requestsRecheck = true → Secured s
  owed : Secured s ∨ s.pendingPartitionUpdate = true ∨ s.partition ≠ .idle

/-- What the monitors keep as long as the calculator is not stopped. -/
structure Kept (s : Monitors R) : Prop where
  label : LabelAnswers s
  partition : s.stopped = false → PartitionAnswers s

theorem Secured.mono (secured : Secured s) (signals : t.signals = s.signals)
    (covered : s.covered ≤ t.covered) (lapsed : s.lapsed ≤ t.lapsed)
    (flag : s.pendingLabelRecheck = true → t.pendingLabelRecheck = true)
    (label : s.label ≠ .idle → t.label ≠ .idle) (taken : t.taken = s.taken) : Secured t := by
  unfold Secured
  rw [signals, taken]
  rcases secured with done | owed | ⟨busy, mine⟩ | gone
  · exact .inl (done.trans covered)
  · exact .inr (.inl (flag owed))
  · exact .inr (.inr (.inl ⟨label busy, mine⟩))
  · exact .inr (.inr (.inr (gone.trans lapsed)))

theorem LabelAnswers.frame (answers : LabelAnswers s) (label : t.label = s.label)
    (taken : t.taken = s.taken) (signals : s.signals ≤ t.signals) (covered : s.covered ≤ t.covered)
    (flag : s.pendingLabelRecheck = true → t.pendingLabelRecheck = true) : LabelAnswers t := by
  refine ⟨?_, ?_, ?_, ?_⟩
  · intro busy
    rw [label] at busy
    exact taken.trans_le ((answers.taken busy).trans signals)
  · intro n at_
    exact taken.trans_le (answers.seen n (label ▸ at_))
  · intro o at_ covers
    exact taken.trans_le ((answers.covers o (label ▸ at_) covers).trans covered)
  · intro at_
    exact flag (answers.defers (label ▸ at_))

theorem PartitionAnswers.frame (answers : PartitionAnswers s)
    (partition : t.partition = s.partition) (signals : t.signals = s.signals)
    (flag : t.pendingPartitionUpdate = s.pendingPartitionUpdate) (carry : Secured s → Secured t) :
    PartitionAnswers t := by
  refine ⟨?_, ?_, ?_⟩
  · intro n at_
    exact (answers.seen n (partition ▸ at_)).trans signals.symm
  · intro o at_ kind
    exact carry (answers.ended o (partition ▸ at_) kind)
  · rw [flag, partition]
    exact answers.owed.imp_left carry

/-! ## Moves of a rebalance -/

section
variable {s : Monitors R} {who : Who R} {now : Attempt} {flag : Bool} {m : Monitor} {o : Outcome}

theorem Monitors.label_busy (running : s.attempt .label = some now) : s.label ≠ .idle := by
  rw [Monitor.attempt_eq_some.mp running]
  exact Monitor.noConfusion

theorem Kept.advance [DecidableEq R] (kept : Kept s) (running : s.attempt who = some now) {next}
    (newest : ∀ n, next = .deciding n → n = s.signals)
    (bare : ∀ o, next = .ended o → o.covers = false ∧ o.requestsRecheck = false) :
    Kept (s.setAttempt who next) := by
  cases who with
  | partition =>
    refine ⟨kept.label.frame rfl rfl le_rfl le_rfl id, ?_⟩
    intro open_
    refine ⟨?_, ?_, .inr (.inr (by simp [Monitors.setAttempt]))⟩
    · intro n moved
      exact newest n (Monitor.rebalancing.inj moved)
    · intro o moved kind
      obtain ⟨uncovered, unasked⟩ := bare o (Monitor.rebalancing.inj moved)
      simp [uncovered, unasked] at kind
  | label =>
    have behind : s.taken ≤ s.signals := kept.label.taken (Monitors.label_busy running)
    refine ⟨⟨fun _ => behind, ?_, ?_, ?_⟩, ?_⟩
    · intro n moved
      exact behind.trans_eq (newest n (Monitor.rebalancing.inj moved)).symm
    · intro o moved covers
      exact absurd covers (by simp [(bare o (Monitor.rebalancing.inj moved)).1])
    · intro moved
      exact absurd (bare _ (Monitor.rebalancing.inj moved)).2 (by decide)
    · intro open_
      have carry : Secured s → Secured (s.setAttempt .label next) := fun secured =>
        secured.mono rfl le_rfl le_rfl id (fun _ => by simp [Monitors.setAttempt]) rfl
      exact (kept.partition open_).frame rfl rfl rfl carry
  | other r =>
    refine ⟨kept.label.frame rfl rfl le_rfl le_rfl id, ?_⟩
    intro open_
    exact (kept.partition open_).frame rfl rfl rfl id

theorem Kept.lock (kept : Kept s) (holder : Option (Who R)) :
    Kept { s with rebalanceMu := holder } :=
  ⟨kept.label.frame rfl rfl le_rfl le_rfl id, fun open_ =>
    (kept.partition open_).frame rfl rfl rfl id⟩

theorem Kept.finish [DecidableEq R] (kept : Kept s) (running : s.attempt who = some now)
    (bare : o.covers = false ∧ o.requestsRecheck = false) : Kept (s.finish who o) := by
  refine Kept.lock (kept.advance running ?_ ?_) none
  · rintro n ⟨⟩
  · rintro _ ⟨⟩
    exact bare

theorem Kept.decide [DecidableEq R] (kept : Kept s) {seen : Nat} (running : s.attempt who = some (.deciding seen))
    (o : Outcome) : Kept (s.decide who seen o) := by
  have grown : s.covered ≤ (s.decide who seen o).covered := by
    simp only [Monitors.decide]
    split
    · exact le_max_left _ _
    · exact le_rfl
  have covering : o.covers = true → seen ≤ (s.decide who seen o).covered := by
    intro covers
    simp only [Monitors.decide, covers, if_true]
    exact le_max_right _ _
  have flagged : s.pendingLabelRecheck = true →
      (s.decide who seen o).pendingLabelRecheck = true := by
    intro flag
    simp [Monitors.decide, flag]
  have asking : o.requestsRecheck = true → (s.decide who seen o).pendingLabelRecheck = true := by
    intro asks
    simp [Monitors.decide, asks]
  cases who with
  | partition =>
    refine ⟨kept.label.frame rfl rfl le_rfl grown flagged, ?_⟩
    intro open_
    refine ⟨?_, ?_, .inr (.inr (by simp [Monitors.decide, Monitors.finish,
      Monitors.setAttempt]))⟩
    · rintro n ⟨⟩
    · rintro _ ⟨⟩ kind
      have newest := (kept.partition open_).seen _ (Monitor.attempt_eq_some.mp running)
      rcases kind with covers | asks
      · exact .inl (newest.symm.le.trans (covering covers))
      · exact .inr (.inl (asking asks))
  | label =>
    have carry : Secured s → Secured (s.decide .label seen o) := fun secured =>
      secured.mono rfl grown le_rfl flagged
        (fun _ => by simp [Monitors.decide, Monitors.finish, Monitors.setAttempt]) rfl
    refine ⟨⟨fun _ => kept.label.taken (Monitors.label_busy running), ?_, ?_, ?_⟩, ?_⟩
    · rintro n ⟨⟩
    · rintro _ ⟨⟩ covers
      exact (kept.label.seen _ (Monitor.attempt_eq_some.mp running)).trans (covering covers)
    · rintro ⟨⟩
      exact asking rfl
    · intro open_
      exact (kept.partition open_).frame rfl rfl rfl carry
  | other r =>
    have carry : Secured s → Secured (s.decide (.other r) seen o) := fun secured =>
      secured.mono rfl grown le_rfl flagged id rfl
    refine ⟨kept.label.frame rfl rfl le_rfl grown flagged, ?_⟩
    intro open_
    exact (kept.partition open_).frame rfl rfl rfl carry

/-! ## Moves of the monitors -/

theorem Kept.partitionTo (kept : Kept s) (outside : ∀ a, m = .rebalancing a → a = .waiting)
    (owed : s.stopped = false → flag = true ∨ m ≠ .idle) :
    Kept { s with partition := m, pendingPartitionUpdate := flag } := by
  refine ⟨kept.label.frame rfl rfl le_rfl le_rfl id, ?_⟩
  intro open_
  refine ⟨?_, ?_, .inr (owed open_)⟩
  · intro n at_
    cases outside _ at_
  · intro o at_
    cases outside _ at_

theorem Kept.labelTo (kept : Kept s) (busy : s.label ≠ .idle)
    (outside : ∀ a, m = .rebalancing a → a = .waiting)
    (flagged : s.pendingLabelRecheck = true → flag = true) (owed : flag = true ∨ m ≠ .idle) :
    Kept { s with label := m, pendingLabelRecheck := flag } := by
  have carry : Secured s → Secured { s with label := m, pendingLabelRecheck := flag } := by
    rintro (done | up | ⟨-, mine⟩ | gone)
    · exact .inl done
    · exact .inr (.inl (flagged up))
    · exact .inr (owed.imp id (fun away => .inl ⟨away, mine⟩))
    · exact .inr (.inr (.inr gone))
  refine ⟨⟨fun _ => kept.label.taken busy, ?_, ?_, ?_⟩, ?_⟩
  · intro n at_
    cases outside _ at_
  · intro o at_
    cases outside _ at_
  · intro at_
    cases outside _ at_
  · intro open_
    exact (kept.partition open_).frame rfl rfl rfl carry

theorem Kept.signal (kept : Kept s) :
    Kept { s with partition := .received, signals := s.signals + 1 } := by
  refine ⟨kept.label.frame rfl rfl (Nat.le_succ _) le_rfl id, ?_⟩
  intro open_
  exact ⟨nofun, nofun, .inr (.inr Monitor.noConfusion)⟩

theorem Kept.drainLabel (kept : Kept s) :
    Kept { s with label := .drained, pendingLabelRecheck := false, taken := s.signals } := by
  refine ⟨⟨fun _ => le_rfl, nofun, nofun, nofun⟩, ?_⟩
  intro open_
  have mine : Monitor.drained ≠ .idle ∧ s.signals ≤ s.signals := ⟨Monitor.noConfusion, le_rfl⟩
  exact (kept.partition open_).frame rfl rfl rfl (fun _ => .inr (.inr (.inl mine)))

theorem Kept.labelRequest (kept : Kept s) : Kept { s with pendingLabelRecheck := true } := by
  have up : Secured { s with pendingLabelRecheck := true } := .inr (.inl rfl)
  refine ⟨kept.label.frame rfl rfl le_rfl le_rfl (fun _ => rfl), ?_⟩
  intro open_
  exact (kept.partition open_).frame rfl rfl rfl (fun _ => up)

theorem Kept.settlePartition (kept : Kept s) (ended : s.partition = .rebalancing (.ended o)) :
    Kept (s.settlePartition o) := by
  refine ⟨kept.label.frame rfl rfl le_rfl le_rfl id, ?_⟩
  intro open_
  have running : s.stopped = false := open_
  refine ⟨nofun, nofun, ?_⟩
  have handed : o.covers = true ∨ o.requestsRecheck = true → o.lapses = false →
      Secured (s.settlePartition o) := by
    intro kind stays
    refine ((kept.partition running).ended o ended kind).mono rfl le_rfl ?_ id id rfl
    simp [Monitors.settlePartition, stays]
  have lapsed : o.lapses = true → Secured (s.settlePartition o) := by
    intro lapses
    refine .inr (.inr (.inr ?_))
    simp [Monitors.settlePartition, lapses]
  cases o with
  | published | replayed => exact .inl (handed (.inl rfl) rfl)
  | deferred => exact .inl (handed (.inr rfl) rfl)
  | suspiciousPartitions => exact .inr (.inl (by simp [Monitors.settlePartition]))
  | shuttingDown => exact .inr (.inl (by simp [Monitors.settlePartition, running]))
  | noWorkers | suspiciousWorkers | failed => exact .inl (lapsed rfl)

theorem Kept.settleLabel (kept : Kept s) (ended : s.label = .rebalancing (.ended o)) :
    Kept (s.settleLabel o) := by
  refine ⟨⟨nofun, nofun, nofun, nofun⟩, ?_⟩
  intro open_
  have running : s.stopped = false := open_
  have lapsed : s.lapsed ≤ (s.settleLabel o).lapsed := by
    simp only [Monitors.settleLabel]
    split
    · exact le_max_left _ _
    · exact le_rfl
  have mine : s.signals ≤ s.taken → Secured (s.settleLabel o) := by
    intro mine
    have covered : o.covers = true → Secured (s.settleLabel o) := fun covers =>
      .inl (mine.trans (kept.label.covers o ended covers))
    have gone : (o.lapses || o = .suspiciousPartitions) = true → Secured (s.settleLabel o) := by
      intro gone
      refine .inr (.inr (.inr ?_))
      simp only [Monitors.settleLabel, gone, if_true]
      exact mine.trans (le_max_right _ _)
    cases o with
    | published | replayed => exact covered rfl
    | deferred => exact .inr (.inl (by simp [Monitors.settleLabel, kept.label.defers ended]))
    | shuttingDown => exact .inr (.inl (by simp [Monitors.settleLabel, running]))
    | suspiciousPartitions | noWorkers | suspiciousWorkers | failed => exact gone rfl
  have carry : Secured s → Secured (s.settleLabel o) := by
    rintro (done | up | ⟨-, held⟩ | gone)
    · exact .inl done
    · exact .inr (.inl (by simp [Monitors.settleLabel, up]))
    · exact mine held
    · exact .inr (.inr (.inr (gone.trans lapsed)))
  exact (kept.partition running).frame rfl rfl rfl carry

theorem Kept.others (kept : Kept s) (others : R → Option Attempt) :
    Kept { s with others := others } :=
  ⟨kept.label.frame rfl rfl le_rfl le_rfl id, fun open_ =>
    (kept.partition open_).frame rfl rfl rfl id⟩

/-! ## Every step, every run -/

theorem wrapStopErr_bare (stopping : Bool) :
    (wrapStopErr stopping).covers = false ∧ (wrapStopErr stopping).requestsRecheck = false := by
  cases stopping <;> decide

theorem Kept.step [DecidableEq R] (kept : Kept s) {event} {s'}
    (took : s.step event = some s') : Kept s' := by
  have inside : ∀ {m : Monitor}, (∀ a, m ≠ .rebalancing a) → ∀ a, m = .rebalancing a →
      a = .waiting := fun never a at_ => absurd at_ (never a)
  cases event with simp only [Monitors.step] at took
  | signal =>
    split at took <;> cases took
    exact kept.signal
  | drainPartition =>
    split at took <;> cases took
    exact kept.partitionTo (inside nofun) (fun _ => .inr Monitor.noConfusion)
  | drainLabel =>
    split at took <;> cases took
    exact kept.drainLabel
  | gracePartition inGrace =>
    split at took
    · split at took
      next stopped =>
        cases took
        exact kept.partitionTo (inside nofun) (fun open_ => by simp [open_] at stopped)
      next =>
        split at took <;> cases took
        · exact kept.partitionTo (inside nofun) (fun _ => .inl rfl)
        · exact kept.partitionTo (inside nofun) (fun _ => .inr Monitor.noConfusion)
    · split at took
      · split at took <;> cases took
        · exact kept.partitionTo (inside nofun) (fun _ => .inl rfl)
        · exact kept.partitionTo (inside nofun) (fun _ => .inr Monitor.noConfusion)
      · cases took
  | graceLabel inGrace =>
    split at took
    next drained =>
      have busy : s.label ≠ .idle := by rw [drained]; exact Monitor.noConfusion
      split at took <;> cases took
      · exact kept.labelTo busy (inside nofun) (fun _ => rfl) (.inl rfl)
      · exact kept.labelTo busy (inside nofun) id (.inr Monitor.noConfusion)
    next => cases took
  | claimPartition ok =>
    split at took
    · split at took <;> cases took
      · exact kept.partitionTo (fun a at_ => (Monitor.rebalancing.inj at_).symm)
          (fun _ => .inr Monitor.noConfusion)
      · exact kept.partitionTo (inside nofun) (fun _ => .inl rfl)
    · cases took
  | claimLabel ok =>
    split at took
    next claiming =>
      have busy : s.label ≠ .idle := by rw [claiming]; exact Monitor.noConfusion
      split at took <;> cases took
      · exact kept.labelTo busy (fun a at_ => (Monitor.rebalancing.inj at_).symm) id
          (.inr Monitor.noConfusion)
      · exact kept.labelTo busy (inside nofun) (fun _ => rfl) (.inl rfl)
    next => cases took
  | start r =>
    split at took <;> cases took
    exact kept.others _
  | begin who inGrace =>
    split at took
    next waiting =>
      split at took <;> cases took
      · exact kept.finish waiting.1 (by decide)
      · have collecting : Kept (s.setAttempt who .collecting) :=
          kept.advance waiting.1 nofun nofun
        exact collecting.lock _
    next => cases took
  | collect who ok =>
    split at took
    next collecting =>
      split at took <;> cases took
      · exact kept.advance collecting nofun nofun
      · exact kept.finish collecting (wrapStopErr_bare _)
    next => cases took
  | snapshot who ok =>
    split at took
    next reading =>
      split at took <;> cases took
      · exact kept.advance reading (fun n at_ => (Attempt.deciding.inj at_).symm) nofun
      · exact kept.finish reading (wrapStopErr_bare _)
    next => cases took
  | decide who i =>
    split at took <;> cases took
    next deciding => exact kept.decide deciding _
  | settlePartition =>
    split at took <;> cases took
    next ended => exact kept.settlePartition ended
  | settleLabel =>
    split at took <;> cases took
    next ended => exact kept.settleLabel ended
  | settleOther r =>
    split at took <;> cases took
    exact kept.others _
  | labelRequest =>
    cases took
    exact kept.labelRequest
  | stop =>
    cases took
    exact ⟨kept.label.frame rfl rfl le_rfl le_rfl id, nofun⟩

theorem Quiet.kept (quiet : Quiet s) : Kept s := by
  obtain ⟨partition, label, signals⟩ := quiet
  refine ⟨⟨?_, ?_, ?_, ?_⟩, fun _ => ⟨?_, ?_, .inl (.inl (by simp [signals]))⟩⟩
  all_goals simp [partition, label]

end

/-- A monitor has the newest signal in its hands: it is the partition monitor,
which has received it and not yet settled the rebalance, or the label monitor,
which took its flag after it. -/
def Serving (s : Monitors R) : Prop :=
  s.partition ≠ .idle ∨ (s.label ≠ .idle ∧ s.signals ≤ s.taken)

variable [DecidableEq R]

theorem change_stays_owed {s : Monitors R} (reached : Reachable (monitors R) Free s)
    (running : s.stopped = false) (uncovered : s.covered < s.signals) :
    s.pendingPartitionUpdate = true ∨ s.pendingLabelRecheck = true ∨ Serving s ∨
      s.signals ≤ s.lapsed := by
  have kept : Kept s := reached.invariant (I := Kept) (fun _ quiet => Quiet.kept quiet)
    (fun _ _ _ kept _ took => Kept.step kept took)
  rcases (kept.partition running).owed with (done | up | mine | gone) | up | busy
  · exact absurd uncovered (not_lt.mpr done)
  · exact .inr (.inl up)
  · exact .inr (.inr (.inl (.inr mine)))
  · exact .inr (.inr (.inr gone))
  · exact .inl up
  · exact .inr (.inr (.inl (.inl busy)))

def quietMonitors : Monitors Unit :=
  ⟨false, false, .idle, .idle, fun _ => none, none, false, 0, 0, 0, 0⟩

theorem quietMonitors_quiet : Quiet quietMonitors := ⟨rfl, rfl, rfl⟩

def servedOnce (i : Inputs) : List (MonitorEvent Unit) :=
  [.signal, .gracePartition false, .claimPartition true, .begin .partition false,
    .collect .partition true, .snapshot .partition true, .decide .partition i, .settlePartition]

/-- A disruptive label observation: the first one is deferred. -/
def disruptive : Inputs := ⟨false, false, false, true, false, false, true, false, false⟩

theorem change_stays_owed_deferred :
    ∃ s, Reachable (monitors Unit) Free s ∧ s.covered < s.signals ∧
      (s.pendingPartitionUpdate = true ∨ s.pendingLabelRecheck = true ∨ Serving s ∨
        s.signals ≤ s.lapsed) := by
  obtain ⟨s, reached, running, uncovered⟩ : ∃ s, Reachable (monitors Unit) Free s ∧
      s.stopped = false ∧ s.covered < s.signals :=
    exists_reachable _ quietMonitors_quiet (servedOnce disruptive) _ (by decide)
  exact ⟨s, reached, uncovered, change_stays_owed reached running uncovered⟩

def shrunkWorkers : Inputs := ⟨false, true, false, true, false, false, false, false, false⟩

theorem suspicious_workers_unowed :
    ∃ s, Reachable (monitors Unit) Free s ∧ s.stopped = false ∧ s.covered < s.signals ∧
      s.pendingPartitionUpdate = false ∧ s.pendingLabelRecheck = false ∧
      s.partition = .idle ∧ s.label = .idle ∧ ∀ r, s.others r = none :=
  exists_reachable _ quietMonitors_quiet (servedOnce shrunkWorkers) _ (by decide)

end Parti.Calculator
