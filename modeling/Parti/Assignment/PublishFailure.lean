/-
# Assignment.PublishFailure — what a failed `Publish` leaves of the commit view

`Publishing` is one call from its entry on, with every answer the store and every choice the
environment can give it. It holds the mutex, so in a cluster nobody else touches its
publisher (`publishing_of_reachable`).

* `publish_failures_keep_view`: without a commit write, a call neither writes `_commit` nor
  changes the view it had after its entry reconciliation; with the latch set it writes
  nothing; a reseed sets all of the view or none of it, and lowers nothing.
-/
import Parti.Assignment.Invariant

namespace Parti.Assignment

open Parti.Types Lib
open Lib.Kv (Entry Write)
open Lib.Client (Request Answer)

/-- Revision, version, cached commit and latch. -/
def Publisher.view (pub : Publisher) : Nat × Int × Option AssignmentCommit × Bool :=
  (pub.lastCommitRev, pub.currentVersion, pub.lastCommit, pub.commitReseedPending)

inductive Phase where
  | entry
  | early
  | commit
  | late
deriving DecidableEq

def PublishPc.phase : PublishPc → Phase
  | .ensureView _ => .entry
  | .cas _ _ _ => .commit
  | .reseed _ | .bestEffort _ _ => .late
  | _ => .early

/-- A call from its entry on: the publisher after the entry reconciliation, the publisher
now, where the call stands, and what it has asked from where, newest first. -/
inductive Publishing (codec : Codec) (input : PublishInput) :
    Publisher → Publisher → PublishProgress → List (Phase × Request Key Value) → Prop
  | begins (pub) : Publishing codec input pub pub (beginPublish pub input) []
  | answered {entry pub pub' pc r} {asked request}
      {answer} (before : Publishing codec input entry pub (.waits pc) asked)
      (asks : publishRequest codec pub pc = some request)
      (moved : publishResume codec pub pc answer = some (pub', r)) :
      Publishing codec input (if pc.phase = .entry then pub' else entry) pub' r
        ((pc.phase, request) :: asked)
  | went {entry pub pub' pc r} {asked now choice}
      (before : Publishing codec input entry pub (.waits pc) asked)
      (moved : publishProceed codec pub now pc choice = some (pub', r)) :
      Publishing codec input entry pub' r asked

section Steps

variable {codec : Codec} {input : PublishInput} {pub pub' : Publisher} {pc pc' : PublishPc}
  {r : PublishProgress} {answer : Answer Key Value} {choice : Choice} {now : Int}

theorem startBatch_phase (waits : (startBatch pub input).pc? = some pc) : pc.phase = .early := by
  unfold startBatch at waits
  split at waits <;> cases waits
  rfl

theorem publishResume_phase (moved : publishResume codec pub pc answer = some (pub', r))
    (waits : r.pc? = some pc') :
    pc'.phase ≠ .entry ∧ (pc.phase = .early → pc'.phase = .early) ∧
      (pc.phase = .entry → pub'.commitReseedPending = false ∧ pc'.phase = .early) := by
  have writing {batch : Batch} {todo : List String} {pc : PublishPc}
      (job : pc.payloadJob = some (batch, todo)) : pc.phase = .early := by
    cases PublishPc.writes job <;> rfl
  cases publishResume_resumed moved with
  | started input seen winner decoded =>
    rw [startBatch_phase waits]
    exact ⟨nofun, fun _ => rfl, fun _ => ⟨rfl, rfl⟩⟩
  | referenced pc batch worker rest revision job =>
    cases waits
    rw [writing job]
    exact ⟨nofun, fun _ => rfl, nofun⟩
  | retried pc next answer batch todo job job' =>
    cases waits
    rw [writing job, writing job']
    exact ⟨nofun, fun _ => rfl, nofun⟩
  | aliased => cases waits; exact ⟨nofun, fun _ => rfl, nofun⟩
  | committed | lost | bestEffort => cases waits; exact ⟨nofun, nofun, nofun⟩
  | reseeded | gaveUp => cases waits

theorem publishProceed_phase (moved : publishProceed codec pub now pc choice = some (pub', r))
    (waits : r.pc? = some pc') : pc'.phase ≠ .entry ∧ pc'.phase ≠ .late := by
  cases publishProceed_proceeded moved with
  | registered | built | opened => cases waits; exact ⟨nofun, nofun⟩
  | passed pc next batch fence fence' =>
    cases waits
    cases PublishPc.fences fence' <;> exact ⟨nofun, nofun⟩
  | returned => cases waits

theorem publishProceed_view (moved : publishProceed codec pub now pc choice = some (pub', r)) :
    pub'.view = pub.view := by
  unfold publishProceed at moved
  split at moved <;> cases moved <;> rfl

theorem publishRequest_early {w} (early : pc.phase = .early)
    (asks : publishRequest codec pub pc = some (.write w)) : w.key ≠ .commit := by
  unfold publishRequest at asks
  split at asks
  all_goals first
    | (cases early; done)
    | (cases asks; simp [Write.key, Codec.payloadKey])
    | cases asks

/-- All of the view from the commit that was read, or nothing; nothing is lowered. -/
def Reseeds (pub : Publisher) (answer : Answer Key Value) (pub' : Publisher) : Prop :=
  ((∃ seen winner, answer = .entry (some seen) ∧ seen.value.asCommit = some winner ∧
      pub'.view = (max pub.lastCommitRev seen.revision, max pub.currentVersion winner.version,
        some winner, false)) ∨ pub'.view = pub.view) ∧
    pub.lastCommitRev ≤ pub'.lastCommitRev ∧ pub.currentVersion ≤ pub'.currentVersion

theorem reseed_reseeds {seen} {winner} (decoded : seen.value.asCommit = some winner) :
    Reseeds pub (.entry (some seen)) (pub.reseed seen.revision winner) :=
  ⟨.inl ⟨seen, winner, rfl, decoded, rfl⟩, le_max_left .., le_max_left ..⟩

theorem unread_reseeds : Reseeds pub answer pub := ⟨.inr rfl, le_refl _, le_refl _⟩

theorem publishResume_view (other : pc.phase ≠ .commit)
    (moved : publishResume codec pub pc answer = some (pub', r)) :
    Reseeds pub answer pub' ∧ (pc.phase = .early → pub'.view = pub.view) := by
  unfold publishResume at moved
  split at moved
  all_goals first
    | exact absurd rfl other
    | (cases moved; exact ⟨unread_reseeds, fun _ => rfl⟩)
    | cases moved
    | split at moved <;> cases moved
  -- a commit that was read, or anything else
  all_goals first
    | exact ⟨unread_reseeds, fun _ => rfl⟩
    | exact ⟨reseed_reseeds ‹_›, nofun⟩

end Steps

/-! ## Calls -/

structure CallOk (entry pub : Publisher) (r : PublishProgress)
    (asked : List (Phase × Request Key Value)) : Prop where
  /-- The entry gate comes first. -/
  first : ∀ pc, r.pc? = some pc → pc.phase = .entry → asked = []
  latched : entry.commitReseedPending = true →
    (∀ a ∈ asked, a.2 = .read .commit) ∧ ∀ pc, r.pc? = some pc → pc.phase = .entry
  uncommitted : (∀ a ∈ asked, a.1 ≠ .commit) → pub.view = entry.view ∧
    (∀ pc, r.pc? = some pc → pc.phase ≠ .late) ∧ ∀ a ∈ asked, ∀ w, a.2 = .write w → w.key ≠ .commit

variable {codec : Codec} {input : PublishInput} {entry pub pub' : Publisher} {pc : PublishPc}
  {r : PublishProgress} {asked : List (Phase × Request Key Value)}

theorem CallOk.begins (pub : Publisher) : CallOk pub pub (beginPublish pub input) [] := by
  refine ⟨fun _ _ _ => rfl, fun latched => ⟨by simp, fun pc waits => ?_⟩,
    fun _ => ⟨rfl, fun pc waits => ?_, by simp⟩⟩
  · unfold beginPublish at waits
    rw [if_pos latched] at waits
    split at waits <;> cases waits
    rfl
  · obtain rfl | started := beginPublish_pc waits
    · simp [PublishPc.phase]
    · simp [startBatch_phase started]

theorem CallOk.answered {request} {answer}
    (ok : CallOk entry pub (.waits pc) asked) (asks : publishRequest codec pub pc = some request)
    (moved : publishResume codec pub pc answer = some (pub', r)) :
    CallOk (if pc.phase = .entry then pub' else entry) pub' r ((pc.phase, request) :: asked) := by
  have first (pc' : PublishPc) (waits : r.pc? = some pc') (entry : pc'.phase = .entry) :
      (pc.phase, request) :: asked = [] :=
    absurd entry (publishResume_phase moved waits).1
  by_cases at_ : pc.phase = .entry
  · rw [if_pos at_]
    cases pc <;> cases at_
    cases asks
    obtain rfl := ok.first _ rfl rfl
    have next (pc' : PublishPc) (waits : r.pc? = some pc') :=
      (publishResume_phase moved waits).2.2 rfl
    refine ⟨first, fun latched => ⟨by simp, fun pc' waits => ?_⟩,
      fun _ => ⟨rfl, fun pc' waits => ?_, by simp⟩⟩
    · rw [(next pc' waits).1] at latched
      cases latched
    · rw [(next pc' waits).2]
      nofun
  · rw [if_neg at_]
    refine ⟨first, fun latched => absurd ((ok.latched latched).2 pc rfl) at_, fun un => ?_⟩
    rw [List.forall_mem_cons] at un
    obtain ⟨view, reached, writes⟩ := ok.uncommitted un.2
    have early : pc.phase = .early := by
      cases phase : pc.phase with
      | early => rfl
      | entry => exact absurd phase at_
      | commit => exact absurd phase un.1
      | late => exact absurd phase (reached pc rfl)
    refine ⟨((publishResume_view un.1 moved).2 early).trans view, fun pc' waits => ?_,
      List.forall_mem_cons.mpr ⟨fun w is => ?_, writes⟩⟩
    · rw [(publishResume_phase moved waits).2.1 early]
      nofun
    · exact publishRequest_early early (asks.trans (congrArg some is))

theorem CallOk.went {now : Int} {choice : Choice} (ok : CallOk entry pub (.waits pc) asked)
    (moved : publishProceed codec pub now pc choice = some (pub', r)) :
    CallOk entry pub' r asked := by
  have left : pc.phase ≠ .entry := by
    intro entry
    cases pc <;> cases entry
    cases moved
  refine ⟨fun pc' waits entry => absurd entry (publishProceed_phase moved waits).1,
    fun latched => absurd ((ok.latched latched).2 pc rfl) left, fun un => ?_⟩
  obtain ⟨view, _, writes⟩ := ok.uncommitted un
  exact ⟨(publishProceed_view moved).trans view, fun pc' waits => (publishProceed_phase moved waits).2,
    writes⟩

theorem Publishing.ok (call : Publishing codec input entry pub r asked) :
    CallOk entry pub r asked := by
  induction call with
  | begins pub => exact .begins pub
  | answered _ asks moved ok => exact ok.answered asks moved
  | went _ moved ok => exact ok.went moved

theorem publish_failures_keep_view (call : Publishing codec input entry pub r asked) :
    (∀ e, r = .returned (.error e) → (∀ a ∈ asked, a.1 ≠ .commit) →
      pub.view = entry.view ∧ ∀ a ∈ asked, ∀ w, a.2 = .write w → w.key ≠ .commit) ∧
    (entry.commitReseedPending = true → ∀ a ∈ asked, ∀ w, a.2 ≠ .write w) ∧
    ∀ pc answer pub' r', r = .waits pc → (pc.phase = .entry ∨ ∃ batch, pc = .reseed batch) →
      publishResume codec pub pc answer = some (pub', r') → Reseeds pub answer pub' := by
  refine ⟨fun _ _ un => ?_, fun latched a mem w is => ?_, fun pc answer pub' r' _ at_ moved => ?_⟩
  · obtain ⟨view, _, writes⟩ := call.ok.uncommitted un
    exact ⟨view, writes⟩
  · cases ((call.ok.latched latched).1 a mem).symm.trans is
  · refine (publishResume_view ?_ moved).1
    obtain entry | ⟨batch, rfl⟩ := at_
    · rw [entry]
      nofun
    · nofun

/-- A call that loses its leadership before the aliases. -/
theorem publish_failures_keep_view_fenced :
    ∃ pub asked, Publishing plainCodec soloInput .new pub
        (.returned (.error .leadershipLostPreAlias)) asked ∧
      pub.view = Publisher.new.view := by
  have begins : Publishing plainCodec soloInput .new .new
      (.waits (.create ⟨soloInput, 1, ∅, ∅⟩ ["w"] 0)) [] := .begins .new
  have created := begins.answered rfl (rfl : publishResume _ _ _ (.written 1) = _)
  have call := (created.went (rfl : publishProceed _ _ 0 _ .go = _)).went
    (rfl : publishProceed _ _ 0 _ .stop = _)
  exact ⟨_, _, call, ((publish_failures_keep_view call).1 _ rfl (by simp [PublishPc.phase])).1⟩

/-! ## Clusters -/

variable {P T : Type} [DecidableEq P] [DecidableEq T]

theorem Progress.eq_waits {Pc R : Type} {r : Progress Pc R} {pc : Pc}
    (waits : r.pc? = some pc) : r = .waits pc := by
  cases r <;> cases waits
  rfl

/-- Whoever is inside `Publish` is in one call. -/
theorem publishing_of_reachable {cfg} {s}
    (reached : Reachable (cluster P cfg) Free s) {t : T} {p : P} {pc}
    (at_ : s.locals.threads t = some (p, .publish pc)) :
    ∃ input entry asked,
      Publishing cfg.codec input entry (s.locals.pubs p) (.waits pc) asked := by
  refine publish_invariant (Q := fun pub pc => ∃ input entry asked,
    Publishing cfg.codec input entry pub (.waits pc) asked) ?_ ?_ ?_ reached at_
  · intro pub input pc waits
    exact ⟨input, pub, [], Progress.eq_waits waits ▸ .begins pub⟩
  · rintro pub pc asked answer pub' r ⟨input, entry, before, call⟩ asks moved pc' waits
    obtain rfl := Progress.eq_waits waits
    exact ⟨input, _, _, call.answered asks moved⟩
  · rintro pub pc now choice pub' r ⟨input, entry, before, call⟩ moved pc' waits
    obtain rfl := Progress.eq_waits waits
    exact ⟨input, entry, before, call.went moved⟩

end Parti.Assignment
