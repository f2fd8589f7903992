/-
# Durable.PullGating — pulling and admitting by the same ownership

A partition's loop pulls only while `shouldSuppressPull` lets it. That function and the
gate around the handler are coded apart: the one takes the partition id off the filter
subject, once, and compares the state with `AllowedStates`; the other takes it off each
message and, while the warm-up lasts, compares with `WarmupAllowedStates`.

`warmup_state_suppressed`: so a state that is allowed for the warm-up only is admitted and
never pulled. `admitted_is_pulled`: what would be admitted is pulled exactly if both read
the same id, the state of this worker is one of `AllowedStates` where the gate allows it,
and a refresh does not add what the first lookup lacks.
-/
import Parti.Durable.ProcessingGate

namespace Parti.Durable.PullGating

open Parti.Types

def extractPartitionIDFromSubject (subject pre suf : GoString) : Option GoString :=
  if pre = [] ∧ suf = [] then none
  else if !pre.isPrefixOf subject || !suf.isSuffixOf subject then none
  else if subject.length - suf.length < pre.length then none
  else some ((subject.take (subject.length - suf.length)).drop pre.length)

/-- What of the consumer's configuration the two deciders read. -/
structure WorkerConsumerConfig where
  subjectTemplate : GoString
  pullGatingEnabled : Bool
  processingGate : Option ProcessingGateConfig

inductive SuppressReason where
  /-- "resolve_error". -/
  | resolveError
  /-- "not_owner(owner=%s)". -/
  | notOwner (owner : String)
  /-- "state_not_allowed(%v)". -/
  | stateNotAllowed (state : HandoffState)
deriving DecidableEq

namespace WorkerConsumerConfig

def setDefaults (c : WorkerConsumerConfig) : WorkerConsumerConfig :=
  { c with
    pullGatingEnabled := c.pullGatingEnabled || c.processingGate.any (·.enabled)
    processingGate := c.processingGate.map (·.applyDefaults) }

/-- Empty when the subject does not parse. -/
def extractPartitionID (c : WorkerConsumerConfig) (subject : GoString) : GoString :=
  ((parseSubjectTemplateParts c.subjectTemplate).bind fun parts =>
    extractPartitionIDFromSubject subject parts.1 parts.2).getD []

/-- `none` when pulls are not suppressed. -/
def shouldSuppressPull (c : WorkerConsumerConfig) (workerID : String)
    (resolver : Option (GoString → Option Owner)) (partitionID : GoString) :
    Option SuppressReason :=
  if !c.pullGatingEnabled then none
  else
    match resolver with
    | none => none
    | some getOwner =>
      match getOwner partitionID with
      | none => some .resolveError
      | some (owner, state) =>
        if owner ≠ workerID then some (.notOwner owner)
        else if state ∈ (c.processingGate.map (·.allowedStates)).getD [.stable] then none
        else some (.stateNotAllowed state)

end WorkerConsumerConfig

section Pulls

variable {c : WorkerConsumerConfig} {cfg : ProcessingGateConfig} {workerID : String}
  {pre suf pid subject filter : GoString} {created now : Int} {gate : ProcessingGate}
  {resolver : Script} {engine : Engine} {p : Partition}

variable (c) (gate : ProcessingGate) (workerID : String) (now : Int) (pid subject : GoString)
  (resolver : Script) in
/-- What is admitted is pulled, when the puller has this id. -/
def Pulls : Prop :=
  (gate.wrap (some resolver) now subject).outcome = .handled →
    c.setDefaults.shouldSuppressPull workerID (some (resolver 0)) pid = none

variable (cfg) (workerID : String) (states : List HandoffState) (pid : GoString)
  (resolver : Script) in
/-- The steady states have what is allowed of this worker, and no refresh finds it. -/
def Steady : Prop :=
  ∀ state ∈ states, (resolver 0 pid = some (workerID, state) → state ∈ cfg.allowedStates) ∧
    (resolver 0 pid = none → resolver 1 pid ≠ some (workerID, state))

theorem setDefaults_gates (gated : c.setDefaults.processingGate = some cfg)
    (enabled : cfg.enabled = true) : c.setDefaults.pullGatingEnabled = true := by
  obtain ⟨raw, given, rfl⟩ := Option.map_eq_some_iff.mp gated
  have on : raw.enabled = true := enabled
  simp [WorkerConsumerConfig.setDefaults, given, on]

theorem pulls_iff (gated : c.setDefaults.processingGate = some cfg) (enabled : cfg.enabled = true)
    (on : gate.enabled = true) (extracted : gate.extractPartitionID subject = some pid) :
    Pulls c gate gate.workerID now pid subject resolver ↔
      Steady cfg gate.workerID (gate.allowed now) pid resolver := by
  simp only [Pulls, Steady, ProcessingGate.wrap, on, if_true, ProcessingGate.handle, extracted,
    WorkerConsumerConfig.shouldSuppressPull, setDefaults_gates gated enabled, gated]
  cases first : resolver 0 pid with
  | some answer =>
    simp only [ProcessingGate.judge_handled]
    constructor
    · intro pulled state permitted
      refine ⟨fun named => ?_, fun unknown => by cases unknown⟩
      cases named
      by_contra outside
      simpa [outside] using pulled ⟨rfl, permitted⟩
    · rintro steady ⟨own, permitted⟩
      simp [own, (steady answer.2 permitted).1 (own ▸ rfl)]
  | none =>
    cases second : resolver 1 pid with
    | none => simp
    | some answer =>
      simp only [ProcessingGate.judge_handled]
      constructor
      · intro pulled state permitted
        refine ⟨(by rintro ⟨⟩), fun _ named => ?_⟩
        cases named
        simpa using pulled (And.intro rfl permitted)
      · rintro steady ⟨own, permitted⟩
        exact absurd (own ▸ rfl) ((steady answer.2 permitted).2 trivial)

/-- Where they do not, a resolver that answers the same at any time is enough. -/
theorem not_pulls_of_other (gated : c.setDefaults.processingGate = some cfg)
    (enabled : cfg.enabled = true) (on : gate.enabled = true) (allowed : gate.allowed now ≠ [])
    (other : gate.extractPartitionID subject ≠ some pid) :
    ∃ answer, ¬Pulls c gate gate.workerID now pid subject fun _ => answer := by
  obtain ⟨state, permitted⟩ := List.exists_mem_of_ne_nil _ allowed
  refine ⟨fun q => if q = pid then none else some (gate.workerID, state), fun pulls => ?_⟩
  have suppressed := pulls ?_
  · simp [WorkerConsumerConfig.shouldSuppressPull, setDefaults_gates gated enabled] at suppressed
  · simp only [ProcessingGate.wrap, on, if_true, ProcessingGate.handle]
    cases extracted : gate.extractPartitionID subject with
    | none => rfl
    | some found =>
      have apart : found ≠ pid := fun same => other (same ▸ extracted)
      simp [apart, ProcessingGate.judge, permitted]

theorem extractPartitionID_iff (single : texts 0 c.subjectTemplate = some [pre, suf])
    (rendered : generateSubject engine c.subjectTemplate p = .ok filter) (literal : Literal filter)
    (selected : subjectMatches filter subject = true)
    (built : newProcessingGate workerID c.subjectTemplate cfg created = .ok gate) :
    gate.extractPartitionID subject = some (c.extractPartitionID filter) ↔
      pre ≠ [] ∨ suf ≠ [] ∨ p.subjectKey = [] := by
  have parts := cut_of_texts single
  obtain ⟨-, -, rfl, rfl⟩ := newProcessingGate_parts built parts
  obtain rfl := eq_of_subjectMatches literal selected
  have extracted : gate.extractPartitionID subject = some p.subjectKey :=
    ProcessingGate.extractPartitionID_eq_some.mpr (framed_of_texts single rendered)
  by_cases bare : gate.subjPrefix = [] ∧ gate.subjSuffix = []
  · have none_ : c.extractPartitionID subject = [] := by
      simp [WorkerConsumerConfig.extractPartitionID, parseSubjectTemplateParts, parts,
        extractPartitionIDFromSubject, bare]
    rw [extracted, none_, bare.1, bare.2]
    simp
  · have own : extractPartitionIDFromSubject subject gate.subjPrefix gate.subjSuffix =
        gate.extractPartitionID subject := if_neg bare
    have same : c.extractPartitionID subject = p.subjectKey := by
      simp [WorkerConsumerConfig.extractPartitionID, parseSubjectTemplateParts, parts, own, extracted]
    rw [extracted, same]
    simp only [true_iff]
    exact (not_and_or.mp bare).imp_right .inl

theorem admitted_is_pulled (gated : c.setDefaults.processingGate = some cfg)
    (enabled : cfg.enabled = true)
    (parts : cut partitionPlaceholder c.subjectTemplate = some (pre, suf))
    (rendered : generateSubject engine c.subjectTemplate p = .ok filter)
    (selected : subjectMatches filter subject = true)
    (built : newProcessingGate workerID c.subjectTemplate cfg created = .ok gate) :
    (gate.extractPartitionID subject = some (c.extractPartitionID filter) → ∀ resolver,
      Pulls c gate workerID now (c.extractPartitionID filter) subject resolver ↔
        Steady cfg workerID (cfg.allowedAt created now) (c.extractPartitionID filter) resolver) ∧
    (gate.extractPartitionID subject ≠ some (c.extractPartitionID filter) → ∃ answer,
      ¬Pulls c gate workerID now (c.extractPartitionID filter) subject fun _ => answer) ∧
    (texts 0 c.subjectTemplate = some [pre, suf] → Literal filter →
      (gate.extractPartitionID subject = some (c.extractPartitionID filter) ↔
        pre ≠ [] ∨ suf ≠ [] ∨ p.subjectKey = [])) := by
  obtain ⟨rfl, on, -, -⟩ := newProcessingGate_parts built parts
  rw [enabled] at on
  rw [← newProcessingGate_allowed built]
  refine ⟨fun extracted resolver => pulls_iff gated enabled on extracted,
    not_pulls_of_other gated enabled on ?_, fun single literal => ?_⟩
  · rw [newProcessingGate_allowed built]
    exact cfg.allowedAt_ne_nil
  · exact extractPartitionID_iff single rendered literal selected built

end Pulls

def pulling (gate : ProcessingGateConfig) : WorkerConsumerConfig :=
  ⟨plainTemplate, false, some gate⟩

def warming (states : List HandoffState) : ProcessingGateConfig := ⟨true, [], 10, states⟩

/-- The warm-up allows more than the steady states; the owner is stable. -/
theorem admitted_is_pulled_stable :
    ∃ gate, newProcessingGate "w" plainTemplate (warming [.stable, .prepare]).applyDefaults 0 =
        .ok gate ∧
      (gate.wrap (some fun _ _ => some ("w", .stable)) 5 [101, 46, 112]).outcome = .handled ∧
      (pulling (warming [.stable, .prepare])).setDefaults.shouldSuppressPull "w"
        (some fun _ => some ("w", .stable))
        ((pulling (warming [.stable, .prepare])).extractPartitionID [101, 46, 112]) = none := by
  have single : texts 0 plainTemplate = some [[101, 46], []] := by decide
  have rendered : generateSubject (fun _ => none) plainTemplate partitionP =
      .ok [101, 46, 112] := by decide
  have selected : subjectMatches [101, 46, 112] [101, 46, 112] = true := by decide
  have steady : Steady (warming [.stable, .prepare]).applyDefaults "w"
      ((warming [.stable, .prepare]).applyDefaults.allowedAt 0 5)
      ((pulling (warming [.stable, .prepare])).extractPartitionID [101, 46, 112])
      fun _ _ => some ("w", .stable) :=
    fun state _ => ⟨fun named => by cases named; decide, fun unknown => by cases unknown⟩
  exact ⟨_, rfl, by decide, ((admitted_is_pulled (c := pulling (warming [.stable, .prepare])) rfl
    rfl (cut_of_texts single) rendered selected rfl).1 (by decide) _).mpr steady (by decide)⟩

/-- The warm-up allows the state of a handoff being prepared. -/
theorem warmup_state_suppressed :
    validateSubjectTemplate (fun _ => none) plainTemplate true = .ok () ∧
      partitionP.validate = .ok () ∧
      generateSubject (fun _ => none) plainTemplate partitionP = .ok [101, 46, 112] ∧
      ∃ gate, newProcessingGate "w" plainTemplate (warming [.prepare]).applyDefaults 0 = .ok gate ∧
        (gate.wrap (some fun _ _ => some ("w", .prepare)) 5 [101, 46, 112]).outcome = .handled ∧
        (pulling (warming [.prepare])).setDefaults.shouldSuppressPull "w"
          (some fun _ => some ("w", .prepare))
          ((pulling (warming [.prepare])).extractPartitionID [101, 46, 112]) =
            some (.stateNotAllowed .prepare) :=
  ⟨by decide, by decide, by decide, _, rfl, by decide, by decide⟩

end Parti.Durable.PullGating
