/-
# Durable.ProcessingGate — admission of messages by ownership

The gate reads the partition id off the message's subject by the prefix and suffix of the
template, asks the resolver who owns the partition, and lets the handler run if it is this
worker in an allowed state; an unknown owner is asked for once more after a refresh. If the
subject does not have that prefix and suffix, the handler runs and the resolver is not asked.

`wildcard_template_ungated`: a template with a wildcard token is accepted, no message the
filter selects has its prefix, and so every message is handled. `gate_exclusive`: a message is
handled only after a lookup of the partition that named this worker in an allowed state,
exactly if its subject is the partition's key between the two ends of the template.

What the resolver answers to the first and to the second lookup of a call is arbitrary.
-/
import Parti.Durable.Subjects
import Parti.Types.Validate

namespace Parti.Durable

open Parti.Types List

inductive HandoffState where
  | unknown
  | stable
  | prepare
  | commit
deriving DecidableEq

structure ProcessingGateConfig where
  enabled : Bool
  allowedStates : List HandoffState
  warmupDuration : Int
  warmupAllowedStates : List HandoffState

def ProcessingGateConfig.applyDefaults (cfg : ProcessingGateConfig) : ProcessingGateConfig :=
  { cfg with
    allowedStates := if cfg.allowedStates = [] then [.stable] else cfg.allowedStates
    warmupAllowedStates :=
      if 0 < cfg.warmupDuration ∧ cfg.warmupAllowedStates = [] then [.stable]
      else cfg.warmupAllowedStates }

/-- The states allowed at `now` by a gate made at `created`: those of the warm-up while it
lasts, and the steady ones after it. -/
def ProcessingGateConfig.allowedAt (cfg : ProcessingGateConfig) (created now : Int) :
    List HandoffState :=
  if 0 < cfg.warmupDuration ∧ now < created + cfg.warmupDuration then
    cfg.applyDefaults.warmupAllowedStates
  else cfg.applyDefaults.allowedStates

structure ProcessingGate where
  workerID : String
  enabled : Bool
  subjPrefix : GoString
  subjSuffix : GoString
  warmupUntil : Option Int
  allowedWarmup : List HandoffState
  allowedSteady : List HandoffState

def newProcessingGate (workerID : String) (subjectTemplate : GoString)
    (cfg : ProcessingGateConfig) (now : Int) : Except SubjectError ProcessingGate :=
  match parseSubjectTemplateParts subjectTemplate with
  | none => .error (.missingPlaceholder subjectTemplate)
  | some (pre, suf) =>
    .ok { workerID := workerID
          enabled := cfg.applyDefaults.enabled
          subjPrefix := pre
          subjSuffix := suf
          warmupUntil := if 0 < cfg.applyDefaults.warmupDuration then
            some (now + cfg.applyDefaults.warmupDuration) else none
          allowedWarmup := cfg.applyDefaults.warmupAllowedStates
          allowedSteady := cfg.applyDefaults.allowedStates }

abbrev Owner := String × HandoffState

abbrev Script := Nat → GoString → Option Owner

inductive NakReason where
  | ownerDisallowedState
  | nonOwner
  | unknownOwnership
deriving DecidableEq

inductive Outcome where
  /-- The user's handler was called. -/
  | handled
  | nak (pid : GoString) (owner : String) (state : HandoffState) (reason : NakReason)
deriving DecidableEq

structure Lookup where
  pid : GoString
  answer : Option Owner
deriving DecidableEq

structure Call where
  lookups : List Lookup
  outcome : Outcome
deriving DecidableEq

namespace ProcessingGate

def extractPartitionID (g : ProcessingGate) (subject : GoString) : Option GoString :=
  if !g.subjPrefix.isPrefixOf subject || !g.subjSuffix.isSuffixOf subject then none
  else if subject.length - g.subjSuffix.length < g.subjPrefix.length then none
  else some ((subject.take (subject.length - g.subjSuffix.length)).drop g.subjPrefix.length)

def allowed (g : ProcessingGate) (now : Int) : List HandoffState :=
  if g.warmupUntil.any (fun until_ => now < until_) ∧ g.allowedWarmup ≠ [] then g.allowedWarmup
  else g.allowedSteady

def judge (g : ProcessingGate) (now : Int) (pid : GoString) (owner : Owner) : Outcome :=
  if owner.1 = g.workerID then
    if owner.2 ∈ g.allowed now then .handled
    else .nak pid owner.1 owner.2 .ownerDisallowedState
  else .nak pid owner.1 owner.2 .nonOwner

def handle (g : ProcessingGate) (now : Int) (resolver : Script) (subject : GoString) : Call :=
  match g.extractPartitionID subject with
  | none => ⟨[], .handled⟩
  | some pid =>
    match resolver 0 pid with
    | some owner => ⟨[⟨pid, some owner⟩], g.judge now pid owner⟩
    | none =>
      match resolver 1 pid with
      | some owner => ⟨[⟨pid, none⟩, ⟨pid, some owner⟩], g.judge now pid owner⟩
      | none => ⟨[⟨pid, none⟩, ⟨pid, none⟩], .nak pid "" .unknown .unknownOwnership⟩

/-- Without a resolver, or when the gate is off, the handler is not wrapped. -/
def wrap (g : ProcessingGate) (resolver : Option Script) (now : Int) (subject : GoString) : Call :=
  match resolver with
  | none => ⟨[], .handled⟩
  | some resolver => if g.enabled then g.handle now resolver subject else ⟨[], .handled⟩

end ProcessingGate

/-! ## What the gate admits -/

section Gate

variable {cfg : ProcessingGateConfig} {workerID : String} {tmpl pre suf pid : GoString}
  {created now : Int} {gate g : ProcessingGate}

theorem newProcessingGate_parts (built : newProcessingGate workerID tmpl cfg created = .ok gate)
    (parts : cut partitionPlaceholder tmpl = some (pre, suf)) :
    gate.workerID = workerID ∧ gate.enabled = cfg.enabled ∧ gate.subjPrefix = pre ∧
      gate.subjSuffix = suf := by
  simp only [newProcessingGate, parseSubjectTemplateParts, parts] at built
  cases built
  exact ⟨rfl, rfl, rfl, rfl⟩

theorem newProcessingGate_allowed (built : newProcessingGate workerID tmpl cfg created = .ok gate) :
    gate.allowed now = cfg.allowedAt created now := by
  simp only [newProcessingGate] at built
  split at built
  next => cases built
  next =>
    cases built
    unfold ProcessingGate.allowed ProcessingGateConfig.allowedAt
    by_cases warm : 0 < cfg.warmupDuration
    · -- with a warm-up there are states for it, by the defaults
      have some_ : cfg.applyDefaults.warmupAllowedStates ≠ [] := by
        by_cases none_ : cfg.warmupAllowedStates = []
        · simp [ProcessingGateConfig.applyDefaults, warm, none_]
        · simp [ProcessingGateConfig.applyDefaults, none_]
      have same : cfg.applyDefaults.warmupDuration = cfg.warmupDuration := rfl
      simp [same, warm, some_]
    · have same : cfg.applyDefaults.warmupDuration = cfg.warmupDuration := rfl
      simp [same, warm]

theorem ProcessingGate.extractPartitionID_eq_some {subject} :
    g.extractPartitionID subject = some pid ↔ subject = g.subjPrefix ++ pid ++ g.subjSuffix := by
  unfold extractPartitionID
  constructor
  · intro extracted
    split_ifs at extracted with apart short
    rw [Bool.or_eq_true, not_or, Bool.not_eq_true', Bool.not_eq_true', Bool.not_eq_false,
      Bool.not_eq_false, isPrefixOf_iff_prefix, isSuffixOf_iff_suffix] at apart
    obtain ⟨front, body, rfl⟩ := apart
    rw [length_append, Nat.add_sub_cancel] at extracted short
    rw [take_left] at extracted
    -- the suffix starts after the prefix, which is therefore one of the body
    obtain ⟨rest, rfl⟩ := prefix_of_prefix_length_le front (prefix_append _ _) (not_lt.mp short)
    rw [drop_left] at extracted
    rw [Option.some.inj extracted]
  · rintro rfl
    have front : g.subjPrefix.isPrefixOf (g.subjPrefix ++ pid ++ g.subjSuffix) = true := by
      rw [ isPrefixOf_iff_prefix, append_assoc]
      exact prefix_append _ _
    have back : g.subjSuffix.isSuffixOf (g.subjPrefix ++ pid ++ g.subjSuffix) = true := by
      rw [isSuffixOf_iff_suffix]
      exact suffix_append _ _
    have length : (g.subjPrefix ++ pid ++ g.subjSuffix).length - g.subjSuffix.length =
        (g.subjPrefix ++ pid).length := by
      simp only [length_append]
      omega
    rw [front, back, length, take_left, drop_left]
    simp

theorem ProcessingGate.judge_handled {owner : Owner} :
    g.judge now pid owner = .handled ↔ owner.1 = g.workerID ∧ owner.2 ∈ g.allowed now := by
  unfold judge
  split_ifs with own permitted <;> simp [*]

theorem ProcessingGate.handle_handled {resolver : Script} {subject}
    (extracted : g.extractPartitionID subject = some pid)
    (handled : (g.handle now resolver subject).outcome = .handled) :
    ∃ state ∈ g.allowed now,
      ⟨pid, some (g.workerID, state)⟩ ∈ (g.handle now resolver subject).lookups := by
  simp only [handle, extracted] at handled ⊢
  cases first : resolver 0 pid with
  | some owner =>
    simp only [first] at handled ⊢
    obtain ⟨own, permitted⟩ := judge_handled.mp handled
    exact ⟨owner.2, permitted, by rw [← own]; exact mem_singleton_self _⟩
  | none =>
    simp only [first] at handled ⊢
    cases second : resolver 1 pid with
    | none =>
      rw [second] at handled
      cases handled
    | some owner =>
      simp only [second] at handled ⊢
      obtain ⟨own, permitted⟩ := judge_handled.mp handled
      exact ⟨owner.2, permitted, by rw [← own]; simp⟩

theorem ProcessingGateConfig.allowedAt_ne_nil : cfg.allowedAt created now ≠ [] := by
  unfold allowedAt applyDefaults
  split_ifs with warm states <;> simp_all

/-- A gate that knows another partition, or none, admits what no lookup of this one allows. -/
theorem ProcessingGate.handle_other {subject} {state : HandoffState}
    (other : g.extractPartitionID subject ≠ some pid) (permitted : state ∈ g.allowed now) :
    (g.handle now (fun _ _ => some (g.workerID, state)) subject).outcome = .handled ∧
      ∀ answer, ⟨pid, answer⟩ ∉
        (g.handle now (fun _ _ => some (g.workerID, state)) subject).lookups := by
  unfold handle
  cases extracted : g.extractPartitionID subject with
  | none => exact ⟨rfl, fun _ => not_mem_nil⟩
  | some found =>
    have apart : pid ≠ found := fun same => other (same ▸ extracted)
    exact ⟨by simp [judge, permitted], fun _ mem => by simp [apart] at mem⟩

variable {engine : Engine} {p : Partition} {filter subject : GoString}

theorem framed_of_texts (single : texts 0 tmpl = some [pre, suf])
    (rendered : generateSubject engine tmpl p = .ok filter) :
    filter = pre ++ p.subjectKey ++ suf := by
  simp only [generateSubject, parseTemplate, single, renderSubject] at rendered
  split_ifs at rendered
  cases rendered
  simp [List.intercalate]

/-- A message is handled only after a lookup of this partition that allows it. -/
def Exclusive (gate : ProcessingGate) (now : Int) (pid : GoString) (workerID : String)
    (states : List HandoffState) (subject : GoString) : Prop :=
  ∀ resolver, (gate.wrap (some resolver) now subject).outcome = .handled →
    ∃ state ∈ states,
      ⟨pid, some (workerID, state)⟩ ∈ (gate.wrap (some resolver) now subject).lookups

theorem exclusive_iff (parts : cut partitionPlaceholder tmpl = some (pre, suf))
    (built : newProcessingGate workerID tmpl cfg created = .ok gate)
    (enabled : cfg.enabled = true) :
    Exclusive gate now pid workerID (cfg.allowedAt created now) subject ↔
      subject = pre ++ pid ++ suf := by
  obtain ⟨rfl, on, rfl, rfl⟩ := newProcessingGate_parts built parts
  rw [← ProcessingGate.extractPartitionID_eq_some, ← newProcessingGate_allowed built]
  simp only [Exclusive, ProcessingGate.wrap, on, enabled, if_true]
  constructor
  · intro exclusive
    by_contra other
    obtain ⟨state, permitted⟩ := exists_mem_of_ne_nil (gate.allowed now) (by
      rw [newProcessingGate_allowed built]
      exact cfg.allowedAt_ne_nil)
    obtain ⟨handled, unasked⟩ := ProcessingGate.handle_other other permitted
    obtain ⟨_, -, asked⟩ := exclusive _ handled
    exact unasked _ asked
  · exact fun extracted resolver => ProcessingGate.handle_handled extracted

theorem gate_exclusive (parts : cut partitionPlaceholder tmpl = some (pre, suf))
    (rendered : generateSubject engine tmpl p = .ok filter)
    (built : newProcessingGate workerID tmpl cfg created = .ok gate)
    (enabled : cfg.enabled = true) :
    (∀ subject, Exclusive gate now p.subjectKey workerID (cfg.allowedAt created now) subject ↔
      subject = pre ++ p.subjectKey ++ suf) ∧
    (validateSubjectTokens filter true = .ok () →
      ((∀ subject, validateSubjectTokens subject false = .ok () →
          subjectMatches filter subject = true →
          Exclusive gate now p.subjectKey workerID (cfg.allowedAt created now) subject) ↔
        Literal filter ∧ filter = pre ++ p.subjectKey ++ suf)) ∧
    (texts 0 tmpl = some [pre, suf] → filter = pre ++ p.subjectKey ++ suf) := by
  have framed : ∀ subject,
      Exclusive gate now p.subjectKey workerID (cfg.allowedAt created now) subject ↔
        subject = pre ++ p.subjectKey ++ suf := fun _ => exclusive_iff parts built enabled
  refine ⟨framed, fun valid => ?_, fun single => framed_of_texts single rendered⟩
  simp only [framed]
  exact selects_one_iff valid

end Gate

def defaultGate : ProcessingGateConfig := ⟨true, [], 0, []⟩

/-- The partition with the one key `p`. -/
def partitionP : Partition := ⟨[[112]], 0, []⟩

/-- The template `e.{{.PartitionID}}`. -/
def plainTemplate : GoString := [101, 46] ++ partitionPlaceholder

/-- The template `e.*.{{.PartitionID}}`. -/
def wildcardTemplate : GoString := [101, 46, 42, 46] ++ partitionPlaceholder

/-- A resolver that knows `w` as a stable owner only after a refresh. -/
def knownLate : Script := fun lookup _ => if lookup = 1 then some ("w", .stable) else none

theorem gate_exclusive_after_refresh :
    ∃ gate, newProcessingGate "w" plainTemplate defaultGate 0 = .ok gate ∧
      (gate.wrap (some knownLate) 0 [101, 46, 112]).outcome = .handled ∧
        ∃ state ∈ defaultGate.allowedAt 0 0, ⟨partitionP.subjectKey, some ("w", state)⟩ ∈
          (gate.wrap (some knownLate) 0 [101, 46, 112]).lookups := by
  have single : texts 0 plainTemplate = some [[101, 46], []] := by decide
  have rendered : generateSubject (fun _ => none) plainTemplate partitionP = .ok [101, 46, 112] := by
    decide
  exact ⟨_, rfl, by decide, ((gate_exclusive (cut_of_texts single) rendered rfl rfl).1
    [101, 46, 112]).mpr (by decide) knownLate (by decide)⟩

theorem wildcard_template_ungated :
    validateSubjectTemplate (fun _ => none) wildcardTemplate true = .ok () ∧
      partitionP.validate = .ok () ∧
      generateSubject (fun _ => none) wildcardTemplate partitionP = .ok [101, 46, 42, 46, 112] ∧
      subjectMatches [101, 46, 42, 46, 112] [101, 46, 120, 46, 112] = true ∧
      ∃ gate, newProcessingGate "w" wildcardTemplate defaultGate 0 = .ok gate ∧
        ∀ resolver, gate.wrap (some resolver) 0 [101, 46, 120, 46, 112] = ⟨[], .handled⟩ := by
  refine ⟨by decide, by decide, by decide, by decide, _, rfl, fun resolver => ?_⟩
  rfl

end Parti.Durable
