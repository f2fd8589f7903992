/-
# Recovery.StreamRecreated — the first consumer on a recreated stream

The loop of a partition consumer under `FromLastProcessed`. When the stream is found
missing, by the creation of an iterator or by the recovery from its failure, the operator's
hook recreates it, `HandleStreamRecreated` resets the checkpoint and sets the flag, and
`RebuildAfterStreamRecreated` creates the consumer. With the flag set, a checkpoint of zero
means everything; without it, new messages only.

`RebuildAfterStreamRecreated` clears the flag before it knows that the consumer was created.
If that fails, the ordinary recovery creates the first consumer, without the flag. And the
checkpoint that the rebuild reads can be one that a late ack has put back after the reset.

* `recreated_stream_replayed`: if the ordinary recovery creates the first consumer after
  `HandleStreamRecreated` only from a checkpoint that is the re-seeded floor and positive, and
  no ack of an earlier dispatch stands between its comparison and the end of its loop when the
  checkpoint is reset (`Rebuilt`), then each such consumer gets everything, or everything
  after the re-seeded floor.
* `recreated_stream_not_replayed`: one failed rebuild.

The loop and the handlers share the cells of `Recovery.Fence` and take its steps; the reads
of a rebuild are steps, too. Iterator errors, probes, hooks and creations end in every way.
`pending` and `firsts` are for the record: the re-seeded floor until a consumer is created,
and what was created then.
-/
import Parti.Recovery.Fence
import Mathlib.Data.Option.Basic

namespace Parti.Recovery.StreamRecreated

open Lib Option

/-! ## What the environment answers -/

/-- How `CreateOrUpdateConsumer` ends. -/
inductive Created where
  | ok
  | streamNotFound
  | failed

/-- `Info` after a burst of missed heartbeats. -/
inductive Probe where
  | ok
  | consumerNotFound
  | streamNotFound
  | failed

/-- What `maybeEscalateIteratorFailures` does after an iterator could not be created. -/
inductive Escalation where
  /-- Below the threshold, or the consumer could not be bound. -/
  | none
  | healthy
  | rebound
  | streamNotFound

inductive ErrorClass where
  | transient
  | consumerGone
  | needsConfirm
  | gracefulExit

/-- What `Classify` meets: whether the burst threshold is reached, the probe, and whether
`recover` returns early (cooldown, context). -/
structure Answers where
  burst : Bool
  probe : Probe
  skipped : Bool

/-! ## Recovery -/

inductive Action where
  /-- `recover` goes on to create a consumer. -/
  | recover
  | backoff
  | exit
  | streamMissing

def Answers.recover (answers : Answers) : Action :=
  if answers.skipped then .backoff else .recover

def classify (answers : Answers) : ErrorClass → Action
  | .gracefulExit => .exit
  | .consumerGone => answers.recover
  | .needsConfirm =>
    if answers.burst then
      match answers.probe with
      | .consumerNotFound => answers.recover
      | .streamNotFound => .streamMissing
      | .ok | .failed => .backoff
    else .backoff
  | .transient => .backoff

/-- What the consumer is created with, from the checkpoint and the flag that were read. -/
def rebuildConfig (checkpoint : Nat) (recreated : Bool) : ConsumerConfig :=
  (buildConfig consumerConfig .fromLastProcessed checkpoint recreated).1

/-! ## The loop -/

structure Config where
  /-- `RecoveryRetry.MaxAttempts`; zero is the default. -/
  maxAttempts : Nat
  /-- Whether a `StreamMissingHook` is configured. -/
  streamMissingHook : Bool

def defaultRecoveryMaxAttempts : Nat := 8

def Config.attempts (config : Config) : Nat :=
  if config.maxAttempts = 0 then defaultRecoveryMaxAttempts else config.maxAttempts

/-- Where the stream was found missing: by the attempt to create an iterator after so many
failed ones (site A), or by the failure of an iterator (site B). -/
inductive Site where
  | creation (failures : Nat)
  | iteration

inductive Pc where
  /-- In `SeedCheckpoint`, at the start of `Run` and after a recovery. -/
  | seeding (call : Fence.Pc)
  /-- In the envelope around the creation of an iterator. -/
  | creating (failures : Nat)
  | processing
  /-- `recover` has read the checkpoint. -/
  | recovering (checkpoint : Nat)
  /-- In `HandleStreamRecreated`. -/
  | recreating (site : Site) (call : Fence.Pc)
  /-- It has returned. -/
  | rebuilding (site : Site)
  /-- `RebuildAfterStreamRecreated` has read the checkpoint. -/
  | loaded (site : Site) (checkpoint : Nat)
  /-- It has read and cleared the flag. -/
  | built (site : Site) (cfg : ConsumerConfig)
  | exited

structure Loop (T : Type) where
  cells : Cells
  /-- The goroutines that have the messages. -/
  handlers : T → Fence.Pc
  pc : Pc
  streamMissingFailures : Nat
  pending : Option Nat
  firsts : List (Nat × ConsumerConfig)

inductive Input (T : Type) where
  /-- The iterator is created. -/
  | iterator
  /-- It is not; and the hook, if the stream is missing. -/
  | creationFailed (escalation : Escalation) (hook : Bool)
  | message (t : T) (seq : Nat)
  /-- The next step of a goroutine that has a message, at any time. -/
  | handler (t : T) (input : Fence.Input)
  /-- The iterator is closed. -/
  | closed
  /-- `Next` fails; and the hook, if the stream is missing. -/
  | iteratorFailure (kind : ErrorClass) (answers : Answers) (hook : Bool)
  /-- How the creation of `recover` ends; and the hook, if the stream is missing. -/
  | recreate (created : Created) (hook : Bool)
  /-- What `Info` answers to a call on the controller. -/
  | info (floor : Option Nat)
  /-- The next step of the loop. -/
  | go
  /-- How the creation ends after the stream was recreated, and an iterator on it. -/
  | rebuild (created : Created) (iterator : Bool)
  /-- The context is done. -/
  | cancel

/-- A message is answered by its handler, which starts nothing else. -/
def answers : Fence.Input → Bool
  | .ack | .drop | .go => true
  | _ => false

namespace Loop

variable {T : Type} (s : Loop T)

/-- A consumer was created. Every route resets the failures. -/
def created (cfg : ConsumerConfig) : Loop T :=
  { s with
    streamMissingFailures := 0
    pending := none
    firsts := (s.pending.map fun floor => (floor, cfg)).toList ++ s.firsts }

def attemptFailed (config : Config) (failures : Nat) : Loop T :=
  { s with pc := if failures + 1 ≥ config.attempts then .exited else .creating (failures + 1) }

def handleStreamMissingFailure (config : Config) : Loop T :=
  { s with
    streamMissingFailures := s.streamMissingFailures + 1
    pc := if s.streamMissingFailures + 1 ≥ config.attempts then .exited else .creating 0 }

def detourFailed (config : Config) : Site → Loop T
  | .creation failures => s.attemptFailed config failures
  | .iteration => s.handleStreamMissingFailure config

/-- A step of a call on the controller, by the loop: the call is over when it is idle again. -/
def call (pc : Fence.Pc) (input : Fence.Input) (within : Fence.Pc → Pc) (after : Pc) :
    Option (Loop T) :=
  (Fence.next T s.cells pc input).map fun turn =>
    { s with
      cells := turn.cells
      pc := match turn.pc with
        | .idle => after
        | call => within call }

/-- After the hook `HandleStreamRecreated` bumps the epoch. -/
def handleStreamMissing (config : Config) (site : Site) (hook : Bool) : Option (Loop T) :=
  if config.streamMissingHook && hook then
    s.call .idle .handleStreamRecreated (.recreating site) (.rebuilding site)
  else some (s.detourFailed config site)

def handleIteratorFailure (config : Config) (action : Action) (hook : Bool) : Option (Loop T) :=
  match action with
  | .exit => some { s with pc := .exited }
  | .streamMissing => s.handleStreamMissing config .iteration hook
  | .recover => some { s with pc := .recovering s.cells.maxAckedStreamSeq }
  | .backoff => some { s with pc := .creating 0 }

/-- `recover` builds without the flag. -/
def recovered (config : Config) (checkpoint : Nat) (answer : Created) (hook : Bool) :
    Option (Loop T) :=
  match answer with
  | .ok => some { s.created (rebuildConfig checkpoint false) with pc := .seeding .idle }
  | .streamNotFound => s.handleStreamMissing config .iteration hook
  | .failed => some { s with pc := .creating 0 }

def rebuilt (config : Config) (site : Site) (cfg : ConsumerConfig) (answer : Created)
    (iterator : Bool) : Loop T :=
  match answer, site with
  | .ok, .creation failures =>
    if iterator then { s.created cfg with pc := .processing }
    else (s.created cfg).attemptFailed config failures
  | .ok, .iteration => { s.created cfg with pc := .creating 0 }
  | _, site => s.detourFailed config site

def handle [DecidableEq T] (t : T) (input : Fence.Input) : Option (Loop T) :=
  (Fence.next T s.cells (s.handlers t) input).map fun turn =>
    { s with cells := turn.cells, handlers := Function.update s.handlers t turn.pc }

end Loop

section System

variable (T : Type) [DecidableEq T]

variable {T} in
def step (config : Config) (s : Loop T) (input : Input T) : Option (Loop T) :=
  match s.pc, input with
  | .seeding call, .info floor => s.call call (.info floor) .seeding (.creating 0)
  | .seeding call, .go => s.call call .go .seeding (.creating 0)
  | .creating _, .iterator => some { s with pc := .processing }
  | .creating failures, .creationFailed escalation hook =>
    match escalation with
    | .none => some (s.attemptFailed config failures)
    | .healthy => some ({ s with streamMissingFailures := 0 }.attemptFailed config failures)
    | .rebound => some ((s.created consumerConfig).attemptFailed config failures)
    | .streamNotFound => s.handleStreamMissing config (.creation failures) hook
  | .processing, .message t seq => s.handle t (.dispatch seq)
  | .processing, .closed => some { s with pc := .creating 0 }
  | .processing, .iteratorFailure kind answers hook =>
    s.handleIteratorFailure config (classify answers kind) hook
  | .recovering checkpoint, .recreate answer hook => s.recovered config checkpoint answer hook
  | .recreating site call, .info floor =>
    { s with pending := some (floor.getD 0) }.call call (.info floor) (.recreating site)
      (.rebuilding site)
  | .recreating site call, .go => s.call call .go (.recreating site) (.rebuilding site)
  | .rebuilding site, .go => some { s with pc := .loaded site s.cells.maxAckedStreamSeq }
  | .loaded site checkpoint, .go =>
    some { s with
      cells.recreatedSinceLastBuild := false
      pc := .built site (rebuildConfig checkpoint s.cells.recreatedSinceLastBuild) }
  | .built site cfg, .rebuild answer iterator => some (s.rebuilt config site cfg answer iterator)
  | _, .handler t input => if answers input then s.handle t input else none
  | .exited, _ => none
  | _, .cancel => some { s with pc := .exited }
  | _, _ => none

/-- `Run` seeds the checkpoint from the consumer it was given. -/
def start : Loop T := ⟨.new, fun _ => .idle, .seeding .idle, 0, none, []⟩

def system (config : Config) : System (Loop T) (Input T) where
  init s := s = start T
  step := step config

end System

/-- The ordinary recovery creates the first consumer only from a checkpoint that is the
re-seeded floor and positive, and the checkpoint is reset only when no ack of an earlier
dispatch is in the loop that raises it. -/
def Rebuilt {T : Type} (s : Loop T) (input : Input T) : Prop :=
  match s.pc, input with
  | .recovering checkpoint, .recreate .ok _ => ∀ floor ∈ s.pending, 0 < floor ∧ checkpoint = floor
  | .recreating _ (.bumped bump), .go => ∀ t, (s.handlers t).late bump = false
  | _, _ => True

instance {T : Type} [Fintype T] (s : Loop T) (input : Input T) : Decidable (Rebuilt s input) := by
  unfold Rebuilt
  split <;> infer_instance

/-! ## What the first consumer gets -/

/-- Everything, or everything after a positive floor. -/
def Replays (floor : Nat) (cfg : ConsumerConfig) : Prop :=
  cfg.deliverPolicy = .deliverAll ∨
    0 < floor ∧ cfg.deliverPolicy = .deliverByStartSequence ∧ cfg.optStartSeq = floor + 1

variable {floor : Nat}

theorem Replays.start_le {cfg : ConsumerConfig} (replays : Replays floor cfg) (lastSeq : Nat) :
    cfg.start lastSeq ≤ floor + 1 := by
  unfold ConsumerConfig.start
  obtain all | ⟨-, byStart, next⟩ := replays
  · rw [all]
    exact Nat.succ_le_succ (Nat.zero_le floor)
  · rw [byStart]
    exact next.le

theorem replays_checkpoint (known : 0 < floor) (recreated : Bool) :
    Replays floor (rebuildConfig floor recreated) := by
  unfold rebuildConfig
  rw [buildConfig_checkpoint consumerConfig known recreated]
  exact .inr ⟨known, rfl, rfl⟩

theorem replays_recreated (floor : Nat) : Replays floor (rebuildConfig floor true) := by
  obtain rfl | known := Nat.eq_zero_or_pos floor
  · exact .inl rfl
  · exact replays_checkpoint known true

/-! ## Handlers -/

/-- Where a goroutine can be that has a message dispatched before that epoch. -/
def Handles (bound : Nat) : Fence.Pc → Prop
  | .idle => True
  | .dispatched _ epoch | .acked _ epoch => epoch < bound
  | .raising job _ => job.epoch < bound ∧ Fence.Raise.after job = .idle
  | _ => False

/-- The same, and it will not raise the checkpoint: an ack finds another epoch. -/
def Quiet (c : Cells) (pc : Fence.Pc) : Prop :=
  Handles c.streamEpoch pc ∧ pc.late c.streamEpoch = false

theorem Handles.mono {bound bound' : Nat} {pc : Fence.Pc} (le : bound ≤ bound')
    (handles : Handles bound pc) : Handles bound' pc := by
  cases pc with
  | idle => trivial
  | dispatched | acked => exact Nat.lt_of_lt_of_le handles le
  | raising => exact ⟨Nat.lt_of_lt_of_le handles.1 le, handles.2⟩
  | bumped | reset | seeded => exact handles

section Handlers

variable {c c' : Cells} {pc pc' : Fence.Pc} {input : Fence.Input}

theorem Handles.step {bound : Nat} (handles : Handles bound pc)
    (steps : Fence.Steps c pc input c' pc')
    (own : answers input = true ∨ c.streamEpoch < bound ∧ ∃ seq, input = .dispatch seq) :
    Handles bound pc' ∧ c'.streamEpoch = c.streamEpoch ∧
      c'.recreatedSinceLastBuild = c.recreatedSinceLastBuild := by
  cases steps with
  | dispatched seq =>
    obtain off | ⟨current, -⟩ := own
    · cases off
    · exact ⟨current, rfl, rfl⟩
  | acked | again => exact ⟨handles, rfl, rfl⟩
  | current => exact ⟨⟨handles, rfl⟩, rfl, rfl⟩
  | kept => exact ⟨handles.2 ▸ trivial, rfl, rfl⟩
  | raised => exact ⟨handles.2 ▸ trivial, rfl, rfl⟩
  | seeding | bumped => obtain off | ⟨-, seq, off⟩ := own <;> cases off
  | reset | unseeded | flagged => cases handles
  | returned => exact ⟨trivial, rfl, rfl⟩

theorem Quiet.step (quiet : Quiet c pc) (steps : Fence.Steps c pc input c' pc')
    (own : answers input = true) : c' = c ∧ Quiet c pc' := by
  have handles := (quiet.1.step steps (.inl own)).1
  cases steps with
  | dispatched | seeding | bumped => cases own
  | acked | returned => exact ⟨rfl, handles, rfl⟩
  | current => exact absurd quiet.1 (Nat.lt_irrefl _)
  | again | kept | raised =>
    have late := quiet.2
    simp only [Fence.Pc.late, quiet.1.1, decide_true, Bool.true_eq_false] at late
  | reset | unseeded | flagged => cases quiet.1

end Handlers

/-! ## What a run keeps -/

section Invariant

variable {T : Type}

structure Sound (s : Loop T) : Prop where
  replayed : ∀ first ∈ s.firsts, Replays first.1 first.2
  handlers : ∀ t, Handles (s.cells.streamEpoch + 1) (s.handlers t)

/-- In `HandleStreamRecreated`: nothing is dispatched after the bump, so every ack is late;
after the reset the checkpoint is zero, and after the seed it is the floor. -/
def Recreating (s : Loop T) : Fence.Pc → Prop
  | .bumped bump => bump = s.cells.streamEpoch ∧ ∀ t, Handles s.cells.streamEpoch (s.handlers t)
  | .reset => s.cells.maxAckedStreamSeq = 0 ∧ ∀ t, Quiet s.cells (s.handlers t)
  | .raising (.reseed floor _) _ =>
    (s.cells.maxAckedStreamSeq = 0 ∧ s.pending = some floor) ∧ ∀ t, Quiet s.cells (s.handlers t)
  | .seeded => s.pending = some s.cells.maxAckedStreamSeq ∧ ∀ t, Quiet s.cells (s.handlers t)
  | _ => False

def Phase (s : Loop T) : Pc → Prop
  | .recreating _ call => Recreating s call
  | .rebuilding _ =>
    (s.pending = some s.cells.maxAckedStreamSeq ∧ s.cells.recreatedSinceLastBuild = true) ∧
      ∀ t, Quiet s.cells (s.handlers t)
  | .loaded _ checkpoint =>
    s.pending = some checkpoint ∧ s.cells.recreatedSinceLastBuild = true
  | .built _ cfg => ∀ floor ∈ s.pending, Replays floor cfg
  | _ => True

structure Inv (s : Loop T) : Prop where
  sound : Sound s
  phase : Phase s s.pc

variable {s s' : Loop T} {config : Config} {cfg : ConsumerConfig}

theorem Sound.inv (sound : Sound s) {pc : Pc} (phase : Phase { s with pc } pc) :
    Inv { s with pc } :=
  ⟨⟨sound.replayed, sound.handlers⟩, phase⟩

theorem Sound.created (sound : Sound s) (first : ∀ floor ∈ s.pending, Replays floor cfg) :
    Sound (s.created cfg) where
  replayed built here := by
    obtain here | here := List.mem_append.mp here
    · obtain ⟨floor, waiting, rfl⟩ := map_eq_some_iff.mp (mem_toList.mp here)
      exact first floor waiting
    · exact sound.replayed built here
  handlers := sound.handlers

theorem Sound.attemptFailed (sound : Sound s) (failures : Nat) :
    Inv (s.attemptFailed config failures) :=
  sound.inv (by split_ifs <;> trivial)

theorem Sound.detourFailed (sound : Sound s) (site : Site) : Inv (s.detourFailed config site) := by
  cases site with
  | creation failures => exact sound.attemptFailed failures
  | iteration =>
    refine ⟨⟨sound.replayed, sound.handlers⟩, ?_⟩
    simp only [Loop.detourFailed, Loop.handleStreamMissingFailure]
    split_ifs <;> trivial

theorem Sound.handleStreamMissing (sound : Sound s) {site : Site} {hook : Bool}
    (moved : s.handleStreamMissing config site hook = some s') : Inv s' := by
  unfold Loop.handleStreamMissing at moved
  split_ifs at moved
  · cases moved
    exact ⟨⟨sound.replayed, fun t => (sound.handlers t).mono (Nat.le_succ _)⟩, rfl, sound.handlers⟩
  · cases moved
    exact sound.detourFailed site

theorem Sound.handleIteratorFailure (sound : Sound s) {action : Action} {hook : Bool}
    (moved : s.handleIteratorFailure config action hook = some s') : Inv s' := by
  cases action with
  | recover | backoff | exit =>
    cases moved
    exact sound.inv trivial
  | streamMissing => exact sound.handleStreamMissing moved

theorem Sound.recovered (sound : Sound s) {checkpoint : Nat} {answer : Created} {hook : Bool}
    (first : answer = .ok → ∀ floor ∈ s.pending, 0 < floor ∧ checkpoint = floor)
    (moved : s.recovered config checkpoint answer hook = some s') : Inv s' := by
  cases answer with
  | ok =>
    cases moved
    refine (sound.created fun floor waiting => ?_).inv trivial
    obtain ⟨known, rfl⟩ := first rfl floor waiting
    exact replays_checkpoint known false
  | streamNotFound => exact sound.handleStreamMissing moved
  | failed =>
    cases moved
    exact sound.inv trivial

theorem Sound.rebuilt (sound : Sound s) (first : ∀ floor ∈ s.pending, Replays floor cfg)
    (site : Site) (answer : Created) (iterator : Bool) :
    Inv (s.rebuilt config site cfg answer iterator) := by
  have built := sound.created first
  cases answer with
  | ok =>
    cases site with
    | creation failures =>
      cases iterator with
      | true => exact built.inv trivial
      | false => exact built.attemptFailed failures
    | iteration => exact built.inv trivial
  | streamNotFound | failed => exact sound.detourFailed site

/-! ## The steps on the controller -/

theorem Sound.seeding (sound : Sound s) {call : Fence.Pc} {input : Fence.Input}
    (moved : s.call call input .seeding (.creating 0) = some s') : Inv s' := by
  obtain ⟨turn, taken, rfl⟩ := map_eq_some_iff.mp moved
  have epoch := (Fence.next_steps taken).1.epoch_le
  refine ⟨⟨sound.replayed, fun t => (sound.handlers t).mono (Nat.succ_le_succ epoch)⟩, ?_⟩
  dsimp only
  split <;> trivial

theorem Recreating.info (sound : Sound s) {call : Fence.Pc} (phase : Recreating s call)
    {site : Site} {floor : Option Nat}
    (moved : { s with pending := some (floor.getD 0) }.call call (.info floor) (.recreating site)
      (.rebuilding site) = some s') : Inv s' := by
  cases call with
  | reset =>
    cases moved
    refine ⟨⟨sound.replayed, sound.handlers⟩, ?_⟩
    match floor with
    | some (floor + 1) => exact ⟨⟨phase.1, rfl⟩, phase.2⟩
    | some 0 | none => exact ⟨congrArg some phase.1.symm, phase.2⟩
  | idle => cases phase
  | _ => cases moved

theorem Recreating.go (sound : Sound s) {call : Fence.Pc} (phase : Recreating s call) {site : Site}
    (ended : ∀ bump, call = .bumped bump → ∀ t, (s.handlers t).late bump = false)
    (moved : s.call call .go (.recreating site) (.rebuilding site) = some s') : Inv s' := by
  cases call with
  | bumped bump =>
    cases moved
    obtain ⟨rfl, handles⟩ := phase
    exact ⟨⟨sound.replayed, sound.handlers⟩, rfl, fun t => ⟨handles t, ended _ rfl t⟩⟩
  | raising job loop =>
    cases job with
    | reseed floor epoch =>
      obtain ⟨⟨reset, waiting⟩, quiet⟩ := phase
      obtain ⟨turn, taken, rfl⟩ := map_eq_some_iff.mp moved
      obtain ⟨again, rfl⟩ | ⟨top, rfl⟩ | rfl := Fence.next_raising taken
      · exact ⟨⟨sound.replayed, sound.handlers⟩, ⟨reset, waiting⟩, quiet⟩
      · have zero : floor = s.cells.maxAckedStreamSeq := top.antisymm (reset.trans_le (Nat.zero_le _))
        exact ⟨⟨sound.replayed, sound.handlers⟩, zero ▸ waiting, quiet⟩
      · exact ⟨⟨sound.replayed, sound.handlers⟩, waiting, quiet⟩
    | _ => cases phase
  | seeded =>
    cases moved
    exact ⟨⟨sound.replayed, sound.handlers⟩, ⟨phase.1, rfl⟩, phase.2⟩
  | reset => cases moved
  | idle | dispatched | acked => cases phase

theorem handle_steps [DecidableEq T] {t : T} {input : Fence.Input}
    (moved : s.handle t input = some s') :
    ∃ c pc, Fence.Steps s.cells (s.handlers t) input c pc ∧
      s' = { s with cells := c, handlers := Function.update s.handlers t pc } := by
  obtain ⟨turn, taken, rfl⟩ := map_eq_some_iff.mp moved
  exact ⟨turn.cells, turn.pc, (Fence.next_steps taken).1, rfl⟩

theorem forall_handlers [DecidableEq T] {P : Fence.Pc → Prop} {t : T} {pc : Fence.Pc} (next : P pc)
    (all : ∀ u, P (s.handlers u)) : ∀ u, P (Function.update s.handlers t pc u) :=
  (Function.forall_update_iff s.handlers fun _ => P).mpr ⟨next, fun u _ => all u⟩

theorem Sound.handle [DecidableEq T] (sound : Sound s) {t : T} {input : Fence.Input}
    (own : answers input = true ∨ ∃ seq, input = .dispatch seq)
    (moved : s.handle t input = some s') :
    Sound s' ∧ s'.pc = s.pc ∧ s'.pending = s.pending ∧
      s'.cells.streamEpoch = s.cells.streamEpoch ∧
      s'.cells.recreatedSinceLastBuild = s.cells.recreatedSinceLastBuild := by
  obtain ⟨c, pc, steps, rfl⟩ := handle_steps moved
  obtain ⟨next, epoch, flag⟩ := (sound.handlers t).step steps
    (own.imp_right fun dispatch => ⟨Nat.lt_succ_self _, dispatch⟩)
  refine ⟨⟨sound.replayed, ?_⟩, rfl, rfl, epoch, flag⟩
  dsimp only
  rw [epoch]
  exact forall_handlers next sound.handlers

theorem late_handle [DecidableEq T] (handles : ∀ t, Handles s.cells.streamEpoch (s.handlers t))
    {t : T} {input : Fence.Input} (own : answers input = true)
    (moved : s.handle t input = some s') : ∀ u, Handles s.cells.streamEpoch (s'.handlers u) := by
  obtain ⟨c, pc, steps, rfl⟩ := handle_steps moved
  exact forall_handlers ((handles t).step steps (.inl own)).1 handles

theorem quiet_handle [DecidableEq T] (quiet : ∀ t, Quiet s.cells (s.handlers t)) {t : T}
    {input : Fence.Input} (own : answers input = true) (moved : s.handle t input = some s') :
    s' = { s with handlers := s'.handlers } ∧ ∀ u, Quiet s.cells (s'.handlers u) := by
  obtain ⟨c, pc, steps, rfl⟩ := handle_steps moved
  obtain ⟨rfl, next⟩ := (quiet t).step steps own
  exact ⟨rfl, forall_handlers next quiet⟩

theorem Inv.handle [DecidableEq T] (inv : Inv s) {t : T} {input : Fence.Input}
    (own : answers input = true) (moved : s.handle t input = some s') : Inv s' := by
  obtain ⟨sound, pc, pending, epoch, flag⟩ := inv.sound.handle (.inl own) moved
  refine ⟨sound, ?_⟩
  have phase := inv.phase
  rw [pc]
  cases here : s.pc with
  | recreating site call =>
    rw [here] at phase
    cases call with
    | bumped bump =>
      refine ⟨phase.1.trans epoch.symm, fun u => ?_⟩
      rw [epoch]
      exact late_handle phase.2 own moved u
    | reset | seeded =>
      obtain ⟨same, quiet⟩ := quiet_handle phase.2 own moved
      rw [same]
      exact ⟨phase.1, quiet⟩
    | raising job loop =>
      cases job with
      | reseed floor epoch =>
        obtain ⟨same, quiet⟩ := quiet_handle phase.2 own moved
        rw [same]
        exact ⟨phase.1, quiet⟩
      | ack | seed => cases phase
    | idle | dispatched | acked => cases phase
  | rebuilding site =>
    rw [here] at phase
    obtain ⟨same, quiet⟩ := quiet_handle phase.2 own moved
    rw [same]
    exact ⟨phase.1, quiet⟩
  | loaded site checkpoint =>
    rw [here] at phase
    exact ⟨pending.trans phase.1, flag.trans phase.2⟩
  | built site cfg =>
    rw [here] at phase
    exact fun floor waiting => phase floor (pending ▸ waiting)
  | _ => trivial

end Invariant

/-! ## Over a run -/

section Runs

variable {T : Type} [DecidableEq T] {config : Config} {s s' : Loop T}

theorem step_inv {input : Input T} (inv : Inv s) (rebuilt : Rebuilt s input)
    (moved : step config s input = some s') : Inv s' := by
  have sound := inv.sound
  have phase := inv.phase
  unfold step at moved
  split at moved
  case h_1 | h_2 => exact sound.seeding moved
  case h_3 => cases moved; exact sound.inv trivial
  case h_4 failures escalation hook _ =>
    cases escalation with
    | none =>
      cases moved
      exact sound.attemptFailed failures
    | healthy =>
      cases moved
      have healthy : Sound { s with streamMissingFailures := 0 } := ⟨sound.replayed, sound.handlers⟩
      exact healthy.attemptFailed failures
    | rebound =>
      cases moved
      have bound : Sound (s.created consumerConfig) := sound.created fun _ _ => .inl rfl
      exact bound.attemptFailed failures
    | streamNotFound => exact sound.handleStreamMissing moved
  case h_5 t seq here =>
    obtain ⟨sound', pc, -⟩ := sound.handle (.inr ⟨seq, rfl⟩) moved
    refine ⟨sound', ?_⟩
    rw [pc, here]
    trivial
  case h_6 => cases moved; exact sound.inv trivial
  case h_7 => exact sound.handleIteratorFailure moved
  case h_8 checkpoint answer hook here =>
    refine sound.recovered ?_ moved
    rintro rfl
    simpa only [Rebuilt, here] using rebuilt
  case h_9 site call floor here =>
    rw [here] at phase
    exact Recreating.info sound phase moved
  case h_10 site call here =>
    rw [here] at phase
    refine Recreating.go sound phase ?_ moved
    rintro bump rfl
    simpa only [Rebuilt, here] using rebuilt
  case h_11 site here =>
    cases moved
    rw [here] at phase
    exact sound.inv phase.1
  case h_12 site checkpoint here =>
    cases moved
    rw [here] at phase
    refine ⟨⟨sound.replayed, sound.handlers⟩, fun floor waiting => ?_⟩
    obtain rfl : checkpoint = floor := some.inj (phase.1.symm.trans waiting)
    rw [phase.2]
    exact replays_recreated checkpoint
  case h_13 site cfg answer iterator here =>
    cases moved
    rw [here] at phase
    exact sound.rebuilt phase site answer iterator
  case h_14 t input =>
    split_ifs at moved with own
    exact inv.handle own moved
  case h_15 => cases moved
  case h_16 => cases moved; exact sound.inv trivial
  case h_17 => cases moved

theorem recreated_stream_replayed (reached : Reachable (system T config) Rebuilt s) {floor : Nat}
    {cfg : ConsumerConfig} (first : (floor, cfg) ∈ s.firsts) :
    Replays floor cfg ∧ ∀ lastSeq, cfg.start lastSeq ≤ floor + 1 := by
  have inv : Inv s := reached.invariant (I := Inv)
    (by rintro _ rfl; exact ⟨⟨nofun, fun _ => trivial⟩, trivial⟩)
    (fun _ _ _ inv rebuilt moved => step_inv inv rebuilt moved)
  have replays := inv.sound.replayed _ first
  exact ⟨replays, replays.start_le⟩

end Runs

/-! ## A rebuild that fails -/

def hooked : Config := ⟨8, true⟩

def heartbeatsLost (probe : Probe) : Input Unit :=
  .iteratorFailure .needsConfirm ⟨true, probe, false⟩ true

/-- The consumer has acked up to 7, and message 8 is with its handler. -/
def begun : List (Input Unit) :=
  [.info (some 7), .go, .go, .iterator, .message () 8]

/-- The stream is lost, the hook recreates it, and the checkpoint is reset. -/
def streamLost : List (Input Unit) := [heartbeatsLost .streamNotFound, .go]

def unseeded : List (Input Unit) := [.info none, .go, .go, .go]

theorem recreated_stream_replayed_after_failed_rebuild :
    ∃ s, Reachable (system Unit hooked) Rebuilt s ∧ (0, ⟨.deliverAll, 0, none⟩) ∈ s.firsts ∧
      Replays 0 ⟨.deliverAll, 0, none⟩ :=
  -- message 8 is acked after the reset; the second loss is of the stream again
  exists_reachable_and (s := start Unit) rfl
    (begun ++ streamLost ++ [.handler () .ack, .handler () .go] ++ unseeded ++
      [.rebuild .failed false, .iterator] ++ streamLost ++ unseeded ++ [.rebuild .ok false])
    (by decide) fun _ reached first => (recreated_stream_replayed reached first).1

/-- The creation fails once. The old handle misses heartbeats, its consumer is not on the new
stream, and the ordinary recovery creates one for new messages only. -/
theorem recreated_stream_not_replayed :
    ∃ s, Reachable (system Unit hooked) Free s ∧ (0, ⟨.deliverNew, 0, none⟩) ∈ s.firsts ∧
      ¬ Replays 0 ⟨.deliverNew, 0, none⟩ := by
  refine exists_reachable_and (s := start Unit) rfl
    (begun ++ streamLost ++ unseeded ++ [.rebuild .failed false, .iterator,
      heartbeatsLost .consumerNotFound, .recreate .ok false]) (by decide) fun _ _ _ => ?_
  rintro (all | ⟨known, -⟩)
  · cases all
  · cases known

/-- The other part of the condition: the ack of message 8 has passed its comparison when the
checkpoint is reset, and the rebuild starts at 9 on the new stream. -/
example : ∃ s ∈ (system Unit hooked).run (start Unit)
    (begun ++ [.handler () .ack, .handler () .go] ++ streamLost ++
      [.handler () .go, .handler () .go] ++ unseeded ++ [.rebuild .ok false]),
    (0, ⟨.deliverByStartSequence, 9, none⟩) ∈ s.firsts := by decide

end Parti.Recovery.StreamRecreated
