/-
# Recovery.Fence — the checkpoint, the stream epoch, and late acks

The checkpoint of a consumer is an atomic maximum of acked stream sequences. When the
stream is recreated its sequences mean something else, so `HandleStreamRecreated` bumps the
stream epoch, resets the checkpoint to zero, seeds it from the consumer's ack floor and
sets a flag for the next build. A message carries the epoch of its dispatch; its ack
advances the checkpoint only if that is still the epoch.

The comparison and the loop that raises the checkpoint are separate steps: an ack that has
passed the comparison before the bump can raise the checkpoint after the reset. A seed has
no comparison at all.

* `late_acks_fenced`: if no ack of an earlier dispatch stands between its comparison and
  the end of its loop when the checkpoint is reset, and no seed with an earlier floor
  (`LoopsEnded`), then the checkpoint never holds the sequence of a message dispatched before
  the bump of a call that has reset it.
* `late_ack_raises_checkpoint`: one dispatch and one recreation.
* `operations_alone`: while nobody else moves, the steps add up to the operations of
  `Recovery.Controller`.

Each load, store and swap is one step. `source` and `fence` are for the record: the epoch
at the dispatch of the message that the checkpoint was taken from, or at the answer that had
the floor, and the highest bump whose call has reset the checkpoint.
-/
import Parti.Lib.Cas
import Parti.Lib.Threads
import Parti.Recovery.Controller
import Mathlib.Data.Fintype.Basic

namespace Parti.Recovery

open Lib Program

/-! ## The controller's cells -/

structure Cells extends Controller where
  source : Option Nat
  fence : Nat
deriving DecidableEq

def Cells.new : Cells := ⟨.new, none, 0⟩

/-- What raises the checkpoint: the ack of a message, with the epoch of its dispatch, a
seed, or the seed of `HandleStreamRecreated`. A seed's epoch is for the record. -/
inductive Raise where
  | ack (seq epoch : Nat)
  | seed (floor epoch : Nat)
  | reseed (floor epoch : Nat)

def Raise.seq : Raise → Nat
  | .ack seq _ => seq
  | .seed floor _ | .reseed floor _ => floor

def Raise.epoch : Raise → Nat
  | .ack _ epoch | .seed _ epoch | .reseed _ epoch => epoch

def raises (seq old : Nat) : Bool := decide (old < seq)

namespace Fence

inductive Pc where
  | idle
  /-- The handler has the message. -/
  | dispatched (seq epoch : Nat)
  /-- `Ack` has succeeded. -/
  | acked (seq epoch : Nat)
  | raising (job : Raise) (loop : CasLoop (raises job.seq))
  /-- `HandleStreamRecreated` has made that bump. -/
  | bumped (bump : Nat)
  /-- It has reset the checkpoint. -/
  | reset
  | seeded

inductive Input where
  | dispatch (seq : Nat)
  | ack
  /-- A nak, an error, or an ack that fails. -/
  | drop
  /-- The ack floor of the consumer, if `Info` succeeds. -/
  | info (floor : Option Nat)
  | handleStreamRecreated
  | go

/-- Where a goroutine is that has raised the checkpoint, or found it high enough. -/
def Raise.after : Raise → Pc
  | .reseed _ _ => .seeded
  | _ => .idle

/-- `SeedCheckpoint` with what `Info` returned: a floor of zero is not seeded. -/
def seedFrom (c : Cells) (job : Nat → Nat → Raise) (other : Pc) : Option Nat → Pc
  | some (floor + 1) => .raising (job (floor + 1) c.streamEpoch) .load
  | _ => other

def next (T : Type) (c : Cells) : Pc → Input → Option (Turn Cells Pc T)
  | .idle, .dispatch seq => some ⟨c, .dispatched seq c.streamEpoch, none⟩
  | .dispatched seq epoch, .ack => some ⟨c, .acked seq epoch, none⟩
  | .dispatched _ _, .drop => some ⟨c, .idle, none⟩
  | .acked seq epoch, .go =>
    if epoch ≠ c.streamEpoch then some ⟨c, .idle, none⟩
    else some ⟨c, .raising (.ack seq epoch) .load, none⟩
  -- a message whose metadata does not parse does not advance
  | .acked _ _, .drop => some ⟨c, .idle, none⟩
  | .raising job loop, .go =>
    match loop.turn job.seq c.maxAckedStreamSeq with
    | (_, .again loop) => some ⟨c, .raising job loop, none⟩
    | (_, .kept) => some ⟨c, Raise.after job, none⟩
    | (seq, .replaced) =>
      some ⟨{ c with maxAckedStreamSeq := seq, source := some job.epoch }, Raise.after job,
        none⟩
  | .idle, .info floor => some ⟨c, seedFrom c .seed .idle floor, none⟩
  | .idle, .handleStreamRecreated =>
    some ⟨{ c with streamEpoch := c.streamEpoch + 1 }, .bumped (c.streamEpoch + 1), none⟩
  | .bumped bump, .go =>
    some ⟨{ c with maxAckedStreamSeq := 0, source := none, fence := max c.fence bump }, .reset,
      none⟩
  | .reset, .info floor => some ⟨c, seedFrom c .reseed .seeded floor, none⟩
  | .seeded, .go => some ⟨{ c with recreatedSinceLastBuild := true }, .idle, none⟩
  | _, _ => none

def program (T : Type) : Program Cells Pc Input T where
  idle pc :=
    match pc with
    | .idle => true
    | _ => false
  next c _ pc input := next T c pc input

def system (T : Type) [DecidableEq T] : System (Pool Cells Pc T) (T × Input) :=
  (program T).system (fun c => c = .new) .idle

/-- In the loop that raises the checkpoint, with a sequence from before that bump. -/
def Pc.late (bump : Nat) : Pc → Bool
  | .raising job _ => decide (job.epoch < bump)
  | _ => false

/-- The checkpoint is reset only when no goroutine is. -/
def LoopsEnded {T : Type} (s : Pool Cells Pc T) (a : T × Input) : Prop :=
  match s.pcs a.1 with
  | .bumped bump => ∀ u, (s.pcs u).late bump = false
  | _ => True

instance {T : Type} [Fintype T] (s : Pool Cells Pc T) (a : T × Input) :
    Decidable (LoopsEnded s a) := by
  unfold LoopsEnded
  split <;> infer_instance

theorem LoopsEnded.late {T : Type} {s} {a}
    (ended : LoopsEnded s a) {bump : Nat} (here : s.pcs a.1 = .bumped bump) (u : T) :
    (s.pcs u).late bump = false := by
  unfold LoopsEnded at ended
  rw [here] at ended
  exact ended u

/-! ## What a step can be -/

inductive Steps (c : Cells) : Pc → Input → Cells → Pc → Prop
  | dispatched (seq) : Steps c .idle (.dispatch seq) c (.dispatched seq c.streamEpoch)
  | acked (seq epoch) : Steps c (.dispatched seq epoch) .ack c (.acked seq epoch)
  | current (seq) :
      Steps c (.acked seq c.streamEpoch) .go c (.raising (.ack seq c.streamEpoch) .load)
  | again (job loop loop') : Steps c (.raising job loop) .go c (.raising job loop')
  | kept (job loop) : Steps c (.raising job loop) .go c (Raise.after job)
  | raised (job loop) : Steps c (.raising job loop) .go
        { c with maxAckedStreamSeq := job.seq, source := some job.epoch } (Raise.after job)
  | seeding (pc job) (answered : job.epoch = c.streamEpoch) :
      Steps c pc (.info (some job.seq)) c (.raising job .load)
  | bumped : Steps c .idle .handleStreamRecreated { c with streamEpoch := c.streamEpoch + 1 }
        (.bumped (c.streamEpoch + 1))
  | reset (bump) : Steps c (.bumped bump) .go
        { c with maxAckedStreamSeq := 0, source := none, fence := max c.fence bump } .reset
  | unseeded (floor) : Steps c .reset (.info floor) c .seeded
  | flagged : Steps c .seeded .go { c with recreatedSinceLastBuild := true } .idle
  | returned (pc input) (unheard : input ≠ .ack) : Steps c pc input c .idle

theorem next_raising {T : Type} {c : Cells} {job : Raise} {loop} {turn}
    (moved : next T c (.raising job loop) .go = some turn) :
    (∃ again, turn = ⟨c, .raising job again, none⟩) ∨
    (job.seq ≤ c.maxAckedStreamSeq ∧ turn = ⟨c, Raise.after job, none⟩) ∨
    turn = ⟨{ c with maxAckedStreamSeq := job.seq, source := some job.epoch }, Raise.after job,
      none⟩ := by
  rcases CasLoop.turn_cases job.seq c.maxAckedStreamSeq loop with
    ⟨again, turned⟩ | ⟨behind, turned⟩ | ⟨-, turned⟩ <;> simp only [next, turned] at moved <;>
    cases moved
  · exact .inl ⟨again, rfl⟩
  · exact .inr (.inl ⟨Nat.le_of_not_lt (of_decide_eq_false behind), rfl⟩)
  · exact .inr (.inr rfl)

theorem next_steps {T : Type} {c : Cells} {pc : Pc} {input : Input}
    {turn} (moved : next T c pc input = some turn) :
    Steps c pc input turn.cells turn.pc ∧ turn.spawned = none := by
  unfold next at moved
  split at moved
  case h_1 seq => cases moved; exact ⟨.dispatched seq, rfl⟩
  case h_2 seq epoch => cases moved; exact ⟨.acked seq epoch, rfl⟩
  case h_3 => cases moved; exact ⟨.returned _ _ nofun, rfl⟩
  case h_4 seq epoch =>
    split_ifs at moved with other
    · cases moved
      exact ⟨.returned _ _ nofun, rfl⟩
    · cases moved
      have same : epoch = c.streamEpoch := not_not.mp other
      subst same
      exact ⟨.current seq, rfl⟩
  case h_5 => cases moved; exact ⟨.returned _ _ nofun, rfl⟩
  case h_6 job loop =>
    obtain ⟨again, rfl⟩ | ⟨-, rfl⟩ | rfl := next_raising moved
    · exact ⟨.again job loop again, rfl⟩
    · exact ⟨.kept job loop, rfl⟩
    · exact ⟨.raised job loop, rfl⟩
  case h_7 floor =>
    cases moved
    unfold seedFrom
    split
    case h_1 floor => exact ⟨.seeding _ (.seed (floor + 1) c.streamEpoch) rfl, rfl⟩
    case h_2 => exact ⟨.returned _ _ nofun, rfl⟩
  case h_8 => cases moved; exact ⟨.bumped, rfl⟩
  case h_9 bump => cases moved; exact ⟨.reset bump, rfl⟩
  case h_10 floor =>
    cases moved
    unfold seedFrom
    split
    case h_1 floor => exact ⟨.seeding _ (.reseed (floor + 1) c.streamEpoch) rfl, rfl⟩
    case h_2 => exact ⟨.unseeded _, rfl⟩
  case h_11 => cases moved; exact ⟨.flagged, rfl⟩
  case h_12 => cases moved

theorem Steps.epoch_le {c c' : Cells} {pc pc' : Pc} {input : Input}
    (steps : Steps c pc input c' pc') : c.streamEpoch ≤ c'.streamEpoch := by
  cases steps with
  | bumped => exact Nat.le_succ _
  | _ => exact le_refl _

theorem program_fixed {T : Type} : (program T).Fixed :=
  fun _ _ _ _ _ moved => (next_steps moved).2

/-! ## An operation while nobody interferes -/

section Solo

variable {T : Type} {t : T} (c : Cells)

attribute [local simp] solo program next CasLoop.turn raises

theorem solo_raise (job : Raise) :
    ∃ inputs c', (program T).solo t c (.raising job .load) inputs = some (c', Raise.after job) ∧
      c'.toController = c.toController.raise job.seq := by
  by_cases ahead : c.maxAckedStreamSeq < job.seq
  · refine ⟨[.go, .go], { c with maxAckedStreamSeq := job.seq, source := some job.epoch }, ?_, ?_⟩
    · simp [ahead]
    · simp [Controller.raise, ahead.le]
  · refine ⟨[.go], c, ?_, ?_⟩
    · simp [ahead]
    · simp [Controller.raise, Nat.le_of_not_lt ahead]

theorem solo_advanceCheckpoint (seq epoch : Nat) :
    ∃ inputs c', (program T).solo t c (.acked seq epoch) inputs = some (c', .idle) ∧
      c'.toController = c.toController.advanceCheckpoint seq epoch := by
  unfold Controller.advanceCheckpoint
  by_cases late : epoch ≠ c.streamEpoch
  · rw [if_pos late]
    exact ⟨[.go], c, solo_cons (if_pos late) [], rfl⟩
  · rw [if_neg late]
    obtain ⟨inputs, c', raised, same⟩ := solo_raise (t := t) c (.ack seq epoch)
    exact ⟨.go :: inputs, c', (solo_cons (if_neg late) inputs).trans raised, same⟩

theorem solo_reseed (info : Option Nat) :
    ∃ inputs c', (program T).solo t c .reset inputs = some (c', .seeded) ∧
      c'.toController = c.toController.seedCheckpoint info := by
  match info with
  | some (floor + 1) =>
    obtain ⟨inputs, c', raised, same⟩ := solo_raise (t := t) c (.reseed (floor + 1) c.streamEpoch)
    refine ⟨.info (some (floor + 1)) :: inputs, c', ?_, ?_⟩
    · exact (solo_cons (P := program T) rfl inputs).trans raised
    · rw [same, Controller.seedCheckpoint, if_pos (Nat.succ_pos floor)]
      rfl
  | some 0 => exact ⟨[.info (some 0)], c, rfl, rfl⟩
  | none => exact ⟨[.info none], c, rfl, rfl⟩

theorem solo_handleStreamRecreated (info : Option Nat) :
    ∃ inputs c', (program T).solo t c .idle inputs = some (c', .idle) ∧
      c'.toController = c.toController.handleStreamRecreated info := by
  obtain ⟨inputs, c', seeded, same⟩ := solo_reseed (T := T) (t := t)
    { c with streamEpoch := c.streamEpoch + 1, maxAckedStreamSeq := 0, source := none
             fence := max c.fence (c.streamEpoch + 1) } info
  refine ⟨.handleStreamRecreated :: .go :: (inputs ++ [.go]),
    { c' with recreatedSinceLastBuild := true }, ?_, ?_⟩
  · exact (solo_append seeded [.go]).trans rfl
  · simp only [Controller.handleStreamRecreated]
    rw [same]

/-- The controller's one-step operations are what their atomic steps add up to, from any
pool in which only one goroutine moves: an ack that has succeeded, and a recreation. -/
theorem operations_alone [DecidableEq T] (pcs : T → Pc) :
    (∀ seq epoch, pcs t = .acked seq epoch → ∃ inputs c',
      (system T).run ⟨c, pcs⟩ (List.map (fun input => (t, input)) inputs) =
          some ⟨c', Function.update pcs t .idle⟩ ∧
        c'.toController = c.toController.advanceCheckpoint seq epoch) ∧
    (∀ info, pcs t = .idle → ∃ inputs c',
      (system T).run ⟨c, pcs⟩ (List.map (fun input => (t, input)) inputs) = some ⟨c', pcs⟩ ∧
        c'.toController = c.toController.handleStreamRecreated info) := by
  refine ⟨fun seq epoch here => ?_, fun info here => ?_⟩
  · obtain ⟨inputs, c', ran, same⟩ := solo_advanceCheckpoint (t := t) c seq epoch
    exact ⟨inputs, c', run_solo (here ▸ ran), same⟩
  · obtain ⟨inputs, c', ran, same⟩ := solo_handleStreamRecreated (t := t) c info
    rw [← here] at ran
    exact ⟨inputs, c', (run_solo ran).trans (by rw [Function.update_eq_self]), same⟩

end Solo

/-! ## The fence -/

/-- The checkpoint is not from before the fence, and no bump is ahead of the epoch. -/
structure Fenced (c : Cells) : Prop where
  after : ∀ epoch, c.source = some epoch → c.fence ≤ epoch
  past : c.fence ≤ c.streamEpoch

/-- What a goroutine may still do to the checkpoint. -/
def Knows (c : Cells) : Pc → Prop
  | .raising job _ => c.fence ≤ job.epoch
  | .bumped bump => bump ≤ c.streamEpoch
  | _ => True

theorem knows_after {c : Cells} (job : Raise) : Knows c (Raise.after job) := by
  cases job <;> trivial

section Steps

variable {c c' : Cells} {pc pc' : Pc} {input : Input}

theorem Steps.fenced (steps : Steps c pc input c' pc') (fenced : Fenced c) (knows : Knows c pc) :
    Fenced c' ∧ Knows c' pc' := by
  cases steps with
  | dispatched | acked | unseeded | returned => exact ⟨fenced, trivial⟩
  | current seq => exact ⟨fenced, fenced.past⟩
  | again job loop loop' => exact ⟨fenced, knows⟩
  | kept job loop => exact ⟨fenced, knows_after job⟩
  | raised job loop =>
    refine ⟨⟨fun epoch taken => ?_, fenced.past⟩, knows_after job⟩
    cases taken
    exact knows
  | seeding pc job answered => exact ⟨fenced, fenced.past.trans answered.ge⟩
  | bumped => exact ⟨⟨fenced.after, Nat.le_succ_of_le fenced.past⟩, le_refl _⟩
  | reset bump => exact ⟨⟨nofun, Nat.max_le.mpr ⟨fenced.past, knows⟩⟩, trivial⟩
  | flagged => exact ⟨⟨fenced.after, fenced.past⟩, trivial⟩

theorem Steps.others (steps : Steps c pc input c' pc') {other : Pc} (knows : Knows c other)
    (ended : ∀ bump, pc = .bumped bump → other.late bump = false) : Knows c' other := by
  cases steps with
  | bumped =>
    cases other with
    | bumped bump => exact Nat.le_succ_of_le knows
    | _ => exact knows
  | reset bump =>
    cases other with
    | raising job loop =>
      have current := ended bump rfl
      simp only [Pc.late, decide_eq_false_iff_not, Nat.not_lt] at current
      exact Nat.max_le.mpr ⟨knows, current⟩
    | _ => exact knows
  | raised | flagged => cases other <;> exact knows
  | _ => exact knows

end Steps

section Runs

variable {T : Type} [DecidableEq T] {s : Pool Cells Pc T}

theorem late_acks_fenced (reached : Reachable (system T) LoopsEnded s) {epoch : Nat}
    (taken : s.cells.source = some epoch) : s.cells.fence ≤ epoch := by
  have fenced := (Reachable.knows_fixed program_fixed (K := fun _ => True) (I := Fenced)
    (N := fun c _ pc => Knows c pc) (fun _ _ => trivial) ?_ ?_ reached).1
  · exact fenced.after epoch taken
  · rintro _ rfl
    exact ⟨⟨nofun, le_refl _⟩, fun _ => trivial⟩
  · intro s t input turn _ ended fenced knows moved
    have steps := (next_steps moved).1
    exact ⟨steps.fenced fenced knows, fun u _ knows =>
      steps.others knows fun bump here => ended.late here u⟩

end Runs

/-! ## An ack between its comparison and its swap -/

def start : Pool Cells Pc Bool := ⟨.new, fun _ => .idle⟩

theorem start_init : (system Bool).init start := ⟨rfl, fun _ => rfl⟩

/-- Message 5 of the old stream is acked after the bump, message 1 of the new one too. -/
def fencedSteps : List (Bool × Input) :=
  [(false, .dispatch 5), (false, .ack), (true, .handleStreamRecreated), (true, .go),
    (false, .go), (true, .info none), (true, .go), (false, .dispatch 1), (false, .ack),
    (false, .go), (false, .go), (false, .go)]

theorem late_acks_fenced_one_recreation :
    ∃ s, Reachable (system Bool) LoopsEnded s ∧ s.cells.maxAckedStreamSeq = 1 ∧
      s.cells.source = some 1 ∧ s.cells.fence ≤ 1 := by
  obtain ⟨s, reached, acked, taken⟩ := exists_reachable LoopsEnded start_init fencedSteps (fun s =>
      s.cells.maxAckedStreamSeq = 1 ∧ s.cells.source = some 1) (by decide)
  exact ⟨s, reached, acked, taken, late_acks_fenced reached taken⟩

/-- The ack of message 5 has passed the comparison; the recreation bumps and resets. -/
def caughtSteps : List (Bool × Input) :=
  [(false, .dispatch 5), (false, .ack), (false, .go), (true, .handleStreamRecreated),
    (true, .go)]

/-- The checkpoint has been reset behind bump 1. Then the ack loads the zero and replaces it:
the checkpoint is 5, of a message dispatched in epoch 0. -/
theorem late_ack_raises_checkpoint :
    ∃ s s', Reachable (system Bool) Free s ∧ s.cells = ⟨⟨1, 0, false⟩, none, 1⟩ ∧
      Reachable ((system Bool).after s) Free s' ∧ s'.cells = ⟨⟨1, 5, false⟩, some 0, 1⟩ := by
  obtain ⟨s, reset, before, s', raised, after⟩ : ∃ s ∈ (system Bool).run start caughtSteps,
      s.cells = ⟨⟨1, 0, false⟩, none, 1⟩ ∧
      ∃ s' ∈ ((system Bool).after s).run s [(false, .go), (false, .go)],
        s'.cells = ⟨⟨1, 5, false⟩, some 0, 1⟩ := by decide
  exact ⟨s, s', run_reachable (M := system Bool) start_init reset, before,
    run_reachable (M := (system Bool).after s) rfl raised, after⟩

end Fence

end Parti.Recovery
