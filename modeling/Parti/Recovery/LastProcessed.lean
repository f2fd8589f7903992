/-
# Recovery.LastProcessed — where a recreated consumer starts

Under `FromLastProcessed` a lost consumer is recreated right after the checkpoint, the
highest sequence that was acked. The checkpoint says nothing about the sequences below it:
a message that was handed back, or is still with another worker when a later one is acked,
lies before the start. And without a checkpoint the new consumer gets new messages only.

* `recreated_consumer_skips_nothing`: if acks succeed in stream order, and a recovery that
  found no checkpoint creates its consumer only when no message is unacked (`InOrder`), then
  the consumer starts at or before every matching message that was not acked.
* `nacked_message_skipped`: one worker, two messages, one nak.

The controller's steps are those of `Recovery.Fence`. Messages arrive and expire, the
consumer is deleted, recoveries fail and overlap; a message can be delivered any number of
times, acked or not.
-/
import Parti.Recovery.Fence

namespace Parti.Recovery.LastProcessed

open Lib Option

/-! ## The stream and its consumer -/

structure Server where
  lastSeq : Nat
  /-- The sequences in the stream that match the consumer's filter. -/
  messages : List Nat
  /-- For the record: those whose ack has succeeded. -/
  acked : List Nat
  /-- Where the consumer starts, unless it is deleted. -/
  consumer : Option Nat
deriving DecidableEq

namespace Server

variable (server : Server)

def publish (matching : Bool) : Server :=
  { server with
    lastSeq := server.lastSeq + 1
    messages := if matching then (server.lastSeq + 1) :: server.messages else server.messages }

def expire (seq : Nat) : Server :=
  { server with messages := server.messages.filter (· ≠ seq) }

/-- An update of an existing consumer does not move it. -/
def create (cfg : ConsumerConfig) : Server :=
  { server with consumer := some (server.consumer.getD (cfg.start server.lastSeq)) }

/-- A delivery is of a message from the start on, and the ack floor that `Info` returns has
no unacked message below it, from the start on. There is one stream only. -/
def allows : Fence.Input → Bool
  | .dispatch seq =>
    server.consumer.any fun start => decide (start ≤ seq ∧ seq ∈ server.messages)
  | .info (some floor) =>
    server.consumer.any fun start => decide (floor ≤ server.lastSeq ∧
      ∀ seq ∈ server.messages, start ≤ seq → seq ≤ floor → seq ∈ server.acked)
  | .handleStreamRecreated => false
  | _ => true

def heard : Fence.Pc → Fence.Input → Server
  | .dispatched seq _, .ack => { server with acked := seq :: server.acked }
  | _, _ => server

end Server

structure World where
  controller : Cells
  inProgress : Bool
  server : Server

/-! ## Goroutines -/

inductive Pc where
  | run (pc : Fence.Pc)
  /-- In `recover`, with `inProgress` set. -/
  | recovering
  /-- It has read the checkpoint and built the configuration. -/
  | recreating (cfg : ConsumerConfig)

inductive Input where
  | controller (input : Fence.Input)
  | recover
  | go
  /-- The context is done, or the cooldown is in effect. -/
  | skip
  | recreated
  | failed
  | publish (matching : Bool)
  | expire (seq : Nat)
  | delete

def next (T : Type) (w : World) : Pc → Input → Option (Turn World Pc T)
  | .run pc, .controller input =>
    if w.server.allows input then
      match Fence.next T w.controller pc input with
      | some turn =>
        some ⟨{ w with controller := turn.cells, server := w.server.heard pc input },
          .run turn.pc, none⟩
      | none => none
    else none
  | .run .idle, .recover =>
    -- another recovery is in flight
    if w.inProgress then some ⟨w, .run .idle, none⟩
    else some ⟨{ w with inProgress := true }, .recovering, none⟩
  | .recovering, .skip => some ⟨{ w with inProgress := false }, .run .idle, none⟩
  | .recovering, .go =>
    some ⟨w, .recreating (buildConfig consumerConfig .fromLastProcessed
      w.controller.maxAckedStreamSeq false).1, none⟩
  | .recreating _, .failed => some ⟨{ w with inProgress := false }, .run .idle, none⟩
  | .recreating cfg, .recreated =>
    some ⟨{ w with inProgress := false, server := w.server.create cfg }, .run .idle, none⟩
  | .run .idle, .publish matching =>
    some ⟨{ w with server := w.server.publish matching }, .run .idle, none⟩
  | .run .idle, .expire seq => some ⟨{ w with server := w.server.expire seq }, .run .idle, none⟩
  | .run .idle, .delete =>
    some ⟨{ w with server.consumer := none }, .run .idle, none⟩
  | _, _ => none

/-- Sequences start at one, and a consumer starts at or before its unacked messages. -/
structure Server.Served (server : Server) : Prop where
  numbered : ∀ seq ∈ server.messages, 0 < seq ∧ seq ≤ server.lastSeq
  starts : ∀ start, server.consumer = some start → start ≤ server.lastSeq + 1 ∧
    ∀ seq ∈ server.messages, seq ∉ server.acked → start ≤ seq

def program (T : Type) : Program World Pc Input T where
  idle pc :=
    match pc with
    | .run .idle => true
    | _ => false
  next w _ pc input := next T w pc input

/-- From any stream, and any consumer that has skipped nothing so far. -/
def system (T : Type) [DecidableEq T] : System (Pool World Pc T) (T × Input) :=
  (program T).system
    (fun w => w.controller = .new ∧ w.inProgress = false ∧ w.server.Served) (.run .idle)

/-- Acks succeed in stream order, and a consumer for new messages only is created when there
is no other unacked message. -/
def InOrder {T : Type} (s : Pool World Pc T) (a : T × Input) : Prop :=
  match s.pcs a.1, a.2 with
  | .run (.dispatched seq _), .controller .ack =>
    ∀ earlier ∈ s.cells.server.messages, earlier < seq → earlier ∈ s.cells.server.acked
  | .recreating cfg, .recreated =>
    cfg.deliverPolicy = .deliverNew →
      ∀ seq ∈ s.cells.server.messages, seq ∈ s.cells.server.acked
  | _, _ => True

instance {T : Type} (s : Pool World Pc T) (a : T × Input) : Decidable (InOrder s a) := by
  unfold InOrder
  split <;> infer_instance

/-! ## What is acked up to a sequence -/

/-- The stream has come so far, and everything up to there is acked. -/
def Server.Covered (server : Server) (seq : Nat) : Prop :=
  seq ≤ server.lastSeq ∧ ∀ earlier ∈ server.messages, earlier ≤ seq → earlier ∈ server.acked

structure Server.Grows (server server' : Server) : Prop where
  last : server.lastSeq ≤ server'.lastSeq
  acked : ∀ seq ∈ server.acked, seq ∈ server'.acked
  messages : ∀ seq ∈ server'.messages,
    seq ∈ server.messages ∨ server.lastSeq < seq ∧ seq ≤ server'.lastSeq

namespace Server

variable {server server' : Server}

theorem Grows.refl (server : Server) : server.Grows server :=
  ⟨le_refl _, fun _ acked => acked, fun _ here => .inl here⟩

theorem Grows.covered (grows : server.Grows server') {seq : Nat} (covered : server.Covered seq) :
    server'.Covered seq := by
  refine ⟨covered.1.trans grows.last, fun earlier here before => ?_⟩
  obtain here | ⟨fresh, _⟩ := grows.messages earlier here
  · exact grows.acked earlier (covered.2 earlier here before)
  · exact absurd (before.trans covered.1) (Nat.not_le.mpr fresh)

theorem publish_grows (server : Server) (matching : Bool) :
    server.Grows (server.publish matching) := by
  refine ⟨Nat.le_succ _, fun _ acked => acked, fun seq here => ?_⟩
  unfold publish at here
  split_ifs at here
  · obtain rfl | here := List.mem_cons.mp here
    · exact .inr ⟨Nat.lt_succ_self _, le_refl _⟩
    · exact .inl here
  · exact .inl here

theorem expire_grows (server : Server) (seq : Nat) : server.Grows (server.expire seq) :=
  ⟨le_refl _, fun _ acked => acked, fun _ here => .inl (List.mem_of_mem_filter here)⟩

theorem heard_grows (server : Server) (pc : Fence.Pc) (input : Fence.Input) :
    server.Grows (server.heard pc input) := by
  unfold heard
  split
  · exact ⟨le_refl _, fun _ acked => .tail _ acked, fun _ here => .inl here⟩
  · exact .refl server

theorem Served.grow (served : server.Served) (grows : server.Grows server')
    (same : ∀ start, server'.consumer = some start → server.consumer = some start) :
    server'.Served where
  numbered seq here := by
    obtain here | ⟨fresh, within⟩ := grows.messages seq here
    · exact ⟨(served.numbered seq here).1, (served.numbered seq here).2.trans grows.last⟩
    · exact ⟨Nat.zero_lt_of_lt fresh, within⟩
  starts start here := by
    obtain ⟨within, before⟩ := served.starts start (same start here)
    refine ⟨within.trans (Nat.succ_le_succ grows.last), fun seq matching unacked => ?_⟩
    obtain matching | ⟨fresh, _⟩ := grows.messages seq matching
    · exact before seq matching fun acked => unacked (grows.acked seq acked)
    · exact within.trans fresh

theorem Served.covered_zero (served : server.Served) : server.Covered 0 :=
  ⟨Nat.zero_le _, fun seq here none_ => absurd (served.numbered seq here).1 (Nat.not_lt.mpr none_)⟩

theorem heard_consumer (pc : Fence.Pc) (input : Fence.Input) :
    (server.heard pc input).consumer = server.consumer := by
  unfold heard
  split <;> rfl

theorem allows_dispatch {seq : Nat} (allowed : server.allows (.dispatch seq) = true) :
    seq ∈ server.messages := by
  obtain ⟨start, _, here⟩ := (any_eq_true _ _).mp allowed
  exact (of_decide_eq_true here).2

theorem Served.covered_floor (served : server.Served) {floor : Nat}
    (allowed : server.allows (.info (some floor)) = true) : server.Covered floor := by
  obtain ⟨start, bound, answer⟩ := (any_eq_true _ _).mp allowed
  obtain ⟨within, above⟩ := of_decide_eq_true answer
  refine ⟨within, fun seq here below => ?_⟩
  by_cases from_ : start ≤ seq
  · exact above seq here from_ below
  · by_contra unacked
    exact from_ ((served.starts start bound).2 seq here unacked)

end Server

/-! ## What a step can be -/

inductive Moves (w : World) : Pc → Input → World → Pc → Prop
  | controller {pc pc' input c'}
      (allowed : w.server.allows input = true) (steps : Fence.Steps w.controller pc input c' pc') :
      Moves w (.run pc) (.controller input)
        { w with controller := c', server := w.server.heard pc input } (.run pc')
  | entered (inProgress) : Moves w (.run .idle) .recover { w with inProgress } .recovering
  | left (pc input inProgress) : Moves w pc input { w with inProgress } (.run .idle)
  | built : Moves w .recovering .go w (.recreating (buildConfig consumerConfig .fromLastProcessed
        w.controller.maxAckedStreamSeq false).1)
  | recreated (cfg) : Moves w (.recreating cfg) .recreated
        { w with inProgress := false, server := w.server.create cfg } (.run .idle)
  | published (matching) :
      Moves w (.run .idle) (.publish matching) { w with server := w.server.publish matching }
        (.run .idle)
  | expired (seq) :
      Moves w (.run .idle) (.expire seq) { w with server := w.server.expire seq } (.run .idle)
  | deleted : Moves w (.run .idle) .delete { w with server.consumer := none } (.run .idle)

theorem next_moves {T : Type} {w : World} {pc : Pc} {input : Input} {turn}
    (moved : next T w pc input = some turn) :
    Moves w pc input turn.cells turn.pc ∧ turn.spawned = none := by
  unfold next at moved
  split at moved
  case h_1 pc input =>
    split_ifs at moved with allowed
    split at moved
    case h_1 inner stepped =>
      cases moved
      exact ⟨.controller allowed (Fence.next_steps stepped).1, rfl⟩
    case h_2 => cases moved
  case h_2 =>
    split_ifs at moved <;> cases moved
    · exact ⟨.left _ _ w.inProgress, rfl⟩
    · exact ⟨.entered true, rfl⟩
  case h_3 => cases moved; exact ⟨.left _ _ false, rfl⟩
  case h_4 => cases moved; exact ⟨.built, rfl⟩
  case h_5 => cases moved; exact ⟨.left _ _ false, rfl⟩
  case h_6 cfg => cases moved; exact ⟨.recreated cfg, rfl⟩
  case h_7 matching => cases moved; exact ⟨.published matching, rfl⟩
  case h_8 seq => cases moved; exact ⟨.expired seq, rfl⟩
  case h_9 => cases moved; exact ⟨.deleted, rfl⟩
  case h_10 => cases moved

/-! ## The invariant -/

structure Inv (w : World) : Prop where
  served : w.server.Served
  covered : w.server.Covered w.controller.maxAckedStreamSeq

/-- What goes into the checkpoint or into a configuration is covered. -/
def Knows (server : Server) : Pc → Prop
  | .run (.dispatched seq _) => seq ≤ server.lastSeq
  | .run (.acked seq _) => server.Covered seq
  | .run (.raising job _) => server.Covered job.seq
  | .recreating cfg =>
    cfg.deliverPolicy = .deliverNew ∨
      ∃ seq, server.Covered seq ∧ cfg = ⟨.deliverByStartSequence, seq + 1, none⟩
  | _ => True

theorem Knows.grow {server server' : Server} (grows : server.Grows server') {pc : Pc}
    (knows : Knows server pc) : Knows server' pc := by
  cases pc with
  | run pc =>
    cases pc with
    | dispatched seq epoch => exact le_trans knows grows.last
    | acked | raising => exact grows.covered knows
    | _ => trivial
  | recovering => trivial
  | recreating cfg =>
    exact knows.imp_right fun ⟨seq, covered, built⟩ => ⟨seq, grows.covered covered, built⟩

theorem knows_after (server : Server) (job : Raise) :
    Knows server (.run (Fence.Raise.after job)) := by
  cases job <;> trivial

section Moves

variable {w w' : World} {pc pc' : Pc} {input : Input}

theorem Moves.grows (moves : Moves w pc input w' pc') : w.server.Grows w'.server := by
  cases moves with
  | controller allowed steps => exact w.server.heard_grows _ _
  | published matching => exact w.server.publish_grows matching
  | expired seq => exact w.server.expire_grows seq
  | _ => exact ⟨le_refl _, fun _ acked => acked, fun _ here => .inl here⟩

theorem Server.Served.create {server : Server} (served : server.Served) {cfg}
    (knows : Knows server (.recreating cfg))
    (nothing : cfg.deliverPolicy = .deliverNew → ∀ seq ∈ server.messages, seq ∈ server.acked) :
    (server.create cfg).Served where
  numbered := served.numbered
  starts start here := by
    cases existing : server.consumer with
    | some start' =>
      simp only [Server.create, existing, getD_some, some.injEq] at here
      exact here ▸ served.starts start' existing
    | none =>
      simp only [Server.create, existing, getD_none, some.injEq] at here
      subst here
      obtain new | ⟨seq, covered, rfl⟩ := knows
      · simp only [ConsumerConfig.start, new]
        exact ⟨le_refl _, fun seq here unacked => absurd (nothing new seq here) unacked⟩
      · refine ⟨Nat.succ_le_succ covered.1, fun later here unacked => ?_⟩
        by_contra before
        exact unacked (covered.2 later here (Nat.le_of_lt_succ (Nat.not_le.mp before)))

theorem knows_built (server : Server) {checkpoint : Nat} (covered : server.Covered checkpoint) :
    Knows server
      (.recreating (buildConfig consumerConfig .fromLastProcessed checkpoint false).1) := by
  obtain rfl | known := Nat.eq_zero_or_pos checkpoint
  · exact .inl rfl
  · exact .inr ⟨checkpoint, covered, buildConfig_checkpoint consumerConfig known false⟩

theorem steps_keep {c' : Cells} {pc pc'} {input} (inv : Inv w)
    (knows : Knows w.server (.run pc)) (allowed : w.server.allows input = true)
    (ordered : ∀ seq epoch, pc = .dispatched seq epoch → input = .ack →
      ∀ earlier ∈ w.server.messages, earlier < seq → earlier ∈ w.server.acked)
    (steps : Fence.Steps w.controller pc input c' pc') :
    (w.server.heard pc input).Covered c'.maxAckedStreamSeq ∧
      Knows (w.server.heard pc input) (.run pc') := by
  have grows := w.server.heard_grows pc input
  have covered := grows.covered inv.covered
  cases steps with
  | dispatched seq =>
    have here := Server.allows_dispatch allowed
    exact ⟨covered, (inv.served.numbered seq here).2⟩
  | acked seq epoch =>
    refine ⟨covered, knows, fun earlier here upto => ?_⟩
    obtain rfl | before := Nat.eq_or_lt_of_le upto
    · exact .head _
    · exact .tail _ (ordered seq epoch rfl rfl earlier here before)
  | current | again => exact ⟨covered, knows⟩
  | kept job loop => exact ⟨covered, knows_after _ job⟩
  | raised job loop => exact ⟨knows, knows_after _ job⟩
  | seeding pc job answered =>
    exact ⟨covered, grows.covered (inv.served.covered_floor allowed)⟩
  | bumped | unseeded | flagged | returned => exact ⟨covered, trivial⟩
  | reset bump => exact ⟨inv.served.covered_zero, trivial⟩

theorem Moves.inv (moves : Moves w pc input w' pc') (inv : Inv w) (knows : Knows w.server pc)
    {T : Type} {s} {t : T} (cells : s.cells = w) (here : s.pcs t = pc)
    (ordered : InOrder s (t, input)) : Inv w' ∧ Knows w'.server pc' := by
  subst cells
  unfold InOrder at ordered
  simp only [here] at ordered
  cases moves with
  | controller allowed steps =>
    obtain ⟨covered, knows'⟩ := steps_keep inv knows allowed
      (fun seq epoch dispatched ack => by subst dispatched ack; exact ordered) steps
    exact ⟨⟨inv.served.grow (s.cells.server.heard_grows _ _)
      fun start bound => Server.heard_consumer _ _ ▸ bound, covered⟩, knows'⟩
  | entered | left => exact ⟨⟨inv.served, inv.covered⟩, trivial⟩
  | built => exact ⟨inv, knows_built _ inv.covered⟩
  | recreated cfg => exact ⟨⟨inv.served.create knows ordered, inv.covered⟩, trivial⟩
  | published matching =>
    have grows := s.cells.server.publish_grows matching
    exact ⟨⟨inv.served.grow grows fun _ bound => bound, grows.covered inv.covered⟩, trivial⟩
  | expired seq =>
    have grows := s.cells.server.expire_grows seq
    exact ⟨⟨inv.served.grow grows fun _ bound => bound, grows.covered inv.covered⟩, trivial⟩
  | deleted =>
    exact ⟨⟨⟨inv.served.numbered, nofun⟩, inv.covered⟩, trivial⟩

end Moves

/-! ## No unacked message is skipped -/

section Runs

variable {T : Type} [DecidableEq T] {s : Pool World Pc T}

theorem inv_of_reachable (reached : Reachable (system T) InOrder s) : Inv s.cells := by
  refine (Reachable.knows_fixed (fun _ _ _ _ _ moved => (next_moves moved).2)
    (K := fun _ => True) (I := Inv) (N := fun w _ pc => Knows w.server pc)
    (fun _ _ => trivial) ?_ ?_ reached).1
  · rintro ⟨c, inProgress, server⟩ ⟨rfl, -, served⟩
    exact ⟨⟨served, served.covered_zero⟩, fun _ => trivial⟩
  · intro s t input turn _ ordered inv knows moved
    have moves := (next_moves moved).1
    exact ⟨moves.inv inv knows rfl rfl ordered, fun u _ knows => knows.grow moves.grows⟩

theorem recreated_consumer_skips_nothing (reached : Reachable (system T) InOrder s) {start : Nat}
    (bound : s.cells.server.consumer = some start) {seq : Nat}
    (matching : seq ∈ s.cells.server.messages) (unacked : seq ∉ s.cells.server.acked) :
    start ≤ seq :=
  ((inv_of_reachable reached).served.starts start bound).2 seq matching unacked

end Runs

/-! ## A nak, and an ack after it -/

def fresh : Pool World Pc Unit := ⟨⟨.new, false, 0, [], [], some 1⟩, fun _ => .run .idle⟩

theorem fresh_init : (system Unit).init fresh := by
  refine ⟨⟨rfl, rfl, nofun, ?_⟩, fun _ => rfl⟩
  rintro _ ⟨⟩
  exact ⟨le_refl _, nofun⟩

def deliver (seq : Nat) (answer : Fence.Input) : List (Unit × Input) :=
  [((), .controller (.dispatch seq)), ((), .controller answer)]

/-- The rest of `AdvanceCheckpoint`: the comparison, the load, the swap. -/
def advance : List (Unit × Input) :=
  [((), .controller .go), ((), .controller .go), ((), .controller .go)]

def recreate : List (Unit × Input) :=
  [((), .delete), ((), .recover), ((), .go), ((), .recreated)]

def twoMessages : List (Unit × Input) := [((), .publish true), ((), .publish true)]

theorem recreated_consumer_skips_nothing_second_unacked :
    ∃ s, Reachable (system Unit) InOrder s ∧ s.cells.server.consumer = some 2 ∧
      2 ∈ s.cells.server.messages ∧ 2 ∉ s.cells.server.acked ∧ 2 ≤ 2 := by
  obtain ⟨s, reached, bound, matching, unacked⟩ := exists_reachable InOrder fresh_init
    (twoMessages ++ deliver 1 .ack ++ advance ++ recreate) (fun s =>
      s.cells.server.consumer = some 2 ∧ 2 ∈ s.cells.server.messages ∧ 2 ∉ s.cells.server.acked)
    (by decide)
  exact ⟨s, reached, bound, matching, unacked,
    recreated_consumer_skips_nothing reached bound matching unacked⟩

/-- Message 1 is handed back, message 2 acked; the consumer is deleted before 1 comes again.
The new one starts at 3. -/
theorem nacked_message_skipped :
    ∃ s, Reachable (system Unit) Free s ∧ s.cells.server.consumer = some 3 ∧
      1 ∈ s.cells.server.messages ∧ 1 ∉ s.cells.server.acked :=
  exists_reachable _ fresh_init
    (twoMessages ++ deliver 1 .drop ++ deliver 2 .ack ++ advance ++ recreate) _ (by decide)

end Parti.Recovery.LastProcessed
