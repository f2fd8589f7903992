/-
# Handoff.Sweep — sweep passes and the reaping of orphaned claims

A sweep pass visits every claim, listed from the bucket or taken from the cache of the
last clean pass. A settled claim whose partition has been absent from the live set for
`OrphanGrace` is deleted, at the revision it was read. `orphanAbsentSince` holds when a
partition was first seen absent, and `unvouchedGen` counts what breaks a run of absence: a
resolution that does not vouch, a sample of lost authority, a delete of unknown outcome.

Passes hold `sweepMu`, whose `TryLock` skips a pass while another is at work. `authMu`
covers a sample, the snapshot of a vouched resolution, and the decision to delete up to
the answer. Samples come from the ticker while a pass of `Apply` runs.

Left to the environment: what `LivePartitions`, the stream probes and the map's order of
iteration give, when a pass starts, and what the other workers and the reconcile arm
write. The generation counter is taken not to wrap. `events` and `foreign` are for the
record.
-/
import Parti.Handoff.Claims
import Parti.Lib.Routine

namespace Parti.Handoff.Sweep

open Parti.Types Lib Lib.Kv Lib.Client

/-! ## Data -/

structure Config where
  sweepInterval : Int
  orphanGrace : Int
  /-- Is there a supplier of the live set? -/
  livePartitions : Bool
  sweepMaxSkips : Nat

inductive Origin where
  | apply
  | ticker
deriving DecidableEq

structure KVStreamPos where
  created : Int
  lastSeq : Nat
  msgs : Nat
  maxAge : Int
  allowMsgTTL : Bool
  subjectDeleteMarkerTTL : Int
deriving DecidableEq

def KVStreamPos.same (p o : KVStreamPos) : Bool :=
  p.created = o.created && p.lastSeq = o.lastSeq && p.msgs = o.msgs

def KVStreamPos.unsafeConfig (p : KVStreamPos) : Bool :=
  p.maxAge ≠ 0 || p.allowMsgTTL || p.subjectDeleteMarkerTTL ≠ 0

inductive Probe where
  | pos (pos : KVStreamPos)
  | failed
  | noProbeHandle

structure OrphanClock where
  since : Int
  gen : Nat
deriving DecidableEq

structure CachedClaim where
  claim : Claim
  rev : Nat
deriving DecidableEq

structure VouchSnapshot where
  now : Int
  gen : Nat
deriving DecidableEq

inductive Event where
  | vouched (live : List Pid) (now : Int)
  | unvouched
  | sampledFalse
  | ambiguous (pid : Pid) (rev : Nat) (now : Int)
deriving DecidableEq

/-- The fields of a coordinator that sweeps use. The mutexes say who holds them. -/
structure Coordinator (T : Type) where
  sweepMu : Option T
  authMu : Option T
  lastSweep : Option Int
  unvouchedGen : Nat
  orphanAbsentSince : Pid → Option OrphanClock
  prober : Bool
  sweepCacheValid : Bool
  sweepCachePos : KVStreamPos
  sweepCache : List (Pid × CachedClaim)
  sweepSkipsSinceFull : Nat
  -- for the record
  events : List Event
  foreign : List (Write Pid Claim)

/-- The variables of a pass. A full pass is `gated` when it went through the probes. -/
structure Pass where
  now : Int
  cached : Bool
  gated : Bool
  latch : Option KVStreamPos
  keys : List Pid
  live : List Pid
  liveOK : Bool
  vouch : VouchSnapshot
  cache : List (Pid × CachedClaim)
  getFailed : Bool
deriving DecidableEq

inductive Pc where
  | idle
  | foreign (write : Write Pid Claim)
  | sweep (origin : Origin)
  | throttle (origin : Origin)
  | probe (now : Int)
  | confirm (now : Int)
  | reprobe (now : Int)
  | list (now : Int) (gated : Bool) (latch : Option KVStreamPos)
  | resolve (pass : Pass)
  | unvouch (pass : Pass)
  | vouch (pass : Pass) (live : List Pid)
  | range (pass : Pass)
  | walk (pass : Pass) (rest : List Pid)
  | get (pass : Pass) (pid : Pid) (rest : List Pid)
  | claim (pass : Pass) (pid : Pid) (cur : CachedClaim) (rest : List Pid)
  | fence (pass : Pass) (pid : Pid) (cur : CachedClaim) (clock : OrphanClock) (rest : List Pid)
  | delete (pass : Pass) (pid : Pid) (rev : Nat) (rest : List Pid)
  | finish (pass : Pass)
  | unlock
deriving DecidableEq

inductive Input where
  | foreign (write : Write Pid Claim)
  | sample (authorized : Bool)
  | sweep (origin : Origin)
  | go
  | cancelled
  | probed (probe : Probe)
  | live (answer : Option (List Pid))
  | range (order : List Pid)

/-! ## The pass -/

section Pass

variable {T : Type}

def Coordinator.clear (e : Coordinator T) (pid : Pid) : Coordinator T :=
  { e with orphanAbsentSince := Function.update e.orphanAbsentSince pid none }

def Coordinator.seed (e : Coordinator T) (pid : Pid) (clock : OrphanClock) : Coordinator T :=
  { e with orphanAbsentSince := Function.update e.orphanAbsentSince pid (some clock) }

/-- The clocks of the partitions that are listed, or that are not in the set. -/
def Coordinator.keep (e : Coordinator T) (kept : Pid → Bool) : Coordinator T :=
  { e with orphanAbsentSince := fun pid => if kept pid then e.orphanAbsentSince pid else none }

/-- Something that no clock may be counted across. -/
def Coordinator.poison (e : Coordinator T) (event : Event) : Coordinator T :=
  { e with unvouchedGen := e.unvouchedGen + 1, events := event :: e.events }

def throttled (cfg : Config) (e : Coordinator T) (now : Int) : Bool :=
  cfg.sweepInterval > 0 && e.lastSweep.any fun last => now - last < cfg.sweepInterval

def sweepProbe (e : Coordinator T) : Probe → Coordinator T × Option KVStreamPos
  | .pos pos => if pos.unsafeConfig then ({ e with sweepCacheValid := false }, none) else (e, some pos)
  | .failed => ({ e with sweepCacheValid := false }, none)
  | .noProbeHandle => ({ e with sweepCacheValid := false, prober := false }, none)

def newPass (now : Int) (gated : Bool) (latch : Option KVStreamPos) (keys : List Pid) : Pass :=
  ⟨now, false, gated, latch, keys, [], false, ⟨0, 0⟩, [], false⟩

def cachedPass (now : Int) : Pass :=
  ⟨now, true, true, none, [], [], false, ⟨0, 0⟩, [], false⟩

/-- The loop of a pass begins; a cached pass takes its keys in any order. -/
def Pass.begin (pass : Pass) : Pc :=
  if pass.cached then .range pass else .walk pass pass.keys

def Coordinator.passed (e : Coordinator T) (gated : Bool) : Coordinator T :=
  if gated then { e with sweepSkipsSinceFull := 0 } else e

def Coordinator.latchCache (e : Coordinator T) (cache : List (Pid × CachedClaim))
    (pos : KVStreamPos) : Coordinator T :=
  { e with sweepCache := cache, sweepCachePos := pos, sweepCacheValid := true }

/-- The end of a full pass: the cache, if the pass came with a position. -/
def Coordinator.latched (e : Coordinator T) (pass : Pass) : Coordinator T :=
  match pass.latch with
  | none => e
  | some pos =>
    if pass.getFailed then { e with sweepCacheValid := false } else e.latchCache pass.cache pos

def Pass.record (pass : Pass) (pid : Pid) (cur : CachedClaim) : Pass :=
  if pass.latch.isSome then
    { pass with cache := (pid, cur) :: pass.cache.filter fun entry => entry.1 ≠ pid }
  else pass

/-- `maybeReapOrphan` up to the fence. -/
def maybeReapOrphan (cfg : Config) (e : Coordinator T) (pass : Pass) (pid : Pid)
    (cur : CachedClaim) (rest : List Pid) : Coordinator T × Pc :=
  if pid ∈ pass.live then (e.clear pid, .walk pass rest)
  else if cur.claim.state ≠ .stable ∨ cur.claim.pendingOwner ≠ "" then (e, .walk pass rest)
  else
    match e.orphanAbsentSince pid with
    | none => (e.seed pid ⟨pass.vouch.now, pass.vouch.gen⟩, .walk pass rest)
    | some clock =>
      if pass.now - clock.since < cfg.orphanGrace then (e, .walk pass rest)
      else (e, .fence pass pid cur clock rest)

/-- `sweepClaim`; a claim that is reconciled is not reaped in this pass. -/
def sweepClaim (cfg : Config) (e : Coordinator T) (pass : Pass) (pid : Pid)
    (cur : CachedClaim) (rest : List Pid) : Coordinator T × Pc :=
  if (sweepReconcile cur.claim pass.now).isSome then (e, .walk pass rest)
  else if pass.liveOK then maybeReapOrphan cfg e pass pid cur rest
  else (e, .walk pass rest)

/-- After the loop. -/
def finishPass (e : Coordinator T) (pass : Pass) : Coordinator T :=
  let listed (pid : Pid) : Bool :=
    if pass.cached then (e.sweepCache.map Prod.fst).contains pid else pass.keys.contains pid
  let e := if pass.liveOK then e.keep listed else e
  if pass.cached then e else (e.latched pass).passed pass.gated

end Pass

section System

variable {T : Type} [DecidableEq T]

def next (cfg : Config) (e : Coordinator T) (t : T) (now : Int) :
    Pc → Input → Option (Turn (Coordinator T) Pc T)
  | .idle, .foreign write => some ⟨{ e with foreign := write :: e.foreign }, .foreign write, none⟩
  | .idle, .sample authorized =>
    if e.authMu = none then some ⟨if authorized then e else e.poison .sampledFalse, .idle, none⟩
    else none
  | .idle, .sweep origin => some ⟨e, .sweep origin, none⟩
  | .sweep origin, .go =>
    if e.sweepMu = none then some ⟨{ e with sweepMu := some t }, .throttle origin, none⟩
    else some ⟨e, .idle, none⟩
  | .throttle origin, .go =>
    if throttled cfg e now then some ⟨e, .unlock, none⟩
    else if origin = .ticker ∧ e.prober = true then
      some ⟨{ e with lastSweep := some now }, .probe now, none⟩
    else some ⟨{ e with lastSweep := some now }, .list now false none, none⟩
  | .probe start, .probed probe =>
    let (e, pos) := sweepProbe e probe
    if pos.any (fun pos => e.sweepCacheValid && pos.same e.sweepCachePos) ∧
        e.sweepSkipsSinceFull < cfg.sweepMaxSkips then some ⟨e, .confirm start, none⟩
    else some ⟨e, .list start true pos, none⟩
  | .confirm start, .go => some ⟨e, .reprobe start, none⟩
  | .confirm _, .cancelled => some ⟨e, .unlock, none⟩
  | .reprobe start, .probed probe =>
    let (e, pos) := sweepProbe e probe
    if pos.any fun pos => pos.same e.sweepCachePos then
      let e := { e with sweepSkipsSinceFull := e.sweepSkipsSinceFull + 1 }
      if e.sweepCache = [] then some ⟨e, .unlock, none⟩
      else some ⟨e, .resolve (cachedPass start), none⟩
    else some ⟨e, .list start true pos, none⟩
  | .resolve pass, .go =>
    if cfg.orphanGrace ≤ 0 ∨ cfg.livePartitions = false then some ⟨e, pass.begin, none⟩ else none
  | .resolve pass, .live answer =>
    if cfg.orphanGrace ≤ 0 ∨ cfg.livePartitions = false then none
    else
      match answer with
      | none => some ⟨e.keep fun _ => false, .unvouch pass, none⟩
      | some live => some ⟨e.keep fun pid => pid ∉ live, .vouch pass live, none⟩
  | .unvouch pass, .go =>
    if e.authMu = none then some ⟨e.poison .unvouched, pass.begin, none⟩ else none
  | .vouch pass live, .go =>
    if e.authMu = none then
      some ⟨{ e with events := .vouched live now :: e.events },
        { pass with live := live, liveOK := true, vouch := ⟨now, e.unvouchedGen⟩ }.begin, none⟩
    else none
  | .range pass, .range order =>
    if order.isPerm (e.sweepCache.map Prod.fst) then some ⟨e, .walk pass order, none⟩ else none
  | .walk pass [], .go => some ⟨e, .finish pass, none⟩
  | .walk pass (pid :: rest), .go =>
    if pass.cached then
      match e.sweepCache.lookup pid with
      | none => some ⟨e, .walk pass rest, none⟩
      | some cur => some ⟨e, .claim pass pid cur rest, none⟩
    else some ⟨e, .get pass pid rest, none⟩
  | .claim pass pid cur rest, .go =>
    let (e, pc) := sweepClaim cfg e pass pid cur rest
    some ⟨e, pc, none⟩
  | .fence pass pid cur clock rest, .go =>
    if e.authMu = none then
      if clock.gen ≠ e.unvouchedGen then some ⟨e.clear pid, .walk pass rest, none⟩
      else some ⟨{ e with authMu := some t }, .delete pass pid cur.rev rest, none⟩
    else none
  | .finish pass, .go => some ⟨finishPass e pass, .unlock, none⟩
  | .unlock, .go => some ⟨{ e with sweepMu := none }, .idle, none⟩
  | _, _ => none

def asks : Pc → Option (Request Pid Claim)
  | .foreign write => some (.write write)
  | .list _ _ _ => some .keys
  | .get _ pid _ => some (.read pid)
  | .delete _ pid rev _ => some (.write (.delete pid rev))
  | _ => none

def told (e : Coordinator T) (now : Int) : Pc → Answer Pid Claim → Option (Coordinator T × Pc)
  | .foreign _, _ => some (e, .idle)
  | .list start gated latch, .keys keys =>
    if keys = [] then
      match latch with
      | none => some (e.passed gated, .unlock)
      | some pos => some ((e.latchCache [] pos).passed gated, .unlock)
    else some (e, .resolve (newPass start gated latch keys))
  | .list _ gated latch, .failed =>
    if latch.isSome then some ({ e with sweepCacheValid := false }.passed gated, .unlock)
    else some (e.passed gated, .unlock)
  | .get pass pid rest, .entry (some live) =>
    some (e, .claim (pass.record pid ⟨live.value, live.revision⟩) pid ⟨live.value, live.revision⟩ rest)
  | .get pass _ rest, .entry none => some (e, .walk pass rest)
  | .get pass _ rest, .failed => some (e, .walk { pass with getFailed := true } rest)
  | .delete pass pid _ rest, .written _ => some ({ e.clear pid with authMu := none }, .walk pass rest)
  | .delete pass _ _ rest, .conflict => some ({ e with authMu := none }, .walk pass rest)
  | .delete pass pid rev rest, .failed =>
    some ({ e.poison (.ambiguous pid rev now) with authMu := none }, .walk pass rest)
  | _, _ => none

variable (T) in
def sweeps (cfg : Config) : Routine (Coordinator T) Pc Input T Pid Claim where
  idle pc := decide (pc = .idle)
  asks := asks
  told e _ now pc answer := told e now pc answer
  next := next cfg

/-- `New`, with or without a prober. -/
structure New (e : Coordinator T) : Prop where
  sweepMu : e.sweepMu = none
  authMu : e.authMu = none
  clocks : e.orphanAbsentSince = fun _ => none
  cache : e.sweepCache = []
  events : e.events = []
  foreign : e.foreign = []

variable (T) in
/-- Every interleaving, from a new coordinator and a bucket with any claims. -/
def system (cfg : Config) : System (State (Pool (Coordinator T) Pc T) Pid Claim) (Action T (T × Input)) :=
  (sweeps T cfg).system (fun w => w.pending = [] ∧ New w.locals) .idle

variable (T) in
def fresh : State (Pool (Coordinator T) Pc T) Pid Claim :=
  ⟨.empty, [], 0, ⟨⟨none, none, none, 0, fun _ => none, false, false, ⟨0, 0, 0, 0, false, 0⟩, [], 0,
    [], []⟩, fun _ => .idle⟩⟩

theorem fresh_init (cfg : Config) : (system T cfg).init (fresh T) :=
  ⟨⟨rfl, rfl, rfl, rfl, rfl, rfl, rfl⟩, fun _ => rfl⟩

end System

/-! ## What a step can be -/

variable {T : Type} {cfg : Config} {e : Coordinator T} {now : Int}

def Coordinator.reaping (e : Coordinator T) :
    Option T × Option T × Nat × (Pid → Option OrphanClock) × List (Pid × CachedClaim) ×
      List Event × List (Write Pid Claim) :=
  (e.sweepMu, e.authMu, e.unvouchedGen, e.orphanAbsentSince, e.sweepCache, e.events, e.foreign)

def Pc.isGate : Pc → Bool
  | .throttle _ | .probe _ | .confirm _ | .reprobe _ => true
  | _ => false

def Pc.start : Pc → Option Int
  | .probe now | .confirm now | .reprobe now | .list now _ _ => some now
  | _ => none

inductive Pc.Gates (now : Int) (pc : Pc) : Pc → Prop
  | on (pc') (gate : pc'.isGate = true)
      (started : ∀ x, pc'.start = some x → pc.start = some x ∨ x = now) : Pc.Gates now pc pc'
  | list (start gated latch) (started : pc.start = some start ∨ start = now) :
      Pc.Gates now pc (.list start gated latch)
  | cached (start) (started : pc.start = some start) : Pc.Gates now pc (.resolve (cachedPass start))
  | out : Pc.Gates now pc .unlock

variable (cfg : Config) (e : Coordinator T) (t : T) (now : Int) in
inductive Steps : Pc → Coordinator T → Pc → Prop
  | foreign (write) : Steps .idle { e with foreign := write :: e.foreign } (.foreign write)
  | sampled : Steps .idle e .idle
  | sampledFalse (free : e.authMu = none) : Steps .idle (e.poison .sampledFalse) .idle
  | called (origin) : Steps .idle e (.sweep origin)
  | locked (origin) (free : e.sweepMu = none) :
      Steps (.sweep origin) { e with sweepMu := some t } (.throttle origin)
  | missed (origin) : Steps (.sweep origin) e .idle
  | gate (pc pc' e') (before : pc.isGate = true) (after : pc.Gates now pc')
      (same : e'.reaping = e.reaping) : Steps pc e' pc'
  | unsupplied (pass) : Steps (.resolve pass) e pass.begin
  | unvouching (pass) : Steps (.resolve pass) (e.keep fun _ => false) (.unvouch pass)
  | vouching (pass live) : Steps (.resolve pass) (e.keep fun pid => pid ∉ live) (.vouch pass live)
  | unvouched (pass) (free : e.authMu = none) :
      Steps (.unvouch pass) (e.poison .unvouched) pass.begin
  | vouched (pass live) (free : e.authMu = none) :
      Steps (.vouch pass live) { e with events := .vouched live now :: e.events }
        { pass with live := live, liveOK := true, vouch := ⟨now, e.unvouchedGen⟩ }.begin
  | range (pass order) : Steps (.range pass) e (.walk pass order)
  | walked (pass) : Steps (.walk pass []) e (.finish pass)
  | absent (pass pid rest) : Steps (.walk pass (pid :: rest)) e (.walk pass rest)
  | cached (pass pid cur rest) (found : (pid, cur) ∈ e.sweepCache) :
      Steps (.walk pass (pid :: rest)) e (.claim pass pid cur rest)
  | get (pass pid rest) : Steps (.walk pass (pid :: rest)) e (.get pass pid rest)
  | kept (pass pid cur rest) : Steps (.claim pass pid cur rest) e (.walk pass rest)
  | alive (pass pid cur rest) : Steps (.claim pass pid cur rest) (e.clear pid) (.walk pass rest)
  | seeded (pass pid cur rest) (vouched : pass.liveOK = true) (out : pid ∉ pass.live) :
      Steps (.claim pass pid cur rest)
        (e.seed pid ⟨pass.vouch.now, pass.vouch.gen⟩) (.walk pass rest)
  | due (pass pid cur rest clock) (stable : cur.claim.state = .stable)
      (unpending : cur.claim.pendingOwner = "") (seen : e.orphanAbsentSince pid = some clock)
      (old : clock.since + cfg.orphanGrace ≤ pass.now) :
      Steps (.claim pass pid cur rest) e (.fence pass pid cur clock rest)
  | discarded (pass pid cur clock rest) :
      Steps (.fence pass pid cur clock rest) (e.clear pid) (.walk pass rest)
  | decided (pass pid cur clock rest) (free : e.authMu = none)
      (unbroken : clock.gen = e.unvouchedGen) :
      Steps (.fence pass pid cur clock rest) { e with authMu := some t }
        (.delete pass pid cur.rev rest)
  | finished (pass) : Steps (.finish pass) (finishPass e pass) .unlock
  | unlocked : Steps .unlock { e with sweepMu := none } .idle

theorem sweepProbe_reaping (e : Coordinator T) (probe : Probe) :
    (sweepProbe e probe).1.reaping = e.reaping := by
  cases probe with
  | pos pos =>
    simp only [sweepProbe]
    split <;> rfl
  | failed => rfl
  | noProbeHandle => rfl

theorem sweepClaim_steps {t : T} {pass : Pass} {pid : Pid} {cur} {rest} :
    Steps cfg e t now (.claim pass pid cur rest) (sweepClaim cfg e pass pid cur rest).1
      (sweepClaim cfg e pass pid cur rest).2 := by
  unfold sweepClaim
  split_ifs with reconciled vouched
  · exact .kept pass pid cur rest
  · unfold maybeReapOrphan
    split_ifs with alive unsettled
    · exact .alive pass pid cur rest
    · exact .kept pass pid cur rest
    · obtain ⟨stable, unpending⟩ := not_or.mp unsettled
      split
      next => exact .seeded pass pid cur rest vouched alive
      next clock seen =>
        split_ifs with young
        · exact .kept pass pid cur rest
        · exact .due pass pid cur rest clock (not_not.mp stable) (not_not.mp unpending) seen
            (by omega)
  · exact .kept pass pid cur rest

theorem next_steps {t : T} {pc : Pc} {input : Input} {turn}
    (moved : next cfg e t now pc input = some turn) :
    Steps cfg e t now pc turn.cells turn.pc ∧ turn.spawned = none := by
  unfold next at moved
  split at moved
  case h_1 => cases moved; exact ⟨.foreign _, rfl⟩
  case h_2 =>
    split_ifs at moved with free <;> cases moved
    · exact ⟨.sampled, rfl⟩
    · exact ⟨.sampledFalse free, rfl⟩
  case h_3 => cases moved; exact ⟨.called _, rfl⟩
  case h_4 =>
    split_ifs at moved with free <;> cases moved
    · exact ⟨.locked _ free, rfl⟩
    · exact ⟨.missed _, rfl⟩
  case h_5 =>
    split_ifs at moved <;> cases moved
    · exact ⟨.gate _ _ _ rfl .out rfl, rfl⟩
    · exact ⟨.gate _ _ _ rfl (.on _ rfl (by rintro _ ⟨⟩; exact .inr rfl)) rfl, rfl⟩
    · exact ⟨.gate _ _ _ rfl (.list _ _ _ (.inr rfl)) rfl, rfl⟩
  case h_6 start probe =>
    have same := sweepProbe_reaping e probe
    generalize sweepProbe e probe = probed at moved same
    dsimp only at moved
    split_ifs at moved <;> cases moved
    · exact ⟨.gate _ _ _ rfl (.on _ rfl (by rintro _ ⟨⟩; exact .inl rfl)) same, rfl⟩
    · exact ⟨.gate _ _ _ rfl (.list _ _ _ (.inl rfl)) same, rfl⟩
  case h_7 =>
    cases moved
    exact ⟨.gate _ _ _ rfl (.on _ rfl (by rintro _ ⟨⟩; exact .inl rfl)) rfl, rfl⟩
  case h_8 => cases moved; exact ⟨.gate _ _ _ rfl .out rfl, rfl⟩
  case h_9 start probe =>
    have same := sweepProbe_reaping e probe
    generalize sweepProbe e probe = probed at moved same
    dsimp only at moved
    split_ifs at moved <;> cases moved
    · exact ⟨.gate _ _ _ rfl .out same, rfl⟩
    · exact ⟨.gate _ _ _ rfl (.cached _ rfl) same, rfl⟩
    · exact ⟨.gate _ _ _ rfl (.list _ _ _ (.inl rfl)) same, rfl⟩
  case h_10 =>
    split_ifs at moved
    cases moved
    exact ⟨.unsupplied _, rfl⟩
  case h_11 =>
    split_ifs at moved
    split at moved <;> cases moved
    · exact ⟨.unvouching _, rfl⟩
    · exact ⟨.vouching _ _, rfl⟩
  case h_12 =>
    split_ifs at moved with free
    cases moved
    exact ⟨.unvouched _ free, rfl⟩
  case h_13 =>
    split_ifs at moved with free
    cases moved
    exact ⟨.vouched _ _ free, rfl⟩
  case h_14 =>
    split_ifs at moved
    cases moved
    exact ⟨.range _ _, rfl⟩
  case h_15 => cases moved; exact ⟨.walked _, rfl⟩
  case h_16 =>
    split_ifs at moved
    · split at moved <;> cases moved
      · exact ⟨.absent _ _ _, rfl⟩
      · next found =>
          obtain ⟨_, _, split_, _⟩ := List.lookup_eq_some_iff.mp found
          exact ⟨.cached _ _ _ _ (by simp [split_]), rfl⟩
    · cases moved
      exact ⟨.get _ _ _, rfl⟩
  case h_17 => cases moved; exact ⟨sweepClaim_steps, rfl⟩
  case h_18 =>
    split_ifs at moved with free broken <;> cases moved
    · exact ⟨.discarded _ _ _ _ _, rfl⟩
    · exact ⟨.decided _ _ _ _ _ free (not_not.mp broken), rfl⟩
  case h_19 => cases moved; exact ⟨.finished _, rfl⟩
  case h_20 => cases moved; exact ⟨.unlocked, rfl⟩
  case h_21 => cases moved

variable (e : Coordinator T) (now : Int) in
inductive Tells : Pc → Answer Pid Claim → Coordinator T → Pc → Prop
  | foreign (write answer) : Tells (.foreign write) answer e .idle
  | listed (start gated latch keys) :
      Tells (.list start gated latch) (.keys keys) e (.resolve (newPass start gated latch keys))
  | unlisted (start gated latch answer e')
      (same : e'.reaping = e.reaping ∨ e'.reaping = { e with sweepCache := [] }.reaping) :
      Tells (.list start gated latch) answer e' .unlock
  | read (pass pid rest live) : Tells (.get pass pid rest) (.entry (some live)) e
        (.claim (pass.record pid ⟨live.value, live.revision⟩) pid ⟨live.value, live.revision⟩ rest)
  | unread (pass pid rest answer failed) :
      Tells (.get pass pid rest) answer e (.walk { pass with getFailed := failed } rest)
  | deleted (pass pid rev rest revision) : Tells (.delete pass pid rev rest) (.written revision)
        { e.clear pid with authMu := none } (.walk pass rest)
  | refused (pass pid rev rest) :
      Tells (.delete pass pid rev rest) .conflict { e with authMu := none } (.walk pass rest)
  | ambiguous (pass pid rev rest) : Tells (.delete pass pid rev rest) .failed
        { e.poison (.ambiguous pid rev now) with authMu := none } (.walk pass rest)

theorem told_tells {e'} {pc pc' : Pc} {answer}
    (moved : told e now pc answer = some (e', pc')) : Tells e now pc answer e' pc' := by
  have passed (e : Coordinator T) (gated : Bool) : (e.passed gated).reaping = e.reaping := by
    unfold Coordinator.passed
    split <;> rfl
  unfold told at moved
  split at moved
  case h_1 => cases moved; exact .foreign _ _
  case h_2 =>
    split_ifs at moved with none_
    · split at moved
      next => cases moved; exact .unlisted _ _ _ _ _ (.inl (passed _ _))
      next => cases moved; exact .unlisted _ _ _ _ _ (.inr (passed _ _))
    · cases moved; exact .listed _ _ _ _
  case h_3 =>
    split_ifs at moved <;> cases moved <;> exact .unlisted _ _ _ _ _ (.inl (passed _ _))
  case h_4 => cases moved; exact .read _ _ _ _
  case h_5 => cases moved; exact .unread _ _ _ _ _
  case h_6 => cases moved; exact .unread _ _ _ _ _
  case h_7 => cases moved; exact .deleted _ _ _ _ _
  case h_8 => cases moved; exact .refused _ _ _ _
  case h_9 => cases moved; exact .ambiguous _ _ _ _
  case h_10 => cases moved

end Parti.Handoff.Sweep
