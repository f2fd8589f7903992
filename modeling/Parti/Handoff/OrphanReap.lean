/-
# Handoff.OrphanReap — a claim is reaped only after an unbroken absence

`orphan_reaping_safe`: while a pass has a delete with the store, the record of this
coordinator shows a `Window`: a vouched resolution at least `OrphanGrace` ago whose set
excludes the partition, and since then nothing but vouched resolutions whose sets
exclude it. The revision the delete names is a claim that was stable with no pending
owner. A delete whose answer never came may be served later; it had its window when it
was asked for.

A clock stands for a window as long as its generation is the current one (`Reaping`):
what breaks windows raises the generation in the same step, and `authMu` keeps it until
the store has answered.
-/
import Parti.Handoff.Sweep

namespace Parti.Handoff.Sweep

open Parti.Types Lib Lib.Kv Lib.Client List

/-! ## Windows -/

def Event.Excludes (pid : Pid) : Event → Prop
  | .vouched live _ => pid ∉ live
  | _ => False

/-- Since a vouched resolution of a time that is `early` the partition was excluded from
every resolution, and all of them vouched; no authority was lost and no delete was
ambiguous. Events are newest first. -/
def Window (pid : Pid) (early : Int → Prop) (events : List Event) : Prop :=
  ∃ between live since older, events = between ++ .vouched live since :: older ∧ early since ∧
    pid ∉ live ∧ ∀ event ∈ between, event.Excludes pid

section Windows

variable {pid : Pid} {early : Int → Prop} {events : List Event}

theorem Window.mono {early'} (window : Window pid early events)
    (weaker : ∀ since, early since → early' since) : Window pid early' events := by
  obtain ⟨between, live, since, older, split, is, out, all⟩ := window
  exact ⟨between, live, since, older, split, weaker since is, out, all⟩

theorem Window.cons (window : Window pid early events) {event : Event}
    (excludes : event.Excludes pid) : Window pid early (event :: events) := by
  obtain ⟨between, live, since, older, rfl, is, out, all⟩ := window
  exact ⟨event :: between, live, since, older, rfl, is, out, forall_mem_cons.mpr ⟨excludes, all⟩⟩

theorem window_now {live} {now : Int} (out : pid ∉ live) (is : early now) :
    Window pid early (.vouched live now :: events) :=
  ⟨[], live, now, events, rfl, is, out, by simp⟩

end Windows

/-! ## The invariant -/

variable {T : Type}

def Held (b : Bucket Pid Claim) (pid : Pid) (cur : CachedClaim) : Prop :=
  ∃ e, b.Stored pid e ∧ e.value = cur.claim ∧ e.revision = cur.rev

def Settled (b : Bucket Pid Claim) (pid : Pid) (rev : Nat) : Prop :=
  ∃ e, b.Stored pid e ∧ e.revision = rev ∧ e.value.state = .stable ∧ e.value.pendingOwner = ""

def Accounted (cfg : Config) (b : Bucket Pid Claim) (events : List Event) : Prop :=
  ∀ newer pid rev now older, events = newer ++ .ambiguous pid rev now :: older →
    Window pid (fun since => since + cfg.orphanGrace ≤ now) older ∧ Settled b pid rev

structure Reaping (cfg : Config) (w : State (Coordinator T) Pid Claim) : Prop where
  clocks : ∀ pid clock, w.locals.orphanAbsentSince pid = some clock →
    clock.gen ≤ w.locals.unvouchedGen ∧
      (clock.gen = w.locals.unvouchedGen → Window pid (· = clock.since) w.locals.events)
  cache : ∀ entry ∈ w.locals.sweepCache, Held w.bucket entry.1 entry.2
  accounted : Accounted cfg w.bucket w.locals.events
  pending : ∀ write ∈ w.pending, write ∈ w.locals.foreign ∨
    ∃ pid rev now, write = .delete pid rev ∧ .ambiguous pid rev now ∈ w.locals.events

structure PassOk (w : State (Coordinator T) Pid Claim) (pass : Pass) : Prop where
  started : pass.now ≤ w.clock
  vouched : pass.liveOK = true → pass.vouch.gen ≤ w.locals.unvouchedGen ∧
    (pass.vouch.gen = w.locals.unvouchedGen →
      ∀ pid, pid ∉ pass.live → Window pid (· = pass.vouch.now) w.locals.events)
  cache : ∀ entry ∈ pass.cache, Held w.bucket entry.1 entry.2

def Place (cfg : Config) (w : State (Coordinator T) Pid Claim) (t : T) : Pc → Prop
  | .foreign write => write ∈ w.locals.foreign
  | .probe now | .confirm now | .reprobe now | .list now _ _ => now ≤ w.clock
  | .resolve pass | .unvouch pass | .range pass | .walk pass _ | .get pass _ _
  | .finish pass => PassOk w pass
  | .vouch pass live => PassOk w pass ∧ ∀ pid ∈ live, w.locals.orphanAbsentSince pid = none
  | .claim pass pid cur _ => PassOk w pass ∧ Held w.bucket pid cur
  | .fence pass pid cur clock _ => PassOk w pass ∧ Settled w.bucket pid cur.rev ∧
      w.locals.orphanAbsentSince pid = some clock ∧ clock.since + cfg.orphanGrace ≤ w.clock
  | .delete pass pid rev _ => PassOk w pass ∧ Settled w.bucket pid rev ∧
      w.locals.authMu = some t ∧
      Window pid (fun since => since + cfg.orphanGrace ≤ w.clock) w.locals.events
  | _ => True

/-- It holds `sweepMu`. -/
def Pc.sweeps : Pc → Bool
  | .idle | .foreign _ | .sweep _ => false
  | _ => true

structure Knows (cfg : Config) (w : State (Coordinator T) Pid Claim) (t : T) (pc : Pc) : Prop where
  sweeper : pc.sweeps = true → w.locals.sweepMu = some t
  place : Place cfg w t pc

variable {cfg : Config} {w w' : State (Coordinator T) Pid Claim} {t u : T} {pc pc' : Pc}

/-! ## Frames -/

/-- What happens beside a pass: the store grows, time passes, and a sample may count. -/
structure Beside (w w' : State (Coordinator T) Pid Claim) : Prop where
  stored : ∀ pid e, w.bucket.Stored pid e → w'.bucket.Stored pid e
  later : w.clock ≤ w'.clock
  sweepMu : w'.locals.sweepMu = w.locals.sweepMu
  authMu : w'.locals.authMu = w.locals.authMu
  clocks : w'.locals.orphanAbsentSince = w.locals.orphanAbsentSince
  foreign : ∀ write ∈ w.locals.foreign, write ∈ w'.locals.foreign
  events : w'.locals.unvouchedGen = w.locals.unvouchedGen ∧ w'.locals.events = w.locals.events ∨
    w.locals.unvouchedGen < w'.locals.unvouchedGen ∧ w.locals.authMu = none

variable {b b' : Bucket Pid Claim} {pid : Pid} {cur : CachedClaim} {pass : Pass}
  {clock : OrphanClock} {e e' : Coordinator T} {a : Action T (T × Input)}
  {spawned : Option (T × Pc)} {answer : Answer Pid Claim} {event : Event} {now : Int}
  {write : Write Pid Claim}

theorem Held.mono (held : Held b pid cur) (stored : ∀ pid e, b.Stored pid e → b'.Stored pid e) :
    Held b' pid cur := by
  obtain ⟨e, here, rest⟩ := held
  exact ⟨e, stored pid e here, rest⟩

theorem Settled.mono {rev : Nat} (settled : Settled b pid rev)
    (stored : ∀ pid e, b.Stored pid e → b'.Stored pid e) : Settled b' pid rev := by
  obtain ⟨e, here, rest⟩ := settled
  exact ⟨e, stored pid e here, rest⟩

theorem PassOk.frame (ok : PassOk w pass)
    (stored : ∀ pid e, w.bucket.Stored pid e → w'.bucket.Stored pid e) (later : w.clock ≤ w'.clock)
    (events : w'.locals.unvouchedGen = w.locals.unvouchedGen ∧ w'.locals.events = w.locals.events ∨
      w.locals.unvouchedGen < w'.locals.unvouchedGen)
    : PassOk w' pass where
  started := ok.started.trans later
  vouched vouches := by
    obtain ⟨le, window⟩ := ok.vouched vouches
    obtain ⟨gen, events⟩ | gen := events
    · rw [gen, events]
      exact ⟨le, window⟩
    · exact ⟨by omega, fun same => by omega⟩
  cache entry mem := (ok.cache entry mem).mono stored

theorem PassOk.beside (ok : PassOk w pass) (beside : Beside w w') : PassOk w' pass :=
  ok.frame beside.stored beside.later (beside.events.imp_right And.left)

theorem Place.beside (place : Place cfg w t pc) (beside : Beside w w') : Place cfg w' t pc := by
  have later := beside.later
  unfold Place at place ⊢
  split
  · exact beside.foreign _ place
  any_goals exact le_trans place later
  any_goals exact PassOk.beside place beside
  · exact ⟨place.1.beside beside, beside.clocks ▸ place.2⟩
  · exact ⟨place.1.beside beside, place.2.mono beside.stored⟩
  · obtain ⟨ok, settled, clock, old⟩ := place
    exact ⟨ok.beside beside, settled.mono beside.stored, beside.clocks ▸ clock, old.trans later⟩
  · obtain ⟨ok, settled, mine, window⟩ := place
    -- the delete is with the store, so no sample was taken
    obtain ⟨_, events⟩ | ⟨_, free⟩ := beside.events
    · refine ⟨ok.beside beside, settled.mono beside.stored, beside.authMu.trans mine, ?_⟩
      rw [events]
      exact window.mono fun since old => old.trans later
    · rw [mine] at free
      cases free
  · trivial

theorem Reaping.frame (reaping : Reaping cfg w)
    (stored : ∀ pid e, w.bucket.Stored pid e → w'.bucket.Stored pid e)
    (gen : w'.locals.unvouchedGen = w.locals.unvouchedGen)
    (events : w'.locals.events = w.locals.events)
    (clocks : ∀ pid clock, w'.locals.orphanAbsentSince pid = some clock →
      w.locals.orphanAbsentSince pid = some clock)
    (cache : ∀ entry ∈ w'.locals.sweepCache, entry ∈ w.locals.sweepCache ∨
      Held w'.bucket entry.1 entry.2)
    (pending : ∀ write ∈ w'.pending, write ∈ w.pending ∨ write ∈ w'.locals.foreign)
    (foreign : ∀ write ∈ w.locals.foreign, write ∈ w'.locals.foreign) : Reaping cfg w' where
  clocks pid clock seen := by
    rw [gen, events]
    exact reaping.clocks pid clock (clocks pid clock seen)
  cache entry mem := (cache entry mem).elim (fun old => (reaping.cache entry old).mono stored) id
  accounted newer pid rev now older split := by
    obtain ⟨window, settled⟩ := reaping.accounted newer pid rev now older (events ▸ split)
    exact ⟨window, settled.mono stored⟩
  pending write mem := by
    obtain old | new := pending write mem
    · rw [events]
      exact (reaping.pending write old).imp_left (foreign write)
    · exact .inl new

theorem Accounted.cons {events} (accounted : Accounted cfg b events)
    (new : ∀ pid rev now, event = .ambiguous pid rev now →
      Window pid (fun since => since + cfg.orphanGrace ≤ now) events ∧ Settled b pid rev) :
    Accounted cfg b (event :: events) := by
  intro newer pid rev now older split
  cases newer with
  | nil =>
    obtain ⟨rfl, rfl⟩ := List.cons.inj split
    exact new pid rev now rfl
  | cons first newer =>
    obtain ⟨_, rest⟩ := List.cons.inj split
    exact accounted newer pid rev now older rest

theorem Reaping.poison (reaping : Reaping cfg w)
    (new : ∀ pid rev now, event = .ambiguous pid rev now →
      Window pid (fun since => since + cfg.orphanGrace ≤ now) w.locals.events ∧
        Settled w.bucket pid rev) : Reaping cfg { w with locals := w.locals.poison event } where
  clocks pid clock seen := by
    have le := (reaping.clocks pid clock seen).1
    simp only [Coordinator.poison]
    exact ⟨by omega, fun same => by omega⟩
  cache := reaping.cache
  accounted := reaping.accounted.cons new
  pending write mem := by
    refine (reaping.pending write mem).imp_right ?_
    rintro ⟨pid, rev, now, is, there⟩
    exact ⟨pid, rev, now, is, .tail _ there⟩

theorem Reaping.vouched (reaping : Reaping cfg w) {live}
    (cleared : ∀ pid ∈ live, w.locals.orphanAbsentSince pid = none) :
    Reaping cfg { w with locals.events := .vouched live w.clock :: w.locals.events }
    where
  clocks pid clock seen := by
    obtain ⟨le, window⟩ := reaping.clocks pid clock seen
    refine ⟨le, fun same => (window same).cons fun alive => ?_⟩
    rw [cleared pid alive] at seen
    cases seen
  cache := reaping.cache
  accounted := reaping.accounted.cons nofun
  pending write mem := by
    refine (reaping.pending write mem).imp_right ?_
    rintro ⟨pid, rev, now, is, there⟩
    exact ⟨pid, rev, now, is, .tail _ there⟩

theorem Reaping.seed (reaping : Reaping cfg w) (le : clock.gen ≤ w.locals.unvouchedGen)
    (window : clock.gen = w.locals.unvouchedGen → Window pid (· = clock.since) w.locals.events) :
    Reaping cfg { w with locals := w.locals.seed pid clock } where
  clocks pid' clock' seen := by
    by_cases same : pid' = pid
    · subst same
      obtain rfl : clock = clock' := by simpa [Coordinator.seed] using seen
      exact ⟨le, window⟩
    · exact reaping.clocks pid' clock' (by simpa [Coordinator.seed, same] using seen)
  cache := reaping.cache
  accounted := reaping.accounted
  pending := reaping.pending

theorem keep_clock {kept} (seen : (e.keep kept).orphanAbsentSince pid = some clock) :
    e.orphanAbsentSince pid = some clock := by
  simp only [Coordinator.keep] at seen
  split at seen
  · exact seen
  · cases seen

theorem clear_clock {pid' : Pid} (seen : (e.clear pid).orphanAbsentSince pid' = some clock) :
    e.orphanAbsentSince pid' = some clock := by
  by_cases same : pid' = pid
  · subst same
    simp [Coordinator.clear] at seen
  · simpa [Coordinator.clear, same] using seen

theorem place_begin (ok : PassOk w pass) : Place cfg w t pass.begin := by
  unfold Pass.begin
  split <;> exact ok

theorem Held.settled (held : Held b pid cur) (stable : cur.claim.state = .stable)
    (unpending : cur.claim.pendingOwner = "") :
    Settled b pid cur.rev := by
  obtain ⟨e, stored, value, revision⟩ := held
  exact ⟨e, stored, revision, value ▸ stable, value ▸ unpending⟩

theorem Place.start_le {x : Int} (place : Place cfg w t pc) (started : pc.start = some x) :
    x ≤ w.clock := by
  cases pc <;> cases started <;> exact place

theorem place_gate (gate : pc.isGate = true) (started : ∀ x, pc.start = some x → x ≤ w.clock) :
    Place cfg w t pc := by
  cases pc <;> first | trivial | exact started _ rfl

theorem Pc.sweeps_of_isGate (gate : pc.isGate = true) : pc.sweeps = true := by
  cases pc <;> first | rfl | cases gate

structure Ends (e e' : Coordinator T) (pass : Pass) : Prop where
  sweepMu : e'.sweepMu = e.sweepMu
  gen : e'.unvouchedGen = e.unvouchedGen
  events : e'.events = e.events
  foreign : e'.foreign = e.foreign
  clocks : ∀ pid clock, e'.orphanAbsentSince pid = some clock → e.orphanAbsentSince pid = some clock
  cache : ∀ entry ∈ e'.sweepCache, entry ∈ e.sweepCache ∨ entry ∈ pass.cache

theorem Ends.latched (ends : Ends e e' pass) :
    Ends e (e'.latched pass) pass := by
  unfold Coordinator.latched
  split
  · exact ends
  · split
    · exact { ends with }
    · exact { ends with cache := fun _ => .inr }

theorem Ends.passed (ends : Ends e e' pass) (gated : Bool) :
    Ends e (e'.passed gated) pass := by
  unfold Coordinator.passed
  split
  · exact { ends with }
  · exact ends

theorem finishPass_ends (e : Coordinator T) (pass : Pass) : Ends e (finishPass e pass) pass := by
  have same : Ends e e pass := ⟨rfl, rfl, rfl, rfl, fun _ _ => id, fun _ => .inl⟩
  have pruned (kept : Pid → Bool) : Ends e (e.keep kept) pass :=
    { same with clocks := fun _ _ => keep_clock }
  unfold finishPass
  dsimp only
  split_ifs
  · exact pruned _
  · exact same
  · exact (pruned _).latched.passed _
  · exact same.latched.passed _

/-! ## Steps -/

theorem Steps.reaping (steps : Steps cfg w.locals t w.clock pc e' pc') (reaping : Reaping cfg w)
    (knows : Knows cfg w t pc) :
    Reaping cfg { w with locals := e' } ∧ Knows cfg { w with locals := e' } t pc' := by
  have place := knows.place
  have calm {e' : Coordinator T} {pass : Pass} (gen : e'.unvouchedGen = w.locals.unvouchedGen)
      (events : e'.events = w.locals.events) (ok : PassOk w pass) :
      PassOk { w with locals := e' } pass :=
    ok.frame (fun _ _ => id) (le_refl w.clock) (.inl ⟨gen, events⟩)
  have still {e' : Coordinator T} (gen : e'.unvouchedGen = w.locals.unvouchedGen)
      (events : e'.events = w.locals.events) (cache : e'.sweepCache = w.locals.sweepCache)
      (foreign : e'.foreign = w.locals.foreign)
      (clocks : ∀ pid clock, e'.orphanAbsentSince pid = some clock →
        w.locals.orphanAbsentSince pid = some clock) : Reaping cfg { w with locals := e' } :=
    reaping.frame (fun _ _ => id) gen events clocks (fun _ mem => .inl (cache ▸ mem))
      (fun _ => .inl) fun _ mem => foreign ▸ mem
  cases steps with
  | foreign write =>
    refine ⟨reaping.frame (fun _ _ => id) rfl rfl (fun _ _ => id) (fun _ => .inl) (fun _ => .inl)
      fun _ mem => .tail _ mem, nofun, .head _⟩
  | sampled | called | missed => exact ⟨reaping, nofun, trivial⟩
  | sampledFalse free => exact ⟨reaping.poison nofun, nofun, trivial⟩
  | locked origin free =>
    exact ⟨still rfl rfl rfl rfl fun _ _ => id, fun _ => rfl, trivial⟩
  | gate _ _ _ before after same =>
    simp only [Coordinator.reaping, Prod.mk.injEq] at same
    obtain ⟨sweepMu, authMu, gen, clocks, cache, events, foreign⟩ := same
    refine ⟨still gen events cache foreign fun _ _ seen => clocks ▸ seen, fun _ => ?_, ?_⟩
    · exact sweepMu.trans (knows.sweeper (Pc.sweeps_of_isGate before))
    · cases after with
      | on _ gate started =>
        refine place_gate gate fun x is => ?_
        obtain old | rfl := started x is
        · exact place.start_le old
        · exact le_refl w.clock
      | list start gated latch started =>
        obtain old | rfl := started
        · exact place.start_le old
        · exact le_refl w.clock
      | cached start started => exact ⟨place.start_le started, nofun, nofun⟩
      | out => trivial
  | unsupplied pass => exact ⟨reaping, fun _ => knows.sweeper rfl, place_begin place⟩
  | unvouching pass =>
    exact ⟨still rfl rfl rfl rfl fun _ _ => keep_clock, fun _ => knows.sweeper rfl,
      calm rfl rfl place⟩
  | vouching pass live =>
    refine ⟨still rfl rfl rfl rfl fun _ _ => keep_clock, fun _ => knows.sweeper rfl,
      calm rfl rfl place, fun pid alive => ?_⟩
    simp [Coordinator.keep, alive]
  | unvouched pass free =>
    refine ⟨reaping.poison nofun, fun _ => knows.sweeper rfl, place_begin ?_⟩
    exact PassOk.frame place (fun _ _ => id) (le_refl w.clock) (.inr (Nat.lt_succ_self _))
  | vouched pass live free =>
    obtain ⟨ok, cleared⟩ := place
    refine ⟨reaping.vouched cleared, fun _ => knows.sweeper rfl, place_begin ?_⟩
    exact ⟨ok.started, fun _ => ⟨le_refl _, fun _ pid out => window_now out rfl⟩, ok.cache⟩
  | range | walked | absent | get => exact ⟨reaping, fun _ => knows.sweeper rfl, place⟩
  | cached pass pid cur rest found =>
    exact ⟨reaping, fun _ => knows.sweeper rfl, place, reaping.cache _ found⟩
  | kept pass pid cur rest => exact ⟨reaping, fun _ => knows.sweeper rfl, place.1⟩
  | alive | discarded =>
    exact ⟨still rfl rfl rfl rfl fun _ _ => clear_clock, fun _ => knows.sweeper rfl,
      calm rfl rfl place.1⟩
  | seeded pass pid cur rest vouched out =>
    obtain ⟨le, window⟩ := place.1.vouched vouched
    exact ⟨reaping.seed le fun same => window same pid out, fun _ => knows.sweeper rfl,
      calm rfl rfl place.1⟩
  | due pass pid cur rest clock stable unpending seen old =>
    obtain ⟨ok, held⟩ := place
    exact ⟨reaping, fun _ => knows.sweeper rfl, ok, held.settled stable unpending, seen,
      old.trans ok.started⟩
  | decided pass pid cur clock rest free unbroken =>
    obtain ⟨ok, settled, seen, old⟩ := place
    refine ⟨still rfl rfl rfl rfl fun _ _ => id, fun _ => knows.sweeper rfl, calm rfl rfl ok,
      settled, rfl, ?_⟩
    -- no window was broken since the clock started, so it stands for one
    exact ((reaping.clocks pid clock seen).2 unbroken).mono (by rintro _ rfl; exact old)
  | finished pass =>
    have ends := finishPass_ends w.locals pass
    refine ⟨reaping.frame (fun _ _ => id) ends.gen ends.events ends.clocks (fun entry mem => ?_)
      (fun _ => .inl) fun _ mem => ends.foreign ▸ mem,
      fun _ => ends.sweepMu.trans (knows.sweeper rfl), trivial⟩
    exact (ends.cache entry mem).imp_right (place.cache entry)
  | unlocked => exact ⟨still rfl rfl rfl rfl fun _ _ => id, nofun, trivial⟩

theorem PassOk.record (ok : PassOk w pass) (held : Held w.bucket pid cur) :
    PassOk w (pass.record pid cur) := by
  unfold Pass.record
  split
  · refine { ok with cache := fun entry mem => ?_ }
    obtain rfl | old := mem_cons.mp mem
    · exact held
    · exact ok.cache entry (mem_of_mem_filter old)
  · exact ok

theorem Tells.reaping (tells : Tells w.locals w.clock pc answer e' pc') (reaping : Reaping cfg w)
    (knows : Knows cfg w t pc) (stored : ∀ pid e, w.bucket.Stored pid e → b'.Stored pid e)
    (read : ∀ pass pid rest live, pc = .get pass pid rest → answer = .entry (some live) →
      b'.Stored pid live) :
    Reaping cfg { w with bucket := b', locals := e' } ∧
      Knows cfg { w with bucket := b', locals := e' } t pc' := by
  have place := knows.place
  have calm {e' : Coordinator T} {pass : Pass} (gen : e'.unvouchedGen = w.locals.unvouchedGen)
      (events : e'.events = w.locals.events) (ok : PassOk w pass) :
      PassOk { w with bucket := b', locals := e' } pass :=
    ok.frame stored (le_refl w.clock) (.inl ⟨gen, events⟩)
  have still {e' : Coordinator T} (gen : e'.unvouchedGen = w.locals.unvouchedGen)
      (events : e'.events = w.locals.events)
      (cache : ∀ entry ∈ e'.sweepCache, entry ∈ w.locals.sweepCache)
      (foreign : e'.foreign = w.locals.foreign)
      (clocks : ∀ pid clock, e'.orphanAbsentSince pid = some clock →
        w.locals.orphanAbsentSince pid = some clock) :
      Reaping cfg { w with bucket := b', locals := e' } :=
    reaping.frame stored gen events clocks (fun entry mem => .inl (cache entry mem))
      (fun _ => .inl) fun _ mem => foreign ▸ mem
  have same : Reaping cfg { w with bucket := b' } := still rfl rfl (fun _ => id) rfl fun _ _ => id
  cases tells with
  | foreign write answer => exact ⟨same, nofun, trivial⟩
  | listed start gated latch keys =>
    exact ⟨same, fun _ => knows.sweeper rfl, place, nofun, nofun⟩
  | unlisted start gated latch answer _ fields =>
    have fields : e'.sweepMu = w.locals.sweepMu ∧ e'.unvouchedGen = w.locals.unvouchedGen ∧
        e'.orphanAbsentSince = w.locals.orphanAbsentSince ∧
        (∀ entry ∈ e'.sweepCache, entry ∈ w.locals.sweepCache) ∧
        e'.events = w.locals.events ∧ e'.foreign = w.locals.foreign := by
      simp only [Coordinator.reaping, Prod.mk.injEq] at fields
      obtain ⟨sweepMu, _, gen, clocks, cache, events, foreign⟩ |
        ⟨sweepMu, _, gen, clocks, cache, events, foreign⟩ := fields
      · exact ⟨sweepMu, gen, clocks, fun _ mem => cache ▸ mem, events, foreign⟩
      · exact ⟨sweepMu, gen, clocks, fun _ mem => by simp [cache] at mem, events, foreign⟩
    obtain ⟨sweepMu, gen, clocks, cache, events, foreign⟩ := fields
    exact ⟨still gen events cache foreign fun _ _ seen => clocks ▸ seen,
      fun _ => sweepMu.trans (knows.sweeper rfl), trivial⟩
  | read pass pid rest live =>
    have held : Held b' pid ⟨live.value, live.revision⟩ :=
      ⟨live, read pass pid rest live rfl rfl, rfl, rfl⟩
    exact ⟨same, fun _ => knows.sweeper rfl, (calm rfl rfl place).record held, held⟩
  | unread pass pid rest answer failed =>
    exact ⟨same, fun _ => knows.sweeper rfl, { calm rfl rfl place with }⟩
  | deleted pass pid rev rest revision =>
    exact ⟨still rfl rfl (fun _ => id) rfl fun _ _ => clear_clock, fun _ => knows.sweeper rfl,
      calm rfl rfl place.1⟩
  | refused pass pid rev rest =>
    exact ⟨still rfl rfl (fun _ => id) rfl fun _ _ => id, fun _ => knows.sweeper rfl,
      calm rfl rfl place.1⟩
  | ambiguous pass pid rev rest =>
    obtain ⟨ok, settled, _, window⟩ := place
    refine ⟨?_, fun _ => knows.sweeper rfl,
      ok.frame stored (le_refl w.clock) (.inr (Nat.lt_succ_self _))⟩
    have poisoned : Reaping cfg { w with
        bucket := b', locals := w.locals.poison (.ambiguous pid rev w.clock) } :=
      same.poison (by rintro _ _ _ ⟨⟩; exact ⟨window, settled.mono stored⟩)
    exact { poisoned with }

theorem Reaping.pend (reaping : Reaping cfg w) (new : write ∈ w.locals.foreign ∨
      ∃ pid rev now, write = .delete pid rev ∧ .ambiguous pid rev now ∈ w.locals.events) :
    Reaping cfg { w with pending := write :: w.pending } :=
  { reaping with pending := forall_mem_cons.mpr ⟨new, reaping.pending⟩ }

theorem Steps.foreign_mono (steps : Steps cfg e t now pc e' pc') :
    ∀ write ∈ e.foreign, write ∈ e'.foreign := by
  cases steps with
  | foreign write => exact fun _ mem => .tail _ mem
  | gate _ _ _ before after same =>
    simp only [Coordinator.reaping, Prod.mk.injEq] at same
    exact fun _ mem => same.2.2.2.2.2.2 ▸ mem
  | finished pass => exact fun _ mem => (finishPass_ends e pass).foreign ▸ mem
  | _ => exact fun _ => id

theorem Tells.foreign_mono (tells : Tells e now pc answer e' pc') :
    ∀ write ∈ e.foreign, write ∈ e'.foreign := by
  cases tells with
  | unlisted start gated latch answer _ same =>
    simp only [Coordinator.reaping, Prod.mk.injEq] at same
    obtain same | same := same
    · exact fun _ mem => same.2.2.2.2.2.2 ▸ mem
    · exact fun _ mem => same.2.2.2.2.2.2 ▸ mem
  | _ => exact fun _ => id

theorem does_foreign_mono (does : Does (sweeps T cfg) w t pc a w' pc' spawned) :
    ∀ write ∈ w.locals.foreign, write ∈ w'.locals.foreign := by
  cases does with
  | next input turn moved => exact (next_steps moved).1.foreign_mono
  | wrote _ _ _ _ _ told | heard _ _ _ _ _ told | late _ _ _ _ told =>
    exact (told_tells told).foreign_mono

theorem does_beside (does : Does (sweeps T cfg) w t pc a w' pc' spawned) (out : pc.sweeps = false)
    (busy : w.locals.sweepMu ≠ none) : Beside w w' := by
  have foreign := does_foreign_mono does
  have idle {answer : Answer Pid Claim} {e' : Coordinator T}
      (tells : Tells w.locals w.clock pc answer e' pc') : e' = w.locals := by
    cases tells <;> first | rfl | cases out
  cases does with
  | next input turn moved =>
    obtain ⟨steps, _⟩ := next_steps moved
    generalize turn.cells = e' at steps foreign ⊢
    generalize turn.pc = pc' at steps
    have calm : e'.reaping = w.locals.reaping ∨ e' = w.locals.poison .sampledFalse ∧
        w.locals.authMu = none ∨ ∃ write, e' = { w.locals with foreign := write :: w.locals.foreign } := by
      cases steps with
      | foreign write => exact .inr (.inr ⟨write, rfl⟩)
      | sampledFalse free => exact .inr (.inl ⟨rfl, free⟩)
      | locked origin free => exact absurd free busy
      | gate _ _ _ before after same => exact .inl same
      | sampled | called | missed => exact .inl rfl
      | _ => cases out
    obtain same | ⟨rfl, free⟩ | ⟨write, rfl⟩ := calm
    · simp only [Coordinator.reaping, Prod.mk.injEq] at same
      obtain ⟨sweepMu, authMu, gen, clocks, cache, events, _⟩ := same
      exact ⟨fun _ _ => id, le_refl _, sweepMu, authMu, clocks, foreign, .inl ⟨gen, events⟩⟩
    · exact ⟨fun _ _ => id, le_refl _, rfl, rfl, rfl, foreign, .inr ⟨Nat.lt_succ_self _, free⟩⟩
    · exact ⟨fun _ _ => id, le_refl _, rfl, rfl, rfl, foreign, .inl ⟨rfl, rfl⟩⟩
  | wrote write cells pc' asked accepted told =>
    obtain rfl := idle (told_tells told)
    exact ⟨fun _ _ stored => stored.append _ _ _, le_refl _, rfl, rfl, rfl, foreign, .inl ⟨rfl, rfl⟩⟩
  | heard _ _ _ _ _ told | late _ _ _ _ told =>
    obtain rfl := idle (told_tells told)
    exact ⟨fun _ _ => id, le_refl _, rfl, rfl, rfl, foreign, .inl ⟨rfl, rfl⟩⟩

theorem Knows.others {pcs : T → Pc} (knows : ∀ u, Knows cfg w u (pcs u))
    (does : Does (sweeps T cfg) w t (pcs t) a w' pc' spawned) (other : u ≠ t) :
    Knows cfg w' u (pcs u) := by
  cases sweeping : (pcs u).sweeps with
  | false =>
    refine ⟨fun sweeps => ?_, ?_⟩
    · rw [sweeping] at sweeps
      cases sweeps
    · have place := (knows u).place
      generalize pcs u = pc at sweeping place
      cases pc with
      | foreign write => exact does_foreign_mono does write place
      | idle | sweep => trivial
      | _ => cases sweeping
  | true =>
    have mine := (knows u).sweeper sweeping
    have out : (pcs t).sweeps = false := by
      by_contra sweeps
      have := (knows t).sweeper (by simpa using sweeps)
      rw [mine] at this
      exact other (Option.some.inj this)
    have beside := does_beside does out (by simp [mine])
    exact ⟨fun _ => beside.sweepMu.trans mine, (knows u).place.beside beside⟩

theorem late_pending (asked : asks pc = some (.write write)) (place : Place cfg w t pc)
    (tells : Tells w.locals w.clock pc .failed e' pc') :
    write ∈ e'.foreign ∨
      ∃ pid rev now, write = .delete pid rev ∧ .ambiguous pid rev now ∈ e'.events := by
  cases pc with
  | foreign write' =>
    cases asked
    exact .inl (tells.foreign_mono _ place)
  | delete pass pid rev rest =>
    cases asked
    cases tells with
    | ambiguous _ _ _ _ => exact .inr ⟨pid, rev, w.clock, rfl, .head _⟩
  | _ => cases asked

/-! ## Every run -/

variable [DecidableEq T]

theorem reaping_of_reachable {s} {ok} (reached : Reachable (system T cfg) ok s) :
    Reaping cfg (world s) ∧ ∀ t, Knows cfg (world s) t (s.locals.pcs t) := by
  refine Reachable.routine (F := fun _ => True) (I := Reaping cfg) (N := Knows cfg)
    (fun _ _ => trivial) ?_ ?_ ?_ reached
  · intro w starts
    obtain ⟨none_, new⟩ := starts
    refine ⟨⟨fun pid clock seen => ?_, fun entry mem => ?_, fun newer pid rev now older split => ?_,
      fun write mem => ?_⟩, fun t => ⟨nofun, trivial⟩⟩
    · rw [new.clocks] at seen
      cases seen
    · rw [new.cache] at mem
      cases mem
    · rw [new.events] at split
      simp at split
    · rw [none_] at mem
      cases mem
  · intro s t a w' pc' spawned _ _ reaping knows does
    have others : ∀ u, u ≠ t → Knows cfg w' u (s.locals.pcs u) :=
      fun u => Knows.others knows does
    cases does with
    | next input turn moved =>
      obtain ⟨steps, none_⟩ := next_steps moved
      obtain ⟨reaping', own⟩ := steps.reaping reaping (knows t)
      exact ⟨reaping', own, others, fun _ _ some_ => by rw [none_] at some_; cases some_⟩
    | wrote write cells pc' asked accepted told =>
      obtain ⟨reaping', own⟩ := (told_tells told).reaping reaping (knows t)
        (fun _ _ stored => stored.append _ _ _) (by rintro _ _ _ _ _ ⟨⟩)
      exact ⟨reaping', own, others, by rintro _ _ ⟨⟩⟩
    | heard _ answer cells pc' hears told =>
      obtain ⟨reaping', own⟩ := (told_tells told).reaping reaping (knows t) (fun _ _ => id) (by
        rintro pass pid rest live here rfl
        obtain ⟨k, asked, live⟩ := hears.entry
        rw [here] at asked
        cases asked
        exact Bucket.get_stored live)
      exact ⟨reaping', own, others, by rintro _ _ ⟨⟩⟩
    | late write cells pc' asked told =>
      have tells := told_tells told
      obtain ⟨reaping', own⟩ := tells.reaping reaping (knows t) (fun _ _ => id)
        (by rintro _ _ _ _ _ ⟨⟩)
      refine ⟨reaping'.pend ?_, ⟨own.sweeper, own.place.beside ?_⟩, others, by rintro _ _ ⟨⟩⟩
      · exact late_pending asked (knows t).place tells
      · exact ⟨fun _ _ => id, le_refl _, rfl, rfl, rfl, fun _ => id, .inl ⟨rfl, rfl⟩⟩
  · intro s a w' _ _ reaping knows passes
    have beside : Beside (world s) w' := by
      cases passes with
      | tick elapsed =>
        exact ⟨fun _ _ => id, Int.le_add_of_nonneg_right (Int.natCast_nonneg _), rfl, rfl, rfl,
          fun _ => id, .inl ⟨rfl, rfl⟩⟩
      | land index write waiting accepted =>
        exact ⟨fun _ _ stored => stored.append _ _ _, le_refl _, rfl, rfl, rfl, fun _ => id,
          .inl ⟨rfl, rfl⟩⟩
    refine ⟨?_, fun t => ⟨fun sweeps => beside.sweepMu.trans ((knows t).sweeper sweeps),
      (knows t).place.beside beside⟩⟩
    cases passes with
    | tick elapsed => exact { reaping with }
    | land index write waiting accepted =>
      exact reaping.frame beside.stored rfl rfl (fun _ _ => id) (fun _ => .inl)
        (fun _ mem => .inl (mem_of_mem_eraseIdx mem)) fun _ => id

theorem orphan_reaping_safe {s : State (Pool (Coordinator T) Pc T) Pid Claim}
    (reached : Reachable (system T cfg) Free s) :
    (∀ t pass pid rev rest, s.locals.pcs t = .delete pass pid rev rest →
      Window pid (fun since => since + cfg.orphanGrace ≤ s.clock) s.locals.cells.events ∧
        Settled s.bucket pid rev) ∧
      ∀ pid rev, .delete pid rev ∈ s.pending →
        .delete pid rev ∈ s.locals.cells.foreign ∨
          ∃ newer now older,
            s.locals.cells.events = newer ++ .ambiguous pid rev now :: older ∧
              Window pid (fun since => since + cfg.orphanGrace ≤ now) older ∧
              Settled s.bucket pid rev := by
  obtain ⟨reaping, knows⟩ := reaping_of_reachable reached
  refine ⟨fun t pass pid rev rest here => ?_, fun pid rev mem => ?_⟩
  · have place := (knows t).place
    rw [here] at place
    obtain ⟨_, settled, _, window⟩ := place
    exact ⟨window, settled⟩
  · refine (reaping.pending _ mem).imp_right ?_
    rintro ⟨pid', rev', now, is, there⟩
    cases is
    obtain ⟨newer, older, split⟩ := append_of_mem there
    obtain ⟨window, settled⟩ := reaping.accounted newer pid rev now older split
    exact ⟨newer, now, older, split, window, settled⟩

def oneSecond : Config := ⟨0, 1000000000, true, 0⟩

/-- A settled claim of partition `p`. -/
def settledClaim : Claim := newInitialClaim [112] "w-0" 0 60

/-- A pass that finds `p` alone, and absent from the live set, up to its claim. -/
def visits {T : Type} (t : T) : List (Action T (T × Input)) :=
  [.call (t, .sweep .apply), .call (t, .go), .call (t, .go), .step t .served,
    .call (t, .live (some [])), .call (t, .go), .call (t, .go), .step t .served]

/-- Another worker's claim is seen absent, and again after the grace. -/
def reaps {T : Type} (t u : T) : List (Action T (T × Input)) :=
  [.call (u, .foreign (.create [112] settledClaim)), .step u .served] ++ visits t ++
    [.call (t, .go), .call (t, .go), .call (t, .go), .call (t, .go), .tick 1000000000] ++
    visits t ++ [.call (t, .go), .call (t, .go)]

theorem orphan_reaping_safe_after_grace :
    ∃ (s : State (Pool (Coordinator Bool) Pc Bool) Pid Claim) (pass : Pass),
      Reachable (system Bool oneSecond) Free s ∧ s.locals.pcs true = .delete pass [112] 1 [] ∧
        Window [112] (fun since => since + 1000000000 ≤ s.clock) s.locals.cells.events ∧
        Settled s.bucket [112] 1 := by
  obtain ⟨s, reached, here⟩ := exists_reachable Free (fresh_init oneSecond) (reaps true false)
    (fun s =>
      s.locals.pcs true = .delete ⟨1000000000, false, false, none, [[112]], [], true, ⟨1000000000,
        0⟩, [], false⟩ [112] 1 [])
    (by decide)
  exact ⟨s, _, reached, here, (orphan_reaping_safe reached).1 true _ _ _ _ here⟩

end Parti.Handoff.Sweep
