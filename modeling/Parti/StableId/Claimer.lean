/-
# StableId.Claimer — claimers of one pool of worker ids

Any number of claimers share a pool of ids. `Claim` goes through the pool: it creates
the key, or creates it again if it has gone in the meantime, or takes an entry over
that is older than the stale threshold. The loop renews with the revision it last
wrote, and `Release` deletes with it.

The clock is the server's: an entry's age is the time since it was stored. A key may
expire at any moment. A write may go unanswered and arrive later.

`workerID` and `lastRevision` are written in two steps, and the loop and `Release`
read them in two steps. `stopCh` is closed exactly when `closed` is set.

For the record, a value carries its claimer, and a claimer its last acknowledged write
to each id it holds, the deletes whose outcome it does not know, and the goroutines of
its `Claim` and of its loop.
-/
import Parti.Lib.Routine
import Parti.Types.Partition

namespace Parti.StableId

open Parti.Types Lib Lib.Kv Lib.Client

/-! ## Data -/

/-- The pool and the lease, common to all claimers. Durations are in nanoseconds. -/
structure Config where
  keyPrefix : GoString
  minID : Int
  maxID : Int
  ttl : Int

def minRenewInterval : Int := 100000000

/-- A third of the ttl, by Go's division, but not less than the minimum. -/
def renewInterval (cfg : Config) : Int := max (cfg.ttl.tdiv 3) minRenewInterval

def staleThreshold (cfg : Config) : Int := 3 * renewInterval cfg

/-- `"%s-%d"`; `keyForID` is the identity. -/
def keyForID (cfg : Config) (id : Int) : GoString :=
  cfg.keyPrefix ++ 45 :: Partition.decimalInt id

/-- A value of a key. Its text, a time nobody reads, is left out. -/
structure Lease (C : Type) where
  claimer : C
deriving DecidableEq

structure Claimer (T : Type) where
  workerID : GoString
  lastRevision : Nat
  renewStarted : Bool
  closed : Bool
  done : Bool
  -- for the record
  held : GoString → Option Int
  acked : Option (GoString × Nat)
  unsure : List (GoString × Nat)
  claiming : Option T
  looping : Option T

/-- `NewClaimer`. -/
def Claimer.new (T : Type) : Claimer T where
  workerID := []
  lastRevision := 0
  renewStarted := false
  closed := false
  done := false
  held := fun _ => none
  acked := none
  unsure := []
  claiming := none
  looping := none

inductive ClaimError where
  | noAvailableID
  | notClaimed
  | alreadyClosed
  | renewalAlreadyStarted
  | claimLost (bucketMissing : Bool)
  | context
  | failed
deriving DecidableEq

inductive Result where
  | claimed (workerID : GoString)
  | ok
  | err (error : ClaimError)
deriving DecidableEq

inductive At where
  | claim (id : Int)
  | create (id : Int)
  | get (id : Int)
  | createRetry (id : Int)
  | judge (id : Int) (revision : Nat) (created : Int)
  | takeover (id : Int) (revision : Nat)
  | won (key : GoString) (revision : Nat)
  | wonID (key : GoString) (revision : Nat)
  | startRenewal
  | startClosed
  | startSwap
  | loop
  | renew
  | renewLoad (key : GoString)
  | renewUpdate (key : GoString) (revision : Nat)
  | renewed (revision : Nat)
  | renewFailed (key : GoString)
  | lost (key : GoString) (bucketMissing : Bool)
  | release
  | releaseClose (key : GoString)
  | releaseWait (key : GoString)
  | releaseLoad (key : GoString)
  | delete (key : GoString) (revision : Nat)
  | releaseClear
  | returned (result : Result)
deriving DecidableEq

inductive Pc (C : Type) where
  | idle
  | expire (key : GoString)
  | on (claimer : C) (at_ : At)
deriving DecidableEq

inductive Input (C T : Type) where
  | claim (claimer : C)
  | startRenewal (claimer : C)
  | release (claimer : C)
  | close (claimer : C)
  | expire (key : GoString)
  | go
  | cancelled
  | timeout
  | tick
  | bucketMissing
  | spawn (fresh : T)

/-! ## The calls -/

section Calls

variable {T : Type}

def Claimer.unclaiming (e : Claimer T) : Claimer T := { e with claiming := none }

def advance (cfg : Config) (e : Claimer T) (now : Int) {C : Type} :
    At → Input C T → Option (Claimer T × At)
  | .claim id, .go =>
    if id ≤ cfg.maxID then some (e, .create id)
    else some (e.unclaiming, .returned (.err .noAvailableID))
  | .claim _, .cancelled => some (e.unclaiming, .returned (.err .context))
  | .judge id revision created, .go =>
    if now - created > staleThreshold cfg then some (e, .takeover id revision)
    else some (e, .claim (id + 1))
  | .won key revision, .go => some ({ e with workerID := key }, .wonID key revision)
  | .wonID key revision, .go =>
    some ({ e.unclaiming with lastRevision := revision }, .returned (.claimed key))
  | .startRenewal, .go =>
    if e.workerID = [] then some (e, .returned (.err .notClaimed)) else some (e, .startClosed)
  | .startClosed, .go =>
    if e.closed then some (e, .returned (.err .alreadyClosed)) else some (e, .startSwap)
  | .startSwap, .go =>
    if e.renewStarted then some (e, .returned (.err .renewalAlreadyStarted)) else none
  | .loop, .go => if e.closed then some ({ e with done := true }, .returned .ok) else none
  | .loop, .tick => some (e, .renew)
  | .renew, .go =>
    -- without an id the error is reported and the loop goes on
    if e.workerID = [] then some (e, .loop) else some (e, .renewLoad e.workerID)
  | .renewLoad key, .go => some (e, .renewUpdate key e.lastRevision)
  | .renewed revision, .go => some ({ e with lastRevision := revision }, .loop)
  | .renewFailed _, .go => some (e, .loop)
  | .renewFailed key, .bucketMissing => some (e, .lost key true)
  | .lost key missing, .go =>
    some ({ e with held := Function.update e.held key none, done := true },
      .returned (.err (.claimLost missing)))
  | .release, .go =>
    if e.workerID = [] then some (e, .returned (.err .notClaimed))
    else some (e, .releaseClose e.workerID)
  | .releaseClose key, .go => some ({ e with closed := true }, .releaseWait key)
  | .releaseWait key, .go =>
    if !e.renewStarted || e.done then some (e, .releaseLoad key) else none
  | .releaseWait _, .cancelled =>
    if e.renewStarted then some (e, .returned (.err .context)) else none
  | .releaseWait key, .timeout => if e.renewStarted then some (e, .releaseLoad key) else none
  | .releaseLoad key, .go => some (e, .delete key e.lastRevision)
  | .releaseClear, .go => some ({ e with workerID := [] }, .returned .ok)
  | _, _ => none

def Claimer.wins (e : Claimer T) (now : Int) (key : GoString) (revision : Nat) : Claimer T :=
  { e with held := Function.update e.held key (some now), acked := some (key, revision) }

def Claimer.renews (e : Claimer T) (now : Int) (key : GoString) (revision : Nat) : Claimer T :=
  { e with held := Function.update e.held key ((e.held key).map fun _ => now),
           acked := some (key, revision) }

def Claimer.lets (e : Claimer T) (key : GoString) : Claimer T :=
  { e with held := Function.update e.held key none }

def answered (cfg : Config) (e : Claimer T) (now : Int) {C : Type} :
    At → Answer GoString (Lease C) → Option (Claimer T × At)
  | .create id, .written revision =>
    some (e.wins now (keyForID cfg id) revision, .won (keyForID cfg id) revision)
  | .create id, .conflict => some (e, .get id)
  | .create _, .failed => some (e.unclaiming, .returned (.err .failed))
  | .get id, .entry none => some (e, .createRetry id)
  | .get id, .entry (some live) => some (e, .judge id live.revision live.created)
  | .get id, .failed => some (e, .createRetry id)
  | .createRetry id, .written revision =>
    some (e.wins now (keyForID cfg id) revision, .won (keyForID cfg id) revision)
  | .createRetry id, .conflict => some (e, .claim (id + 1))
  | .createRetry _, .failed => some (e.unclaiming, .returned (.err .failed))
  | .takeover id _, .written revision =>
    some (e.wins now (keyForID cfg id) revision, .won (keyForID cfg id) revision)
  | .takeover id _, .conflict => some (e, .claim (id + 1))
  | .takeover _ _, .failed => some (e.unclaiming, .returned (.err .failed))
  | .renewUpdate key _, .written revision => some (e.renews now key revision, .renewed revision)
  | .renewUpdate key _, .conflict => some (e, .lost key false)
  | .renewUpdate key _, .failed => some (e, .renewFailed key)
  | .delete key _, .written _ => some (e.lets key, .releaseClear)
  | .delete key _, .conflict => some (e.lets key, .releaseClear)
  | .delete key revision, .failed =>
    some ({ e.lets key with unsure := (key, revision) :: e.unsure }, .returned (.err .failed))
  | _, _ => none

end Calls

section System

variable {T C : Type} [DecidableEq T] [DecidableEq C]

/-- A renewal that expects revision zero expects no entry. -/
def renewal (c : C) (key : GoString) (revision : Nat) : Write GoString (Lease C) :=
  if revision = 0 then .create key ⟨c⟩ else .update key ⟨c⟩ revision

def asks (cfg : Config) : Pc C → Option (Request GoString (Lease C))
  | .on c (.create id) | .on c (.createRetry id) => some (.write (.create (keyForID cfg id) ⟨c⟩))
  | .on _ (.get id) => some (.read (keyForID cfg id))
  | .on c (.takeover id revision) => some (.write (.update (keyForID cfg id) ⟨c⟩ revision))
  | .on c (.renewUpdate key revision) => some (.write (renewal c key revision))
  | .on _ (.delete key revision) => some (.write (.delete key revision))
  | .expire key => some (.write (.remove key))
  | _ => none

def told (cfg : Config) (cells : C → Claimer T) (now : Int) :
    Pc C → Answer GoString (Lease C) → Option ((C → Claimer T) × Pc C)
  | .on c at_, answer => (answered cfg (cells c) now at_ answer).map fun told =>
    (Function.update cells c told.1, .on c told.2)
  | .expire key, .written _ => some (fun c => (cells c).lets key, .idle)
  | _, _ => none

def next (cfg : Config) (cells : C → Claimer T) (t : T) (now : Int) :
    Pc C → Input C T → Option (Turn (C → Claimer T) (Pc C) T)
  | .idle, .claim c =>
    some ⟨Function.update cells c { cells c with claiming := some t }, .on c (.claim cfg.minID), none⟩
  | .idle, .startRenewal c => some ⟨cells, .on c .startRenewal, none⟩
  | .idle, .release c => some ⟨cells, .on c .release, none⟩
  | .idle, .close c => some ⟨Function.update cells c { cells c with closed := true }, .idle, none⟩
  | .idle, .expire key => some ⟨cells, .expire key, none⟩
  | .on c .startSwap, .spawn fresh =>
    if (cells c).renewStarted then none
    else some ⟨Function.update cells c { cells c with renewStarted := true, looping := some fresh },
               .on c (.returned .ok), some (fresh, .on c .loop)⟩
  | .on _ (.returned _), .go => some ⟨cells, .idle, none⟩
  | .on c at_, input => (advance cfg (cells c) now at_ input).map fun stepped =>
    ⟨Function.update cells c stepped.1, .on c stepped.2, none⟩
  | _, _ => none

variable (T C) in
def claimers (cfg : Config) :
    Routine (C → Claimer T) (Pc C) (Input C T) T GoString (Lease C) where
  idle pc := decide (pc = .idle)
  asks := asks cfg
  told cells _ now pc answer := told cfg cells now pc answer
  next := next cfg

variable (T C) in
/-- Every interleaving, from new claimers and an empty bucket. -/
def pool (cfg : Config) :
    System (State (Pool (C → Claimer T) (Pc C) T) GoString (Lease C)) (Action T (T × Input C T)) :=
  (claimers T C cfg).system
    (fun w => w.bucket = .empty ∧ w.pending = [] ∧ w.locals = fun _ => .new T) .idle

variable (T C) in
def fresh : State (Pool (C → Claimer T) (Pc C) T) GoString (Lease C) :=
  ⟨.empty, [], 0, ⟨fun _ => .new T, fun _ => .idle⟩⟩

theorem fresh_init (cfg : Config) : (pool T C cfg).init (fresh T C) :=
  ⟨⟨rfl, rfl, rfl⟩, fun _ => rfl⟩

end System

/-! ## What a step can be -/

variable {T C : Type}

def At.isEarly : At → Bool
  | .startRenewal | .startClosed | .startSwap | .release | .releaseWait _ => true
  | _ => false

variable (cfg : Config) (e : Claimer T) (now : Int) in
inductive Advances : At → Claimer T → At → Prop
  | attempt (id) : Advances (.claim id) e (.create id)
  | unclaimed (id result) : Advances (.claim id) e.unclaiming (.returned result)
  | stale (id revision created) (old : now - created > staleThreshold cfg) :
      Advances (.judge id revision created) e (.takeover id revision)
  | young (id revision created) : Advances (.judge id revision created) e (.claim (id + 1))
  | won (key revision) :
      Advances (.won key revision) { e with workerID := key } (.wonID key revision)
  | claimed (key revision result) :
      Advances (.wonID key revision) { e.unclaiming with lastRevision := revision }
        (.returned result)
  | named (has : e.workerID ≠ []) : Advances .startRenewal e .startClosed
  | unclosed : Advances .startClosed e .startSwap
  | stopped (result) : Advances .loop { e with done := true } (.returned result)
  | ticked : Advances .loop e .renew
  | unnamed : Advances .renew e .loop
  | renew (has : e.workerID ≠ []) : Advances .renew e (.renewLoad e.workerID)
  | load (key) : Advances (.renewLoad key) e (.renewUpdate key e.lastRevision)
  | renewed (revision) : Advances (.renewed revision) { e with lastRevision := revision } .loop
  | failed (key) : Advances (.renewFailed key) e .loop
  | missing (key) : Advances (.renewFailed key) e (.lost key true)
  | lost (key missing result) : Advances (.lost key missing)
        { e with held := Function.update e.held key none, done := true } (.returned result)
  | release (has : e.workerID ≠ []) : Advances .release e (.releaseClose e.workerID)
  | close (key) : Advances (.releaseClose key) { e with closed := true } (.releaseWait key)
  | waited (key) : Advances (.releaseWait key) e (.releaseLoad key)
  | releaseLoad (key) : Advances (.releaseLoad key) e (.delete key e.lastRevision)
  | released (result) : Advances .releaseClear { e with workerID := [] } (.returned result)
  | returns (at_ result) (early : at_.isEarly = true) : Advances at_ e (.returned result)

variable {cfg : Config} {now : Int} {pc : Pc C} {e' e : Claimer T} {input : Input C T}
  {answer : Answer GoString (Lease C)} {cells : C → Claimer T}

theorem advance_advances {at_ at' : At} (moved : advance cfg e now at_ input = some (e', at')) :
    Advances cfg e now at_ e' at' := by
  unfold advance at moved
  split at moved
  case h_1 =>
    split_ifs at moved <;> cases moved
    · exact .attempt _
    · exact .unclaimed _ _
  case h_2 => cases moved; exact .unclaimed _ _
  case h_3 =>
    split_ifs at moved with old <;> cases moved
    · exact .stale _ _ _ old
    · exact .young _ _ _
  case h_4 => cases moved; exact .won _ _
  case h_5 => cases moved; exact .claimed _ _ _
  case h_6 =>
    split_ifs at moved with unnamed <;> cases moved
    · exact .returns _ _ rfl
    · exact .named unnamed
  case h_7 =>
    split_ifs at moved <;> cases moved
    · exact .returns _ _ rfl
    · exact .unclosed
  case h_8 => split_ifs at moved; cases moved; exact .returns _ _ rfl
  case h_9 => split_ifs at moved; cases moved; exact .stopped _
  case h_10 => cases moved; exact .ticked
  case h_11 =>
    split_ifs at moved with unnamed <;> cases moved
    · exact .unnamed
    · exact .renew unnamed
  case h_12 => cases moved; exact .load _
  case h_13 => cases moved; exact .renewed _
  case h_14 => cases moved; exact .failed _
  case h_15 => cases moved; exact .missing _
  case h_16 => cases moved; exact .lost _ _ _
  case h_17 =>
    split_ifs at moved with unnamed <;> cases moved
    · exact .returns _ _ rfl
    · exact .release unnamed
  case h_18 => cases moved; exact .close _
  case h_19 => split_ifs at moved; cases moved; exact .waited _
  case h_20 => split_ifs at moved; cases moved; exact .returns _ _ rfl
  case h_21 => split_ifs at moved; cases moved; exact .waited _
  case h_22 => cases moved; exact .releaseLoad _
  case h_23 => cases moved; exact .released _
  case h_24 => cases moved

/-- The claim of id `id` waits for a write. -/
def At.Claims (id : Int) (at_ : At) : Prop :=
  at_ = .create id ∨ at_ = .createRetry id ∨ ∃ revision, at_ = .takeover id revision

variable (cfg : Config) (e : Claimer T) (now : Int) in
inductive Answers : At → Answer GoString (Lease C) → Claimer T → At → Prop
  | wins (at_ id revision) (claims : at_.Claims id) :
      Answers at_ (.written revision) (e.wins now (keyForID cfg id) revision)
        (.won (keyForID cfg id) revision)
  | taken (id) : Answers (.create id) .conflict e (.get id)
  | beaten (at_ id) (claims : at_.Claims id) : Answers at_ .conflict e (.claim (id + 1))
  | unclaimed (at_ id) (claims : at_.Claims id) (result) :
      Answers at_ .failed e.unclaiming (.returned result)
  | gone (id) (answer : Answer GoString (Lease C)) : Answers (.get id) answer e (.createRetry id)
  | seen (id live) : Answers (.get id) (.entry (some live)) e (.judge id live.revision live.created)
  | renews (key last revision) :
      Answers (.renewUpdate key last) (.written revision) (e.renews now key revision)
        (.renewed revision)
  | lost (key last) : Answers (.renewUpdate key last) .conflict e (.lost key false)
  | failed (key last) : Answers (.renewUpdate key last) .failed e (.renewFailed key)
  | lets (key last) (answer : Answer GoString (Lease C)) (definite : answer ≠ .failed) :
      Answers (.delete key last) answer (e.lets key) .releaseClear
  | unsure (key last result) : Answers (.delete key last) .failed
        { e.lets key with unsure := (key, last) :: e.unsure } (.returned result)

theorem answered_answers {at_ at' : At} (moved : answered cfg e now at_ answer = some (e', at')) :
    Answers cfg e now at_ answer e' at' := by
  unfold answered at moved
  split at moved
  all_goals cases moved
  · exact .wins _ _ _ (.inl rfl)
  · exact .taken _
  · exact .unclaimed _ _ (.inl rfl) _
  · exact .gone _ _
  · exact .seen _ _
  · exact .gone _ _
  · exact .wins _ _ _ (.inr (.inl rfl))
  · exact .beaten _ _ (.inr (.inl rfl))
  · exact .unclaimed _ _ (.inr (.inl rfl)) _
  · exact .wins _ _ _ (.inr (.inr ⟨_, rfl⟩))
  · exact .beaten _ _ (.inr (.inr ⟨_, rfl⟩))
  · exact .unclaimed _ _ (.inr (.inr ⟨_, rfl⟩)) _
  · exact .renews _ _ _
  · exact .lost _ _
  · exact .failed _ _
  · exact .lets _ _ _ (by simp)
  · exact .lets _ _ _ (by simp)
  · exact .unsure _ _ _

variable [DecidableEq C]

variable (cfg : Config) (cells : C → Claimer T) (t : T) (now : Int) in
inductive Steps : Pc C → Input C T → (C → Claimer T) → Pc C → Option (T × Pc C) → Prop
  | claim (c) : Steps .idle (.claim c)
        (Function.update cells c { cells c with claiming := some t }) (.on c (.claim cfg.minID)) none
  | startRenewal (c) : Steps .idle (.startRenewal c) cells (.on c .startRenewal) none
  | release (c) : Steps .idle (.release c) cells (.on c .release) none
  | close (c) : Steps .idle (.close c)
        (Function.update cells c { cells c with closed := true }) .idle none
  | expire (key) : Steps .idle (.expire key) cells (.expire key) none
  | spawn (c fresh) (first : (cells c).renewStarted = false) :
      Steps (.on c .startSwap) (.spawn fresh)
        (Function.update cells c { cells c with renewStarted := true, looping := some fresh })
        (.on c (.returned .ok)) (some (fresh, .on c .loop))
  | done (c result) : Steps (.on c (.returned result)) .go cells .idle none
  | advances (c : C) (at_ : At) (input : Input C T) (e' : Claimer T) (at' : At)
      (advances : Advances cfg (cells c) now at_ e' at') :
      Steps (.on c at_) input (Function.update cells c e') (.on c at') none

theorem next_steps {t : T} {turn} (moved : next cfg cells t now pc input = some turn) :
    Steps cfg cells t now pc input turn.cells turn.pc turn.spawned := by
  unfold next at moved
  split at moved
  case h_1 => cases moved; exact .claim _
  case h_2 => cases moved; exact .startRenewal _
  case h_3 => cases moved; exact .release _
  case h_4 => cases moved; exact .close _
  case h_5 => cases moved; exact .expire _
  case h_6 =>
    split_ifs at moved with started
    cases moved
    exact .spawn _ _ (by simpa using started)
  case h_7 => cases moved; exact .done _ _
  case h_8 =>
    obtain ⟨⟨e', at'⟩, advanced, rfl⟩ := Option.map_eq_some_iff.mp moved
    exact .advances _ _ _ e' at' (advance_advances advanced)
  case h_9 => cases moved

inductive Asks (cfg : Config) : Pc C → Write GoString (Lease C) → Prop
  | create (c id) : Asks cfg (.on c (.create id)) (.create (keyForID cfg id) ⟨c⟩)
  | createRetry (c id) : Asks cfg (.on c (.createRetry id)) (.create (keyForID cfg id) ⟨c⟩)
  | takeover (c id revision) :
      Asks cfg (.on c (.takeover id revision)) (.update (keyForID cfg id) ⟨c⟩ revision)
  | renew (c key revision) : Asks cfg (.on c (.renewUpdate key revision)) (renewal c key revision)
  | delete (c key revision) : Asks cfg (.on c (.delete key revision)) (.delete key revision)
  | expire (key) : Asks cfg (.expire key) (.remove key)

omit [DecidableEq C] in
theorem asks_write {w} (asked : asks cfg pc = some (.write w)) :
    Asks cfg pc w := by
  unfold asks at asked
  split at asked
  all_goals cases asked
  · exact .create _ _
  · exact .createRetry _ _
  · exact .takeover _ _ _
  · exact .renew _ _ _
  · exact .delete _ _ _
  · exact .expire _

inductive Tells (cfg : Config) (cells : C → Claimer T) (now : Int) :
    Pc C → Answer GoString (Lease C) → (C → Claimer T) → Pc C → Prop
  | answers (c : C) (at_ : At) (answer : Answer GoString (Lease C)) (e' : Claimer T) (at' : At)
      (answers : Answers cfg (cells c) now at_ answer e' at') :
      Tells cfg cells now (.on c at_) answer (Function.update cells c e') (.on c at')
  | expired (key revision) :
      Tells cfg cells now (.expire key) (.written revision) (fun c => (cells c).lets key) .idle

theorem told_tells {cells'} {pc' : Pc C}
    (moved : told cfg cells now pc answer = some (cells', pc')) :
    Tells cfg cells now pc answer cells' pc' := by
  unfold told at moved
  split at moved
  next answer c at_ =>
    obtain ⟨⟨e', at'⟩, heard, same⟩ := Option.map_eq_some_iff.mp moved
    cases same
    exact .answers c at_ _ e' at' (answered_answers heard)
  next key revision =>
    cases moved
    exact .expired key revision
  next => cases moved

end Parti.StableId
