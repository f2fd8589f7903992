/-
# Election.Agent — election agents on one leader key

Any number of agents share the leader key. A goroutine runs one call on one agent: it
reads or writes the agent's fields under the agent's lock in one step, and waits for
the store in another. The key's TTL removes the entry at any moment.

A value of the key is the text `workerID:seconds`. For the record it also carries which
agent wrote it and whether it was an acquisition or a renewal.

* `Advances`, `advance_advances`: the steps on an agent's fields, one constructor for
  each;
* `owned_of_reachable`: the revision an agent renews with is one of its own entries,
  so a renewal that is accepted replaces an entry of the same agent
  (`Rightful.replaces`).
-/
import Parti.Lib.Routine
import Parti.Types.Partition

namespace Parti.Election

open Parti.Types Lib Lib.Kv Lib.Client

/-! ## Data -/

structure NATSElection where
  workerID : GoString
  revision : Nat
  termRevision : Nat
  isLeader : Bool
deriving DecidableEq

/-- `NewNATSElection`, and the state `clearLeadership` leaves behind. -/
def NATSElection.cleared : NATSElection := ⟨[], 0, 0, false⟩

structure Leader (A : Type) where
  text : GoString
  -- for the record
  agent : A
  acquires : Bool
deriving DecidableEq

/-- `"%s:%d"` of the worker and the time in seconds; the clock is in nanoseconds. -/
def leaderValue (workerID : GoString) (now : Int) : GoString :=
  workerID ++ 58 :: Partition.decimalInt (now / 1000000000)

inductive ElectionError where
  | invalidDuration
  | notLeader
  | leadershipLost
  | createFailed
  | deleteFailed
  | getFailed
  | revisionMismatch
deriving DecidableEq

inductive Result where
  | leads (leader : Bool)
  | ok
  | err (error : ElectionError)
deriving DecidableEq

/-- Who called `RenewLeadership`. -/
inductive Caller where
  | request (workerID : GoString)
  | renew
deriving DecidableEq

inductive At where
  | request (workerID : GoString) (leaseDuration : Int)
  | renew (caller : Caller)
  | update (caller : Caller) (text : GoString) (revision : Nat)
  | updated (caller : Caller) (revision : Nat)
  | renewFailed (caller : Caller)
  | renewLost (caller : Caller)
  | clear (workerID : GoString)
  | create (workerID text : GoString)
  | acquired (workerID : GoString) (revision : Nat)
  | release
  | delete
  | released
  | isLeader
  | verify (revision : Nat)
  | unverified
  | check (claimed : Nat)
  | checkGet (claimed : Nat) (myWorker : GoString)
  | returned (result : Result)
deriving DecidableEq

/-- A goroutine: at rest, about to let the key expire, or in a call on an agent. -/
inductive Pc (A : Type) where
  | idle
  | expire
  | on (agent : A) (at_ : At)
deriving DecidableEq

inductive Input (A : Type) where
  | request (agent : A) (workerID : GoString) (leaseDuration : Int)
  | renew (agent : A)
  | release (agent : A)
  | isLeader (agent : A)
  | check (agent : A) (claimed : Nat)
  | expire
  /-- The next step; where an error was returned, whether it is one of the context. -/
  | go (context : Bool)

/-! ## The calls -/

/-- Where `RenewLeadership` goes with an error: `RequestLeadership` gives up if it
is one of the context, and else clears the state and tries to acquire. -/
def Caller.failed (error : ElectionError) (context : Bool) : Caller → At
  | .renew => .returned (.err error)
  | .request workerID => if context then .returned (.err error) else .clear workerID

def Caller.succeeded : Caller → At
  | .renew => .returned .ok
  | .request _ => .returned (.leads true)

def At.isEntry : At → Bool
  | .request _ _ | .release | .isLeader | .check _ => true
  | _ => false

def advance (e : NATSElection) (now : Int) (context : Bool) : At → Option (NATSElection × At)
  | .request workerID leaseDuration =>
    if leaseDuration ≤ 0 then some (e, .returned (.err .invalidDuration))
    else if e.isLeader ∧ e.workerID = workerID then some (e, .renew (.request workerID))
    else some (e, .create workerID (leaderValue workerID now))
  | .renew caller =>
    if e.isLeader then some (e, .update caller (leaderValue e.workerID now) e.revision)
    else some (e, caller.failed .notLeader false)
  | .updated caller revision => some ({ e with revision := revision }, caller.succeeded)
  | .renewFailed caller =>
    if context then some (e, caller.failed .leadershipLost true) else some (e, .renewLost caller)
  | .renewLost caller => some (.cleared, caller.failed .leadershipLost false)
  | .clear workerID => some (.cleared, .create workerID (leaderValue workerID now))
  | .acquired workerID revision => some (⟨workerID, revision, revision, true⟩, .returned (.leads true))
  | .release => if e.isLeader then some (e, .delete) else some (e, .returned (.err .notLeader))
  | .released => some (.cleared, .returned .ok)
  | .isLeader =>
    if e.isLeader then some (e, .verify e.revision) else some (e, .returned (.leads false))
  | .unverified => some (.cleared, .returned (.leads false))
  | .check claimed =>
    if claimed = 0 then some (e, .returned (.err .revisionMismatch))
    else if e.workerID = [] ∨ e.termRevision = 0 then some (e, .returned (.err .revisionMismatch))
    else if claimed ≠ e.termRevision then some (e, .returned (.err .revisionMismatch))
    else some (e, .checkGet claimed e.workerID)
  | _ => none

/-- What a call does with the store's answer. A conflict of an update is no error
of the context. -/
def answered {A : Type} : At → Answer Unit (Leader A) → Option At
  | .update caller _ _, .written revision => some (.updated caller revision)
  | .update caller _ _, .conflict => some (.renewLost caller)
  | .update caller _ _, .failed => some (.renewFailed caller)
  | .create workerID _, .written revision => some (.acquired workerID revision)
  | .create _ _, .conflict => some (.returned (.leads false))
  | .create _ _, .failed => some (.returned (.err .createFailed))
  | .delete, .written _ => some .released
  | .delete, .failed => some (.returned (.err .deleteFailed))
  | .verify _, .entry none => some .unverified
  | .verify revision, .entry (some live) =>
    if live.revision ≠ revision then some .unverified else some (.returned (.leads true))
  | .verify _, .failed => some (.returned (.err .getFailed))
  | .checkGet _ _, .entry none => some (.returned (.err .revisionMismatch))
  | .checkGet claimed myWorker, .entry (some live) =>
    if live.revision < claimed then some (.returned (.err .revisionMismatch))
    else if (myWorker ++ [58]).isPrefixOf live.value.text then some (.returned .ok)
    else some (.returned (.err .revisionMismatch))
  | .checkGet _ _, .failed => some (.returned (.err .getFailed))
  | _, _ => none

section System

variable {T A : Type} [DecidableEq T] [DecidableEq A]

def asks : Pc A → Option (Request Unit (Leader A))
  | .on a (.update _ text revision) => some (.write (.update () ⟨text, a, false⟩ revision))
  | .on a (.create _ text) => some (.write (.create () ⟨text, a, true⟩))
  | .on _ .delete => some (.write (.remove ()))
  | .on _ (.verify _) => some (.read ())
  | .on _ (.checkGet _ _) => some (.read ())
  | .expire => some (.write (.remove ()))
  | _ => none

def told (cells : A → NATSElection) :
    Pc A → Answer Unit (Leader A) → Option ((A → NATSElection) × Pc A)
  | .on a at_, answer => (answered at_ answer).map fun at' => (cells, .on a at')
  | .expire, .written _ => some (cells, .idle)
  | _, _ => none

def next (cells : A → NATSElection) (now : Int) :
    Pc A → Input A → Option (Turn (A → NATSElection) (Pc A) T)
  | .idle, .request a workerID leaseDuration => some ⟨cells, .on a (.request workerID leaseDuration), none⟩
  | .idle, .renew a => some ⟨cells, .on a (.renew .renew), none⟩
  | .idle, .release a => some ⟨cells, .on a .release, none⟩
  | .idle, .isLeader a => some ⟨cells, .on a .isLeader, none⟩
  | .idle, .check a claimed => some ⟨cells, .on a (.check claimed), none⟩
  | .idle, .expire => some ⟨cells, .expire, none⟩
  | .on _ (.returned _), .go _ => some ⟨cells, .idle, none⟩
  | .on a at_, .go context => (advance (cells a) now context at_).map fun stepped =>
    ⟨Function.update cells a stepped.1, .on a stepped.2, none⟩
  | _, _ => none

variable (T A) in
def agents : Routine (A → NATSElection) (Pc A) (Input A) T Unit (Leader A) where
  idle pc := decide (pc = .idle)
  asks := asks
  told cells _ _ pc answer := told cells pc answer
  next cells _ now pc input := next cells now pc input

variable (T A) in
/-- Every interleaving, from new agents and a key that was never written. -/
def elections :
    System (State (Pool (A → NATSElection) (Pc A) T) Unit (Leader A)) (Action T (T × Input A)) :=
  (agents T A).system
    (fun w => w.bucket = .empty ∧ w.pending = [] ∧ w.locals = fun _ => .cleared) .idle

variable (T A) in
def fresh : State (Pool (A → NATSElection) (Pc A) T) Unit (Leader A) :=
  ⟨.empty, [], 0, ⟨fun _ => .cleared, fun _ => .idle⟩⟩

theorem fresh_init : (elections T A).init (fresh T A) :=
  ⟨⟨rfl, rfl, rfl⟩, fun _ => rfl⟩

end System

/-! ## What a step can be -/

variable (e : NATSElection) (now : Int) in
inductive Advances : At → NATSElection → At → Prop
  | renewing (workerID leaseDuration) (leads : e.isLeader = true) (own : e.workerID = workerID) :
      Advances (.request workerID leaseDuration) e (.renew (.request workerID))
  | acquire (workerID leaseDuration) (other : ¬(e.isLeader = true ∧ e.workerID = workerID)) :
      Advances (.request workerID leaseDuration) e (.create workerID (leaderValue workerID now))
  | renew (caller) (leads : e.isLeader = true) :
      Advances (.renew caller) e (.update caller (leaderValue e.workerID now) e.revision)
  | gone (caller result) (rests : e.isLeader = false) :
      Advances (.renew caller) e (.returned result)
  | goneOn (workerID) (rests : e.isLeader = false) :
      Advances (.renew (.request workerID)) e (.clear workerID)
  | renewed (caller revision result) :
      Advances (.updated caller revision) { e with revision := revision } (.returned result)
  | context (caller result) : Advances (.renewFailed caller) e (.returned result)
  | failed (caller) : Advances (.renewFailed caller) e (.renewLost caller)
  | lost (caller result) : Advances (.renewLost caller) .cleared (.returned result)
  | lostOn (workerID) : Advances (.renewLost (.request workerID)) .cleared (.clear workerID)
  | clear (workerID) :
      Advances (.clear workerID) .cleared (.create workerID (leaderValue workerID now))
  | acquired (workerID revision result) :
      Advances (.acquired workerID revision) ⟨workerID, revision, revision, true⟩ (.returned result)
  | release (leads : e.isLeader = true) : Advances .release e .delete
  | released (result) : Advances .released .cleared (.returned result)
  | isLeader (leads : e.isLeader = true) : Advances .isLeader e (.verify e.revision)
  | unverified (result) : Advances .unverified .cleared (.returned result)
  | check (held : e.termRevision ≠ 0) :
      Advances (.check e.termRevision) e (.checkGet e.termRevision e.workerID)
  | returns (at_ result) (entry : at_.isEntry = true) : Advances at_ e (.returned result)

theorem advance_advances {e e'} {now : Int} {context : Bool} {at_ at' : At}
    (moved : advance e now context at_ = some (e', at')) : Advances e now at_ e' at' := by
  unfold advance at moved
  split at moved
  case h_1 workerID leaseDuration =>
    split_ifs at moved with short leads <;> cases moved
    · exact .returns _ _ rfl
    · exact .renewing workerID leaseDuration leads.1 leads.2
    · exact .acquire workerID leaseDuration leads
  case h_2 caller =>
    split_ifs at moved with leads <;> cases moved
    · exact .renew caller leads
    · cases caller with
      | renew => exact .gone _ _ (by simpa using leads)
      | request workerID => exact .goneOn workerID (by simpa using leads)
  case h_3 caller revision =>
    cases moved
    cases caller with
    | renew | request => exact .renewed _ revision _
  case h_4 caller =>
    split_ifs at moved <;> cases moved
    · cases caller with
      | renew | request => exact .context _ _
    · exact .failed caller
  case h_5 caller =>
    cases moved
    cases caller with
    | renew => exact .lost _ _
    | request workerID => exact .lostOn workerID
  case h_6 workerID => cases moved; exact .clear workerID
  case h_7 workerID revision => cases moved; exact .acquired workerID revision _
  case h_8 =>
    split_ifs at moved with leads <;> cases moved
    · exact .release leads
    · exact .returns _ _ rfl
  case h_9 => cases moved; exact .released _
  case h_10 =>
    split_ifs at moved with leads <;> cases moved
    · exact .isLeader leads
    · exact .returns _ _ rfl
  case h_11 => cases moved; exact .unverified _
  case h_12 claimed =>
    split_ifs at moved with zero none_ other <;> cases moved
    · exact .returns _ _ rfl
    · exact .returns _ _ rfl
    · exact .returns _ _ rfl
    · obtain rfl : claimed = e.termRevision := by simpa using other
      exact .check zero
  case h_13 => cases moved

section Ownership

variable {T A : Type} [DecidableEq A]

variable (cells : A → NATSElection) (now : Int) in
inductive Steps : Pc A → Input A → (A → NATSElection) → Pc A → Prop
  | request (a workerID leaseDuration) : Steps .idle (.request a workerID leaseDuration) cells
        (.on a (.request workerID leaseDuration))
  | renew (a) : Steps .idle (.renew a) cells (.on a (.renew .renew))
  | release (a) : Steps .idle (.release a) cells (.on a .release)
  | isLeader (a) : Steps .idle (.isLeader a) cells (.on a .isLeader)
  | check (a claimed) : Steps .idle (.check a claimed) cells (.on a (.check claimed))
  | expire : Steps .idle .expire cells .expire
  | done (a result context) : Steps (.on a (.returned result)) (.go context) cells .idle
  | advances (a at_ context e' at') (advances : Advances (cells a) now at_ e' at') :
      Steps (.on a at_) (.go context) (Function.update cells a e') (.on a at')

variable {cells : A → NATSElection} {now : Int} {pc : Pc A} {cells' : A → NATSElection}
  {answer : Answer Unit (Leader A)} {b : Bucket Unit (Leader A)} {input : Input A}
  {w : Write Unit (Leader A)}

theorem next_steps {turn : Turn (A → NATSElection) (Pc A) T}
    (moved : next cells now pc input = some turn) :
    Steps cells now pc input turn.cells turn.pc ∧ turn.spawned = none := by
  unfold next at moved
  split at moved
  case h_1 => cases moved; exact ⟨.request _ _ _, rfl⟩
  case h_2 => cases moved; exact ⟨.renew _, rfl⟩
  case h_3 => cases moved; exact ⟨.release _, rfl⟩
  case h_4 => cases moved; exact ⟨.isLeader _, rfl⟩
  case h_5 => cases moved; exact ⟨.check _ _, rfl⟩
  case h_6 => cases moved; exact ⟨.expire, rfl⟩
  case h_7 => cases moved; exact ⟨.done _ _ _, rfl⟩
  case h_8 a at_ context _ =>
    obtain ⟨⟨e', at'⟩, advanced, rfl⟩ := Option.map_eq_some_iff.mp moved
    exact ⟨.advances a at_ context e' at' (advance_advances advanced), rfl⟩
  case h_9 => cases moved

inductive Asks : Pc A → Write Unit (Leader A) → Prop
  | update (a caller text revision) :
      Asks (.on a (.update caller text revision)) (.update () ⟨text, a, false⟩ revision)
  | create (a workerID text) : Asks (.on a (.create workerID text)) (.create () ⟨text, a, true⟩)
  | delete (a) : Asks (.on a .delete) (.remove ())
  | expire : Asks .expire (.remove ())

omit [DecidableEq A] in
theorem asks_write (asked : asks pc = some (.write w)) : Asks pc w := by
  unfold asks at asked
  split at asked
  all_goals cases asked
  · exact .update _ _ _ _
  · exact .create _ _ _
  · exact .delete _
  · exact .expire

variable {pc' : Pc A} {a : Action T (T × Input A)} {revision : Nat}

omit [DecidableEq A] in
theorem told_eq (moved : told cells pc answer = some (cells', pc')) :
    cells' = cells ∧
      ((∃ a at_ at', pc = .on a at_ ∧ answered at_ answer = some at' ∧ pc' = .on a at') ∨
        pc = .expire ∧ pc' = .idle ∧ ∃ revision, answer = .written revision) := by
  unfold told at moved
  split at moved
  next answer a at_ =>
    obtain ⟨at', heard, same⟩ := Option.map_eq_some_iff.mp moved
    cases same
    exact ⟨rfl, .inl ⟨a, at_, at', rfl, heard, rfl⟩⟩
  next revision =>
    cases moved
    exact ⟨rfl, .inr ⟨rfl, rfl, revision, rfl⟩⟩
  next => cases moved

def Pc.agent : Pc A → Option A
  | .on a _ => some a
  | _ => none

/-- Where a goroutine can go: out of its call, into one, or on in it. -/
inductive Goes (t : T) : Action T (T × Input A) → Pc A → Pc A → Prop
  | rests (a : Action T (T × Input A)) (pc pc' : Pc A) (none_ : pc'.agent = none) : Goes t a pc pc'
  | enters (input : Input A) (pc' : Pc A) (cells : A → NATSElection) (now : Int)
      (steps : Steps cells now .idle input cells pc') : Goes t (.call (t, input)) .idle pc'
  | advances (a : Action T (T × Input A)) (agent : A) (at_ at' : At) (e e' : NATSElection)
      (now : Int) (advances : Advances e now at_ e' at') :
      Goes t a (.on agent at_) (.on agent at')
  | hears (a : Action T (T × Input A)) (agent at_ at') (answer : Answer Unit (Leader A))
      (heard : answered at_ answer = some at') : Goes t a (.on agent at_) (.on agent at')

theorem told_goes {t : T} (moved : told cells pc answer = some (cells', pc')) :
    Goes t a pc pc' := by
  obtain ⟨_, ⟨agent, at_, at', rfl, heard, rfl⟩ | ⟨_, rfl, _⟩⟩ := told_eq moved
  · exact .hears a agent at_ at' answer heard
  · exact .rests a pc .idle rfl

theorem does_goes {w w'} {t : T} {spawned} (does : Does (agents T A) w t pc a w' pc' spawned) :
    Goes t a pc pc' ∧ spawned = none := by
  cases does with
  | next input turn moved =>
    obtain ⟨steps, none_⟩ := next_steps moved
    refine ⟨?_, none_⟩
    generalize turn.cells = cells' at steps
    generalize turn.pc = pc' at steps
    cases steps with
    | advances agent at_ context e' at' advances =>
      exact .advances _ agent at_ at' _ e' _ advances
    | done | expire => exact .rests _ _ _ rfl
    | request agent workerID leaseDuration => exact .enters _ _ w.locals w.clock (.request ..)
    | renew agent => exact .enters _ _ w.locals w.clock (.renew agent)
    | release agent => exact .enters _ _ w.locals w.clock (.release agent)
    | isLeader agent => exact .enters _ _ w.locals w.clock (.isLeader agent)
    | check agent claimed => exact .enters _ _ w.locals w.clock (.check agent claimed)
  | wrote _ _ _ _ _ told | heard _ _ _ _ _ told | late _ _ _ _ told => exact ⟨told_goes told, rfl⟩

def Owned (b : Bucket Unit (Leader A)) (a : A) (revision : Nat) : Prop :=
  ∃ e, b.Stored () e ∧ e.revision = revision ∧ e.value.agent = a

omit [DecidableEq A] in
theorem Owned.append {a : A} (owned : Owned b a revision) (op : Op (Leader A)) (now : Int) :
    Owned (b.append () op now) a revision := by
  obtain ⟨e, stored, rest⟩ := owned
  exact ⟨e, stored.append () op now, rest⟩

omit [DecidableEq A] in
theorem owned_written (b : Bucket Unit (Leader A)) (v : Leader A) (now : Int) :
    Owned (b.append () (.put v) now) v.agent (b.seq + 1) :=
  ⟨_, b.stored_append_put () v now, rfl, rfl⟩

def Rightful (b : Bucket Unit (Leader A)) : Write Unit (Leader A) → Prop
  | .update _ v revision => Owned b v.agent revision
  | _ => True

omit [DecidableEq A] in
theorem Rightful.append (rightful : Rightful b w) (op : Op (Leader A)) (now : Int) :
    Rightful (b.append () op now) w := by
  cases w with
  | update k v revision => exact Owned.append rightful op now
  | _ => trivial

omit [DecidableEq A] in
theorem Rightful.replaces {v} (rightful : Rightful b (.update () v revision))
    (accepted : b.accepts (.update () v revision) = true) :
    ∃ e, b.get () = some e ∧ e.value.agent = v.agent := by
  obtain ⟨e, stored, same, own⟩ := rightful
  exact ⟨e, stored.get_of_lastRevision (same ▸ Bucket.accepts_update.mp accepted), own⟩

def Carries (b : Bucket Unit (Leader A)) : Pc A → Prop
  | .on a (.update _ _ revision) | .on a (.updated _ revision) | .on a (.acquired _ revision) =>
    Owned b a revision
  | _ => True

omit [DecidableEq A] in
theorem Carries.append (carries : Carries b pc) (op : Op (Leader A)) (now : Int) :
    Carries (b.append () op now) pc := by
  unfold Carries at carries ⊢
  split
  all_goals first | exact Owned.append carries op now | trivial

/-- The agents' revisions and the renewals under way are all rightful. -/
structure Rightly (w : State (A → NATSElection) Unit (Leader A)) : Prop where
  cells : ∀ a, (w.locals a).isLeader = true → Owned w.bucket a (w.locals a).revision
  pending : ∀ write ∈ w.pending, Rightful w.bucket write

omit [DecidableEq A] in
theorem Advances.owned {a : A} {e e'} {at_ at' : At}
    (advances : Advances e now at_ e' at') (own : e.isLeader = true → Owned b a e.revision)
    (carries : Carries b (.on a at_)) :
    (e'.isLeader = true → Owned b a e'.revision) ∧ Carries b (.on a at') := by
  cases advances with
  | renew caller leads => exact ⟨own, own leads⟩
  | renewed | acquired => exact ⟨fun _ => carries, trivial⟩
  | lost caller result | lostOn workerID | clear workerID | released result | unverified result =>
    exact ⟨by simp [NATSElection.cleared], trivial⟩
  | _ => exact ⟨own, trivial⟩

theorem Steps.owned (steps : Steps cells now pc input cells' pc')
    (own : ∀ a, (cells a).isLeader = true → Owned b a (cells a).revision) (carries : Carries b pc) :
    (∀ a, (cells' a).isLeader = true → Owned b a (cells' a).revision) ∧ Carries b pc' := by
  cases steps with
  | advances a at_ context e' at' advances =>
    obtain ⟨mine, carries'⟩ := advances.owned (own a) carries
    refine ⟨fun c leads => ?_, carries'⟩
    by_cases same : c = a
    · subst same
      rw [Function.update_self] at leads ⊢
      exact mine leads
    · rw [Function.update_of_ne same] at leads ⊢
      exact own c leads
  | _ => exact ⟨own, trivial⟩

omit [DecidableEq A] in
theorem told_carries (moved : told cells pc answer = some (cells', pc'))
    (written : ∀ a at_ revision, pc = .on a at_ → answer = .written revision → at_ ≠ .delete →
      Owned b a revision)
    : Carries b pc' := by
  obtain ⟨_, ⟨a, at_, at', rfl, heard, rfl⟩ | ⟨_, rfl, _⟩⟩ := told_eq moved
  · unfold answered at heard
    split at heard
    all_goals try split_ifs at heard
    all_goals cases heard
    all_goals try trivial
    · exact written a _ _ rfl rfl (by simp)
    · exact written a _ _ rfl rfl (by simp)
  · trivial

variable [DecidableEq T]

theorem owned_of_reachable {ok} {s} (reached : Reachable (elections T A) ok s) :
    Rightly (world s) ∧ ∀ t, Carries s.bucket (s.locals.pcs t) := by
  refine Reachable.routine (F := fun _ => True) (I := Rightly) (N := fun w _ pc => Carries w.bucket pc)
    (fun _ _ => trivial) ?_ ?_ ?_ reached
  · rintro ⟨bucket, pending, clock, cells⟩ ⟨rfl, rfl, rfl⟩
    refine ⟨⟨fun a leads => ?_, fun _ mem => ?_⟩, fun _ => trivial⟩
    · cases leads
    · cases mem
  · intro s t a w' pc' spawned _ _ right carries does
    cases does with
    | next input turn moved =>
      obtain ⟨steps, none_⟩ := next_steps moved
      rw [none_]
      obtain ⟨cells, own⟩ := steps.owned right.cells (carries t)
      exact ⟨⟨cells, right.pending⟩, own, fun u _ => carries u, nofun⟩
    | wrote write cells pc' asked accepted told =>
      obtain ⟨rfl, _⟩ := told_eq told
      refine ⟨⟨fun a leads => (right.cells a leads).append _ _,
        fun write mem => (right.pending write mem).append _ _⟩, ?_,
        fun u _ => (carries u).append _ _, nofun⟩
      exact told_carries told fun a at_ revision here answer other => by
        cases answer
        rw [here] at asked
        cases asks_write asked with
        | update | create => exact owned_written _ _ _
        | delete a => exact absurd rfl other
    | heard _ answer cells pc' hears told =>
      obtain ⟨rfl, _⟩ := told_eq told
      refine ⟨right, told_carries told fun _ _ _ _ written _ => ?_, fun u _ => carries u, nofun⟩
      exact absurd (written ▸ hears) Hears.not_written
    | late write cells pc' asked told =>
      obtain ⟨rfl, _⟩ := told_eq told
      refine ⟨⟨right.cells, List.forall_mem_cons.mpr ⟨?_, right.pending⟩⟩,
        told_carries told (nofun), fun u _ => carries u,
        nofun⟩
      have own := carries t
      generalize s.locals.pcs t = pc at own asked
      cases asks_write asked with
      | update a caller text revision => exact own
      | create | delete | expire => trivial
  · intro s a w' _ _ right carries passes
    cases passes with
    | tick elapsed => exact ⟨⟨right.cells, right.pending⟩, carries⟩
    | land index write waiting accepted =>
      exact ⟨⟨fun a leads => (right.cells a leads).append _ _,
        fun write mem => (right.pending write (List.mem_of_mem_eraseIdx mem)).append _ _⟩,
        fun t => (carries t).append _ _⟩

/-- **Revisions tell leaders apart**, also while several agents believe they lead: the store
accepts the renewals of one of them at most. -/
theorem leaders_hold_distinct_revisions {ok} {s} (reached : Reachable (elections T A) ok s)
    {a b : A} (other : a ≠ b) (one : (s.locals.cells a).isLeader = true)
    (two : (s.locals.cells b).isLeader = true) :
    (s.locals.cells a).revision ≠ (s.locals.cells b).revision := by
  intro same
  obtain ⟨e, stored, at_, own⟩ := (owned_of_reachable reached).1.cells a one
  obtain ⟨e', stored', at', own'⟩ := (owned_of_reachable reached).1.cells b two
  have entry := (stored.unique stored' (at_.trans (same.trans at'.symm))).2
  exact other (own.symm.trans ((congrArg (·.value.agent) entry).trans own'))

end Ownership

/-! ## Parts of runs -/

variable {T A : Type}

def leads (t : T) (a : A) (workerID : GoString) : List (Action T (T × Input A)) :=
  [.call (t, .request a workerID 10), .call (t, .go false), .step t .served, .call (t, .go false),
    .call (t, .go false)]

def checks (t : T) (a : A) (claimed : Nat) : List (Action T (T × Input A)) :=
  [.call (t, .check a claimed), .call (t, .go false)]

/-- A `ReleaseLeadership`, up to its delete. -/
def releases (t : T) (a : A) : List (Action T (T × Input A)) :=
  [.call (t, .release a), .call (t, .go false)]

/-- The entry of one agent expires and another agent acquires the key: both lead. -/
theorem leaders_hold_distinct_revisions_expired :
    ∃ s, Reachable (elections (Fin 2) Bool) Free s ∧
      ((s.locals.cells true).isLeader = true ∧ (s.locals.cells false).isLeader = true) ∧
      (s.locals.cells true).revision ≠ (s.locals.cells false).revision :=
  exists_reachable_and fresh_init
    (leads 0 true [97] ++ [.call (1, .expire), .step 1 .served] ++ leads 1 false [98]) (by decide)
    fun _ reached both => leaders_hold_distinct_revisions reached (by decide) both.1 both.2

end Parti.Election
