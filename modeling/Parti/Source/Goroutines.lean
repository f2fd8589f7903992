/-
# Source.Goroutines — callers, reconciler and watcher over one key

A goroutine is in front of a request to the store or of a step under the source's
mutex, never both, so between an answer of the store and its application to the
cache anything may happen: another call, a watcher event, a write to the key, the
deletion and re-creation of the whole bucket.

The watcher may deliver any record the key ever had, late and repeatedly, also
one of an earlier incarnation of the bucket (`past`). Writes may go unanswered
and arrive later (`late`).
-/
import Parti.Lib.Client
import Parti.Source.NatsKV

namespace Parti.Source

open Parti.Types Lib Lib.Kv Lib.Client

inductive Result where
  | ok
  | invalid (cause : PartitionsError)
  | failed
  /-- `ErrUpdateRetryExhausted`. -/
  | retryExhausted
  /-- The entry read is the one the reconciler applied last. -/
  | skipped
deriving DecidableEq

/-- Where a goroutine is. `left` counts the attempts of the retry loop, the
current one included. -/
inductive Pc (B : Type) where
  | update (clean : List Partition) (data : B) (left : Nat)
  | updateWrite (clean : List Partition) (data : B) (left : Nat) (rev : Nat) (known : Bool)
  | updateApply (clean : List Partition) (newRev : Nat)
  /-- `refreshFromKV`, before and after its read. -/
  | refresh (clean : List Partition) (data : B) (left : Nat)
  | refreshApply (clean : List Partition) (data : B) (left : Nat)
      (found : Option (List Partition × Nat))
  | modify (fn : List Partition → List Partition) (left : Nat)
  | modifyWrite (fn : List Partition → List Partition) (left : Nat) (clean : List Partition)
      (data : B) (rev : Nat)
  | modifyApply (clean : List Partition) (newRev : Nat)
  | reconcile
  | reconcileEmpty
  /-- `applyReconcileEntry`: about to look at the cached revision; about to apply
  through the gate; about to read again; about to reset. -/
  | reconcileEntry (parts : List Partition) (rev : Nat) (created : Int)
  | reconcileApply (parts : List Partition) (rev : Nat) (created : Int)
  | reconcileConfirm (cachedRev cachedGen : Nat)
  | reconcileReset (parts : List Partition) (rev : Nat) (created : Int)
      (cachedRev cachedGen : Nat)
  | returned (result : Result)

/-- The reconcile loop is one goroutine; calls come on any number of others. -/
inductive Goroutine (T : Type) where
  | reconciler
  | caller (t : T)
deriving DecidableEq

section Goroutine

variable {B L : Type} (codec : Codec B)

def updateRetry (clean : List Partition) (data : B) (left : Nat) : Pc B :=
  if left ≤ 1 then .returned .retryExhausted else .update clean data (left - 1)

def modifyRetry (fn : List Partition → List Partition) (left : Nat) : Pc B :=
  if left ≤ 1 then .returned .retryExhausted else .modify fn (left - 1)

/-- What `Update` does before its loop. -/
def Pc.ofUpdate (retries : Nat) (parts : List Partition) : Pc B :=
  match validateAndDedupe parts with
  | .error cause => .returned (.invalid cause)
  | .ok clean =>
    match codec.encode clean with
    | none => .returned .failed
    | some data => .update clean data retries

def modifyPropose (fn : List Partition → List Partition) (left : Nat)
    (current : List Partition) (rev : Nat) : Pc B :=
  match validateAndDedupe (fn current) with
  | .error cause => .returned (.invalid cause)
  | .ok clean =>
    match codec.encode clean with
    | none => .returned .failed
    | some data => .modifyWrite fn left clean data rev

def Pc.request : Pc B → Option (Request Unit B)
  | .updateWrite _ data _ rev known =>
    some (.write (if known then .update () data rev else .create () data))
  | .modifyWrite _ _ _ data rev =>
    some (.write (if rev = 0 then .create () data else .update () data rev))
  | .refresh _ _ _ | .modify _ _ | .reconcile | .reconcileConfirm _ _ => some (.read ())
  | _ => none

/-- Where an answer of the store takes a goroutine. The reconciler's skip cache is
its own, so it is looked at here. -/
def Pc.resume (s : NatsKV L) : Pc B → Answer Unit B → Pc B
  | .updateWrite clean _ _ _ _, .written rev => .updateApply clean rev
  | .updateWrite clean data left _ _, .conflict => .refresh clean data left
  | .refresh clean data left, .entry none => .refreshApply clean data left none
  | .refresh clean data left, .entry (some e) =>
    match codec.decode e.value with
    | none => .returned .failed
    | some parts => .refreshApply clean data left (some (parts, e.revision))
  | .modify fn left, .entry none => modifyPropose codec fn left [] 0
  | .modify fn left, .entry (some e) =>
    match codec.decode e.value with
    | none => .returned .failed
    | some parts => modifyPropose codec fn left parts e.revision
  | .modifyWrite _ _ clean _ _, .written rev => .modifyApply clean rev
  | .modifyWrite fn left _ _ _, .conflict => modifyRetry fn left
  | .reconcile, .entry none => .reconcileEmpty
  | .reconcile, .entry (some e) =>
    if s.reconcileKnown ∧ e.revision = s.reconcileRev ∧ e.created = s.reconcileCreated then
      .returned .skipped
    else
      match codec.decode e.value with
      | none => .returned .failed
      | some parts => .reconcileEntry parts e.revision e.created
  | .reconcileConfirm cachedRev cachedGen, .entry (some e) =>
    match codec.decode e.value with
    | none => .returned .failed
    | some parts =>
      -- below the baseline although the latest: the bucket is a new one
      if e.revision ≠ 0 ∧ e.revision < cachedRev then
        .reconcileReset parts e.revision e.created cachedRev cachedGen
      else .reconcileApply parts e.revision e.created
  | _, _ => .returned .failed

/-- Apply what `refreshFromKV` has read. -/
def refreshFromKV (s : NatsKV L) : Option (List Partition × Nat) → NatsKV L
  | none => s.applyEmptyPreservingKnown
  | some (parts, rev) => (s.applyLocal parts rev false).1

def NatsKV.recorded (applied : NatsKV L × Bool) (rev : Nat) (created : Int) : NatsKV L :=
  if applied.2 then applied.1.markReconcileApplied rev created else applied.1

def Pc.locked (s : NatsKV L) : Pc B → Option (NatsKV L × Pc B)
  | .update clean data left => some (s, .updateWrite clean data left s.revision s.known)
  | .updateApply clean newRev => some ((s.applyLocal clean newRev true).1, .returned .ok)
  | .refreshApply clean data left found =>
    some (refreshFromKV s found, updateRetry clean data left)
  | .modifyApply clean newRev => some ((s.applyLocal clean newRev true).1, .returned .ok)
  | .reconcileEmpty =>
    some ({ s.applyEmptyPreservingKnown with reconcileKnown := false }, .returned .ok)
  | .reconcileEntry parts rev created =>
    if rev = 0 ∨ s.revision ≤ rev then some (s, .reconcileApply parts rev created)
    else some (s, .reconcileConfirm s.revision s.applyGen)
  | .reconcileApply parts rev created =>
    some (NatsKV.recorded (s.applyLocal parts rev true) rev created, .returned .ok)
  | .reconcileReset parts rev created cachedRev cachedGen =>
    some (NatsKV.recorded (s.applyReconcileReset parts rev cachedRev cachedGen) rev created,
      .returned .ok)
  | _ => none

/-- What the watcher does with a record; a value that does not decode is logged. -/
def watched (s : NatsKV L) (r : Record Unit B) : NatsKV L :=
  match r.op with
  | .delete => (s.applyLocal [] r.revision true).1
  | .put value =>
    match codec.decode value with
    | none => s
    | some parts => (s.applyLocal parts r.revision true).1

/-- `Start` seeds the cache from the live entry, then opens its watcher; `none` when
the entry does not decode. -/
def started (s : NatsKV L) (live : Option (Entry B)) (watching : Bool) : Option (NatsKV L) :=
  match live with
  | none => some { (s.applyLocalLocked [] 0 false).1 with running := watching }
  | some e => (codec.decode e.value).map fun parts =>
    { (s.applyLocalLocked (sortPartitions parts) e.revision true).1 with running := watching }

end Goroutine

structure World (T L B : Type) where
  bucket : Bucket Unit B
  /-- The records of earlier incarnations of the bucket. -/
  past : List (Record Unit B)
  late : List (Write Unit B)
  clock : Int
  source : NatsKV L
  tasks : Goroutine T → Option (Pc B)

inductive SourceEvent (T L B : Type) where
  | update (t : T) (parts : List Partition)
  | modify (t : T) (fn : List Partition → List Partition)
  | reconcile
  /-- A goroutine's request is served, fails, or goes unanswered. -/
  | request (g : Goroutine T) (reply : Reply)
  | locked (g : Goroutine T)
  /-- The caller takes the result. -/
  | done (g : Goroutine T)
  | deliver (index : Nat)
  | start (watching : Bool)
  | stop
  | watch (l : L)
  | unwatch (l : L)
  | receive (l : L)
  | list (l : L)
  /-- Somebody else writes or deletes the key. -/
  | foreign (op : Op B)
  | recreate
  | land (index : Nat)
  | tick (elapsed : Nat)

section World

variable {T L B : Type} [DecidableEq T] [DecidableEq L] (codec : Codec B) (retries : Nat)

namespace World

def set (s : World T L B) (g : Goroutine T) (pc : Option (Pc B)) : World T L B :=
  { s with tasks := Function.update s.tasks g pc }

def setListener (s : World T L B) (l : L) (x : Option Listener) : World T L B :=
  { s with source := s.source.setListener l x }

def enter (s : World T L B) (g : Goroutine T) (pc : Pc B) : Option (World T L B) :=
  if (s.tasks g).isNone then some (s.set g (some pc)) else none

def step (s : World T L B) : SourceEvent T L B → Option (World T L B)
  | .update t parts => s.enter (.caller t) (.ofUpdate codec retries parts)
  | .modify t fn => s.enter (.caller t) (.modify fn retries)
  | .reconcile => s.enter .reconciler .reconcile
  | .request g reply =>
    (s.tasks g).bind fun pc => pc.request.bind fun request =>
      (serve s.bucket s.clock request reply).map fun served =>
        { s.set g (some (pc.resume codec s.source served.2.1)) with
          bucket := served.1
          late := served.2.2 ++ s.late }
  | .locked g =>
    (s.tasks g).bind fun pc => (pc.locked s.source).map fun next =>
      { s.set g (some next.2) with source := next.1 }
  | .done g =>
    match s.tasks g with
    | some (.returned _) => some (s.set g none)
    | _ => none
  | .deliver index =>
    ((s.bucket.log ++ s.past)[index]?).map fun r =>
      { s with source := watched codec s.source r }
  | .start watching =>
    if s.source.running then some s
    else (started codec s.source (s.bucket.get ()) watching).map fun source =>
      { s with source := source }
  | .stop => some { s with source := s.source.stop }
  | .watch l =>
    if s.source.running ∧ (s.source.listeners l).isNone then
      some (s.setListener l (some ⟨false, true, []⟩))
    else none
  | .unwatch l => some (s.setListener l none)
  | .receive l =>
    match s.source.listeners l with
    | some x =>
      if x.signal then some (s.setListener l (some { x with signal := false, due := true }))
      else none
    | none => none
  | .list l =>
    match s.source.listeners l with
    | some x =>
      some (s.setListener l (some { x with due := false, seen := s.source.partitions }))
    | none => none
  | .foreign op => some { s with bucket := s.bucket.append () op s.clock }
  | .recreate => some { s with bucket := .empty, past := s.bucket.log ++ s.past }
  | .land index =>
    (s.late[index]?).bind fun w => (s.bucket.write s.clock w).map fun b =>
      { s with bucket := b, late := s.late.eraseIdx index }
  | .tick elapsed => some { s with clock := s.clock + elapsed }

/-- Nobody has called the source yet; the key may have any content. -/
structure Unused (s : World T L B) : Prop where
  source : s.source = newNatsKV L
  tasks : ∀ g, s.tasks g = none

end World

variable (T L)

def natsKV : System (World T L B) (SourceEvent T L B) :=
  ⟨World.Unused, World.step codec retries⟩

end World

end Parti.Source
