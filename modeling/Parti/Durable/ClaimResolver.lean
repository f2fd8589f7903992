/-
# Durable.ClaimResolver — the cache of ownership claims and its three feeders

`ClaimBasedResolver` answers lookups from a cache. Three goroutines write it, each under
the mutex and each only with a revision above the cached one:

* the watcher collects the records of the bucket, in order, and applies them in batches;
* the reconciler lists the keys, reads each of them, and applies what is newer; a cached
  claim whose key is not listed gets a tombstone at its cached revision plus one;
* a forced refresh reads one key and applies it.

Readings and applications are separate steps. Claims are written by others. A watcher may
be handed any later record next: on a replay the server leaves out what was overwritten. A
listing has every live key, and may have others.

`Resolver.buried` is for the record: up to which revision of the bucket the cache has
answered that the claim is gone.
-/
import Parti.Durable.ProcessingGate
import Parti.Handoff.Claims
import Parti.Lib.Buckets
import Parti.Lib.Kv
import Parti.Lib.Threads

namespace Parti.Durable.ClaimResolver

open Handoff Lib List
open Lib.Kv (Bucket Entry Record Op Write)

/-! ## The cache -/

/-- Keys of the bucket: those with the prefix of claims, and others. -/
inductive ClaimKey where
  | claim (pid : Pid)
  | other (name : String)
deriving DecidableEq

abbrev Data := Option Claim

structure ClaimEntry where
  owner : String
  state : HandoffState
  epoch : Int
  revision : Nat
  deleted : Bool
deriving DecidableEq

def toState : ClaimState → HandoffState
  | .stable => .stable
  | .prepare => .prepare
  | .commit => .commit
  | .abort | .unknown => .unknown

def ClaimEntry.ofClaim (claim : Claim) (revision : Nat) : ClaimEntry :=
  ⟨claim.owner, toState claim.state, claim.epoch, revision, false⟩

def ClaimEntry.tombstone (revision : Nat) : ClaimEntry :=
  ⟨"", .unknown, 0, revision, true⟩

abbrev Cache := AList fun _ : Pid => ClaimEntry

def getOwner (cache : Cache) (pid : Pid) : Option (String × HandoffState × Int) :=
  match cache.lookup pid with
  | some entry => if entry.deleted then none else some (entry.owner, entry.state, entry.epoch)
  | none => none

/-- A coalesced change. `since` is for the record: the revision of the bucket at which
the claim was seen to be gone. -/
inductive Change where
  | delete (since : Nat)
  | upsert (data : Data)
deriving DecidableEq

structure Pending where
  change : Change
  revision : Nat
deriving DecidableEq

abbrev Batch := AList fun _ : Pid => Pending

def stale (revision : Nat) (existing : Option ClaimEntry) : Bool :=
  existing.any fun entry => revision ≤ entry.revision

/-- The entry a change leads to; none if it is stale or does not decode. -/
def Pending.entry (p : Pending) (existing : Option ClaimEntry) : Option ClaimEntry :=
  if stale p.revision existing then none
  else
    match p.change with
    | .delete _ => some (.tombstone p.revision)
    | .upsert data => data.map fun claim => .ofClaim claim p.revision

def applyPendingBatch (cache : Cache) (batch : Batch) : Cache :=
  overlay (fun _ p existing => p.entry existing) cache batch

def handleWatcherUpdate (record : Record ClaimKey Data) (batch : Batch) : Batch :=
  match record.key, record.op with
  | .other _, _ => batch
  | .claim pid, .delete => batch.insert pid ⟨.delete record.revision, record.revision⟩
  | .claim pid, .put data => batch.insert pid ⟨.upsert data, record.revision⟩

/-! ## A reconcile scan -/

/-- A scan after the listing. `listed` is for the record: the revision of the bucket at
the listing. -/
structure Scan where
  snap : Cache
  todo : List Pid
  seen : List Pid
  unreadable : List Pid
  pending : Batch
  listed : Nat

def claimKeys (names : List ClaimKey) : List Pid :=
  names.filterMap fun name =>
    match name with
    | .claim pid => some pid
    | .other _ => none

/-- What a read of the next key does. A key that was deleted since the listing cannot be
read either. -/
def Scan.read (scan : Scan) (pid : Pid) (rest : List Pid) : Option (Entry Data) → Scan
  | none => { scan with todo := rest, unreadable := pid :: scan.unreadable }
  | some entry =>
    { scan with
      todo := rest
      seen := pid :: scan.seen
      pending := if stale entry.revision (scan.snap.lookup pid) then scan.pending
        else scan.pending.insert pid ⟨.upsert entry.value, entry.revision⟩ }

def Scan.tombstone (scan : Scan) (pid : Pid) (entry : ClaimEntry) : Option Pending :=
  if entry.deleted ∨ pid ∈ scan.seen ∨ pid ∈ scan.unreadable then none
  else some ⟨.delete scan.listed, entry.revision + 1⟩

def Scan.batch (scan : Scan) : Batch :=
  overlay (fun pid entry _ => scan.tombstone pid entry) scan.pending scan.snap

/-! ## The goroutines -/

structure Resolver where
  bucket : Bucket ClaimKey Data
  cache : Cache
  buried : Pid → Nat

def Resolver.buries (w : Resolver) (batch : Batch) (pid : Pid) : Nat :=
  match batch.lookup pid with
  | some ⟨.delete since, revision⟩ =>
    if stale revision (w.cache.lookup pid) then w.buried pid else max (w.buried pid) since
  | _ => w.buried pid

def Resolver.apply (w : Resolver) (batch : Batch) : Resolver :=
  { w with cache := applyPendingBatch w.cache batch, buried := w.buries batch }

def Resolver.refresh (w : Resolver) (pid : Pid) (claim : Claim) (revision : Nat) : Resolver :=
  if stale revision (w.cache.lookup pid) then w
  else { w with cache := w.cache.insert pid (.ofClaim claim revision) }

inductive Pc where
  | idle
  | watching (cursor : Nat) (batch : Batch)
  | refresh (pid : Pid)
  | refreshed (pid : Pid) (claim : Claim) (revision : Nat)
  | keys (snap : Cache)
  | gets (scan : Scan)
  /-- `reconcileScan` has returned whether every listed key was readable. -/
  | scanned (clean : Bool)

inductive Input where
  | foreign (write : Write ClaimKey Data) (now : Int)
  | watch
  | update (record : Record ClaimKey Data)
  | flush
  | close
  | refresh (pid : Pid)
  | reconcile
  | listed (names : List ClaimKey)
  | served
  | failed
  | go

section System

variable (T : Type)

def next (w : Resolver) : Pc → Input → Option (Turn Resolver Pc T)
  | .idle, .foreign write now =>
    (w.bucket.write now write).map fun b => ⟨{ w with bucket := b }, .idle, none⟩
  | .idle, .watch => some ⟨w, .watching 0 ∅, none⟩
  | .watching cursor batch, .update record =>
    if record ∈ w.bucket.log ∧ cursor < record.revision then
      some ⟨w, .watching record.revision (handleWatcherUpdate record batch), none⟩
    else none
  | .watching cursor batch, .flush => some ⟨w.apply batch, .watching cursor ∅, none⟩
  | .watching _ batch, .close => some ⟨w.apply batch, .idle, none⟩
  | .idle, .refresh pid => some ⟨w, .refresh pid, none⟩
  | .refresh pid, .served =>
    match w.bucket.get (.claim pid) with
    | some ⟨some claim, revision, _⟩ => some ⟨w, .refreshed pid claim revision, none⟩
    | _ => some ⟨w, .idle, none⟩
  | .refresh _, .failed => some ⟨w, .idle, none⟩
  | .refreshed pid claim revision, .go => some ⟨w.refresh pid claim revision, .idle, none⟩
  | .idle, .reconcile => some ⟨w, .keys w.cache, none⟩
  | .keys snap, .listed names =>
    if ∀ key ∈ w.bucket.keys, key ∈ names then
      some ⟨w, .gets ⟨snap, claimKeys names, [], [], ∅, w.bucket.seq⟩, none⟩
    else none
  | .keys _, .failed => some ⟨w, .scanned false, none⟩
  | .gets scan, .served =>
    match scan.todo with
    | pid :: rest => some ⟨w, .gets (scan.read pid rest (w.bucket.get (.claim pid))), none⟩
    | [] => none
  | .gets scan, .failed =>
    match scan.todo with
    | pid :: rest => some ⟨w, .gets (scan.read pid rest none), none⟩
    | [] => none
  | .gets scan, .go =>
    if scan.todo = [] then
      some ⟨w.apply scan.batch, .scanned scan.unreadable.isEmpty, none⟩
    else none
  | .scanned _, .go => some ⟨w, .idle, none⟩
  | _, _ => none

def feeders : Program Resolver Pc Input T where
  idle pc :=
    match pc with
    | .idle => true
    | _ => false
  next w _ pc input := next T w pc input

def Warmed (w : Resolver) : Prop :=
  (∀ pid entry, w.cache.lookup pid = some entry →
    ∃ claim created, w.bucket.Stored (.claim pid) ⟨some claim, entry.revision, created⟩ ∧
      entry = .ofClaim claim entry.revision) ∧
  w.buried = fun _ => 0

def system [DecidableEq T] : System (Pool Resolver Pc T) (T × Input) :=
  (feeders T).system Warmed .idle

end System

/-! ## What a step can be -/

inductive Fed (offered : Pending → Prop) (existing : Option ClaimEntry) :
    Option ClaimEntry → Prop
  | kept : Fed offered existing existing
  | stored (p entry) (offer : offered p) (fresh : stale p.revision existing = false)
      (made : p.entry existing = some entry) : Fed offered existing (some entry)

theorem lookup_applyPendingBatch (cache : Cache) (batch : Batch) (pid : Pid) :
    Fed (fun p => batch.lookup pid = some p) (cache.lookup pid)
      ((applyPendingBatch cache batch).lookup pid) := by
  cases found : batch.lookup pid with
  | none =>
    rw [applyPendingBatch, lookup_overlay_of_none found]
    exact .kept
  | some p =>
    rw [applyPendingBatch, lookup_overlay_of_change found]
    cases made : p.entry (cache.lookup pid) with
    | none => exact .kept
    | some entry =>
      refine .stored p entry rfl ?_ made
      unfold Pending.entry at made
      split at made
      next => cases made
      next fresh => simpa using fresh

theorem lookup_refresh (w : Resolver) (pid other : Pid) (claim : Claim) (revision : Nat) :
    Fed (fun p => other = pid ∧ p = ⟨.upsert (some claim), revision⟩) (w.cache.lookup other)
      ((w.refresh pid claim revision).cache.lookup other) := by
  unfold Resolver.refresh
  split
  next => exact .kept
  next fresh =>
    have fresh : stale revision (w.cache.lookup pid) = false := by simpa using fresh
    by_cases same : other = pid
    · subst same
      rw [AList.lookup_insert]
      exact .stored ⟨.upsert (some claim), revision⟩ _ ⟨rfl, rfl⟩ fresh
        (by simp [Pending.entry, fresh])
    · rw [AList.lookup_insert_ne same]
      exact .kept

inductive Steps (w : Resolver) : Pc → Resolver → Pc → Prop
  | wrote (write : Write ClaimKey Data) (now : Int) :
      Steps w .idle { w with bucket := w.bucket.append write.key write.op now } .idle
  | watch : Steps w .idle w (.watching 0 ∅)
  | update (cursor batch record) (known : record ∈ w.bucket.log) :
      Steps w (.watching cursor batch) w
        (.watching record.revision (handleWatcherUpdate record batch))
  | flush (cursor batch) : Steps w (.watching cursor batch) (w.apply batch) (.watching cursor ∅)
  | close (cursor batch) : Steps w (.watching cursor batch) (w.apply batch) .idle
  | refresh (pid) : Steps w .idle w (.refresh pid)
  | read (pid claim revision created)
      (live : w.bucket.get (.claim pid) = some ⟨some claim, revision, created⟩) :
      Steps w (.refresh pid) w (.refreshed pid claim revision)
  | refreshed (pid claim revision) :
      Steps w (.refreshed pid claim revision) (w.refresh pid claim revision) .idle
  | reconcile : Steps w .idle w (.keys w.cache)
  | listed (snap names) (all : ∀ key ∈ w.bucket.keys, key ∈ names) :
      Steps w (.keys snap) w (.gets ⟨snap, claimKeys names, [], [], ∅, w.bucket.seq⟩)
  | got (scan pid rest entry) (next : scan.todo = pid :: rest)
      (live : w.bucket.get (.claim pid) = some entry) :
      Steps w (.gets scan) w (.gets (scan.read pid rest (some entry)))
  | missed (scan pid rest) (next : scan.todo = pid :: rest) :
      Steps w (.gets scan) w (.gets (scan.read pid rest none))
  | applied (scan) (done : scan.todo = []) :
      Steps w (.gets scan) (w.apply scan.batch) (.scanned scan.unreadable.isEmpty)
  | unlisted (snap) : Steps w (.keys snap) w (.scanned false)
  | returned (pc) : Steps w pc w .idle

theorem next_steps {T : Type} {w} {pc : Pc} {input : Input}
    {turn} (moved : next T w pc input = some turn) :
    Steps w pc turn.cells turn.pc ∧ turn.spawned = none := by
  unfold next at moved
  split at moved
  case h_1 write now =>
    obtain ⟨b, written, rfl⟩ := Option.map_eq_some_iff.mp moved
    obtain ⟨-, rfl⟩ := Bucket.write_eq_some.mp written
    exact ⟨.wrote write now, rfl⟩
  case h_2 => cases moved; exact ⟨.watch, rfl⟩
  case h_3 cursor batch record =>
    split_ifs at moved with known
    cases moved
    exact ⟨.update cursor batch record known.1, rfl⟩
  case h_4 cursor batch => cases moved; exact ⟨.flush cursor batch, rfl⟩
  case h_5 cursor batch => cases moved; exact ⟨.close cursor batch, rfl⟩
  case h_6 pid => cases moved; exact ⟨.refresh pid, rfl⟩
  case h_7 pid =>
    split at moved <;> cases moved
    next claim revision created live => exact ⟨.read pid claim revision created live, rfl⟩
    next => exact ⟨.returned _, rfl⟩
  case h_8 => cases moved; exact ⟨.returned _, rfl⟩
  case h_9 pid claim revision => cases moved; exact ⟨.refreshed pid claim revision, rfl⟩
  case h_10 => cases moved; exact ⟨.reconcile, rfl⟩
  case h_11 snap names =>
    split_ifs at moved with all
    cases moved
    exact ⟨.listed snap names all, rfl⟩
  case h_12 snap => cases moved; exact ⟨.unlisted snap, rfl⟩
  case h_13 scan =>
    split at moved <;> cases moved
    next pid rest todo =>
      cases live : w.bucket.get (.claim pid) with
      | none => exact ⟨.missed scan pid rest todo, rfl⟩
      | some entry => exact ⟨.got scan pid rest entry todo live, rfl⟩
  case h_14 scan =>
    split at moved <;> cases moved
    next pid rest todo => exact ⟨.missed scan pid rest todo, rfl⟩
  case h_15 scan =>
    split_ifs at moved with done
    cases moved
    exact ⟨.applied scan done, rfl⟩
  case h_16 => cases moved; exact ⟨.returned _, rfl⟩
  case h_17 => cases moved

theorem feeders_fixed {T : Type} : (feeders T).Fixed :=
  fun _ _ _ _ _ moved => (next_steps moved).2

/-! ## Changes on their way -/

variable {Q Q' : Pid → Pending → Prop}

def Batch.All (Q : Pid → Pending → Prop) (batch : Batch) : Prop :=
  ∀ pid p, batch.lookup pid = some p → Q pid p

theorem all_empty : Batch.All Q ∅ := by
  intro pid p found
  simp at found

theorem Batch.All.imp {batch : Batch} (weaker : ∀ pid p, Q pid p → Q' pid p)
    (all : Batch.All Q batch) : Batch.All Q' batch :=
  fun pid p found => weaker pid p (all pid p found)

variable {pid : Pid}

theorem Batch.All.insert {batch : Batch} (all : Batch.All Q batch) {p} (holds : Q pid p) :
    Batch.All Q (batch.insert pid p) := by
  intro other q found
  by_cases same : other = pid
  · subst same
    rw [AList.lookup_insert] at found
    cases found
    exact holds
  · rw [AList.lookup_insert_ne same] at found
    exact all other q found

/-- So have the changes of a scan, the tombstone of every cached claim included that it
has not listed. -/
structure Scan.Staged (Q : Pid → Pending → Prop) (scan : Scan) : Prop where
  pending : Batch.All Q scan.pending
  missing : ∀ pid entry, scan.snap.lookup pid = some entry → entry.deleted = false →
    pid ∈ scan.todo ∨ pid ∈ scan.seen ∨ pid ∈ scan.unreadable ∨
      Q pid ⟨.delete scan.listed, entry.revision + 1⟩

variable {scan : Scan}

theorem Scan.Staged.imp (weaker : ∀ pid p, Q pid p → Q' pid p) (staged : scan.Staged Q) :
    scan.Staged Q' where
  pending := staged.pending.imp weaker
  missing := by
    intro pid entry found present
    rcases staged.missing pid entry found present with todo | seen | unread | holds
    · exact .inl todo
    · exact .inr (.inl seen)
    · exact .inr (.inr (.inl unread))
    · exact .inr (.inr (.inr (weaker _ _ holds)))

theorem mem_claimKeys {names} :
    pid ∈ claimKeys names ↔ .claim pid ∈ names := by
  simp only [claimKeys, mem_filterMap]
  constructor
  · rintro ⟨name, mem, eq⟩
    cases name with
    | claim other =>
      cases eq
      exact mem
    | other _ => cases eq
  · intro mem
    exact ⟨.claim pid, mem, rfl⟩

theorem staged_listed {b : Bucket ClaimKey Data} {snap : Cache} {names}
    {listed : Nat} (all : ∀ key ∈ b.keys, key ∈ names)
    (missing : ∀ pid entry, snap.lookup pid = some entry → entry.deleted = false →
      b.get (.claim pid) = none → Q pid ⟨.delete listed, entry.revision + 1⟩) :
    Scan.Staged Q ⟨snap, claimKeys names, [], [], ∅, listed⟩ where
  pending := all_empty
  missing := by
    intro pid entry found present
    by_cases named : pid ∈ claimKeys names
    · exact .inl named
    · have gone : b.get (.claim pid) = none := by
        by_contra live
        have live : (b.get (.claim pid)).isSome = true := Option.isSome_iff_ne_none.mpr live
        exact named (mem_claimKeys.mpr (all _ (Bucket.mem_keys.mpr live)))
      exact .inr (.inr (.inr (missing pid entry found present gone)))

theorem Scan.Staged.read {rest} (staged : scan.Staged Q) (next : scan.todo = pid :: rest) {got}
    (read : ∀ entry, got = some entry → Q pid ⟨.upsert entry.value, entry.revision⟩) :
    (scan.read pid rest got).Staged Q := by
  have moved : ∀ other entry, scan.snap.lookup other = some entry → entry.deleted = false →
      other = pid ∨ other ∈ rest ∨ other ∈ scan.seen ∨ other ∈ scan.unreadable ∨
        Q other ⟨.delete scan.listed, entry.revision + 1⟩ := by
    intro other entry found present
    rcases staged.missing other entry found present with todo | others
    · rw [next] at todo
      rcases mem_cons.mp todo with here | later
      · exact .inl here
      · exact .inr (.inl later)
    · exact .inr (.inr others)
  cases got with
  | none =>
    refine ⟨staged.pending, fun other entry found present => ?_⟩
    rcases moved other entry found present with rfl | todo | seen | unread | holds
    · exact .inr (.inr (.inl mem_cons_self))
    · exact .inl todo
    · exact .inr (.inl seen)
    · exact .inr (.inr (.inl (.tail _ unread)))
    · exact .inr (.inr (.inr holds))
  | some entry =>
    refine ⟨?_, fun other entry found present => ?_⟩
    · simp only [Scan.read]
      split
      · exact staged.pending
      · exact staged.pending.insert (read entry rfl)
    · rcases moved other entry found present with rfl | todo | seen | unread | holds
      · exact .inr (.inl mem_cons_self)
      · exact .inl todo
      · exact .inr (.inl (.tail _ seen))
      · exact .inr (.inr (.inl unread))
      · exact .inr (.inr (.inr holds))

theorem lookup_batch_of_none (absent : scan.snap.lookup pid = none) :
    scan.batch.lookup pid = scan.pending.lookup pid :=
  lookup_overlay_of_none absent

theorem lookup_batch_of_some {entry} (found : scan.snap.lookup pid = some entry) :
    scan.batch.lookup pid = (scan.tombstone pid entry).or (scan.pending.lookup pid) :=
  lookup_overlay_of_change found

theorem Scan.Staged.batch (staged : scan.Staged Q) (done : scan.todo = []) :
    Batch.All Q scan.batch := by
  intro pid p found
  cases held : scan.snap.lookup pid with
  | none =>
    rw [lookup_batch_of_none held] at found
    exact staged.pending pid p found
  | some entry =>
    rw [lookup_batch_of_some held] at found
    unfold Scan.tombstone at found
    split_ifs at found with skipped
    · exact staged.pending pid p found
    · simp only [not_or, Bool.not_eq_true] at skipped
      obtain ⟨present, unseen, readable⟩ := skipped
      cases found
      have fate := staged.missing pid entry held present
      simpa only [done, not_mem_nil, unseen, readable, false_or] using fate

end Parti.Durable.ClaimResolver
