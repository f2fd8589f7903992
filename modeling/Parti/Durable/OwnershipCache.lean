/-
# Durable.OwnershipCache — the cache is an authentic, monotone view of the bucket

A cached claim was written at its cached revision (`Written`). A cached tombstone has a
revision below every live claim of its partition, now and later (`Gone`): a reconcile
tombstone because its guess, the cached revision plus one, is at most the revision of the
marker that the scan did not see. The same holds of every change on its way to the cache.

* `ownership_cache_view`: in every reachable state every cached claim is authentic; from
  there on no cached revision ever decreases; and a scan that runs alone and reads every
  listed key leaves the cache with the bucket's answer for every partition.
-/
import Parti.Durable.ClaimResolver

namespace Parti.Durable.ClaimResolver

open Handoff Lib List ClaimEntry
open Lib.Kv (Bucket Entry Record Op Write)

/-! ## What stands behind an entry -/

section Backing

variable {b : Bucket ClaimKey Data} {pid : Pid}

/-- The data was written for the partition at that revision. -/
def Written (b : Bucket ClaimKey Data) (pid : Pid) (data : Data) (revision : Nat) : Prop :=
  ∃ created, b.Stored (.claim pid) ⟨data, revision, created⟩

/-- No live claim of the partition, now or later, is that old. -/
structure Gone (b : Bucket ClaimKey Data) (pid : Pid) (revision : Nat) : Prop where
  past : revision ≤ b.seq
  below : ∀ live, b.get (.claim pid) = some live → revision < live.revision

inductive Backed (b : Bucket ClaimKey Data) (pid : Pid) : ClaimEntry → Prop
  | claim (claim revision) (written : Written b pid (some claim) revision) :
      Backed b pid (.ofClaim claim revision)
  | tombstone (revision) (gone : Gone b pid revision) : Backed b pid (.tombstone revision)

inductive Genuine (b : Bucket ClaimKey Data) (pid : Pid) : Pending → Prop
  | delete (since revision) (gone : Gone b pid revision) : Genuine b pid ⟨.delete since, revision⟩
  | upsert (data revision) (written : Written b pid data revision) :
      Genuine b pid ⟨.upsert data, revision⟩

variable {revision : Nat} {data : Data} {entry : ClaimEntry} {p : Pending}

theorem Written.append (written : Written b pid data revision) (key : ClaimKey) (op : Op Data)
    (now : Int) : Written (b.append key op now) pid data revision :=
  written.imp fun _ stored => stored.append key op now

theorem Gone.append (gone : Gone b pid revision) (key : ClaimKey) (op : Op Data) (now : Int) :
    Gone (b.append key op now) pid revision where
  past := Nat.le_succ_of_le gone.past
  below := by
    intro live found
    rcases Bucket.get_append_eq_some found with before | new
    · exact gone.below live before
    · have := gone.past
      omega

theorem Backed.append (backed : Backed b pid entry) (key : ClaimKey) (op : Op Data) (now : Int) :
    Backed (b.append key op now) pid entry := by
  cases backed with
  | claim claim revision written => exact .claim claim revision (written.append key op now)
  | tombstone revision gone => exact .tombstone revision (gone.append key op now)

theorem Genuine.append (genuine : Genuine b pid p) (key : ClaimKey) (op : Op Data) (now : Int) :
    Genuine (b.append key op now) pid p := by
  cases genuine with
  | delete since revision gone => exact .delete since revision (gone.append key op now)
  | upsert data revision written => exact .upsert data revision (written.append key op now)

theorem Genuine.backed {existing} (genuine : Genuine b pid p)
    (made : p.entry existing = some entry) : Backed b pid entry := by
  unfold Pending.entry at made
  split_ifs at made
  cases genuine with
  | delete since revision gone =>
    cases made
    exact .tombstone revision gone
  | upsert data revision written =>
    obtain ⟨claim, rfl, rfl⟩ := Option.map_eq_some_iff.mp made
    exact .claim claim revision written

theorem gone_of_marker {created : Int}
    (marker : (⟨.claim pid, .delete, revision, created⟩ : Record ClaimKey Data) ∈ b.log) :
    Gone b pid revision where
  past := b.revision_le_seq marker
  below := by
    intro live found
    have newest := Bucket.get_eq_some.mp found
    obtain ⟨member, -, newer⟩ := Bucket.last_spec newest
    refine Nat.lt_of_le_of_ne (newer _ marker rfl) fun same => ?_
    have one := b.record_unique marker member same
    simp at one

theorem gone_of_missing (written : Written b pid data revision)
    (missing : b.get (.claim pid) = none) : Gone b pid (revision + 1) where
  past := by
    obtain ⟨created, stored⟩ := written
    exact stored.lt_seq missing
  below := by
    intro live found
    rw [missing] at found
    cases found

end Backing

/-! ## The cache and the changes on their way to it -/

section Feeding

variable {b : Bucket ClaimKey Data} {batch : Batch} {cache : Cache} {pid : Pid}

def Cached (b : Bucket ClaimKey Data) (cache : Cache) : Prop :=
  ∀ pid entry, cache.lookup pid = some entry → Backed b pid entry

abbrev Offers (b : Bucket ClaimKey Data) (batch : Batch) : Prop :=
  batch.All (Genuine b)

theorem offers_update (offers : Offers b batch) {record}
    (known : record ∈ b.log) : Offers b (handleWatcherUpdate record batch) := by
  obtain ⟨key, op, revision, created⟩ := record
  cases key with
  | other name => exact offers
  | claim pid =>
    cases op with
    | delete => exact offers.insert (.delete _ _ (gone_of_marker known))
    | put data => exact offers.insert (.upsert data revision ⟨created, known⟩)

theorem Cached.fed {cache' : Cache} (cached : Cached b cache)
    (fed : ∀ pid, Fed (Genuine b pid) (cache.lookup pid) (cache'.lookup pid)) : Cached b cache' := by
  intro pid entry found
  have change := fed pid
  rw [found] at change
  generalize existing : cache.lookup pid = before at change
  cases change with
  | kept => exact cached pid entry existing
  | stored p _ genuine _ made => exact genuine.backed made

theorem Fed.imp {offered offered'} {existing after}
    (weaker : ∀ p, offered p → offered' p) (fed : Fed offered existing after) :
    Fed offered' existing after := by
  cases fed with
  | kept => exact .kept
  | stored p entry offer fresh made => exact .stored p entry (weaker p offer) fresh made

theorem Cached.apply (cached : Cached b cache) (offers : Offers b batch) :
    Cached b (applyPendingBatch cache batch) :=
  cached.fed fun pid => (lookup_applyPendingBatch cache batch pid).imp fun p => offers pid p

theorem Cached.refresh {w : Resolver} {claim : Claim} {revision : Nat}
    (cached : Cached w.bucket w.cache) (written : Written w.bucket pid (some claim) revision) :
    Cached w.bucket (w.refresh pid claim revision).cache := by
  refine cached.fed fun other => (lookup_refresh w pid other claim revision).imp ?_
  rintro p ⟨rfl, rfl⟩
  exact .upsert _ revision written

/-! ## A scan -/

structure Scanning (b : Bucket ClaimKey Data) (scan : Scan) : Prop where
  snap : Cached b scan.snap
  staged : scan.Staged (Genuine b)

theorem scanning_listed {snap : Cache} {names} {listed : Nat}
    (cached : Cached b snap) (all : ∀ key ∈ b.keys, key ∈ names) :
    Scanning b ⟨snap, claimKeys names, [], [], ∅, listed⟩ where
  snap := cached
  staged := by
    refine staged_listed all fun pid entry found present missing => ?_
    cases cached pid entry found with
    | tombstone revision gone => cases present
    | claim claim revision written => exact .delete _ _ (gone_of_missing written missing)

theorem Scanning.read {scan : Scan} {rest} (scanning : Scanning b scan)
    (next : scan.todo = pid :: rest) {got}
    (read : ∀ entry, got = some entry → b.get (.claim pid) = some entry) :
    Scanning b (scan.read pid rest got) where
  snap := by
    cases got with
    | none | some => exact scanning.snap
  staged := scanning.staged.read next fun entry eq =>
    .upsert _ _ ⟨entry.created, Bucket.get_stored (read entry eq)⟩

end Feeding

/-! ## Every run -/

def Knows (b : Bucket ClaimKey Data) : Pc → Prop
  | .watching _ batch => Offers b batch
  | .refreshed pid claim revision => Written b pid (some claim) revision
  | .keys snap => Cached b snap
  | .gets scan => Scanning b scan
  | _ => True

theorem Knows.append {b} {pc : Pc} (knows : Knows b pc) (key : ClaimKey)
    (op : Op Data) (now : Int) : Knows (b.append key op now) pc := by
  cases pc with
  | watching cursor batch => exact Batch.All.imp (fun _ _ genuine => genuine.append key op now) knows
  | refreshed pid claim revision => exact Written.append knows key op now
  | keys snap => exact fun pid entry found => (knows pid entry found).append key op now
  | gets scan =>
    exact ⟨fun pid entry found => (knows.snap pid entry found).append key op now,
      knows.staged.imp fun _ _ genuine => genuine.append key op now⟩
  | idle | refresh | scanned => trivial

section Runs

variable {T : Type} {w w' : Resolver} {pc pc' : Pc}

theorem Steps.bucket (steps : Steps w pc w' pc') :
    w'.bucket = w.bucket ∨
      ∃ key op now, w'.bucket = w.bucket.append key op now ∧ w'.cache = w.cache := by
  cases steps with
  | wrote write now => exact .inr ⟨write.key, write.op, now, rfl, rfl⟩
  | refreshed pid claim revision =>
    refine .inl ?_
    unfold Resolver.refresh
    split <;> rfl
  | _ => exact .inl rfl

theorem Steps.others (steps : Steps w pc w' pc') {other : Pc} (knows : Knows w.bucket other) :
    Knows w'.bucket other := by
  rcases steps.bucket with same | ⟨key, op, now, grown, -⟩
  · exact same ▸ knows
  · exact grown ▸ knows.append key op now

theorem Steps.cached (steps : Steps w pc w' pc') (cached : Cached w.bucket w.cache)
    (knows : Knows w.bucket pc) : Cached w'.bucket w'.cache ∧ Knows w'.bucket pc' := by
  cases steps with
  | wrote write now =>
    exact ⟨fun pid entry found => (cached pid entry found).append write.key write.op now, trivial⟩
  | watch => exact ⟨cached, all_empty⟩
  | update cursor batch record known => exact ⟨cached, offers_update knows known⟩
  | flush cursor batch => exact ⟨cached.apply knows, all_empty⟩
  | close cursor batch => exact ⟨cached.apply knows, trivial⟩
  | refresh | unlisted | returned => exact ⟨cached, trivial⟩
  | read pid claim revision created live => exact ⟨cached, created, Bucket.get_stored live⟩
  | refreshed pid claim revision =>
    have same : (w.refresh pid claim revision).bucket = w.bucket := by
      unfold Resolver.refresh
      split <;> rfl
    exact ⟨same ▸ cached.refresh knows, trivial⟩
  | reconcile => exact ⟨cached, cached⟩
  | listed snap names all => exact ⟨cached, scanning_listed knows all⟩
  | got scan pid rest entry next live =>
    refine ⟨cached, knows.read next ?_⟩
    rintro _ ⟨⟩
    exact live
  | missed scan pid rest next => exact ⟨cached, knows.read next nofun⟩
  | applied scan done => exact ⟨cached.apply (knows.staged.batch done), trivial⟩

theorem warmed_cached (warmed : Warmed w) : Cached w.bucket w.cache := by
  intro pid entry found
  obtain ⟨claim, created, stored, eq⟩ := warmed.1 pid entry found
  rw [eq]
  exact .claim claim entry.revision ⟨created, stored⟩

variable [DecidableEq T] {ok : Pool Resolver Pc T → T × Input → Prop} {s s' : Pool Resolver Pc T}

theorem cache_backed (reached : Reachable (system T) ok s) :
    Cached s.cells.bucket s.cells.cache ∧ ∀ t, Knows s.cells.bucket (s.pcs t) := by
  refine Reachable.knows_fixed feeders_fixed (K := fun _ => True)
    (I := fun w => Cached w.bucket w.cache) (N := fun w _ pc => Knows w.bucket pc)
    (fun _ _ => trivial) ?_ ?_ reached
  · exact fun w warmed => ⟨warmed_cached warmed, fun _ => trivial⟩
  · intro s t input turn _ _ cached knows moved
    have steps := (next_steps moved).1
    exact ⟨steps.cached cached knows, fun u _ => steps.others⟩

/-! ## Revisions never decrease -/

def Advances (cache cache' : Cache) : Prop :=
  ∀ pid entry, cache.lookup pid = some entry →
    ∃ entry', cache'.lookup pid = some entry' ∧ entry.revision ≤ entry'.revision

theorem Pending.entry_revision {p : Pending} {existing} {entry}
    (made : p.entry existing = some entry) : entry.revision = p.revision := by
  unfold Pending.entry at made
  split_ifs at made
  cases change : p.change with
  | delete since =>
    rw [change] at made
    cases made
    rfl
  | upsert data =>
    rw [change] at made
    obtain ⟨claim, -, rfl⟩ := Option.map_eq_some_iff.mp made
    rfl

theorem advances_of_fed {cache cache' : Cache} {offered : Pid → Pending → Prop}
    (fed : ∀ pid, Fed (offered pid) (cache.lookup pid) (cache'.lookup pid)) :
    Advances cache cache' := by
  intro pid entry found
  have change := fed pid
  rw [found] at change
  generalize after : cache'.lookup pid = later at change
  cases change with
  | kept => exact ⟨entry, rfl, le_refl _⟩
  | stored p entry' _ fresh made =>
    refine ⟨entry', rfl, ?_⟩
    rw [p.entry_revision made]
    simp only [stale, Option.any_some, decide_eq_false_iff_not] at fresh
    omega

theorem Steps.advances (steps : Steps w pc w' pc') : Advances w.cache w'.cache := by
  have same : Advances w.cache w.cache := fun _ entry found => ⟨entry, found, le_refl _⟩
  cases steps with
  | flush _ batch | close _ batch => exact advances_of_fed (lookup_applyPendingBatch w.cache batch)
  | applied scan done => exact advances_of_fed (lookup_applyPendingBatch w.cache scan.batch)
  | refreshed pid claim revision =>
    exact advances_of_fed fun other => lookup_refresh w pid other claim revision
  | _ => exact same

theorem run_advances (later : Reachable ((system T).after s) ok s') :
    Advances s.cells.cache s'.cells.cache := by
  refine Reachable.invariant (I := fun s' => Advances s.cells.cache s'.cells.cache) ?_ ?_ later
  · rintro _ rfl pid entry found
    exact ⟨entry, found, le_refl _⟩
  · rintro mid ⟨t, input⟩ after advanced _ taken pid entry found
    obtain ⟨turn, moved, fits, rfl⟩ := Program.step_eq_some.mp taken
    obtain ⟨entry', found', le⟩ := advanced pid entry found
    rw [Turn.pool_cells]
    obtain ⟨entry'', found'', le'⟩ := (next_steps moved).1.advances pid entry' found'
    exact ⟨entry'', found'', le_trans le le'⟩

end Runs

/-! ## A scan that runs alone -/

def bucketOwner (b : Bucket ClaimKey Data) (pid : Pid) : Option (String × HandoffState × Int) :=
  (b.get (.claim pid)).bind fun live => live.value.map fun claim =>
    (claim.owner, toState claim.state, claim.epoch)

def Decodable (b : Bucket ClaimKey Data) : Prop :=
  ∀ pid live, b.get (.claim pid) = some live → ∃ claim, live.value = some claim

def upsertOf (snap : Cache) (pid : Pid) (live : Entry Data) : Option Pending :=
  if stale live.revision (snap.lookup pid) then none
  else some ⟨.upsert live.value, live.revision⟩

structure Reads (b : Bucket ClaimKey Data) (scan : Scan) : Prop where
  listed : ∀ pid live, b.get (.claim pid) = some live →
    pid ∈ scan.todo ∨ pid ∈ scan.seen ∨ pid ∈ scan.unreadable
  seen : ∀ pid ∈ scan.seen, ∃ live, b.get (.claim pid) = some live ∧
    scan.pending.lookup pid = upsertOf scan.snap pid live
  unseen : ∀ pid, pid ∉ scan.seen → scan.pending.lookup pid = none

section Alone

variable {b : Bucket ClaimKey Data}

theorem reads_listed {snap : Cache} {names} {listed : Nat} (all : ∀ key ∈ b.keys, key ∈ names) :
    Reads b ⟨snap, claimKeys names, [], [], ∅, listed⟩ where
  listed := by
    intro pid live found
    exact .inl (mem_claimKeys.mpr (all _ (Bucket.mem_keys.mpr (by rw [found]; rfl))))
  seen := by simp
  unseen := by simp

variable {scan : Scan} {pid : Pid} {rest : List Pid} {live : Entry Data}

theorem read_pending_self :
    (scan.read pid rest (some live)).pending.lookup pid =
      (upsertOf scan.snap pid live).or (scan.pending.lookup pid) := by
  simp only [Scan.read, upsertOf]
  split <;> simp

theorem read_pending_ne {other : Pid} (ne : other ≠ pid) :
    (scan.read pid rest (some live)).pending.lookup other = scan.pending.lookup other := by
  simp only [Scan.read]
  split
  · rfl
  · exact AList.lookup_insert_ne ne

theorem Reads.missed (reads : Reads b scan) (next : scan.todo = pid :: rest) :
    Reads b (scan.read pid rest none) where
  listed := by
    intro other live found
    rcases reads.listed other live found with todo | seen | unread
    · rw [next] at todo
      rcases mem_cons.mp todo with rfl | later
      · exact .inr (.inr mem_cons_self)
      · exact .inl later
    · exact .inr (.inl seen)
    · exact .inr (.inr (.tail _ unread))
  seen := reads.seen
  unseen := reads.unseen

theorem Reads.got (reads : Reads b scan) (next : scan.todo = pid :: rest)
    (found : b.get (.claim pid) = some live) : Reads b (scan.read pid rest (some live)) where
  listed := by
    intro other live' found'
    rcases reads.listed other live' found' with todo | seen | unread
    · rw [next] at todo
      rcases mem_cons.mp todo with rfl | later
      · exact .inr (.inl mem_cons_self)
      · exact .inl later
    · exact .inr (.inl (.tail _ seen))
    · exact .inr (.inr unread)
  seen := by
    intro other mem
    by_cases same : other = pid
    · subst same
      refine ⟨live, found, ?_⟩
      -- a key that was listed twice is as stale as before
      have before : scan.pending.lookup other = none ∨
          scan.pending.lookup other = upsertOf scan.snap other live := by
        by_cases again : other ∈ scan.seen
        · obtain ⟨live', found', change⟩ := reads.seen other again
          cases found.symm.trans found'
          exact .inr change
        · exact .inl (reads.unseen other again)
      rw [read_pending_self]
      show _ = upsertOf scan.snap other live
      rcases before with none_ | same
      · rw [none_, Option.or_none]
      · rw [same, Option.or_self]
    · have before : other ∈ scan.seen := (mem_cons.mp mem).resolve_left same
      obtain ⟨live', found', change⟩ := reads.seen other before
      exact ⟨live', found', (read_pending_ne same).trans change⟩
  unseen := by
    intro other unseen
    simp only [Scan.read, mem_cons, not_or] at unseen
    exact (read_pending_ne unseen.1).trans (reads.unseen other unseen.2)

theorem agrees_live {claim : Claim} {revision : Nat} {created : Int} (cached : Cached b scan.snap)
    (reads : Reads b scan) (seen : pid ∈ scan.seen)
    (found : b.get (.claim pid) = some ⟨some claim, revision, created⟩) :
    getOwner (applyPendingBatch scan.snap scan.batch) pid =
      some (claim.owner, toState claim.state, claim.epoch) := by
  obtain ⟨live, found', change⟩ := reads.seen pid seen
  cases found.symm.trans found'
  -- no tombstone is made of a partition that was read
  have batch : scan.batch.lookup pid = scan.pending.lookup pid := by
    cases held : scan.snap.lookup pid with
    | none => exact lookup_batch_of_none held
    | some entry => simp [lookup_batch_of_some held, Scan.tombstone, seen]
  unfold upsertOf at change
  split_ifs at change with old
  · have kept : (applyPendingBatch scan.snap scan.batch).lookup pid = scan.snap.lookup pid :=
      lookup_overlay_of_none (batch.trans change)
    cases held : scan.snap.lookup pid with
    | none => simp [held, stale] at old
    | some entry =>
      simp only [held, stale, Option.any_some, decide_eq_true_eq] at old
      cases cached pid entry held with
      | tombstone revision' gone =>
        exact absurd old (Nat.not_le_of_lt (gone.below _ found))
      | claim claim' revision' written =>
        obtain ⟨created', stored⟩ := written
        have newest : revision' ≤ revision := stored.le_get found
        simp only [ofClaim] at old
        have same : revision' = revision := le_antisymm newest old
        obtain ⟨-, eq⟩ := stored.unique (Bucket.get_stored found) same
        cases eq
        simp [getOwner, kept, held, ofClaim]
  · have stored : (applyPendingBatch scan.snap scan.batch).lookup pid =
        some (.ofClaim claim revision) := by
      rw [applyPendingBatch, lookup_overlay_of_change (batch.trans change)]
      simp [Pending.entry, old]
    simp [getOwner, stored, ofClaim]

theorem agrees_missing (cached : Cached b scan.snap) (reads : Reads b scan)
    (readable : scan.unreadable = []) (missing : b.get (.claim pid) = none) :
    getOwner (applyPendingBatch scan.snap scan.batch) pid = none := by
  have unseen : pid ∉ scan.seen := by
    intro seen
    obtain ⟨live, found, -⟩ := reads.seen pid seen
    rw [missing] at found
    cases found
  have quiet : scan.pending.lookup pid = none := reads.unseen pid unseen
  cases held : scan.snap.lookup pid with
  | none =>
    have absent := (lookup_batch_of_none held).trans quiet
    have kept : (applyPendingBatch scan.snap scan.batch).lookup pid = scan.snap.lookup pid :=
      lookup_overlay_of_none absent
    simp [getOwner, kept, held]
  | some entry =>
    have batch := lookup_batch_of_some held
    cases cached pid entry held with
    | tombstone revision gone =>
      have absent : scan.batch.lookup pid = none := by
        simp [batch, Scan.tombstone, tombstone, quiet]
      have kept : (applyPendingBatch scan.snap scan.batch).lookup pid = scan.snap.lookup pid :=
        lookup_overlay_of_none absent
      simp [getOwner, kept, held, tombstone]
    | claim claim revision written =>
      have staged : scan.batch.lookup pid = some ⟨.delete scan.listed, revision + 1⟩ := by
        simp [batch, Scan.tombstone, ofClaim, unseen, readable]
      have buried : (applyPendingBatch scan.snap scan.batch).lookup pid =
          some (.tombstone (revision + 1)) := by
        rw [applyPendingBatch, lookup_overlay_of_change staged]
        simp [Pending.entry, held, stale, ofClaim]
      simp [getOwner, buried, tombstone]

theorem agrees_of_reads (cached : Cached b scan.snap) (reads : Reads b scan) (done : scan.todo = [])
    (readable : scan.unreadable = []) (decodes : Decodable b) (pid : Pid) :
    getOwner (applyPendingBatch scan.snap scan.batch) pid = bucketOwner b pid := by
  cases found : b.get (.claim pid) with
  | none =>
    rw [agrees_missing cached reads readable found]
    simp [bucketOwner, found]
  | some live =>
    obtain ⟨claim, value⟩ := decodes pid live found
    obtain ⟨data, revision, created⟩ := live
    cases value
    have seen : pid ∈ scan.seen := by
      have listed := reads.listed pid _ found
      simpa [done, readable] using listed
    rw [agrees_live cached reads seen found]
    simp [bucketOwner, found]

end Alone

def Input.scans : Input → Bool
  | .reconcile | .listed _ | .served | .failed | .go => true
  | _ => false

section Quiet

variable {T : Type} [DecidableEq T] {s s' : Pool Resolver Pc T} {t : T} {w : Resolver}

/-- Nothing but the scan of one goroutine happens: no claim is written, no batch is
applied and no claim refreshed. -/
def Alone (t : T) (_ : Pool Resolver Pc T) (a : T × Input) : Prop :=
  a.1 = t ∧ a.2.scans = true

/-- Where the scanning goroutine is, and what it has made of the bucket. -/
def Stands (w : Resolver) : Pc → Prop
  | .idle => True
  | .keys snap => snap = w.cache
  | .gets scan => scan.snap = w.cache ∧ Reads w.bucket scan
  | .scanned clean => clean = true → Decodable w.bucket →
      ∀ pid, getOwner w.cache pid = bucketOwner w.bucket pid
  | _ => False

theorem stands_applied {scan : Scan} (cached : Cached w.bucket w.cache) (snap : scan.snap = w.cache)
    (reads : Reads w.bucket scan) (done : scan.todo = []) :
    Stands (w.apply scan.batch) (.scanned scan.unreadable.isEmpty) := by
  intro clean decodes pid
  show getOwner (applyPendingBatch w.cache scan.batch) pid = bucketOwner w.bucket pid
  rw [← snap] at cached ⊢
  exact agrees_of_reads cached reads done (isEmpty_iff.mp clean) decodes pid

omit [DecidableEq T] in
theorem Stands.step {pc : Pc} {input : Input} {turn} (stands : Stands w pc)
    (cached : Cached w.bucket w.cache) (scans : input.scans = true)
    (moved : next T w pc input = some turn) : Stands turn.cells turn.pc := by
  cases pc with
  | idle =>
    cases input with
    | reconcile => cases moved; rfl
    | _ => first | (cases scans; done) | cases moved
  | keys snap =>
    cases input with
    | listed names =>
      simp only [next] at moved
      split_ifs at moved with all
      cases moved
      exact ⟨stands, reads_listed all⟩
    | failed => cases moved; exact nofun
    | _ => first | (cases scans; done) | cases moved
  | gets scan =>
    obtain ⟨snap, reads⟩ := stands
    cases input with
    | served =>
      simp only [next] at moved
      split at moved <;> cases moved
      next pid rest todo =>
        cases live : w.bucket.get (.claim pid) with
        | none => exact ⟨snap, reads.missed todo⟩
        | some entry => exact ⟨snap, reads.got todo live⟩
    | failed =>
      simp only [next] at moved
      split at moved <;> cases moved
      next pid rest todo => exact ⟨snap, reads.missed todo⟩
    | go =>
      simp only [next] at moved
      split_ifs at moved with done
      cases moved
      exact stands_applied cached snap reads done
    | _ => first | (cases scans; done) | cases moved
  | scanned clean =>
    cases input with
    | go => cases moved; trivial
    | _ => first | (cases scans; done) | cases moved
  | watching | refresh | refreshed => exact stands.elim

theorem stands_alone (reached : Reachable (system T) Free s) (starts : s.pcs t = .idle)
    (alone : Reachable ((system T).after s) (Alone t) s') : Stands s'.cells (s'.pcs t) := by
  have known : ∀ mid, Reachable ((system T).after s) (Alone t) mid →
      Cached mid.cells.bucket mid.cells.cache := fun mid later =>
    (cache_backed (Reachable.after (fun _ _ _ => trivial) reached later)).1
  refine Reachable.invariant_with (I := fun mid => Stands mid.cells (mid.pcs t)) known ?_ ?_ alone
  · rintro _ rfl
    rw [starts]
    trivial
  · rintro mid ⟨u, input⟩ after cached stands ⟨rfl, scans⟩ taken
    obtain ⟨turn, moved, fits, rfl⟩ := Program.step_eq_some.mp taken
    rw [Turn.pool_cells, Turn.pool_self fits]
    exact stands.step cached scans moved

theorem ownership_cache_view (reached : Reachable (system T) Free s) :
    (∀ pid entry, s.cells.cache.lookup pid = some entry → entry.deleted = false →
      ∃ claim created,
        s.cells.bucket.Stored (.claim pid) ⟨some claim, entry.revision, created⟩ ∧
          entry = .ofClaim claim entry.revision) ∧
    (∀ s', Reachable ((system T).after s) Free s' → ∀ pid entry,
      s.cells.cache.lookup pid = some entry →
        ∃ entry', s'.cells.cache.lookup pid = some entry' ∧ entry.revision ≤ entry'.revision) ∧
    ∀ t s', s.pcs t = .idle → Reachable ((system T).after s) (Alone t) s' →
      s'.pcs t = .scanned true → Decodable s'.cells.bucket →
        ∀ pid, getOwner s'.cells.cache pid = bucketOwner s'.cells.bucket pid := by
  refine ⟨fun pid entry found present => ?_, fun s' later => run_advances later,
    fun t s' starts alone ended decodes => ?_⟩
  · cases (cache_backed reached).1 pid entry found with
    | tombstone revision gone => cases present
    | claim claim revision written =>
      obtain ⟨created, stored⟩ := written
      exact ⟨claim, created, stored, rfl⟩
  · have stands := stands_alone reached starts alone
    rw [ended] at stands
    exact stands rfl decodes

end Quiet

/-! ## A claim the watcher never delivered -/

def claimOf (owner : String) (epoch : Int) : Claim :=
  { newInitialClaim [1] owner 0 30 with epoch := epoch }

def unwatched : Pool Resolver Pc Bool :=
  ⟨⟨Bucket.empty.append (.claim [1]) (.put (some (claimOf "w" 1))) 0, ∅, fun _ => 0⟩,
    fun _ => .idle⟩

theorem unwatched_init : (system Bool).init unwatched :=
  ⟨⟨fun _ _ found => by simp [unwatched] at found, rfl⟩, fun _ => rfl⟩

theorem unwatched_decodable : Decodable unwatched.cells.bucket := by
  intro pid live found
  rcases Bucket.get_append_eq_some found with before | -
  · simp [Bucket.empty, Bucket.get, Bucket.last] at before
  · by_cases same : pid = [1]
    · subst same
      simp only [unwatched, Bucket.get_append_put, Option.some.injEq] at found
      exact ⟨claimOf "w" 1, by rw [← found]⟩
    · simp [unwatched, Bucket.empty, Bucket.get, Bucket.last, Ne.symm same] at found

def scanOfOne : List (Bool × Input) :=
  [(true, .reconcile), (true, .listed [.claim [1]]), (true, .served), (true, .go)]

instance (t : Bool) (s : Pool Resolver Pc Bool) (a : Bool × Input) : Decidable (Alone t s a) :=
  inferInstanceAs (Decidable (_ ∧ _))

def Pc.isClean : Pc → Bool
  | .scanned clean => clean
  | _ => false

theorem ownership_cache_view_rescued :
    ∃ s, Reachable ((system Bool).after unwatched) (Alone true) s ∧
      getOwner unwatched.cells.cache [1] = none ∧
      getOwner s.cells.cache [1] = some ("w", .stable, 1) ∧
      ∀ pid, getOwner s.cells.cache pid = bucketOwner s.cells.bucket pid := by
  obtain ⟨s, alone, log, owner, clean⟩ := exists_reachable
    (M := (system Bool).after unwatched) (Alone true) rfl scanOfOne
    (fun s => s.cells.bucket.log = unwatched.cells.bucket.log ∧
      getOwner s.cells.cache [1] = some ("w", .stable, 1) ∧ (s.pcs true).isClean = true) (by decide)
  have same : s.cells.bucket = unwatched.cells.bucket := by
    cases held : s.cells.bucket
    rw [held] at log
    cases log
    rfl
  have ended : s.pcs true = .scanned true := by
    cases at_ : s.pcs true <;> rw [at_] at clean <;> cases clean
    rfl
  obtain ⟨-, -, agrees⟩ := ownership_cache_view (.initial unwatched_init)
  exact ⟨s, alone, rfl, owner,
    agrees true s rfl alone ended (same ▸ unwatched_decodable)⟩

end Parti.Durable.ClaimResolver
