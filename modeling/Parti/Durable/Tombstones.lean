/-
# Durable.Tombstones — a deleted claim and the revisions that guard its tombstone

A tombstone keeps older values out of the cache by its revision. The watcher's carries
the revision of the delete marker, a reconcile tombstone the cached revision plus one. If the
claim was written again after the cached revision and then deleted, its later values have
revisions above the tombstone, and a refresh or a batch that holds one still stores it.

* `deleted_claim_stays_gone`: in every run in which a scan finds a cached claim missing
  only when no later value of it was written (`Current`), what `GetOwner` returns was
  written after every deletion the cache has answered for.
* `deleted_claim_resurrected`: the run of a stalled watcher, a refresh, and a scan.
-/
import Parti.Durable.OwnershipCache

namespace Parti.Durable.ClaimResolver

open Handoff Lib
open Lib.Kv (Bucket Entry Record Op Write)

/-! ## The condition -/

/-- No value of a cached claim that is gone has a revision above the tombstone that the
scan will make of it. -/
def UpToDate (b : Bucket ClaimKey Data) (snap : Cache) : Prop :=
  ∀ held ∈ snap.entries, held.2.deleted = false → b.get (.claim held.1) = none →
    ∀ r ∈ b.log, r.key = .claim held.1 → r.op ≠ .delete → r.revision ≤ held.2.revision + 1

instance (b : Bucket ClaimKey Data) (snap : Cache) : Decidable (UpToDate b snap) :=
  inferInstanceAs (Decidable (∀ held ∈ snap.entries, _))

/-- A scan lists the keys only when that is so. -/
def ListsAt (b : Bucket ClaimKey Data) : Pc → Input → Prop
  | .keys snap, .listed _ => UpToDate b snap
  | _, _ => True

def Current {T : Type} (s : Pool Resolver Pc T) (a : T × Input) : Prop :=
  ListsAt s.cells.bucket (s.pcs a.1) a.2

instance {T : Type} (s : Pool Resolver Pc T) (a : T × Input) : Decidable (Current s a) := by
  unfold Current ListsAt
  split <;> infer_instance

/-! ## What a tombstone keeps out -/

section Covering

variable {b : Bucket ClaimKey Data} {pid : Pid}

/-- A deletion on its way to the cache keeps out every value written before it. -/
def Covers (b : Bucket ClaimKey Data) (pid : Pid) (p : Pending) : Prop :=
  ∀ since, p.change = .delete since → since ≤ b.seq ∧
    ∀ e, b.Stored (.claim pid) e → e.revision ≤ since → e.revision ≤ p.revision

theorem Covers.append {p} (covers : Covers b pid p) (key : ClaimKey) (op : Op Data)
    (now : Int) : Covers (b.append key op now) pid p := by
  intro since deletes
  obtain ⟨past, below⟩ := covers since deletes
  refine ⟨Nat.le_succ_of_le past, fun e stored old => ?_⟩
  rcases List.mem_cons.mp stored with new | before
  · have : e.revision = b.seq + 1 := by simpa using congrArg Record.revision new
    omega
  · exact below e before old

variable {revision : Nat} {w w' : Resolver} {batch : Batch} {claim : Claim}

theorem covers_upsert {data : Data} :
    Covers b pid ⟨.upsert data, revision⟩ := by
  intro since deletes
  cases deletes

theorem covers_update (all : batch.All (Covers b)) {record}
    (known : record ∈ b.log) : (handleWatcherUpdate record batch).All (Covers b) := by
  obtain ⟨key, op, revision, created⟩ := record
  cases key with
  | other name => exact all
  | claim pid =>
    cases op with
    | put data => exact all.insert covers_upsert
    | delete =>
      refine all.insert fun since deletes => ?_
      cases deletes
      exact ⟨b.revision_le_seq known, fun _ _ old => old⟩

theorem covers_listed {snap : Cache} {names} (upToDate : UpToDate b snap)
    (all : ∀ key ∈ b.keys, key ∈ names) :
    Scan.Staged (Covers b) ⟨snap, claimKeys names, [], [], ∅, b.seq⟩ := by
  refine staged_listed all fun pid entry found present missing since deletes => ?_
  cases deletes
  refine ⟨le_refl _, fun e stored _ => ?_⟩
  exact upToDate ⟨pid, entry⟩ (AList.mem_lookup_iff.mp found) present missing _ stored rfl nofun

/-- What the record of a deletion means for the entry that is cached. -/
structure Rests (w : Resolver) (pid : Pid) : Prop where
  past : w.buried pid ≤ w.bucket.seq
  covered : ∀ e, w.bucket.Stored (.claim pid) e → e.revision ≤ w.buried pid →
    ∃ entry, w.cache.lookup pid = some entry ∧ e.revision ≤ entry.revision
  later : ∀ entry, w.cache.lookup pid = some entry → entry.deleted = false →
    w.buried pid < entry.revision

theorem Rests.wrote (rests : Rests w pid) (key : ClaimKey) (op : Op Data) (now : Int) :
    Rests { w with bucket := w.bucket.append key op now } pid where
  past := Nat.le_succ_of_le rests.past
  covered := by
    intro e stored old
    rcases List.mem_cons.mp stored with new | before
    · have : e.revision = w.bucket.seq + 1 := by simpa using congrArg Record.revision new
      have : w.buried pid ≤ w.bucket.seq := rests.past
      simp only at old
      omega
    · exact rests.covered e before old
  later := rests.later

/-- A value that is stored in the cache is newer than the record: otherwise the cached
revision would have been above it. -/
theorem Rests.stores (rests : Rests w pid) (written : Written w.bucket pid (some claim) revision)
    (fresh : stale revision (w.cache.lookup pid) = false) (bucket : w'.bucket = w.bucket)
    (buried : w'.buried pid = w.buried pid)
    (stored : w'.cache.lookup pid = some (.ofClaim claim revision)) : Rests w' pid := by
  have above : ∀ entry, w.cache.lookup pid = some entry → entry.revision < revision := by
    intro entry found
    simpa [stale, found] using fresh
  refine ⟨by rw [buried, bucket]; exact rests.past, fun e kept old => ?_, fun entry found _ => ?_⟩
  · rw [bucket] at kept
    rw [buried] at old
    obtain ⟨entry, found, le⟩ := rests.covered e kept old
    exact ⟨_, stored, le_trans le (le_of_lt (above entry found))⟩
  · rw [stored] at found
    cases found
    rw [buried]
    by_contra old
    obtain ⟨created, kept⟩ := written
    obtain ⟨entry, found, le⟩ := rests.covered _ kept (Nat.le_of_not_lt old)
    exact absurd (above entry found) (Nat.not_lt_of_le le)

theorem Rests.buries {since : Nat} (rests : Rests w pid)
    (covers : Covers w.bucket pid ⟨.delete since, revision⟩)
    (fresh : stale revision (w.cache.lookup pid) = false) (bucket : w'.bucket = w.bucket)
    (buried : w'.buried pid = max (w.buried pid) since)
    (stored : w'.cache.lookup pid = some (.tombstone revision)) : Rests w' pid := by
  obtain ⟨past, below⟩ := covers since rfl
  refine ⟨?_, fun e kept old => ⟨_, stored, ?_⟩, fun entry found present => ?_⟩
  · rw [buried, bucket]
    exact Nat.max_le.mpr ⟨rests.past, past⟩
  · rw [bucket] at kept
    rw [buried, le_max_iff] at old
    rcases old with before | now
    · obtain ⟨entry, found, le⟩ := rests.covered e kept before
      have : entry.revision < revision := by simpa [stale, found] using fresh
      exact le_trans le (le_of_lt this)
    · exact below e kept now
  · rw [stored] at found
    cases found
    cases present

theorem Rests.same (rests : Rests w pid) (bucket : w'.bucket = w.bucket)
    (buried : w'.buried pid = w.buried pid) (cache : w'.cache.lookup pid = w.cache.lookup pid) :
    Rests w' pid := by
  refine ⟨by rw [buried, bucket]; exact rests.past, fun e kept old => ?_, fun entry found => ?_⟩
  · rw [bucket] at kept
    rw [buried] at old
    rw [cache]
    exact rests.covered e kept old
  · rw [cache] at found
    rw [buried]
    exact rests.later entry found

theorem Rests.apply (rests : Rests w pid) (offers : Offers w.bucket batch)
    (covers : batch.All (Covers w.bucket)) : Rests (w.apply batch) pid := by
  cases found : batch.lookup pid with
  | none =>
    refine rests.same rfl ?_ (lookup_overlay_of_none found)
    simp [Resolver.apply, Resolver.buries, found]
  | some p =>
    have after : (w.apply batch).cache.lookup pid =
        (p.entry (w.cache.lookup pid)).or (w.cache.lookup pid) := lookup_overlay_of_change found
    by_cases old : stale p.revision (w.cache.lookup pid) = true
    · refine rests.same rfl ?_ ?_
      · obtain ⟨change, revision⟩ := p
        cases change <;> simp_all [Resolver.apply, Resolver.buries]
      · simp [after, Pending.entry, old]
    · have fresh : stale p.revision (w.cache.lookup pid) = false := by simpa using old
      cases offers pid p found with
      | delete since revision gone =>
        refine rests.buries (covers pid _ found) fresh rfl ?_ ?_
        · simp [Resolver.apply, Resolver.buries, found, fresh]
        · simp [after, Pending.entry, fresh]
      | upsert data revision written =>
        have unburied : (w.apply batch).buried pid = w.buried pid := by
          simp [Resolver.apply, Resolver.buries, found]
        cases data with
        | none => exact rests.same rfl unburied (by simp [after, Pending.entry])
        | some claim =>
          exact rests.stores written fresh rfl unburied
            (by simp [after, Pending.entry, fresh])

theorem Rests.refresh {other : Pid} (rests : Rests w pid)
    (written : Written w.bucket other (some claim) revision) :
    Rests (w.refresh other claim revision) pid := by
  unfold Resolver.refresh
  split
  next => exact rests
  next fresh =>
    by_cases same : pid = other
    · subst same
      exact rests.stores written (by simpa using fresh) rfl rfl (AList.lookup_insert _)
    · exact rests.same rfl rfl (AList.lookup_insert_ne same)

end Covering

/-! ## Every run -/

def Awaits (b : Bucket ClaimKey Data) : Pc → Prop
  | .watching _ batch => batch.All (Covers b)
  | .gets scan => scan.Staged (Covers b)
  | _ => True

theorem Awaits.append {b} {pc : Pc} (awaits : Awaits b pc) (key : ClaimKey)
    (op : Op Data) (now : Int) : Awaits (b.append key op now) pc := by
  cases pc with
  | watching cursor batch =>
    exact Batch.All.imp (fun _ _ covers => covers.append key op now) awaits
  | gets scan => exact awaits.imp fun _ _ covers => covers.append key op now
  | _ => trivial

section Runs

variable {T : Type} {w w' : Resolver} {pc pc' : Pc}

theorem Steps.rests (steps : Steps w pc w' pc') (knows : Knows w.bucket pc)
    (awaits : Awaits w.bucket pc)
    (current : ∀ snap scan, pc = .keys snap → pc' = .gets scan → UpToDate w.bucket snap)
    (rests : ∀ pid, Rests w pid) : (∀ pid, Rests w' pid) ∧ Awaits w'.bucket pc' := by
  cases steps with
  | wrote write now => exact ⟨fun pid => (rests pid).wrote write.key write.op now, trivial⟩
  | watch => exact ⟨rests, all_empty⟩
  | update cursor batch record known => exact ⟨rests, covers_update awaits known⟩
  | flush cursor batch => exact ⟨fun pid => (rests pid).apply knows awaits, all_empty⟩
  | close cursor batch => exact ⟨fun pid => (rests pid).apply knows awaits, trivial⟩
  | refresh | read | reconcile | unlisted | returned => exact ⟨rests, trivial⟩
  | refreshed pid claim revision => exact ⟨fun other => (rests other).refresh knows, trivial⟩
  | listed snap names all => exact ⟨rests, covers_listed (current snap _ rfl rfl) all⟩
  | got _ _ _ _ next | missed _ _ _ next =>
    exact ⟨rests, awaits.read next fun _ _ => covers_upsert⟩
  | applied scan done =>
    exact ⟨fun pid => (rests pid).apply (knows.staged.batch done) (awaits.batch done), trivial⟩

theorem listing_current {snap : Cache} {scan : Scan} {input : Input} {turn}
    (moved : next T w (.keys snap) input = some turn) (reads : turn.pc = .gets scan)
    (allowed : ListsAt w.bucket (.keys snap) input) : UpToDate w.bucket snap := by
  cases input with
  | listed names => exact allowed
  | failed =>
    cases moved
    cases reads
  | _ => cases moved

theorem Steps.awaits (steps : Steps w pc w' pc') {other : Pc} (awaits : Awaits w.bucket other) :
    Awaits w'.bucket other := by
  rcases steps.bucket with same | ⟨key, op, now, grown, -⟩
  · exact same ▸ awaits
  · exact grown ▸ awaits.append key op now

theorem warmed_rests (warmed : Warmed w) (pid : Pid) : Rests w pid := by
  obtain ⟨cached, buried⟩ := warmed
  refine ⟨by simp [buried], fun e stored old => ?_, fun entry found _ => ?_⟩
  · have := w.bucket.positive _ stored
    simp only [buried] at old this
    omega
  · obtain ⟨claim, created, stored, -⟩ := cached pid entry found
    rw [buried]
    exact w.bucket.positive _ stored

variable [DecidableEq T] {s : Pool Resolver Pc T}

theorem deletions_rest (reached : Reachable (system T) Current s) (pid : Pid) :
    Rests s.cells pid := by
  refine (Reachable.knows_fixed feeders_fixed
    (K := fun s => ∀ t, Knows s.cells.bucket (s.pcs t))
    (I := fun w => ∀ pid, Rests w pid) (N := fun w _ pc => Awaits w.bucket pc)
    (fun _ reached => (cache_backed reached).2) ?_ ?_ reached).1 pid
  · exact fun w warmed => ⟨warmed_rests warmed, fun _ => trivial⟩
  · intro s t input turn knows allowed rests awaits moved
    have current : ∀ snap scan, s.pcs t = .keys snap → turn.pc = .gets scan →
        UpToDate s.cells.bucket snap := by
      intro snap scan here there
      unfold Current at allowed
      rw [here] at moved allowed
      exact listing_current moved there allowed
    have steps := (next_steps moved).1
    exact ⟨steps.rests (knows t) awaits current rests, fun u _ => steps.awaits⟩

theorem deleted_claim_stays_gone (reached : Reachable (system T) Current s) {pid : Pid}
    {answer : String × HandoffState × Int} (owned : getOwner s.cells.cache pid = some answer) :
    ∃ claim revision created,
      s.cells.bucket.Stored (.claim pid) ⟨some claim, revision, created⟩ ∧
        answer = (claim.owner, toState claim.state, claim.epoch) ∧
        s.cells.buried pid < revision := by
  unfold getOwner at owned
  split at owned
  next entry found =>
    split_ifs at owned with deleted
    cases owned
    have present : entry.deleted = false := by simpa using deleted
    have later := (deletions_rest reached pid).later entry found present
    cases (cache_backed reached).1 pid entry found with
    | tombstone revision gone => cases present
    | claim claim revision written =>
      obtain ⟨created, stored⟩ := written
      exact ⟨claim, revision, created, stored, rfl, later⟩
  next => cases owned

end Runs

/-! ## A stalled watcher -/

def putClaim (owner : String) (epoch : Int) : Bool × Input :=
  (false, .foreign (.put (.claim [1]) (some (claimOf owner epoch))) 0)

def removeClaim : Bool × Input := (false, .foreign (.remove (.claim [1])) 0)

/-- One scan by the second goroutine. -/
def scanSteps (names : List ClaimKey) : List (Bool × Input) :=
  (true, .reconcile) :: (true, .listed names) :: names.map (fun _ => (true, .served)) ++
    [(true, .go), (true, .go)]

theorem deleted_claim_stays_gone_recreated :
    ∃ s, Reachable (system Bool) Current s ∧ s.cells.buried [1] = 2 ∧
      ∃ claim revision created,
        s.cells.bucket.Stored (.claim [1]) ⟨some claim, revision, created⟩ ∧
          ("v", HandoffState.stable, (2 : Int)) =
            (claim.owner, toState claim.state, claim.epoch) ∧ s.cells.buried [1] < revision := by
  obtain ⟨s, reached, buried, owner⟩ := exists_reachable Current unwatched_init
    (scanSteps [.claim [1]] ++ [removeClaim] ++ scanSteps [] ++ [putClaim "v" 2] ++
      scanSteps [.claim [1]])
    (fun s => s.cells.buried [1] = 2 ∧ getOwner s.cells.cache [1] = some ("v", .stable, 2))
    (by decide)
  exact ⟨s, reached, buried, deleted_claim_stays_gone reached owner⟩

/-- The watcher stalls. The cached claim, at revision 1, is written twice more; a refresh
reads revision 3; the claim is deleted; a scan finds it missing and makes a tombstone of
revision 2. -/
def stalledSteps : List (Bool × Input) :=
  scanSteps [.claim [1]] ++ [putClaim "v" 2, putClaim "u" 3] ++
    [(false, .refresh [1]), (false, .served), (true, .foreign (.remove (.claim [1])) 0)] ++
    scanSteps []

theorem deleted_claim_resurrected :
    ∃ s s', Reachable (system Bool) Free s ∧ s.cells.bucket.get (.claim [1]) = none ∧
      s.cells.buried [1] = 4 ∧ getOwner s.cells.cache [1] = none ∧
      Reachable ((system Bool).after s) Free s' ∧ s'.cells.bucket.get (.claim [1]) = none ∧
      getOwner s'.cells.cache [1] = some ("u", .stable, 3) := by
  obtain ⟨s, first, gone, buried, absent, s', second, still, owned⟩ :
      ∃ s ∈ (system Bool).run unwatched stalledSteps, s.cells.bucket.get (.claim [1]) = none ∧
        s.cells.buried [1] = 4 ∧ getOwner s.cells.cache [1] = none ∧
        ∃ s' ∈ ((system Bool).after s).run s [(false, .go)],
          s'.cells.bucket.get (.claim [1]) = none ∧
          getOwner s'.cells.cache [1] = some ("u", .stable, 3) := by decide
  exact ⟨s, s', run_reachable (M := system Bool) unwatched_init first, gone, buried, absent,
    run_reachable (M := (system Bool).after s) rfl second, still, owned⟩

end Parti.Durable.ClaimResolver
