/-
# StableId.Loss — a renewal that reports a lost claim

`renew` reports a lost claim when its update is refused: the entry of the id is not of
the revision the claimer remembers. The claimer remembers the revisions it was told of.
`own_renewal_reported_lost` is the run in which that is not enough: a renewal goes
unanswered, arrives, and the next renewal is refused because of it, though the live
entry is the claimer's own.

`lost_claim_is_not_own`: in every run in which no put of the claimer goes unanswered,
and in which its calls come as the manager makes them (`Truthful`), a refused renewal
means that the live entry of the id, if there is one, is not the claimer's.

The invariant is over one claimer's fields. `Recorded` ties them to the bucket: the last
acknowledged write is the claimer's newest. `Stands` says what the goroutine of a claim,
of a `StartRenewal` and of the loop each rely on.
-/
import Parti.StableId.Exclusive

namespace Parti.StableId

open Parti.Types Lib Lib.Kv Lib.Client Function List Option

inductive Role where
  | claim
  | start
  | loop
  | other
deriving DecidableEq

def At.role : At → Role
  | .claim _ | .create _ | .get _ | .createRetry _ | .judge _ _ _ | .takeover _ _
  | .won _ _ | .wonID _ _ => .claim
  | .startRenewal | .startClosed | .startSwap => .start
  | .loop | .renew | .renewLoad _ | .renewUpdate _ _ | .renewed _ | .renewFailed _ => .loop
  | _ => .other

variable {T C : Type} [DecidableEq C]

def Pc.role (c : C) : Pc C → Role
  | .on c' at_ => if c' = c then at_.role else .other
  | _ => .other

/-- It waits for a put of claimer `c`. -/
def Pc.puts (c : C) : Pc C → Bool
  | .on c' (.create _) | .on c' (.createRetry _) | .on c' (.takeover _ _)
  | .on c' (.renewUpdate _ _) => decide (c' = c)
  | _ => false

/-- No put of the claimer goes unanswered; `Claim` is called when no claim has succeeded
yet, and neither it nor `StartRenewal` is called while a claim is under way. -/
def Truthful (c : C) (s : State (Pool (C → Claimer T) (Pc C) T) GoString (Lease C)) :
    Action T (T × Input C T) → Prop
  | .call (_, .claim c') => c' = c → (s.locals.cells c).lastRevision = 0 ∧
      ∀ u, (s.locals.pcs u).role c ≠ .claim ∧ (s.locals.pcs u).role c ≠ .start
  | .call (_, .startRenewal c') => c' = c → ∀ u, (s.locals.pcs u).role c ≠ .claim
  | .step t .unanswered => (s.locals.pcs t).puts c = false
  | _ => True

/-! ## One claimer -/

/-- What the acknowledged writes say about the bucket. -/
structure Recorded (b : Bucket GoString (Lease C)) (c : C) (e : Claimer T) : Prop where
  silent : e.acked = none →
    (∀ k x, b.Stored k x → x.value.claimer ≠ c) ∧ e.workerID = [] ∧ e.renewStarted = false
  newest : ∀ k r, e.acked = some (k, r) →
    (∃ x, b.Stored k x ∧ x.revision = r) ∧
      (∀ k' x, b.Stored k' x → x.value.claimer = c → x.revision ≤ r) ∧
      (e.workerID = k ∨ e.workerID = [])
  settled : ∀ k r, e.acked = some (k, r) → e.claiming = none →
    e.lastRevision ≠ 0 ∧ (e.renewStarted = false → e.lastRevision = r)

def At.Acked (e : Claimer T) : At → Prop
  | .claim _ | .create _ | .get _ | .createRetry _ | .judge _ _ _ | .takeover _ _ => e.acked = none
  | .won k r | .wonID k r => e.acked = some (k, r)
  | .startClosed | .startSwap => e.acked ≠ none
  | .loop | .renew | .renewFailed _ => ∃ k, e.acked = some (k, e.lastRevision)
  | .renewLoad k => e.acked = some (k, e.lastRevision)
  | .renewUpdate k r => e.acked = some (k, r) ∧ e.lastRevision = r
  | .renewed r => ∃ k, e.acked = some (k, r)
  | _ => True

structure Stands (t : T) (e : Claimer T) (at_ : At) : Prop where
  claims : at_.role = .claim → e.claiming = some t ∧ e.renewStarted = false
  starts : at_.role = .start → e.claiming = none
  loops : at_.role = .loop → e.looping = some t ∧ e.renewStarted = true
  acked : at_.Acked e

/-- The fields that `Stands` is about. -/
def Claimer.ledger (e : Claimer T) :
    Option T × Bool × Option T × Option (GoString × Nat) × Nat :=
  (e.claiming, e.renewStarted, e.looping, e.acked, e.lastRevision)

variable {b : Bucket GoString (Lease C)} {c : C} {t u : T} {e e' : Claimer T} {at_ at' : At}
  {k : GoString} {result : Result}

omit [DecidableEq C] in
theorem Recorded.positive (recorded : Recorded b c e) {r : Nat} (acked : e.acked = some (k, r)) :
    r ≠ 0 := by
  obtain ⟨⟨x, stored, rfl⟩, _⟩ := recorded.newest k r acked
  exact Nat.pos_iff_ne_zero.mp (b.positive _ stored)

theorem Stands.frame (stands : Stands t e at_) (same : e'.ledger = e.ledger) : Stands t e' at_ := by
  simp only [Claimer.ledger, Prod.mk.injEq] at same
  obtain ⟨claiming, started, looping, acked, last⟩ := same
  refine ⟨?_, ?_, ?_, ?_⟩
  · rw [claiming, started]
    exact stands.claims
  · rw [claiming]
    exact stands.starts
  · rw [looping, started]
    exact stands.loops
  · have := stands.acked
    unfold At.Acked at this ⊢
    rw [acked, last]
    exact this

theorem stands_other (role : at_.role = .other) : Stands t e at_ := by
  refine ⟨by simp [role], by simp [role], by simp [role], ?_⟩
  cases at_ <;> trivial

/-- A step of goroutine `t` on the claimer, and what it leaves behind. -/
structure Moved (b : Bucket GoString (Lease C)) (c : C) (t : T) (e e' : Claimer T) (at' : At) :
    Prop where
  recorded : Recorded b c e'
  own : Stands t e' at'
  others : ∀ u at_, u ≠ t → Stands u e at_ → Stands u e' at_
  claims : e'.claiming = some t → at'.role = .claim
  claiming : ∀ u, u ≠ t → e'.claiming = some u → e.claiming = some u

omit [DecidableEq C] in
theorem Recorded.same (recorded : Recorded b c e) (same : e'.ledger = e.ledger)
    (named : e'.workerID = e.workerID ∨ e'.workerID = []) : Recorded b c e' := by
  simp only [Claimer.ledger, Prod.mk.injEq] at same
  obtain ⟨claiming, started, looping, acked, last⟩ := same
  refine ⟨fun none_ => ?_, fun k r some_ => ?_, ?_⟩
  · obtain ⟨unwritten, unnamed, unstarted⟩ := recorded.silent (acked ▸ none_)
    exact ⟨unwritten, by simpa [unnamed] using named, started.trans unstarted⟩
  · obtain ⟨stored, newest, name⟩ := recorded.newest k r (acked ▸ some_)
    refine ⟨stored, newest, ?_⟩
    obtain named | named := named
    · rwa [named]
    · exact .inr named
  · rw [acked, claiming, started, last]
    exact recorded.settled

omit [DecidableEq C] in
theorem moved_same (recorded : Recorded b c e') (same : e'.ledger = e.ledger)
    (own : Stands t e at') (claims : e.claiming = some t → at'.role = .claim) :
    Moved b c t e e' at' := by
  have kept : e'.claiming = e.claiming := (Prod.mk.inj same).1
  exact ⟨recorded, own.frame same, fun u at_ _ stands => stands.frame same, kept ▸ claims,
    fun u _ claiming => kept ▸ claiming⟩

omit [DecidableEq C] in
theorem Stands.goes (stands : Stands t e at_) (recorded : Recorded b c e)
    (claiming : e.claiming = some t → at_.role = .claim) (role : at'.role = at_.role)
    (acked : at'.Acked e) : Moved b c t e e at' :=
  moved_same recorded rfl
    ⟨role ▸ stands.claims, role ▸ stands.starts, role ▸ stands.loops, acked⟩ (role ▸ claiming)

omit [DecidableEq C] in
theorem moved_out (recorded : Recorded b c e)
    (claiming : e.claiming = some t → at_.role = .claim) (was : at_.role ≠ .claim)
    (role : at'.role = .other) (same : e'.ledger = e.ledger)
    (named : e'.workerID = e.workerID ∨ e'.workerID = []) : Moved b c t e e' at' :=
  moved_same (recorded.same same named) same (stands_other role)
    fun claims => absurd (claiming claims) was

theorem Stands.alone (claims : e.claiming = some t ∧ e.renewStarted = false)
    (stands : Stands u e at_) (other : u ≠ t) : at_.role = .other := by
  cases role : at_.role with
  | claim =>
    have := (stands.claims role).1
    rw [claims.1] at this
    exact absurd (some.inj this).symm other
  | start =>
    have := stands.starts role
    rw [claims.1] at this
    cases this
  | loop =>
    have := (stands.loops role).2
    rw [claims.2] at this
    cases this
  | other => rfl

theorem Stands.beside_loop (loops : e.looping = some t ∧ e.renewStarted = true)
    (stands : Stands u e at_) (other : u ≠ t) (claiming : e'.claiming = e.claiming)
    (acked : e'.acked ≠ none) : Stands u e' at_ := by
  cases role : at_.role with
  | claim =>
    have := (stands.claims role).2
    rw [loops.2] at this
    cases this
  | start =>
    refine ⟨by simp [role], fun _ => claiming.trans (stands.starts role), by simp [role], ?_⟩
    cases at_ <;> trivial
  | loop =>
    have := (stands.loops role).1
    rw [loops.1] at this
    exact absurd (some.inj this).symm other
  | other => exact stands_other role

omit [DecidableEq C] in
theorem Stands.unclaims (stands : Stands t e at_) (recorded : Recorded b c e)
    (role : at_.role = .claim) (silent : e.acked = none) :
    Moved b c t e e.unclaiming (.returned result) := by
  have claims := stands.claims role
  refine ⟨⟨recorded.silent, recorded.newest, fun k r acked => ?_⟩, stands_other rfl,
    fun u at_ other stands => ?_, nofun, nofun⟩
  · cases silent.symm.trans acked
  · exact stands_other (stands.alone claims other)

omit [DecidableEq C] in
theorem Stands.spawns (stands : Stands t e .startSwap) (recorded : Recorded b c e)
    (first : e.renewStarted = false) (fresh : T) :
    Moved b c t e { e with renewStarted := true, looping := some fresh } (.returned result) := by
  have unclaimed := stands.starts rfl
  have acked : e.acked ≠ none := stands.acked
  refine ⟨⟨fun none_ => absurd none_ acked, recorded.newest, fun k r some_ none_ => ?_⟩,
    stands_other rfl, fun u at_ other stands => ?_, fun claims => ?_, fun _ _ => id⟩
  · exact ⟨(recorded.settled k r some_ none_).1, nofun⟩
  · refine ⟨fun claims => ?_, stands.starts, fun loops => ?_, stands.acked⟩
    · cases unclaimed.symm.trans (stands.claims claims).1
    · cases first.symm.trans (stands.loops loops).2
  · cases unclaimed.symm.trans claims

variable {now id : Int} {c' : C} {cells' : C → Claimer T} {spawned : Option (T × Pc C)} {pc : Pc C}
  {answer : Answer GoString (Lease C)} {cfg : Config}

omit [DecidableEq C] in
theorem Advances.moved (advances : Advances cfg e now at_ e' at') (recorded : Recorded b c e)
    (stands : Stands t e at_) (claiming : e.claiming = some t → at_.role = .claim) :
    Moved b c t e e' at' := by
  cases advances with
  | attempt | stale | young | unclosed | ticked | unnamed | failed =>
    exact stands.goes recorded claiming rfl stands.acked
  | unclaimed id result => exact stands.unclaims recorded rfl stands.acked
  | won key revision =>
    have acked : e.acked = some (key, revision) := stands.acked
    refine moved_same ⟨fun none_ => ?_, fun k r some_ => ?_, recorded.settled⟩ rfl
      ⟨fun _ => stands.claims rfl, nofun, nofun, acked⟩ fun _ => rfl
    · cases acked.symm.trans none_
    · obtain ⟨rfl, rfl⟩ : key = k ∧ revision = r := by simpa using acked.symm.trans some_
      obtain ⟨stored, newest, _⟩ := recorded.newest key revision acked
      exact ⟨stored, newest, .inl rfl⟩
  | claimed key revision result =>
    have claims := stands.claims rfl
    have acked : e.acked = some (key, revision) := stands.acked
    refine ⟨⟨recorded.silent, recorded.newest, fun k r some_ _ => ?_⟩, stands_other rfl,
      fun u at_ other stands => ?_, nofun, nofun⟩
    · obtain ⟨rfl, rfl⟩ : key = k ∧ revision = r := by simpa using acked.symm.trans some_
      exact ⟨recorded.positive acked, fun _ => rfl⟩
    · exact stands_other (stands.alone claims other)
  | named has =>
    refine stands.goes recorded claiming rfl fun none_ => has ?_
    exact (recorded.silent none_).2.1
  | stopped | missing | lost | release | close | waited | releaseLoad =>
    exact moved_out recorded claiming nofun rfl rfl (.inl rfl)
  | renew has =>
    obtain ⟨k, acked⟩ := stands.acked
    obtain ⟨_, _, rfl | unnamed⟩ := recorded.newest k _ acked
    · exact stands.goes recorded claiming rfl acked
    · exact absurd unnamed has
  | load key => exact stands.goes recorded claiming rfl ⟨stands.acked, rfl⟩
  | renewed revision =>
    have loops := stands.loops rfl
    obtain ⟨k, acked⟩ := stands.acked
    refine ⟨⟨recorded.silent, recorded.newest, fun k' r some_ _ => ?_⟩,
      ⟨nofun, nofun, fun _ => loops, k, acked⟩,
      fun u at_ other stands => ?_, fun claims => ?_, fun _ _ => id⟩
    · refine ⟨recorded.positive acked, fun unstarted => ?_⟩
      cases loops.2.symm.trans unstarted
    · exact stands.beside_loop loops other rfl (by simp [acked])
    · cases claiming claims
  | released result => exact moved_out recorded claiming nofun rfl rfl (.inr rfl)
  | returns _ result early =>
    refine moved_out recorded claiming (fun role => ?_) rfl rfl (.inl rfl)
    cases at_ <;> trivial

/-! ## The store's answers -/

theorem At.Claims.role (claims : at_.Claims id) : at_.role = .claim := by
  obtain rfl | rfl | ⟨_, rfl⟩ := claims <;> rfl

theorem At.Claims.silent (claims : at_.Claims id) (stands : Stands t e at_) :
    e.acked = none := by
  obtain rfl | rfl | ⟨_, rfl⟩ := claims <;> exact stands.acked

omit [DecidableEq C] in
theorem Recorded.append (recorded : Recorded b c e) (k : GoString) {op}
    (foreign : op ≠ .put ⟨c⟩) (now : Int) : Recorded (b.append k op now) c e := by
  have old {k' : GoString} {x : Entry (Lease C)} (stored : (b.append k op now).Stored k' x)
      (own : x.value.claimer = c) : b.Stored k' x := by
    obtain new | old := mem_cons.mp stored
    · simp only [Record.mk.injEq] at new
      subst own
      exact absurd new.2.1.symm foreign
    · exact old
  refine ⟨fun none_ => ?_, fun k' r some_ => ?_, recorded.settled⟩
  · obtain ⟨unwritten, rest⟩ := recorded.silent none_
    exact ⟨fun k' x stored own => unwritten k' x (old stored own) own, rest⟩
  · obtain ⟨⟨x, stored, same⟩, newest, name⟩ := recorded.newest k' r some_
    exact ⟨⟨x, stored.append k op now, same⟩,
      fun k' x stored own => newest k' x (old stored own) own, name⟩

omit [DecidableEq C] in
theorem newest_written (old : ∀ k x, b.Stored k x → x.value.claimer = c → x.revision ≤ b.seq)
    (key : GoString) (now : Int) :
    (∃ x, (b.append key (.put ⟨c⟩) now).Stored key x ∧ x.revision = b.seq + 1) ∧
      ∀ k x, (b.append key (.put ⟨c⟩) now).Stored k x → x.value.claimer = c →
        x.revision ≤ b.seq + 1 := by
  refine ⟨⟨_, b.stored_append_put key ⟨c⟩ now, rfl⟩, fun k x stored own => ?_⟩
  obtain new | before := mem_cons.mp stored
  · simp only [Record.mk.injEq] at new
    omega
  · exact Nat.le_succ_of_le (old k x before own)

omit [DecidableEq C] in
theorem Answers.moved (answers : Answers cfg e now at_ answer e' at') (recorded : Recorded b c e)
    (stands : Stands t e at_) (claiming : e.claiming = some t → at_.role = .claim)
    (unwritten : ∀ revision, answer ≠ .written revision) : Moved b c t e e' at' := by
  cases answers with
  | wins _ _ revision | renews _ _ revision => exact absurd rfl (unwritten revision)
  | taken | gone | seen => exact stands.goes recorded claiming rfl stands.acked
  | beaten _ id claims =>
    exact stands.goes recorded claiming claims.role.symm (claims.silent stands)
  | unclaimed _ id claims result =>
    exact stands.unclaims recorded claims.role (claims.silent stands)
  | lost | lets | unsure => exact moved_out recorded claiming nofun rfl rfl (.inl rfl)
  | failed key last =>
    obtain ⟨acked, rfl⟩ := stands.acked
    exact stands.goes recorded claiming rfl ⟨key, acked⟩

omit [DecidableEq C] in
theorem Stands.wins (stands : Stands t e at_) (recorded : Recorded b c e)
    (role : at_.role = .claim) (silent : e.acked = none) (key : GoString) (now : Int) :
    Moved (b.append key (.put ⟨c⟩) now) c t e (e.wins now key (b.seq + 1)) (.won key (b.seq + 1)) := by
  have claims := stands.claims role
  obtain ⟨unwritten, unnamed, _⟩ := recorded.silent silent
  refine ⟨⟨nofun, fun k r some_ => ?_, fun k r some_ none_ => ?_⟩,
    ⟨fun _ => claims, nofun, nofun, rfl⟩, fun u at_ other stands => ?_,
    fun _ => rfl, fun _ _ => id⟩
  · cases some_
    obtain ⟨stored, newest⟩ :=
      newest_written (fun k x stored own => absurd own (unwritten k x stored)) key now
    exact ⟨stored, newest, .inr unnamed⟩
  · cases claims.1.symm.trans none_
  · exact stands_other (stands.alone claims other)

omit [DecidableEq C] in
theorem Stands.renews {key} {last : Nat} (stands : Stands t e (.renewUpdate key last))
    (recorded : Recorded b c e) (claiming : e.claiming = some t → False) (now : Int) :
    Moved (b.append key (.put ⟨c⟩) now) c t e (e.renews now key (b.seq + 1))
      (.renewed (b.seq + 1)) := by
  have loops := stands.loops rfl
  obtain ⟨acked, _⟩ := stands.acked
  obtain ⟨⟨x, stored, same⟩, newest, name⟩ := recorded.newest key last acked
  have written := b.revision_le_seq stored
  refine ⟨⟨nofun, fun k r some_ => ?_, fun k r some_ none_ => ?_⟩,
    ⟨nofun, nofun, fun _ => loops, key, rfl⟩, fun u at_ other stands => ?_,
    fun claims => absurd claims claiming, fun _ _ => id⟩
  · cases some_
    obtain ⟨stored', newest'⟩ := newest_written (fun k x stored own => by
      have := newest k x stored own
      simp only at written
      omega) key now
    exact ⟨stored', newest', name⟩
  · refine ⟨(recorded.settled key last acked none_).1, fun unstarted => ?_⟩
    cases loops.2.symm.trans unstarted
  · exact stands.beside_loop loops other rfl (by simp [Claimer.renews])

/-! ## Every run -/

structure Knows (c : C) (e : Claimer T) (t : T) (pc : Pc C) : Prop where
  claiming : e.claiming = some t → pc.role c = .claim
  stands : ∀ at_, pc = .on c at_ → Stands t e at_

/-- The claimer's fields fit the bucket, and no put of it is under way without it. -/
structure Truth (c : C) (w : State (C → Claimer T) GoString (Lease C)) : Prop where
  recorded : Recorded w.bucket c (w.locals c)
  pending : ∀ write ∈ w.pending, write.op ≠ .put ⟨c⟩

variable {cfg : Config} {w w' : State (C → Claimer T) GoString (Lease C)} {pcs : T → Pc C}
  {pc' : Pc C} {input : Input C T} {s : State (Pool (C → Claimer T) (Pc C) T) GoString (Lease C)}
  {write : Write GoString (Lease C)}

/-- After a step of goroutine `t`. -/
def Kept (c : C) (w' : State (C → Claimer T) GoString (Lease C)) (t : T) (pc' : Pc C)
    (pcs : T → Pc C) : Prop :=
  Truth c w' ∧ Knows c (w'.locals c) t pc' ∧ ∀ u, u ≠ t → Knows c (w'.locals c) u (pcs u)

theorem Moved.kept (moved : Moved w'.bucket c t e e' at') (cell : w'.locals c = e')
    (knows : ∀ u, Knows c e u (pcs u))
    (pending : ∀ write ∈ w'.pending, write.op ≠ .put ⟨c⟩) : Kept c w' t (.on c at') pcs := by
  subst cell
  refine ⟨⟨moved.recorded, pending⟩, ⟨fun claims => ?_, ?_⟩, fun u other => ⟨fun claims => ?_,
    fun at_ here => moved.others u at_ other ((knows u).stands at_ here)⟩⟩
  · simpa [Pc.role] using moved.claims claims
  · rintro _ ⟨⟩
    exact moved.own
  · exact (knows u).claiming (moved.claiming u other claims)

theorem kept_away (recorded : Recorded w'.bucket c (w.locals c))
    (pending : ∀ write ∈ w'.pending, write.op ≠ .put ⟨c⟩)
    (knows : ∀ u, Knows c (w.locals c) u (pcs u)) (same : (w'.locals c).ledger = (w.locals c).ledger)
    (named : (w'.locals c).workerID = (w.locals c).workerID) (was : (pcs t).role c ≠ .claim)
    (out : ∀ at_, pc' ≠ .on c at_) : Kept c w' t pc' pcs := by
  have kept : (w'.locals c).claiming = (w.locals c).claiming := (Prod.mk.inj same).1
  refine ⟨⟨recorded.same same (.inl named), pending⟩, ⟨fun claims => ?_, ?_⟩,
    fun u _ => ⟨kept ▸ (knows u).claiming, fun at_ here => ((knows u).stands at_ here).frame same⟩⟩
  · exact absurd ((knows t).claiming (kept ▸ claims)) was
  · exact fun at_ here => absurd here (out at_)

theorem Pc.role_on (c : C) (at_ : At) : (Pc.on c at_).role c = at_.role := if_pos rfl

theorem Pc.role_away (other : c' ≠ c) (at_ : At) : (Pc.on c' at_).role c = .other :=
  if_neg other

theorem kept_other (other : c' ≠ c) (was : (pcs t).role c = .other)
    (same : w'.locals c = w.locals c) (recorded : Recorded w'.bucket c (w.locals c))
    (pending : ∀ write ∈ w'.pending, write.op ≠ .put ⟨c⟩)
    (knows : ∀ u, Knows c (w.locals c) u (pcs u)) : Kept c w' t (.on c' at') pcs := by
  refine kept_away recorded pending knows (by rw [same]) (by rw [same]) ?_ ?_
  · rw [was]
    rintro ⟨⟩
  · rintro _ ⟨⟩
    exact other rfl

theorem unclaimed_of_roles (knows : ∀ u, Knows c e u (pcs u))
    (none_ : ∀ u, (pcs u).role c ≠ .claim) : e.claiming = none := by
  cases claims : e.claiming with
  | none => rfl
  | some u => exact absurd ((knows u).claiming claims) (none_ u)

theorem kept_steps (truth : Truth c (world s))
    (knows : ∀ u, Knows c (s.locals.cells c) u (s.locals.pcs u))
    (allowed : Truthful c s (.call (t, input)))
    (steps : Steps cfg s.locals.cells t s.clock (s.locals.pcs t) input cells' pc' spawned) :
    Kept c { world s with locals := cells' } t pc' s.locals.pcs ∧
      ∀ fresh first, spawned = some (fresh, first) → s.locals.pcs fresh = .idle →
        Knows c (cells' c) fresh first := by
  generalize here : s.locals.pcs t = pc at steps
  have unclaiming (role : pc.role c = .other) : (s.locals.cells c).claiming ≠ some t := by
    intro claims
    have := (knows t).claiming claims
    rw [here, role] at this
    cases this
  have leaves {cells' : C → Claimer T} {pc' : Pc C} (role : pc.role c = .other)
      (same : (cells' c).ledger = (s.locals.cells c).ledger)
      (named : (cells' c).workerID = (s.locals.cells c).workerID) (out : ∀ at_, pc' ≠ .on c at_) :
      Kept c { world s with locals := cells' } t pc' s.locals.pcs := by
    refine kept_away (w := world s) truth.recorded truth.pending knows same named ?_ out
    rw [here, role]
    rintro ⟨⟩
  have elsewhere {c' : C} {e' : Claimer T} {at' : At} (other : c' ≠ c) (role : pc.role c = .other) :
      Kept c { world s with locals := Function.update s.locals.cells c' e' } t (.on c' at')
        s.locals.pcs :=
    kept_other (w := world s) other (here ▸ role) (update_of_ne (Ne.symm other) _ _)
      truth.recorded truth.pending knows
  cases steps with
  | claim c' =>
    refine ⟨?_, nofun⟩
    by_cases same : c' = c
    · subst same
      obtain ⟨zero, roles⟩ := allowed rfl
      have unclaimed := unclaimed_of_roles knows fun u => (roles u).1
      have silent : (s.locals.cells c').acked = none := by
        cases acked : (s.locals.cells c').acked with
        | none => rfl
        | some p => exact absurd zero (truth.recorded.settled p.1 p.2 acked unclaimed).1
      have recorded := truth.recorded.silent silent
      refine ⟨⟨⟨fun _ => ?_, fun k r some_ => ?_, fun k r some_ => ?_⟩, truth.pending⟩, ⟨?_, ?_⟩,
        fun u other => ⟨fun claims => ?_, fun at_ at_here => ?_⟩⟩
      all_goals simp only [update_self] at *
      · exact recorded
      · cases silent.symm.trans some_
      · cases silent.symm.trans some_
      · exact fun _ => Pc.role_on _ _
      · rintro _ ⟨⟩
        exact ⟨fun _ => ⟨rfl, recorded.2.2⟩, nofun, nofun, silent⟩
      · exact absurd (some.inj claims).symm other
      · have stands := (knows u).stands at_ at_here
        have role := roles u
        rw [at_here, Pc.role_on] at role
        exact ⟨fun claim => absurd claim role.1, fun start => absurd start role.2, stands.loops,
          stands.acked⟩
    · exact elsewhere same rfl
  | startRenewal c' =>
    refine ⟨?_, nofun⟩
    by_cases same : c' = c
    · subst same
      have unclaimed := unclaimed_of_roles knows (allowed rfl)
      refine Moved.kept (moved_same truth.recorded rfl
        ⟨nofun, fun _ => unclaimed, nofun, trivial⟩ fun claims => ?_) rfl knows
        truth.pending
      exact absurd claims (unclaiming rfl)
    · exact leaves rfl rfl rfl (by rintro _ ⟨⟩; exact same rfl)
  | release c' =>
    refine ⟨?_, nofun⟩
    by_cases same : c' = c
    · subst same
      exact Moved.kept (moved_same truth.recorded rfl (stands_other rfl)
        fun claims => absurd claims (unclaiming rfl)) rfl knows truth.pending
    · exact leaves rfl rfl rfl (by rintro _ ⟨⟩; exact same rfl)
  | close c' =>
    refine ⟨?_, nofun⟩
    by_cases same : c' = c
    · subst same
      exact leaves rfl (by rw [update_self]; rfl) (by rw [update_self])
        nofun
    · exact leaves rfl (by rw [update_of_ne (Ne.symm same)])
        (by rw [update_of_ne (Ne.symm same)]) nofun
  | expire key => exact ⟨leaves rfl rfl rfl nofun, nofun⟩
  | spawn c' fresh first =>
    by_cases same : c' = c
    · subst same
      have stands := (knows t).stands _ here
      have unclaimed := stands.starts rfl
      obtain ⟨⟨k, r⟩, acked⟩ := ne_none_iff_exists'.mp stands.acked
      obtain rfl := (truth.recorded.settled k r acked unclaimed).2 first
      refine ⟨Moved.kept ?_ (update_self _ _ _) knows truth.pending, ?_⟩
      · exact stands.spawns truth.recorded first fresh
      rintro _ _ ⟨⟩ _
      rw [update_self]
      refine ⟨fun claims => ?_, ?_⟩
      · cases unclaimed.symm.trans claims
      · rintro _ ⟨⟩
        exact ⟨nofun, nofun, fun _ => ⟨rfl, rfl⟩, k, acked⟩
    · refine ⟨elsewhere same (Pc.role_away same _), ?_⟩
      rintro _ _ ⟨⟩ idle
      rw [update_of_ne (Ne.symm same)]
      refine ⟨fun claims => ?_, by rintro _ ⟨⟩; exact absurd rfl same⟩
      have := (knows fresh).claiming claims
      rw [idle] at this
      cases this
  | done c' result =>
    refine ⟨leaves ?_ rfl rfl nofun, nofun⟩
    simp [Pc.role, At.role]
  | advances c' at_ _ e' at' advances =>
    refine ⟨?_, nofun⟩
    by_cases same : c' = c
    · subst same
      refine Moved.kept ?_ (update_self _ _ _) knows truth.pending
      refine advances.moved truth.recorded ((knows t).stands _ here) fun claims => ?_
      have := (knows t).claiming claims
      rwa [here, Pc.role_on] at this
    · exact elsewhere same (Pc.role_away same _)

theorem kept_heard {pending'} (truth : Truth c w) (knows : ∀ u, Knows c (w.locals c) u (pcs u))
    (pending : ∀ write ∈ pending', write.op ≠ .put ⟨c⟩)
    (tells : Tells cfg w.locals w.clock (pcs t) answer cells' pc')
    (unwritten : ∀ revision, answer ≠ .written revision) :
    Kept c { w with pending := pending', locals := cells' } t pc' pcs := by
  generalize here : pcs t = pc at tells
  cases tells with
  | answers c' at_ _ e' at' answers =>
    by_cases same : c' = c
    · subst same
      refine Moved.kept ?_ (update_self _ _ _) knows pending
      refine answers.moved truth.recorded ((knows t).stands _ here) (fun claims => ?_) unwritten
      have := (knows t).claiming claims
      rwa [here, Pc.role_on] at this
    · exact kept_other same (by rw [here, Pc.role_away same])
        (update_of_ne (Ne.symm same) _ _) truth.recorded pending knows
  | expired key revision => exact absurd rfl (unwritten revision)

theorem Asks.foreign (asks : Asks cfg pc write) (puts : pc.puts c = false) :
    write.op ≠ .put ⟨c⟩ := by
  cases asks with
  | delete | expire => rintro ⟨⟩
  | renew c' key revision =>
    rw [renewal_op]
    rintro ⟨⟩
    simp [Pc.puts] at puts
  | _ =>
    rintro ⟨⟩
    simp [Pc.puts] at puts

theorem Pc.puts_away (other : c' ≠ c) (at_ : At) : (Pc.on c' at_).puts c = false := by
  cases at_ <;> simp [Pc.puts, other]

theorem kept_claims (truth : Truth c w) (knows : ∀ u, Knows c (w.locals c) u (pcs u))
    (here : pcs t = .on c at_) (claims : at_.Claims id)
    (answers : Answers cfg (w.locals c) w.clock at_
      (.written (w.bucket.seq + 1) : Answer GoString (Lease C)) e' at')
    (cell : cells' c = e') :
    Kept c { w with bucket := w.bucket.append (keyForID cfg id) (.put ⟨c⟩) w.clock,
                    locals := cells' } t (.on c at') pcs := by
  have stands := (knows t).stands at_ here
  cases answers with
  | wins _ id' _ claims' =>
    obtain rfl := claims.unique claims'
    exact Moved.kept (stands.wins truth.recorded claims.role (claims.silent stands) _ _) cell knows
      truth.pending
  | gone | renews | lets => obtain claims | claims | ⟨_, claims⟩ := claims <;> cases claims

theorem kept_wrote (truth : Truth c w) (knows : ∀ u, Knows c (w.locals c) u (pcs u))
    (asks : Asks cfg (pcs t) write)
    (tells : Tells cfg w.locals w.clock (pcs t) (.written (w.bucket.seq + 1)) cells' pc') :
    Kept c { w with bucket := w.bucket.append write.key write.op w.clock, locals := cells' } t pc'
      pcs := by
  generalize here : pcs t = pc at asks tells
  cases tells with
  | expired key revision =>
    cases asks with
    | expire _ =>
      refine kept_away (truth.recorded.append _ (by rintro ⟨⟩) _) truth.pending knows rfl rfl ?_
        nofun
      rw [here]
      rintro ⟨⟩
  | answers c' at_ _ e' at' answers =>
    by_cases same : c' = c
    · subst same
      have stands := (knows t).stands at_ here
      have cell : Function.update w.locals c' e' c' = e' := update_self _ _ _
      have claiming : (w.locals c').claiming = some t → at_.role = .claim := by
        intro claims
        have := (knows t).claiming claims
        rwa [here, Pc.role_on] at this
      cases asks with
      | create _ id => exact kept_claims truth knows here (.inl rfl) answers cell
      | createRetry _ id => exact kept_claims truth knows here (.inr (.inl rfl)) answers cell
      | takeover _ id revision =>
        exact kept_claims truth knows here (.inr (.inr ⟨revision, rfl⟩)) answers cell
      | renew _ key revision =>
        rw [renewal_key, renewal_op]
        cases answers with
        | wins _ id _ claims => obtain claims | claims | ⟨_, claims⟩ := claims <;> cases claims
        | renews _ _ _ =>
          exact Moved.kept (stands.renews truth.recorded (by rintro claims; cases claiming claims) _)
            cell knows truth.pending
      | delete _ key revision =>
        cases answers with
        | wins _ id _ claims => obtain claims | claims | ⟨_, claims⟩ := claims <;> cases claims
        | lets _ _ _ _ =>
          refine Moved.kept ?_ cell knows truth.pending
          exact moved_out (truth.recorded.append key (by rintro ⟨⟩) _) claiming
            nofun rfl rfl (.inl rfl)
    · exact kept_other same (by rw [here, Pc.role_away same])
        (update_of_ne (Ne.symm same) _ _)
        (truth.recorded.append _ (asks.foreign (Pc.puts_away same _)) _) truth.pending knows

variable [DecidableEq T]

theorem truth_of_reachable (reached : Reachable (pool T C cfg) (Truthful c) s) :
    Truth c (world s) ∧ ∀ t, Knows c (s.locals.cells c) t (s.locals.pcs t) := by
  refine Reachable.routine (F := fun _ => True) (I := Truth c)
    (N := fun w t pc => Knows c (w.locals c) t pc) (fun _ _ => trivial) ?_ ?_ ?_ reached
  · rintro ⟨bucket, pending, clock, cells⟩ ⟨rfl, rfl, rfl⟩
    refine ⟨⟨⟨fun _ => ⟨?_, rfl, rfl⟩, nofun, nofun⟩, nofun⟩, fun t => ⟨nofun, nofun⟩⟩
    rintro k x ⟨⟩
  · intro s t a w' pc' spawned _ allowed truth knows does
    cases does with
    | next input turn moved =>
      obtain ⟨⟨truth', own, others⟩, first⟩ := kept_steps truth knows allowed (next_steps moved)
      exact ⟨truth', own, others, fun fresh pc new _ idle =>
        first fresh pc new (of_decide_eq_true idle)⟩
    | wrote write cells pc' asked accepted told =>
      obtain ⟨truth', own, others⟩ := kept_wrote truth knows (asks_write asked) (told_tells told)
      exact ⟨truth', own, others, nofun⟩
    | heard _ answer cells pc' hears told =>
      obtain ⟨truth', own, others⟩ := kept_heard truth knows truth.pending (told_tells told) (by
        rintro revision rfl
        exact Hears.not_written hears)
      exact ⟨truth', own, others, nofun⟩
    | late write cells pc' asked told =>
      obtain ⟨truth', own, others⟩ := kept_heard truth knows (forall_mem_cons.mpr
        ⟨(asks_write asked).foreign allowed, truth.pending⟩) (told_tells told) (by simp)
      exact ⟨truth', own, others, nofun⟩
  · intro s a w' _ _ truth knows passes
    cases passes with
    | tick elapsed => exact ⟨⟨truth.recorded, truth.pending⟩, knows⟩
    | land index write waiting accepted =>
      refine ⟨⟨truth.recorded.append _ (truth.pending write (mem_of_getElem? waiting)) _,
        fun write' mem => truth.pending write' (mem_of_mem_eraseIdx mem)⟩, knows⟩

omit [DecidableEq T] in
theorem Steps.not_lost {cells}
    (steps : Steps cfg cells t now pc input cells' pc' spawned) (k : GoString) :
    pc' ≠ .on c (.lost k false) ∧ ∀ fresh, spawned ≠ some (fresh, .on c (.lost k false)) := by
  cases steps with
  | advances c' at_ _ e' at' advances =>
    refine ⟨?_, nofun⟩
    rintro ⟨⟩
    cases advances
  | _ => exact ⟨nofun, nofun⟩

omit [DecidableEq T] in
theorem does_lost {a} (does : Does (claimers T C cfg) w t pc a w' (.on c (.lost k false)) spawned) :
    w'.bucket = w.bucket ∧ ∃ r, pc = .on c (.renewUpdate k r) ∧
      w.bucket.accepts (renewal c k r) = false := by
  generalize there : Pc.on c (.lost k false) = pc' at does
  cases does with
  | next input turn moved =>
    exact absurd there.symm ((next_steps moved).not_lost k).1
  | wrote _ _ _ _ _ told | late _ _ _ _ told =>
    have tells := told_tells told
    rw [← there] at tells
    cases tells with
    | answers _ at_ _ e' _ answers => cases answers
  | heard _ answer cells pc' hears told =>
    have tells := told_tells told
    rw [← there] at tells
    cases tells with
    | answers _ at_ _ e' _ answers =>
      generalize heard : answer = answer' at answers
      cases answers with
      | lost _ last =>
        refine ⟨rfl, last, rfl, ?_⟩
        generalize conflict : Answer.conflict = answer' at heard
        subst heard
        cases hears with
        | refused write asked rejected =>
          cases asked
          exact rejected
        | _ => cases conflict

/-- **A reported loss is one.** -/
theorem lost_claim_is_not_own
    {s s' : State (Pool (C → Claimer T) (Pc C) T) GoString (Lease C)} {a : Action T (T × Input C T)}
    (reached : Reachable (pool T C cfg) (Truthful c) s) {k : GoString}
    (taken : (pool T C cfg).step s a = some s') (before : s.locals.pcs t ≠ .on c (.lost k false))
    (after : s'.locals.pcs t = .on c (.lost k false)) :
    ∀ e, s'.bucket.get k = some e → e.value.claimer ≠ c := by
  obtain ⟨truth, knows⟩ := truth_of_reachable reached
  cases Routine.step_moves taken with
  | passes _ w' passes => exact absurd after before
  | does u _ w' pc' spawned does fits =>
    obtain ⟨rfl, at_⟩ | ⟨_, _, new⟩ | ⟨_, at_⟩ := Turn.pool_pcs fits t
    · obtain rfl : pc' = .on c (.lost k false) := at_.symm.trans after
      obtain ⟨same, r, here, rejected⟩ := does_lost does
      obtain ⟨acked, _⟩ := ((knows t).stands _ here).acked
      obtain ⟨⟨x, stored, revision⟩, newest, _⟩ := truth.recorded.newest k r acked
      intro e live own
      have stored' : s.bucket.Stored k e := Bucket.get_stored (same ▸ live)
      have same_ : e.revision = r := by
        have le := stored.le_get (same ▸ live)
        have := newest k e stored' own
        omega
      -- the live entry is the one the claimer remembers, so the update is accepted
      rw [renewal, if_neg (truth.recorded.positive acked)] at rejected
      rw [Bucket.accepts_update.mpr ((Bucket.lastRevision_of_get (same ▸ live)).trans same_)]
        at rejected
      cases rejected
    · have first : spawned = some (t, .on c (.lost k false)) :=
        new.trans (congrArg (fun pc => some (t, pc)) after)
      cases does with
      | next input turn moved => exact absurd first (((next_steps moved).not_lost k).2 t)
      | _ => cases first
    · exact absurd (at_.symm.trans after) before

instance truthfulDecidable [Fintype T] (c : C)
    (s : State (Pool (C → Claimer T) (Pc C) T) GoString (Lease C)) :
    ∀ a : Action T (T × Input C T), Decidable (Truthful c s a)
  | .call (_, .claim c') => inferInstanceAs (Decidable (c' = c →
      (s.locals.cells c).lastRevision = 0 ∧
        ∀ u, (s.locals.pcs u).role c ≠ .claim ∧ (s.locals.pcs u).role c ≠ .start))
  | .call (_, .startRenewal c') =>
    inferInstanceAs (Decidable (c' = c → ∀ u, (s.locals.pcs u).role c ≠ .claim))
  | .step t .unanswered => inferInstanceAs (Decidable ((s.locals.pcs t).puts c = false))
  | .call (_, .release _) | .call (_, .close _) | .call (_, .expire _) | .call (_, .go)
  | .call (_, .cancelled) | .call (_, .timeout) | .call (_, .tick) | .call (_, .bucketMissing)
  | .call (_, .spawn _) | .step _ .served | .step _ .failed | .land _ | .tick _ => isTrue trivial

def startsRenewal {T C : Type} (t u : T) (c : C) : List (Action T (T × Input C T)) :=
  [.call (t, .startRenewal c), .call (t, .go), .call (t, .go), .call (t, .spawn u), .call (t, .go)]

def renewing {T C : Type} (u : T) : List (Action T (T × Input C T)) :=
  [.call (u, .tick), .call (u, .go), .call (u, .go)]

theorem lost_claim_is_not_own_after_takeover :
    ∃ (s s' : State (Pool (Bool → Claimer (Fin 2)) (Pc Bool) (Fin 2)) GoString (Lease Bool))
      (e : Entry (Lease Bool)), Reachable (pool (Fin 2) Bool twoIDs) (Truthful true) s ∧
        s.locals.pcs 1 ≠ .on true (.lost [119, 45, 48] false) ∧
        (pool (Fin 2) Bool twoIDs).step s (.step 1 .served) = some s' ∧
        s'.locals.pcs 1 = .on true (.lost [119, 45, 48] false) ∧
        s'.bucket.get [119, 45, 48] = some e ∧ e.value.claimer ≠ true := by
  obtain ⟨s, s', reached, taken, moves, after, live⟩ := exists_reachable_step (Truthful true)
    (fresh_init (T := Fin 2) twoIDs)
    (claimsFree 0 true ++ startsRenewal 0 1 true ++ [.tick 3000000001] ++ takesOver 0 false ++
      renewing 1)
    (.step 1 .served) (fun s s' => s.locals.pcs 1 ≠ .on true (.lost [119, 45, 48] false) ∧
      s'.locals.pcs 1 = .on true (.lost [119, 45, 48] false) ∧
      s'.bucket.get [119, 45, 48] = some ⟨⟨false⟩, 2, 3000000001⟩) (by decide)
  exact ⟨s, s', _, reached, moves, taken, after, live,
    lost_claim_is_not_own reached taken moves after _ live⟩

/-- A renewal goes unanswered and arrives; the next one is refused because of it. -/
def renewsUnanswered {T C : Type} (t u : T) (c : C) : List (Action T (T × Input C T)) :=
  claimsFree t c ++ startsRenewal t u c ++ [.tick 1000000000] ++ renewing u ++
    [.step u .unanswered, .call (u, .go), .land 0, .tick 1000000000] ++ renewing u

theorem own_renewal_reported_lost :
    ∃ (s s' : State (Pool (Bool → Claimer (Fin 2)) (Pc Bool) (Fin 2)) GoString (Lease Bool))
      (e : Entry (Lease Bool)), Reachable (pool (Fin 2) Bool twoIDs) Free s ∧
        s.locals.pcs 1 = .on true (.renewUpdate [119, 45, 48] 1) ∧
        (pool (Fin 2) Bool twoIDs).step s (.step 1 .served) = some s' ∧
        s'.locals.pcs 1 = .on true (.lost [119, 45, 48] false) ∧
        s'.bucket.get [119, 45, 48] = some e ∧ e.value.claimer = true := by
  obtain ⟨s, s', reached, taken, before, after, live⟩ := exists_reachable_step Free
    (fresh_init (T := Fin 2) twoIDs) (renewsUnanswered 0 1 true) (.step 1 .served) (fun s s' =>
      s.locals.pcs 1 = .on true (.renewUpdate [119, 45, 48] 1) ∧
      s'.locals.pcs 1 = .on true (.lost [119, 45, 48] false) ∧
      s'.bucket.get [119, 45, 48] = some ⟨⟨true⟩, 2, 1000000000⟩) (by decide)
  exact ⟨s, s', _, reached, before, taken, after, live, rfl⟩

end Parti.StableId
