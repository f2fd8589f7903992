/-
# Handoff.ClaimShape — the shapes a stored claim can have

Every writer computes its next claim from the claim it last read, which may be long replaced
when the write takes effect. So the shape is an invariant of every claim that is or ever was
stored: a transform makes a well-shaped claim of a well-shaped one (`Transform.apply_shaped`).

The one thing asked of the environment is that `Apply` is called for a worker with an id.
-/
import Parti.Handoff.Provenance

namespace Parti.Handoff

open Parti.Types Lib Transform List
open Lib.Kv (Bucket Entry Write)
open Lib.Client (Answer Protocol Action Move)

structure Shaped (c : Claim) : Prop where
  owned : c.owner ≠ ""
  settled : c.state = .stable ∨ c.state = .commit → c.pendingOwner = ""
  pending : c.state = .prepare → c.pendingOwner ≠ "" ∧ c.pendingOwner ≠ c.owner

section Transforms

variable {c : Claim} {now : Int}

theorem shaped_settled {c : Claim} (owned : c.owner ≠ "") (alone : c.pendingOwner = "")
    (state : c.state = .stable ∨ c.state = .commit) : Shaped c := by
  refine ⟨owned, fun _ => alone, fun prepares => ?_⟩
  rw [prepares] at state
  simp at state

theorem Shaped.nextPrepare (shaped : Shaped c) {worker : String} (named : worker ≠ "")
    (other : c.owner ≠ worker) : Shaped (c.nextPrepare worker now) :=
  ⟨shaped.owned, fun settled => by simp [Claim.nextPrepare] at settled, fun _ => ⟨named, other.symm⟩⟩

theorem Shaped.nextCommit (shaped : Shaped c) : Shaped (c.nextCommit now) := by
  unfold Claim.nextCommit
  split
  next pending => exact shaped_settled pending rfl (.inr rfl)
  next alone => exact shaped_settled shaped.owned (not_not.mp alone) (.inr rfl)

theorem Shaped.nextStable (shaped : Shaped c) (commits : c.state = .commit) :
    Shaped (c.nextStable now) :=
  shaped_settled shaped.owned (shaped.settled (.inr commits)) (.inl rfl)

theorem Transform.apply_shaped {t : Transform} {pid : Pid} {ttlSeconds : Int}
    {given} {d : Draft} (named : ∀ worker, t = .prepare worker → worker ≠ "")
    (old : ∀ c ∈ given, Shaped c) (wrote : t.apply pid now ttlSeconds given = some d) :
    Shaped d.claim := by
  cases given with
  | none =>
    cases t with
    | prepare worker =>
      cases wrote
      exact shaped_settled (named worker rfl) rfl (.inl rfl)
    | _ => cases wrote
  | some c =>
    have shaped := old c rfl
    have reset : Shaped (c.reset now) := shaped_settled shaped.owned rfl (.inl rfl)
    cases t with
    | prepare worker =>
      simp only [apply, prepareExisting] at wrote
      split_ifs at wrote with other stale <;> cases wrote
      · exact shaped.nextPrepare (named worker rfl) other
      · exact shaped_settled shaped.owned rfl (.inl rfl)
    | commit worker =>
      simp only [apply, commitExisting] at wrote
      split_ifs at wrote <;> cases wrote
      · exact shaped.nextCommit
      · exact shaped
    | stabilize worker =>
      simp only [apply, stabilizeExisting] at wrote
      split_ifs at wrote with other state
      cases wrote
      exact shaped.nextStable (not_not.mp state)
    | sweep =>
      simp only [apply, sweepReconcile] at wrote
      split_ifs at wrote with idle commits <;> cases wrote
      · exact shaped.nextStable commits.1
      · exact reset
    | hygiene =>
      simp only [apply, hygieneExisting] at wrote
      split_ifs at wrote
      cases wrote
      exact reset
    | resume worker =>
      simp only [apply, resumeExisting] at wrote
      split_ifs at wrote with other state
      cases wrote
      exact shaped.nextStable (not_not.mp state)

end Transforms

/-! ## Jobs -/

def JobPc.next? : JobPc → Option Written
  | .putGet w | .create w | .update w _ => some w
  | .get | .delete _ | .done _ => none

/-- A job prepares for a worker with an id, and is about to write a well-shaped claim. -/
structure JobShaped (j : Job) : Prop where
  named : ∀ worker, j.kind = .update (.prepare worker) → worker ≠ ""
  next : ∀ w ∈ j.pc.next?, Shaped w.claim

variable {j : Job}

theorem JobShaped.goto (shaped : JobShaped j) {pc : JobPc} (retries : Nat)
    (next : pc.next? = none ∨ pc.next? = j.pc.next?) :
    JobShaped { j with retries := retries, pc := pc } := by
  refine ⟨shaped.named, fun w mem => ?_⟩
  obtain none | same := next
  · rw [none] at mem
    cases mem
  · exact shaped.next w (same ▸ mem)

theorem JobShaped.retry (shaped : JobShaped j) : JobShaped j.retry := by
  unfold Job.retry
  split
  · exact shaped.goto _ (.inl rfl)
  · exact shaped.goto _ (.inl rfl)

theorem JobShaped.attempt (shaped : JobShaped j) {live}
    (old : ∀ e ∈ live, Shaped e.value.claim) : JobShaped { j with pc := j.attempt live } := by
  refine ⟨shaped.named, fun w mem => ?_⟩
  unfold Job.attempt at mem
  split at mem
  next t kind =>
    split at mem
    next => cases mem
    next draft wrote =>
      cases mem
      refine apply_shaped (fun worker is => shaped.named worker (is ▸ kind)) ?_ wrote
      rintro c given
      obtain ⟨e, is, rfl⟩ := Option.map_eq_some_iff.mp given
      exact old e is
  next => split at mem <;> cases mem
  next => cases mem

theorem JobShaped.resume {j' : Job} {answer} (shaped : JobShaped j)
    (old : ∀ e, answer = .entry (some e) → Shaped e.value.claim) (moved : j.resume answer = some j') :
    JobShaped j' := by
  obtain ⟨live, is, rfl⟩ | ⟨live, w, _, at_, rfl⟩ | rfl | ⟨ok, rfl⟩ := Job.resume_cases moved
  · exact shaped.attempt fun e here => old e (here ▸ is)
  · have writes {pc : JobPc} (same : pc.next? = some w) : pc.next? = j.pc.next? := by
      rw [same, at_]
      rfl
    unfold Job.compare
    split <;> split
    · exact shaped.retry
    · exact shaped.goto _ (.inr (writes rfl))
    · exact shaped.retry
    · exact shaped.goto _ (.inr (writes rfl))
  · exact shaped.retry
  · exact shaped.goto _ (.inl rfl)

theorem JobShaped.asks {w} {v} (shaped : JobShaped j)
    (asked : j.request = some (.write w)) (puts : w.op = .put v) : Shaped v.claim := by
  have next := shaped.next
  unfold Job.request at asked
  split at asked
  next => cases asked
  next => cases asked
  next v' at_ =>
    cases asked
    cases puts
    exact next v (at_ ▸ rfl)
  next v' revision at_ =>
    cases asked
    cases puts
    exact next v (at_ ▸ rfl)
  next =>
    cases asked
    cases puts
  next => cases asked

/-! ## Runs -/

section Runs

variable {A J : Type} [DecidableEq A] [DecidableEq J] {cfg : Config} {s : StoreState A J}

/-- `Apply` is called for workers with an id. -/
def Named (_ : StoreState A J) : Action (Tid A J) (Call A J) → Prop
  | .call (.apply _ worker _ _ _) => worker ≠ ""
  | _ => True

instance (s : StoreState A J) (a : Action (Tid A J) (Call A J)) : Decidable (Named s a) := by
  unfold Named
  split <;> infer_instance

def PutsShaped (w : Write Pid Written) : Prop := ∀ v, w.op = .put v → Shaped v.claim

structure AllShaped (s : StoreState A J) : Prop where
  store : ∀ pid e, s.bucket.Stored pid e → Shaped e.value.claim
  pending : ∀ w ∈ s.pending, PutsShaped w
  jobs : Each JobShaped s.locals

omit [DecidableEq A] [DecidableEq J] in
theorem AllShaped.append (all : AllShaped s) {w} (puts : PutsShaped w) :
    AllShaped { s with bucket := s.bucket.append w.key w.op s.clock } := by
  refine ⟨fun pid e stored => ?_, all.pending, all.jobs⟩
  obtain new | old := mem_cons.mp stored
  · exact puts e.value (congrArg Kv.Record.op new).symm
  · exact all.store pid e old

theorem AllShaped.resumed {t} {answer} {l'}
    (all : AllShaped s) (told : ∀ e, answer = .entry (some e) → ∃ pid, s.bucket.get pid = some e)
    (moved : resumeOf s.locals t answer = some l') : AllShaped { s with locals := l' } := by
  refine ⟨all.store, all.pending, (all.jobs.resumeOf (fun j j' at_ went => ?_) moved).1⟩
  refine (all.jobs.jobAt at_).resume (fun e is => ?_) went
  obtain ⟨pid, live⟩ := told e is
  exact all.store pid e (Bucket.get_stored live)

theorem AllShaped.step {s'} {a} (all : AllShaped s)
    (named : Named s a) (taken : (claimStore A J cfg).step s a = some s') : AllShaped s' := by
  have asked : ∀ {t w}, requestOf s.locals t = some (.write w) → PutsShaped w := by
    intro t w request v puts
    obtain ⟨j, at_, asked⟩ := requestOf_write request
    exact (all.jobs.jobAt at_).asks asked puts
  cases Protocol.step_move taken with
  | tick elapsed => exact ⟨all.store, all.pending, all.jobs⟩
  | call c γ moved =>
    refine ⟨all.store, all.pending, (all.jobs.callOf (fun j first started => ?_)
      (fun j shaped => shaped.goto _ (.inl rfl)) moved).1⟩
    refine ⟨fun worker kind => ?_, by simp [first, JobPc.next?]⟩
    cases started with
    | prepare own =>
      cases own.symm.trans kind
      exact named
    | task own background =>
      exact absurd (JobKind.update.inj (own.symm.trans kind)) (background worker).1
    | stabilize own | commit _ own | reap own => cases own.symm.trans kind
  | land index w waiting accepted =>
    have landed := all.append (all.pending w (mem_of_getElem? waiting))
    exact ⟨landed.store, fun w' member => landed.pending w' (mem_of_mem_eraseIdx member),
      landed.jobs⟩
  | wrote t w γ request accepted moved => exact (all.append (asked request)).resumed (by simp) moved
  | refused _ _ _ _ _ moved | listed _ _ _ moved | failed _ _ _ _ moved =>
    exact all.resumed (by simp) moved
  | read t k γ request moved => exact all.resumed (fun e is => ⟨k, Answer.entry.inj is⟩) moved
  | late t w γ request moved =>
    have under : AllShaped { s with pending := w :: s.pending } :=
      ⟨all.store, forall_mem_cons.mpr ⟨asked request, all.pending⟩, all.jobs⟩
    exact under.resumed (by simp) moved

/-- **The shape of a claim.** In every run from an empty store, with any number of workers and
any interleaving of the writers, every claim that is or was stored is well shaped. -/
theorem stored_claims_shaped {s : StoreState A J} (reached : Reachable (claimStore A J cfg) Named s)
    {pid : Pid} {e : Entry Written} (stored : s.bucket.Stored pid e) : Shaped e.value.claim := by
  refine (reached.invariant (I := AllShaped) (fun s fresh => ⟨?_, ?_, ?_, ?_⟩)
    fun _ _ _ all named taken => all.step named taken).store pid e stored
  · intro pid e stored
    rw [Bucket.Stored, fresh.bucket] at stored
    cases stored
  · simp [fresh.pending]
  · exact fun a ap running => by simp [fresh.applies] at running
  · exact fun t j running => by simp [fresh.tasks] at running

end Runs

theorem stored_claims_shaped_created :
    ∃ s e, Reachable (claimStore Bool Bool plainConfig) Named s ∧
      s.bucket.get partitionP.subjectKey = some e ∧ Shaped e.value.claim := by
  obtain ⟨s, reached, live⟩ : ∃ s, Reachable (claimStore Bool Bool plainConfig) Named s ∧
      (s.bucket.get partitionP.subjectKey).isSome = true :=
    exists_reachable _ emptyStore_fresh
      (prepareSteps true "A" (assignmentOf 0 []) (assignmentOf 1 [partitionP])) _ (by decide)
  obtain ⟨e, live⟩ := Option.isSome_iff_exists.mp live
  exact ⟨s, e, reached, live, stored_claims_shaped reached (Bucket.get_stored live)⟩

end Parti.Handoff
