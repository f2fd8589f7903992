/-
# Handoff.Removal — what the removal guard may conclude from a claim

A worker that loses a partition to another keeps consuming it until the guard
reads a claim that names another owner in a post-switch state. The claim stands
for something the guard cannot see: that the other worker's consumer has been
updated.

It does so where the owner's tenure began with its own commit, which comes after
its consumer update (`released_owner_updated`). It does not where `prepare` has
created the claim with its own worker as the owner: `created_claim_releases_early` is
a run in which a claim was reaped while its partition was out of the source, and
created again for the next owner while the previous one still consumed it.
-/
import Parti.Handoff.ClaimWrites

namespace Parti.Handoff

open Parti.Types Lib Option
open Lib.Kv (Bucket Entry Write Op)
open Lib.Client (Protocol State Action Reply serve)

/-- The tenure of the entry's owner began with `o`: the claim that `o` was made from, if any, was
another owner's, and from `o` on each entry was made from one of the same owner. -/
inductive Began (b : Bucket Pid Written) (pid : Pid) : Entry Written → Entry Written → Prop
  | here {e : Entry Written}
      (changes : ∀ c n, e.value.given = some (c, n) → c.owner ≠ e.value.claim.owner) : Began b pid e e
  | back {e e' o : Entry Written} {c : Claim} {n : Nat} (given : e.value.given = some (c, n))
      (same : c.owner = e.value.claim.owner) (stored : b.Stored pid e') (read : e'.revision = n)
      (claim : e'.value.claim = c) (began : Began b pid e' o) : Began b pid e o

variable {b : Bucket Pid Written} {owner : String} {pid : Pid} {u : List (String × Assignment)}
  {e o : Entry Written}

theorem Began.append (began : Began b pid e o) (pid' : Pid) (op : Op Written) (now : Int) :
    Began (b.append pid' op now) pid e o := by
  induction began with
  | here changes => exact .here changes
  | back given same stored read claim _ ih =>
    exact .back given same (stored.append pid' op now) read claim ih

def OwnCommit (v : Written) : Prop := v.branch = .commit ∧ v.worker = v.claim.owner

/-- How a worker came to own a claim: after its own consumer update, or otherwise than by its
own commit. -/
def Acquired (b : Bucket Pid Written) (u : List (String × Assignment)) (pid : Pid)
    (e : Entry Written) : Prop :=
  Assigned u e.value.claim.owner pid ∨ ∃ o, Began b pid e o ∧ ¬ OwnCommit o.value

theorem Acquired.append (acquired : Acquired b u pid e) (pid' : Pid) (op : Op Written)
    (now : Int) : Acquired (b.append pid' op now) u pid e := by
  rcases acquired with assigned | ⟨o, began, other⟩
  · exact .inl assigned
  · exact .inr ⟨o, began.append pid' op now, other⟩

theorem Authored.acquired (authored : Authored b u pid e.value)
    (older : ∀ e', b.Stored pid e' → Acquired b u pid e') : Acquired b u pid e := by
  by_cases own : OwnCommit e.value
  · exact .inl (own.2 ▸ authored.committer own.1)
  cases given : e.value.given with
  | none => exact .inr ⟨e, .here fun c n some => by simp [given] at some, own⟩
  | some cn =>
    obtain ⟨-, e', stored, read, claim⟩ := authored.changed cn.1 cn.2 given
    by_cases same : cn.1.owner = e.value.claim.owner
    · rcases older e' stored with assigned | ⟨o, began, other⟩
      · exact .inl (by rwa [claim, same] at assigned)
      · exact .inr ⟨o, .back given same stored read claim began, other⟩
    · refine .inr ⟨e, .here fun c n some => ?_, own⟩
      cases given.symm.trans some
      exact same

section Runs

variable {A J : Type} [DecidableEq A] [DecidableEq J] {cfg : Config} {s : StoreState A J}

theorem owners_acquired {ok} (reached : Reachable (claimStore A J cfg) ok s) :
    ∀ pid e, s.bucket.Stored pid e → Acquired s.bucket s.locals.updated pid e := by
  refine Reachable.invariant_with (K := Sound)
    (I := fun s => ∀ pid e, s.bucket.Stored pid e → Acquired s.bucket s.locals.updated pid e)
    (fun _ reached => sound reached) ?_ ?_ reached
  · intro s fresh pid e stored
    simp [Bucket.Stored, fresh.bucket] at stored
  · intro s a s' sound acquired _ taken pid e stored
    have later := sound.step_later taken
    have grown : ∀ e, s.bucket.Stored pid e → Acquired s.bucket s'.locals.updated pid e :=
      fun e stored => (acquired pid e stored).imp_left (later.assigned _ _)
    rcases Protocol.step_bucket taken with same | ⟨w, writes, appended⟩
    · exact same ▸ grown e (same ▸ stored)
    by_cases older : s.bucket.Stored pid e
    · exact appended ▸ (grown e older).append _ _ _
    -- the new record: its transform was given an older one
    have record : w.key = pid ∧ w.op = .put e.value := by
      rw [appended] at stored
      rcases List.mem_cons.mp stored with new | older'
      · simp only [Kv.Record.mk.injEq] at new
        exact ⟨new.1.symm, new.2.1.symm⟩
      · exact absurd older' older
    obtain ⟨rfl, puts⟩ := record
    have authored := ((sound.writes writes).2.authored puts).later
      ⟨fun _ _ stored => stored, later.assigned⟩
    exact appended ▸ (authored.acquired grown).append _ _ _

/-- The guard of an `Apply` is at the claim of `pid`, and the claim lets it pass
because it names `owner`. -/
def Releases (s : StoreState A J) (a : A) (pid : Pid) (owner : String) : Prop :=
  ∃ ap rest e, s.locals.applies a = some ap ∧ ap.phase = .guard (pid :: rest) ∧
    s.bucket.get pid = some e ∧ committedElsewhere ap.worker e.value.claim = true ∧
    e.value.claim.owner = owner

/-- An `Apply` that survives its guard's read of a claim was released by it. -/
theorem guard_passes_released {s'} {a : A} {ap ap' : Apply} {pid : Pid}
    {rest} {reply : Reply} (running : s.locals.applies a = some ap)
    (phase : ap.phase = .guard (pid :: rest))
    (taken : (claimStore A J cfg).step s (.step (.guard a) reply) = some s')
    (survives : s'.locals.applies a = some ap') :
    ∃ owner, owner ≠ ap.worker ∧ Releases s a pid owner ∧ ap'.phase = guardPhase rest := by
  have asks : requestOf s.locals (.guard a) = some (.read pid) := by
    simp [requestOf, running, phase]
  cases reply <;> simp only [claimStore, Protocol.system, Protocol.step, protocol, asks, serve,
    resumeOf, running, phase, bind_some, map_some, Option.some.injEq] at taken
  case unanswered => cases taken
  case failed =>
    subst taken
    simp [Locals.setApply] at survives
  case served =>
    subst taken
    simp only [Locals.setApply, Function.update_self, Apply.guardStep] at survives
    split at survives
    next e live =>
      split at survives
      next elsewhere =>
        cases survives
        have other : e.value.claim.owner ≠ ap.worker := by
          simp only [committedElsewhere, decide_eq_true_iff] at elsewhere
          exact elsewhere.2.1
        exact ⟨_, other, ⟨ap, rest, e, running, phase, live, elsewhere, rfl⟩, rfl⟩
      next => cases survives
    next => cases survives

theorem released_owner_updated {s : StoreState A J} {a : A} {pid : Pid} {owner : String}
    (reached : Reachable (claimStore A J cfg) Free s) (released : Releases s a pid owner)
    (ownCommit : ∀ e ∈ s.bucket.get pid, ∀ o, Began s.bucket pid e o → OwnCommit o.value) :
    Assigned s.locals.updated owner pid := by
  obtain ⟨ap, rest, e, _, _, live, _, rfl⟩ := released
  rcases owners_acquired reached pid e (Bucket.get_stored live) with assigned | ⟨o, began, other⟩
  · exact assigned
  · exact absurd (ownCommit e live o began) other

end Runs

/-- A consumes the partition. B prepares it, updates its consumer and commits; A
then applies the assignment without it and reaches its guard. -/
def transferRun : List (Action (Tid Nat Bool) (Call Nat Bool)) :=
  prepareSteps 0 "A" (assignmentOf 0 []) (assignmentOf 1 [partitionP]) ++
    updateSteps 0 ++ settledSteps 0 ++
    .call (.publish ⟨2, [partitionP.subjectKey]⟩) ::
    prepareSteps 1 "B" (assignmentOf 1 []) (assignmentOf 2 [partitionP]) ++
    updateSteps 1 ++ phaseSteps 1 ++
    [.call (.apply 2 "A" (assignmentOf 1 [partitionP]) (assignmentOf 2 []) 0),
      .call (.advance 2 0), .call (.readCommit 2 true)]

/-- What the guard of an `Apply` is about to read: the worker, the partitions left
to check, and the claim's owner if it releases the first of them. -/
def guardView (s : StoreState Nat Bool) (a : Nat) (pid : Pid) : Option (Phase × Option String) :=
  (s.locals.applies a).map fun ap =>
    (ap.phase, ((s.bucket.get pid).filter fun e => committedElsewhere ap.worker e.value.claim).map
      fun e => e.value.claim.owner)

theorem guardView_releases {s} {a : Nat} {rest}
    (view : guardView s a pid = some (.guard (pid :: rest), some owner)) :
    Releases s a pid owner := by
  obtain ⟨ap, running, facts⟩ := map_eq_some_iff.mp view
  simp only [Prod.mk.injEq, map_eq_some_iff, filter_eq_some_iff] at facts
  obtain ⟨phase, e, ⟨live, elsewhere⟩, owned⟩ := facts
  exact ⟨ap, rest, e, running, phase, live, elsewhere, owned⟩

theorem released_owner_updated_transfer :
    ∃ s, Reachable (claimStore Nat Bool plainConfig) Free s ∧
      Releases s 2 partitionP.subjectKey "B" ∧
      Assigned s.locals.updated "B" partitionP.subjectKey := by
  obtain ⟨s, reached, view, last⟩ : ∃ s,
      Reachable (claimStore Nat Bool plainConfig) Free s ∧
      guardView s 2 partitionP.subjectKey = (some (.guard [partitionP.subjectKey], some "B")) ∧
      ∀ e ∈ s.bucket.get partitionP.subjectKey, (e.value.branch = .commit ∧
        e.value.worker = e.value.claim.owner) ∧
        ∀ g ∈ e.value.given, g.1.owner ≠ e.value.claim.owner :=
    exists_reachable _ emptyStore_fresh transferRun _ (by decide)
  have released := guardView_releases view
  refine ⟨s, reached, released, released_owner_updated reached released fun e live o began => ?_⟩
  cases began with
  | here => exact (last e live).1
  | back given same => exact absurd same ((last e live).2 _ given)

def recreatedRun : List (Action (Tid Nat Bool) (Call Nat Bool)) :=
  .call (.publish ⟨1, [partitionP.subjectKey]⟩) ::
  prepareSteps 0 "A" (assignmentOf 0 []) (assignmentOf 1 [partitionP]) ++
    updateSteps 0 ++ settledSteps 0 ++
    [.call (.publish ⟨2, []⟩), .call (.reap false partitionP.subjectKey 0),
      .step (.task false) .served, .step (.task false) .served,
      .call (.publish ⟨3, [partitionP.subjectKey]⟩)] ++
    prepareSteps 1 "B" (assignmentOf 0 []) (assignmentOf 3 [partitionP]) ++
    [.call (.apply 2 "A" (assignmentOf 1 [partitionP]) (assignmentOf 3 []) 0),
      .call (.advance 2 0), .call (.readCommit 2 true)]

/-- A is released by a claim of B, whose consumer has not been updated. -/
theorem created_claim_releases_early :
    ∃ s, Reachable (claimStore Nat Bool plainConfig) Free s ∧
      s.locals.commit = some ⟨3, [partitionP.subjectKey]⟩ ∧
      Releases s 2 partitionP.subjectKey "B" ∧
      ¬ Assigned s.locals.updated "B" partitionP.subjectKey := by
  obtain ⟨s, reached, view, commit, updated⟩ : ∃ s,
      Reachable (claimStore Nat Bool plainConfig) Free s ∧
      guardView s 2 partitionP.subjectKey = (some (.guard [partitionP.subjectKey], some "B")) ∧
      s.locals.commit = some ⟨3, [partitionP.subjectKey]⟩ ∧
      s.locals.updated.map Prod.fst = ["A"] :=
    exists_reachable _ emptyStore_fresh recreatedRun _ (by decide)
  refine ⟨s, reached, commit, guardView_releases view, fun assigned => ?_⟩
  have worker := assigned.worker
  rw [updated] at worker
  exact absurd worker (by decide)

end Parti.Handoff
