/-
# Assignment.AliasVersion — the versions shown under the legacy aliases

A `Publish` writes the aliases of legacy workers before its commit, at the version it
proposes, and leaves them there when it gives up after that. `DiscoverHighestVersion` reads
the aliases only when there is no commit to read; with one it trusts the commit's version.

* `alias_versions_kept`: if the publishes that enter the alias barrier take turns and end
  with their commit (`Orderly`), no worker is ever shown two partition sets under one version,
  and a discovery that applies a current reading of `_commit` is above every alias there has
  been.
* `alias_version_reused`: otherwise the next leader proposes the version of an abandoned
  batch again.

A call is in its window from the alias barrier, if a legacy worker is in it, to its commit.
Calls without legacy workers, and calls before their barrier, are given up anywhere.
-/
import Parti.Assignment.CommitVersion
import Mathlib.Data.Fintype.Basic
import Mathlib.Tactic.MkIffOfInductiveProp

namespace Parti.Assignment

open Parti.Types Lib Option
open Lib.Kv (Bucket Entry Write Op)
open Lib.Client (Request Answer Action Protocol Move Reply)

/-! ## Turns -/

/-- The batch of a call between the alias barrier and its commit, if there is a legacy
worker. -/
def PublishPc.window : PublishPc → Option Batch
  | .aliasBarrier batch legacy todo _ => if legacy = [] ∧ todo = [] then none else some batch
  | .postAlias batch (_ :: _) | .shutdownGate batch (_ :: _) _ | .cas batch (_ :: _) _ => some batch
  | _ => none

/-- The batch whose aliases a call writes: in its window, and after its commit. -/
def PublishPc.writing : PublishPc → Option Batch
  | .bestEffort batch _ => some batch
  | pc => pc.window

section Locals

variable {P T : Type} (l : Locals P T) (t : T)

def Locals.publishPc : Option PublishPc :=
  match l.threads t with
  | some (_, .publish pc) => some pc
  | _ => none

def Locals.window : Option Batch := (l.publishPc t).bind PublishPc.window

def Locals.writing : Option Batch := (l.publishPc t).bind PublishPc.writing

end Locals

/-- One call at most is in its window, with a current view of `_commit`. -/
@[mk_iff]
structure Apart {P T : Type} (s : ClusterState P T) : Prop where
  alone : ∀ t u, (s.locals.window t).isSome → (s.locals.window u).isSome → t = u
  current : ∀ t, (s.locals.window t).isSome → ∀ here ∈ s.locals.threads t,
    (s.locals.pubs here.1).lastCommitRev = s.bucket.lastRevision .commit

/-- A window ends with its commit, and nothing else is committed in a window. -/
@[mk_iff]
structure InTurn {P T : Type} (s s' : ClusterState P T) : Prop where
  kept : ∀ t, (s.locals.window t).isSome → (s'.locals.writing t).isSome
  landed : s'.bucket.lastRevision .commit ≠ s.bucket.lastRevision .commit →
    ∀ t, s'.locals.window t = none
  apart : Apart s'

variable {P T : Type} [DecidableEq P] [DecidableEq T]

def Orderly (cfg : Config T) (s : ClusterState P T) (a : Action T (Call P T)) : Prop :=
  ∀ s' ∈ (cluster P cfg).step s a, InTurn s s'

instance [Fintype T] (s : ClusterState P T) : Decidable (Apart s) :=
  decidable_of_iff _ (apart_iff s).symm

instance [Fintype T] (s s' : ClusterState P T) : Decidable (InTurn s s') :=
  decidable_of_iff _ (inTurn_iff s s').symm

instance [Fintype T] (cfg : Config T) (s : ClusterState P T) (a : Action T (Call P T)) :
    Decidable (Orderly cfg s a) :=
  inferInstanceAs (Decidable (∀ s' ∈ (cluster P cfg).step s a, InTurn s s'))

/-! ## Windows and alias writes of a call -/

/-- The assignment a write puts under the alias of a worker. -/
def Puts (worker : String) (a : Assignment) (k : Key) (op : Op Value) : Prop :=
  k = .alias worker ∧ op = .put (.assignment a)

section Programs

variable {codec : Codec} {pub pub' : Publisher} {pc pc' : PublishPc} {answer : Answer Key Value}
  {r : PublishProgress} {batch batch' : Batch} {worker : String} {a : Assignment}
  {w : Write Key Value}

theorem PublishPc.writing_of_window (inside : pc.window = some batch) :
    pc.writing = some batch := by
  cases pc <;> first | exact inside | cases inside

theorem PublishPc.writing_fence (fence : pc.fence = some batch)
    (writes : pc.writing = some batch') : batch' = batch := by
  cases PublishPc.fences fence with
  | preAlias | classify => cases writes
  | aliasBarrier legacy todo attempt =>
    simp only [writing, window] at writes
    split_ifs at writes
    exact (some.inj writes).symm
  | postAlias legacy => cases legacy <;> cases writes; rfl

theorem Proposes.window (proposes : Proposes pub pc) (inside : pc.window = some batch) :
    batch.proposedVersion = pub.currentVersion + 1 := by
  cases pc with
  | aliasBarrier here legacy todo attempt =>
    obtain rfl := PublishPc.writing_fence rfl (PublishPc.writing_of_window inside)
    exact proposes
  | postAlias here legacy => cases legacy <;> cases inside; exact proposes
  | shutdownGate here legacy commit | cas here legacy commit =>
    cases legacy <;> cases inside
    exact proposes.1
  | _ => cases inside

/-- A call keeps its batch while it writes aliases. -/
theorem publishResume_writing (ran : publishResume codec pub pc answer = some (pub', r))
    (waits : r.pc? = some pc') (writes : pc.writing = some batch)
    (next : pc'.writing = some batch') : batch' = batch := by
  cases publishResume_resumed ran with
  | aliased here legacy todo todo' attempt attempt' answer =>
    cases waits
    exact (PublishPc.writing_fence rfl next).trans (PublishPc.writing_fence rfl writes).symm
  | started input seen winner decoded =>
    unfold startBatch at waits
    split at waits <;> cases waits
    cases next
  | retried pc next' answer _ _ _ job =>
    cases waits
    cases PublishPc.writes job <;> cases next
  | committed here legacy commit revision =>
    cases waits
    cases next
    cases legacy <;> cases writes
    rfl
  | bestEffort =>
    cases waits
    cases next
    cases writes
    rfl
  | referenced | lost => cases waits; cases next
  | reseeded | gaveUp => cases waits

theorem publishProceed_writing {now : Int} {choice : Choice}
    (ran : publishProceed codec pub now pc choice = some (pub', r)) (waits : r.pc? = some pc')
    (writes : pc.writing = some batch) (next : pc'.writing = some batch') : batch' = batch := by
  cases publishProceed_proceeded ran with
  | passed pc pc' here fence fence' =>
    cases waits
    exact (PublishPc.writing_fence fence' next).trans (PublishPc.writing_fence fence writes).symm
  | built here legacy | opened here legacy =>
    cases waits
    cases legacy <;> cases next
    cases writes
    rfl
  | registered => cases waits; cases next
  | returned => cases waits

/-- The rest of a batch is begun by its commit. -/
theorem publishResume_committed {todo} (ran : publishResume codec pub pc answer = some (pub', r))
    (waits : r.pc? = some (.bestEffort batch todo)) :
    (∃ first, pc = .bestEffort batch (first :: todo)) ∨
      ∃ legacy commit revision, pc = .cas batch legacy commit ∧ answer = .written revision ∧
        todo = batch.afterCommit legacy commit := by
  cases publishResume_resumed ran with
  | started input seen winner decoded =>
    unfold startBatch at waits
    split at waits <;> cases waits
  | retried pc next answer _ _ job job' =>
    cases waits
    cases job'
  | committed here legacy commit revision =>
    cases waits
    exact .inr ⟨legacy, commit, revision, rfl, rfl, rfl⟩
  | bestEffort here first rest answer =>
    cases waits
    exact .inl ⟨first, rfl⟩
  | _ => cases waits

theorem publishProceed_uncommitted {now : Int} {choice : Choice} {todo}
    (ran : publishProceed codec pub now pc choice = some (pub', r)) :
    r.pc? ≠ some (.bestEffort batch todo) := by
  intro waits
  cases publishProceed_proceeded ran with
  | passed pc next here fence fence' =>
    cases waits
    cases fence'
  | _ => cases waits

theorem beginPublish_uncommitted {input} {todo} :
    (beginPublish pub input).pc? ≠ some (.bestEffort batch todo) := by
  intro waits
  rcases beginPublish_pc waits with same | started
  · cases same
  · unfold startBatch at started
    split at started <;> cases started

theorem afterCommit_puts {legacy} {commit} (owed : w ∈ batch.afterCommit legacy commit)
    (puts : Puts worker a w.key w.op) : a = batch.aliasOf worker := by
  obtain ⟨key, op⟩ := puts
  simp only [Batch.afterCommit, List.cons_append, List.mem_cons, List.mem_append,
    List.mem_map] at owed
  rcases owed with rfl | ⟨_, _, rfl⟩ | ⟨_, _, rfl⟩
  · cases key
  · cases key
    cases op
    rfl
  · cases op

end Programs

variable {cfg : Config T} {l l' : Locals P T} {s s' : ClusterState P T} {t u : T} {p : P}
  {action : Action T (Call P T)} {worker : String} {a a' : Assignment} {w : Write Key Value}
  {batch batch' : Batch}

theorem bestEffort_puts {todo} (reached : Reachable (cluster P cfg) Free s)
    (at_ : s.locals.threads t = some (p, .publish (.bestEffort batch todo))) (owed : w ∈ todo)
    (puts : Puts worker a w.key w.op) : a = batch.aliasOf worker := by
  refine publish_invariant (Q := fun _ pc => ∀ batch todo, pc = .bestEffort batch todo →
    ∀ w ∈ todo, ∀ worker a, Puts worker a w.key w.op → a = batch.aliasOf worker) ?_ ?_ ?_ reached
    at_ batch todo rfl w owed worker a puts
  · rintro pub input _ waits batch todo rfl
    exact absurd waits beginPublish_uncommitted
  · rintro pub pc asked answer pub' r ih _ ran _ waits batch todo rfl w owed worker a puts
    obtain ⟨first, rfl⟩ | ⟨legacy, commit, revision, -, -, rfl⟩ := publishResume_committed ran waits
    · exact ih batch _ rfl w (.tail _ owed) worker a puts
    · exact afterCommit_puts owed puts
  · rintro pub pc now choice pub' r _ ran _ waits batch todo rfl
    exact absurd waits (publishProceed_uncommitted ran)

section Locals

omit [DecidableEq P] [DecidableEq T]

theorem Locals.bind_publishPc {f : PublishPc → Option Batch} :
    (l.publishPc t).bind f = some batch ↔
      ∃ p pc, l.threads t = some (p, .publish pc) ∧ f pc = some batch := by
  unfold publishPc
  rcases l.threads t with _ | ⟨p, pc⟩
  · simp
  · cases pc <;> simp

theorem Locals.writing_of_window (inside : l.window t = some batch) :
    l.writing t = some batch := by
  obtain ⟨p, pc, at_, inside⟩ := Locals.bind_publishPc.mp inside
  exact Locals.bind_publishPc.mpr ⟨p, pc, at_, PublishPc.writing_of_window inside⟩

/-- After its commit a call writes the aliases of the other workers. -/
theorem Locals.writing_cases (writes : l.writing t = some batch) : l.window t = some batch ∨
    ∃ p todo, l.threads t = some (p, .publish (.bestEffort batch todo)) := by
  obtain ⟨p, pc, at_, writes⟩ := Locals.bind_publishPc.mp writes
  cases pc with
  | bestEffort here todo => cases writes; exact .inr ⟨p, todo, at_⟩
  | _ => exact .inl (Locals.bind_publishPc.mpr ⟨p, _, at_, writes⟩)

end Locals

theorem request_puts (reached : Reachable (cluster P cfg) Free s)
    (asks : request cfg s.locals t = some (.write w)) (puts : Puts worker a w.key w.op) :
    ∃ batch, s.locals.writing t = some batch ∧ a = batch.aliasOf worker := by
  unfold request at asks
  split at asks
  · cases asks
  next p pc at_ =>
    unfold publishRequest at asks
    split at asks <;>
      simp only [some.injEq, Request.write.injEq, reduceCtorEq] at asks <;> subst asks
    case h_2 | h_4 => cases puts.1
    case h_5 batch legacy todo rest attempt =>
      obtain ⟨key, op⟩ := puts
      cases key
      cases op
      refine ⟨batch, Locals.bind_publishPc.mpr ⟨p, _, at_, ?_⟩, rfl⟩
      simp [PublishPc.writing, PublishPc.window]
    case h_6 =>
      obtain ⟨key, -⟩ := puts
      unfold casWriteCommit at key
      split at key <;> cases key
    case h_8 batch first rest =>
      exact ⟨batch, Locals.bind_publishPc.mpr ⟨p, _, at_, rfl⟩,
        bestEffort_puts reached at_ List.mem_cons_self puts⟩
  next p pc at_ => exact absurd asks (discoverRequest_ne_write pc w)
  next p pc at_ => exact absurd asks (bootstrapRequest_ne_write pc w)
  next p pc at_ =>
    unfold sweepRequest at asks
    split at asks
    case h_5 => cases asks; cases puts.2
    case h_2 => split at asks <;> cases asks
    all_goals cases asks

/-! ## Steps of the cluster -/

inductive Moved (cfg : Config T) (s s' : ClusterState P T) : Prop
  | idle (same : s'.locals = s.locals)
  | call (c) (called : Called cfg s.locals s.clock c s'.locals)
  | step (t asked answer) (asks : request cfg s.locals t = some asked)
      (resumed : Resumed cfg s.locals t answer s'.locals)
      (wrote : ∀ revision, answer = .written revision → ∃ w, asked = .write w ∧
        s'.bucket = s.bucket.append w.key w.op s.clock)

theorem step_moved (taken : (cluster P cfg).step s action = some s') : Moved cfg s s' := by
  cases Protocol.step_move taken with
  | tick | land => exact .idle rfl
  | call c l' moved => exact .call c (call_called moved)
  | wrote t w l' asks accepted moved =>
    exact .step t _ _ asks (resume_resumed moved) fun _ _ => ⟨w, rfl, rfl⟩
  | refused t w l' asks rejected moved => exact .step t _ _ asks (resume_resumed moved) nofun
  | listed t l' asks moved => exact .step t _ _ asks (resume_resumed moved) nofun
  | read t _ l' asks moved | failed t _ l' asks moved | late t _ l' asks moved =>
    exact .step t _ _ asks (resume_resumed moved) nofun

def Call.thread : Call P T → T
  | .start t _ _ | .proceed t _ => t

theorem Resumed.others {answer} (moved : Resumed cfg l t answer l') (other : u ≠ t) :
    l'.threads u = l.threads u := by
  cases moved <;> exact Function.update_of_ne other ..

theorem Called.others {now : Int} {c} (moved : Called cfg l now c l') (other : u ≠ c.thread) :
    l'.threads u = l.threads u := by
  cases moved <;> exact Function.update_of_ne other ..

theorem Moved.one (moved : Moved cfg s s')
    (first : s'.locals.threads t ≠ s.locals.threads t)
    (second : s'.locals.threads u ≠ s.locals.threads u) : t = u := by
  cases moved with
  | idle same => exact absurd (congrArg (·.threads t) same) first
  | call c called =>
    have here := not_not.mp (mt called.others first)
    exact here.trans (not_not.mp (mt called.others second)).symm
  | step v _ _ _ resumed =>
    have here := not_not.mp (mt resumed.others first)
    exact here.trans (not_not.mp (mt resumed.others second)).symm

/-- After its step a thread that is still there waits where its program says. -/
theorem publishing_self {pub : Publisher} {r : PublishProgress} {here}
    (at_ : (l.publishing t p pub r).threads t = some here) :
    ∃ pc, r.pc? = some pc ∧ here = (p, .publish pc) := by
  simp only [Locals.publishing, Function.update_self, map_eq_some_iff] at at_
  obtain ⟨pc, waits, same⟩ := at_
  exact ⟨pc, waits, same.symm⟩

theorem going_self {Pc' R : Type} {pub : Publisher} {wrap : Pc' → Pc} {r : Progress Pc' R} {here}
    (at_ : (l.going t p pub wrap r).threads t = some here) :
    ∃ pc, r = .waits pc ∧ here = (p, wrap pc) := by
  simp only [Locals.going, Function.update_self, map_eq_some_iff] at at_
  obtain ⟨pc, waits, same⟩ := at_
  cases r <;> cases waits
  exact ⟨pc, rfl, same.symm⟩

/-- How a thread has come to where it publishes. -/
theorem Moved.publish {pc' : PublishPc} (moved : Moved cfg s s')
    (after : s'.locals.threads t = some (p, .publish pc')) :
    s.locals.threads t = some (p, .publish pc') ∨
      (s.locals.threads t = none ∧
        ∃ input, (beginPublish (s.locals.pubs p) input).pc? = some pc') ∨
      ∃ pc pub r, s.locals.threads t = some (p, .publish pc) ∧ r.pc? = some pc' ∧
        ((∃ now choice, publishProceed cfg.codec (s.locals.pubs p) now pc choice = some (pub, r)) ∨
          ∃ answer, publishResume cfg.codec (s.locals.pubs p) pc answer = some (pub, r) ∧
            ∀ revision, answer = .written revision → ∃ w,
              publishRequest cfg.codec (s.locals.pubs p) pc = some (.write w) ∧
                s'.bucket = s.bucket.append w.key w.op s.clock) := by
  cases moved with
  | idle same => exact .inl (same ▸ after)
  | call c called =>
    by_cases mover : t = c.thread
    · subst mover
      generalize s'.locals = l' at called after
      cases called with
      | startPublish _ _ input idle =>
        obtain ⟨pc, waits, same⟩ := publishing_self after
        cases same
        exact .inr (.inl ⟨idle, input, waits⟩)
      | publish _ choice _ pc pub r here ran =>
        obtain ⟨pc', waits, same⟩ := publishing_self after
        cases same
        exact .inr (.inr ⟨pc, pub, r, here, waits, .inl ⟨_, choice, ran⟩⟩)
      | _ => obtain ⟨_, -, same⟩ := going_self after; cases same
    · exact .inl ((called.others mover).symm.trans after)
  | step v asked answer asks resumed wrote =>
    by_cases mover : t = v
    · subst mover
      generalize s'.locals = l' at resumed after
      cases resumed with
      | publish _ pc pub r here ran =>
        obtain ⟨pc', waits, same⟩ := publishing_self after
        cases same
        refine .inr (.inr ⟨pc, pub, r, here, waits, .inr ⟨answer, ran, fun revision written => ?_⟩⟩)
        obtain ⟨w, rfl, stored⟩ := wrote revision written
        exact ⟨w, by simpa only [request, here] using asks, stored⟩
      | _ => obtain ⟨_, -, same⟩ := going_self after; cases same
    · exact .inl ((resumed.others mover).symm.trans after)

theorem Moved.writing (moved : Moved cfg s s') (writes : s.locals.writing t = some batch)
    (next : s'.locals.writing t = some batch') : batch' = batch := by
  obtain ⟨p, pc, at_, writes⟩ := Locals.bind_publishPc.mp writes
  obtain ⟨q, pc', after, next⟩ := Locals.bind_publishPc.mp next
  obtain here | ⟨idle, -⟩ | ⟨_, pub, r, here, waits, ⟨now, choice, ran⟩ | ⟨answer, ran, -⟩⟩ :=
    moved.publish after
  · cases at_.symm.trans here
    exact some.inj (next.symm.trans writes)
  · cases at_.symm.trans idle
  · cases at_.symm.trans here
    exact publishProceed_writing ran waits writes next
  · cases at_.symm.trans here
    exact publishResume_writing ran waits writes next

/-- A call has committed before the step, or does so in it. -/
theorem Moved.committed {todo} (moved : Moved cfg s s')
    (after : s'.locals.threads t = some (p, .publish (.bestEffort batch todo))) :
    (∃ todo, s.locals.threads t = some (p, .publish (.bestEffort batch todo))) ∨
      ∃ legacy commit, s.locals.threads t = some (p, .publish (.cas batch legacy commit)) ∧
        s'.bucket = s.bucket.append .commit (.put (.commit commit)) s.clock := by
  obtain here | ⟨-, input, waits⟩ | ⟨pc, pub, r, here, waits, ⟨now, choice, ran⟩ |
    ⟨answer, ran, wrote⟩⟩ := moved.publish after
  · exact .inl ⟨todo, here⟩
  · exact absurd waits beginPublish_uncommitted
  · exact absurd waits (publishProceed_uncommitted ran)
  · obtain ⟨first, rfl⟩ | ⟨legacy, commit, revision, rfl, rfl, -⟩ :=
      publishResume_committed ran waits
    · exact .inl ⟨_, here⟩
    · obtain ⟨w, asks, stored⟩ := wrote revision rfl
      cases asks
      refine .inr ⟨legacy, commit, here, stored.trans ?_⟩
      unfold casWriteCommit
      split <;> rfl

/-! ### The commit -/

theorem version_of_reachable (reached : Reachable (cluster P cfg) Free s) :
    (versionPieces (T := T)).Holds s :=
  ((version_obligations cfg).holds fresh_version (unguarded reached)).2

section Commit

variable {e : Entry Value} {c : AssignmentCommit} (reached : Reachable (cluster P cfg) Free s)
  (taken : (cluster P cfg).step s action = some s')

include reached taken

/-- Every write of `_commit` puts one. -/
theorem commit_put : s'.bucket.get .commit = s.bucket.get .commit ∨
    ∃ c, s'.bucket = s.bucket.append .commit (.put (.commit c)) s.clock := by
  obtain same | ⟨w, -, stored⟩ := Protocol.step_bucket taken
  · exact .inl (by rw [same])
  · by_cases key : w.key = .commit
    · obtain ⟨c, put⟩ := (version_of_reachable (reached.next trivial taken)).bucket.decodes
        ⟨w.key, w.op, s.bucket.seq + 1, s.clock⟩ (by rw [stored]; exact .head _) key
      exact .inr ⟨c, by rw [stored, key, ← put]⟩
    · exact .inl (by rw [stored, Bucket.get_append_ne _ _ _ (Ne.symm key)])

variable (stored : s'.bucket = s.bucket.append .commit (.put (.commit c)) s.clock)

include stored

theorem commit_above {c' : AssignmentCommit} (live : s.bucket.get .commit = some e)
    (value : e.value = .commit c') : c'.version < c.version := by
  have old := (commitAt_of_get live (by rw [value]; rfl)).append .commit (.put (.commit c)) s.clock
  rw [← stored] at old
  refine (version_of_reachable (reached.next trivial taken)).bucket.rises _ (s.bucket.seq + 1)
    _ _ old ⟨s.clock, ?_⟩ ?_
  · rw [stored]
    exact Bucket.stored_append_put ..
  · exact Nat.lt_succ_of_le (s.bucket.revision_le_seq (Bucket.get_stored live))

omit [DecidableEq P] [DecidableEq T] reached taken in
theorem commit_is_new : s'.bucket.lastRevision .commit ≠ s.bucket.lastRevision .commit := by
  have new : s'.bucket.lastRevision .commit = s.bucket.seq + 1 := by
    rw [stored]
    exact Bucket.lastRevision_of_get (Bucket.get_append_put ..)
  have old := s.bucket.lastRevision_le_seq .commit
  omega

omit [DecidableEq P] [DecidableEq T] reached taken in
theorem commit_live : ∃ e, s'.bucket.get .commit = some e ∧ e.value = .commit c :=
  ⟨_, by rw [stored, Bucket.get_append_put], rfl⟩

end Commit

/-! ## The invariant -/

/-- The alias of a worker has read `a`. -/
def Logged (b : Bucket Key Value) (worker : String) (a : Assignment) : Prop :=
  ∃ r ∈ b.log, Puts worker a r.key r.op

/-- The alias of a worker has read `a`, or a write of it is under way or to come. -/
inductive Shown (s : ClusterState P T) (worker : String) (a : Assignment) : Prop
  | logged (logged : Logged s.bucket worker a)
  | pending (w : Write Key Value) (under : w ∈ s.pending) (puts : Puts worker a w.key w.op)
  | writes (t : T) (batch : Batch) (writes : s.locals.writing t = some batch)
      (same : a = batch.aliasOf worker)

/-- Aliases of one version agree, and none is above the commit but those of the batch in its
window. -/
structure Coherent (s : ClusterState P T) : Prop where
  apart : Apart s
  agree : ∀ worker a a', Shown s worker a → Shown s worker a' → a.version = a'.version →
    a.partitions = a'.partitions
  bounded : ∀ worker a, Shown s worker a →
    (∃ t batch, s.locals.window t = some batch ∧ a = batch.aliasOf worker) ∨
      ∃ e c, s.bucket.get .commit = some e ∧ e.value = .commit c ∧ a.version ≤ c.version

section Step

variable (reached : Reachable (cluster P cfg) Free s)
  (taken : (cluster P cfg).step s action = some s')

include reached taken

/-- What is shown after a step was, or a call has begun to write aliases. -/
theorem shown_step (shown : Shown s' worker a) : Shown s worker a ∨ ∃ t batch,
    s.locals.writing t = none ∧ s'.locals.writing t = some batch ∧ a = batch.aliasOf worker := by
  have asked {t : T} {w : Write Key Value} (asks : request cfg s.locals t = some (.write w))
      (puts : Puts worker a w.key w.op) : Shown s worker a := by
    obtain ⟨batch, writes, same⟩ := request_puts reached asks puts
    exact .writes t batch writes same
  cases shown with
  | logged logged =>
    obtain same | ⟨w, writes, stored⟩ := Protocol.step_bucket taken
    · exact .inl (.logged (same ▸ logged))
    · obtain ⟨r, member, puts⟩ := logged
      rw [stored] at member
      obtain rfl | member := List.mem_cons.mp member
      · obtain ⟨t, asks⟩ | under := (Protocol.writes_eq_some writes).2
        · exact .inl (asked asks puts)
        · exact .inl (.pending w under puts)
      · exact .inl (.logged ⟨r, member, puts⟩)
  | pending w under puts =>
    cases Protocol.step_move taken with
    | land => exact .inl (.pending w (List.mem_of_mem_eraseIdx under) puts)
    | late t w' l' asks =>
      obtain rfl | under := List.mem_cons.mp under
      · exact .inl (asked asks puts)
      · exact .inl (.pending w under puts)
    | _ => exact .inl (.pending w under puts)
  | writes t batch writes same =>
    cases before : s.locals.writing t with
    | some batch' =>
      refine .inl (.writes t batch' before ?_)
      rw [same, (step_moved taken).writing before writes]
    | none => exact .inr ⟨t, batch, before, writes, same⟩

/-- A call that writes aliases and had not committed is in its window, or commits. -/
theorem window_or_commit (writes : s'.locals.writing t = some batch)
    (before : ∀ p todo, s.locals.threads t ≠ some (p, .publish (.bestEffort batch todo))) :
    s'.locals.window t = some batch ∨ ∃ c, c.version = batch.proposedVersion ∧
      s'.bucket = s.bucket.append .commit (.put (.commit c)) s.clock := by
  refine (Locals.writing_cases writes).imp_right fun ⟨p, todo, after⟩ => ?_
  obtain ⟨todo, early⟩ | ⟨legacy, commit, at_, stored⟩ := (step_moved taken).committed after
  · exact absurd early (before p todo)
  · exact ⟨commit, ((version_of_reachable reached).threads t p _ at_).2, stored⟩

variable (turn : InTurn s s')

include turn

/-- A window stays, or its batch is committed. -/
theorem window_step (inside : s.locals.window t = some batch) :
    s'.locals.window t = some batch ∨ ∃ c, c.version = batch.proposedVersion ∧
      s'.bucket = s.bucket.append .commit (.put (.commit c)) s.clock := by
  obtain ⟨batch', writes⟩ := isSome_iff_exists.mp (turn.kept t (by rw [inside]; rfl))
  obtain rfl := (step_moved taken).writing (Locals.writing_of_window inside) writes
  refine window_or_commit reached taken writes fun p todo at_ => ?_
  obtain ⟨q, pc, here, within⟩ := Locals.bind_publishPc.mp inside
  cases at_.symm.trans here
  cases within

omit taken turn in
/-- The batch of a window is above the commit. -/
theorem ahead (apart : Apart s) (inside : s.locals.window t = some batch) {e : Entry Value}
    {c : AssignmentCommit} (live : s.bucket.get .commit = some e) (value : e.value = .commit c) :
    c.version < batch.proposedVersion := by
  have holds := version_of_reachable reached
  obtain ⟨p, pc, at_, within⟩ := Locals.bind_publishPc.mp inside
  have view : (s.locals.pubs p).lastCommitRev = s.bucket.lastRevision .commit :=
    apart.current t (by rw [inside]; rfl) _ at_
  have proposed : batch.proposedVersion = (s.locals.pubs p).currentVersion + 1 :=
    (holds.threads t p _ at_).window within
  have seen : Seen s.bucket (s.locals.pubs p).lastCommitRev (s.locals.pubs p).currentVersion :=
    holds.pubs p
  rw [view, Bucket.lastRevision_of_get live] at seen
  obtain zero | ⟨c', ⟨created, stored⟩, le⟩ := seen
  · exact absurd (s.bucket.positive _ (Bucket.get_stored live)) (by simp [zero])
  · obtain ⟨created', known⟩ := commitAt_of_get live (c := c) (by rw [value]; rfl)
    have one := (stored.unique known rfl).2
    simp only [Entry.mk.injEq, Value.commit.injEq] at one
    rw [one.1] at le
    omega

section Begins

variable (outside : s.locals.writing t = none) (begins : s'.locals.writing t = some batch)

include outside begins

omit [DecidableEq P] [DecidableEq T] reached taken turn in
theorem begins_moves : s'.locals.threads t ≠ s.locals.threads t := by
  intro same
  rw [Locals.writing, Locals.publishPc, same] at begins
  cases outside.symm.trans begins

omit turn in
theorem begins_within : s'.locals.window t = some batch ∨ ∃ c, c.version = batch.proposedVersion ∧
    s'.bucket = s.bucket.append .commit (.put (.commit c)) s.clock := by
  refine window_or_commit reached taken begins fun p todo at_ => ?_
  cases outside.symm.trans (Locals.bind_publishPc.mpr ⟨p, _, at_, rfl⟩)

/-- Nobody is in a window when a call begins to write aliases. -/
theorem begins_alone (u : T) : s.locals.window u = none := by
  cases inside : s.locals.window u with
  | none => rfl
  | some batch' =>
    have other : u ≠ t := by
      rintro rfl
      cases outside.symm.trans (Locals.writing_of_window inside)
    have still : (s'.locals.window u).isSome := by
      by_contra gone
      refine other ((step_moved taken).one (fun same => gone ?_) (begins_moves outside begins))
      rw [Locals.window, Locals.publishPc, same]
      exact isSome_iff_exists.mpr ⟨batch', inside⟩
    obtain within | ⟨c, -, stored⟩ := begins_within reached taken outside begins
    · exact absurd (turn.apart.alone u t still (by rw [within]; rfl)) other
    · rw [turn.landed (commit_is_new stored) u] at still
      cases still

theorem begins_above (coherent : Coherent s) (shown : Shown s worker a) :
    a.version < batch.proposedVersion := by
  obtain ⟨u, batch', inside, -⟩ | ⟨e, c, live, value, below⟩ := coherent.bounded worker a shown
  · cases (begins_alone reached taken turn outside begins u).symm.trans inside
  · refine lt_of_le_of_lt below ?_
    obtain within | ⟨c', version, stored⟩ := begins_within reached taken outside begins
    · obtain same | ⟨c', stored⟩ := commit_put reached taken
      · exact ahead (reached.next trivial taken) turn.apart within (same.trans live) value
      · cases (turn.landed (commit_is_new stored) t).symm.trans within
    · exact version ▸ commit_above reached taken stored live value

end Begins

variable (coherent : Coherent s)

include coherent

theorem Coherent.step_agree (shown : Shown s' worker a) (shown' : Shown s' worker a')
    (same : a.version = a'.version) : a.partitions = a'.partitions := by
  obtain old | ⟨t, batch, outside, begins, rfl⟩ := shown_step reached taken shown
  · obtain old' | ⟨t, batch, outside, begins, rfl⟩ := shown_step reached taken shown'
    · exact coherent.agree worker a a' old old' same
    · exact absurd same (begins_above reached taken turn outside begins coherent old).ne
  · obtain old' | ⟨u, batch', outside', begins', rfl⟩ := shown_step reached taken shown'
    · exact absurd same (begins_above reached taken turn outside begins coherent old').ne'
    · obtain rfl := (step_moved taken).one (begins_moves outside begins)
        (begins_moves outside' begins')
      rw [some.inj (begins.symm.trans begins')]

theorem Coherent.step_bounded (shown : Shown s' worker a) :
    (∃ t batch, s'.locals.window t = some batch ∧ a = batch.aliasOf worker) ∨
      ∃ e c, s'.bucket.get .commit = some e ∧ e.value = .commit c ∧ a.version ≤ c.version := by
  have within {t : T} {batch : Batch} (same : a = batch.aliasOf worker)
      (after : s'.locals.window t = some batch ∨ ∃ c, c.version = batch.proposedVersion ∧
        s'.bucket = s.bucket.append .commit (.put (.commit c)) s.clock) :
      (∃ t batch, s'.locals.window t = some batch ∧ a = batch.aliasOf worker) ∨
        ∃ e c, s'.bucket.get .commit = some e ∧ e.value = .commit c ∧ a.version ≤ c.version := by
    obtain still | ⟨c, version, stored⟩ := after
    · exact .inl ⟨t, batch, still, same⟩
    · obtain ⟨e, live, value⟩ := commit_live stored
      refine .inr ⟨e, c, live, value, ?_⟩
      rw [same]
      exact version.ge
  obtain old | ⟨t, batch, outside, begins, same⟩ := shown_step reached taken shown
  · obtain ⟨t, batch, inside, same⟩ | ⟨e, c, live, value, below⟩ := coherent.bounded worker a old
    · exact within same (window_step reached taken turn inside)
    · obtain same | ⟨c', stored⟩ := commit_put reached taken
      · exact .inr ⟨e, c, same.trans live, value, below⟩
      · obtain ⟨e', live', value'⟩ := commit_live stored
        have above := commit_above reached taken stored live value
        exact .inr ⟨e', c', live', value', (below.trans_lt above).le⟩
  · exact within same (begins_within reached taken outside begins)

end Step

/-! ## Over a run -/

omit [DecidableEq P] [DecidableEq T] in
theorem not_shown_empty : ¬ Shown (emptyCluster P T) worker a := by
  rintro (⟨_, member, -⟩ | ⟨_, member, -⟩ | ⟨_, _, writes, -⟩)
  · cases member
  · cases member
  · cases writes

theorem free_of_orderly
    (reached : Reachable ((cluster P cfg).after (emptyCluster P T)) (Orderly cfg) s) :
    Reachable (cluster P cfg) Free s :=
  (Reachable.initial emptyCluster_fresh).after (fun _ _ _ => trivial) reached

theorem coherent_of_reachable
    (reached : Reachable ((cluster P cfg).after (emptyCluster P T)) (Orderly cfg) s) :
    Coherent s := by
  refine reached.invariant_with (fun s => free_of_orderly) ?_ ?_
  · rintro _ rfl
    exact ⟨⟨nofun, nofun⟩, fun _ _ _ shown => absurd shown not_shown_empty,
      fun _ _ shown => absurd shown not_shown_empty⟩
  · intro s action s' reached coherent orderly taken
    have turn := orderly s' taken
    exact ⟨turn.apart, fun _ _ _ => coherent.step_agree reached taken turn,
      fun _ _ => coherent.step_bounded reached taken turn⟩

/-- The revision under which a discovery that is about to apply its reading has found `_commit`;
zero if there was none. -/
def DiscoverPc.found : DiscoverPc → Option Nat
  | .seed _ revision _ => some revision
  | .aliases [] _ _ => some 0
  | _ => none

/-- A discovery that has read the live commit takes its version over. -/
theorem discovered_above {pc : DiscoverPc} {choice e c} (reached : Reachable (cluster P cfg) Free s)
    (at_ : s.locals.threads t = some (p, .discover pc))
    (live : s.bucket.get .commit = some e) (value : e.value = .commit c)
    (found : pc.found = some e.revision)
    (called : Called cfg s.locals s.clock (.proceed t choice) l') :
    c.version ≤ (l'.pubs p).currentVersion := by
  cases called with
  | discover _ _ q pc' pub r here _ ran =>
    cases at_.symm.trans here
    simp only [Locals.going, Function.update_self]
    cases pc with
    | seed keys revision c' =>
      cases ran
      cases found
      obtain ⟨created, stored⟩ := (version_of_reachable reached).threads t p _ at_
      obtain ⟨created', known⟩ := commitAt_of_get live (c := c) (by rw [value]; rfl)
      have one := (stored.unique known rfl).2
      simp only [Entry.mk.injEq, Value.commit.injEq] at one
      rw [one.1]
      exact le_max_right ..
    | aliases todo =>
      cases todo with
      | nil =>
        have positive := s.bucket.positive _ (Bucket.get_stored live)
        exact absurd (some.inj found) positive.ne
      | cons => cases found
    | list | commit | finish => cases found
  | publish _ _ _ _ _ _ here | bootstrap _ _ _ _ _ _ here | sweep _ _ _ _ _ here =>
    cases at_.symm.trans here

/-- One worker, which is given another partition. -/
def otherInput : PublishInput :=
  batchInput ["w"] (AList.insert "w" [⟨[[98]], 0, []⟩] ∅) [⟨[[98]], 0, []⟩]

/-- From the registration of the references to the alias of `w`. -/
def aliasSteps (t : Bool) : List (Action Bool (Call Bool Bool)) :=
  [.call (.proceed t .go), .call (.proceed t .go), .call (.proceed t (.legacy ["w"])),
    .step t .served]

/-- A leader commits version 1, with the alias of `w` before it, and the next one has read that
commit. -/
def handoverRun : List (Action Bool (Call Bool Bool)) :=
  payloadSteps false false soloInput ++ aliasSteps false ++
    [.call (.proceed false .go), .call (.proceed false .go), .call (.proceed false .go),
      .step false .served, .step false .served, .call (.proceed false .go)] ++
    [.call (.start true true .discoverHighestVersion), .step true .served, .step true .served]

/-- A leader commits version 1 and loses its leadership after the aliases of version 2. The
next one discovers. -/
def abandonedRun : List (Action Bool (Call Bool Bool)) :=
  payloadSteps false false soloInput ++ fenceSteps Bool false ++
    [.step false .served, .step false .served, .step false .served, .call (.proceed false .go)] ++
    payloadSteps false false otherInput ++ aliasSteps false ++
    [.call (.proceed false .go), .call (.proceed false .stop)] ++
    [.call (.start true true .discoverHighestVersion), .step true .served, .step true .served,
      .call (.proceed true .go), .call (.proceed true .go)]

/-- The next leader publishes, with a payload it adopts. -/
def republishRun : List (Action Bool (Call Bool Bool)) :=
  payloadSteps true true soloInput ++ [.step true .served, .step true .served] ++ aliasSteps true

/-- The versions and partitions a worker's alias has shown, newest first. -/
def aliasesShown (b : Bucket Key Value) (worker : String) : List (Int × List Partition) :=
  b.log.filterMap fun r =>
    match r.op with
    | .put (.assignment a) => if r.key = .alias worker then some (a.version, a.partitions) else none
    | _ => none

end Parti.Assignment
