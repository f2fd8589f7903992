/-
# Handoff.Provenance — where every stored claim comes from

`Authored` says of a claim on its way to the store, or in it, that it is what its
branch makes of the claim its transform was given, that this claim was stored
under the recorded revision, and that a commit comes from a worker whose consumer
update for the partition has succeeded. `Matches` says what `PutIfEpoch` has
checked of the entry it is about to replace: the epoch, and nothing else.

`sound` is the induction over runs: both hold of every record, of every write
under way and of every job.
-/
import Parti.Handoff.Coordinator

namespace Parti.Handoff

open Parti.Types Lib List Function Option
open Lib.Kv (Bucket Entry Write)
open Lib.Client (Request Answer Protocol State Action Reply Move)

/-- A consumer update of the worker, for an assignment with the partition, has
succeeded. -/
def Assigned (updated : List (String × Assignment)) (worker : String) (pid : Pid) : Prop :=
  ∃ next, (worker, next) ∈ updated ∧ pid ∈ next.partitions.map Partition.subjectKey

variable {updated : List (String × Assignment)}

theorem Assigned.worker {worker : String} {pid : Pid} (assigned : Assigned updated worker pid) :
    worker ∈ updated.map Prod.fst := by
  obtain ⟨next, member, _⟩ := assigned
  exact mem_map_of_mem member

/-- A claim made by one of the branches, and from what. -/
structure Authored (b : Bucket Pid Written) (updated : List (String × Assignment)) (pid : Pid)
    (w : Written) : Prop where
  positive : 1 ≤ w.claim.epoch
  committer : w.branch = .commit → Assigned updated w.worker pid
  created : w.given = none → w.branch = .initial ∧ w.claim.owner = w.worker
  changed : ∀ c n, w.given = some (c, n) →
    Follows c w.toDraft ∧ ∃ e, b.Stored pid e ∧ e.revision = n ∧ e.value.claim = c

structure Matches (b : Bucket Pid Written) (pid : Pid) (w : Written) (revision : Nat) :
    Prop where
  found : ∃ c n e, w.given = some (c, n) ∧ n ≤ revision ∧ b.Stored pid e ∧
    e.revision = revision ∧ e.value.claim.epoch = c.epoch

def WriteSound (b : Bucket Pid Written) (updated : List (String × Assignment)) :
    Write Pid Written → Prop
  | .create pid w => Authored b updated pid w ∧ w.given = none
  | .update pid w revision => Authored b updated pid w ∧ Matches b pid w revision
  | .delete _ _ => True
  | .put _ _ | .remove _ => False

theorem WriteSound.authored {b} {w} {v}
    (sound : WriteSound b updated w) (puts : w.op = .put v) : Authored b updated w.key v := by
  cases w with
  | create | update =>
    cases puts
    exact sound.1
  | delete pid revision => cases puts
  | put | remove => exact sound.elim

def PcSound (b : Bucket Pid Written) (updated : List (String × Assignment)) (pid : Pid) :
    JobPc → Prop
  | .putGet w => Authored b updated pid w
  | .create w => Authored b updated pid w ∧ w.given = none
  | .update w revision => Authored b updated pid w ∧ Matches b pid w revision
  | .get | .delete _ | .done _ => True

structure JobSound (b : Bucket Pid Written) (updated : List (String × Assignment)) (j : Job) :
    Prop where
  commits : ∀ worker, j.kind = .update (.commit worker) → Assigned updated worker j.pid
  pc : PcSound b updated j.pid j.pc

def StoreSound (b : Bucket Pid Written) (updated : List (String × Assignment)) : Prop :=
  ∀ r ∈ b.log, ∀ w, r.op = .put w → Authored b updated r.key w

/-! ## The store and the history of updates only grow -/

structure Later (b b' : Bucket Pid Written) (u u' : List (String × Assignment)) : Prop where
  stored : ∀ pid e, b.Stored pid e → b'.Stored pid e
  assigned : ∀ worker pid, Assigned u worker pid → Assigned u' worker pid

theorem Later.refl (b : Bucket Pid Written) (u : List (String × Assignment)) : Later b b u u :=
  ⟨fun _ _ stored => stored, fun _ _ assigned => assigned⟩

theorem Later.append (b : Bucket Pid Written) (u : List (String × Assignment)) (pid : Pid)
    (op : Kv.Op Written) (now : Int) : Later b (b.append pid op now) u u :=
  ⟨fun _ _ stored => stored.append pid op now, fun _ _ assigned => assigned⟩

section Growth

variable {b b' : Bucket Pid Written} {u u' : List (String × Assignment)} {pid : Pid} {w : Written}

theorem Authored.later (authored : Authored b u pid w) (later : Later b b' u u') :
    Authored b' u' pid w where
  positive := authored.positive
  committer := fun commit => later.assigned _ _ (authored.committer commit)
  created := authored.created
  changed := fun c n given => by
    obtain ⟨follows, e, stored, revision, claim⟩ := authored.changed c n given
    exact ⟨follows, e, later.stored _ _ stored, revision, claim⟩

theorem Matches.later {revision : Nat} (matched : Matches b pid w revision)
    (later : Later b b' u u') : Matches b' pid w revision := by
  obtain ⟨c, n, e, given, le, stored, rest⟩ := matched.found
  exact ⟨c, n, e, given, le, later.stored _ _ stored, rest⟩

theorem WriteSound.later {w} (sound : WriteSound b u w)
    (later : Later b b' u u') : WriteSound b' u' w := by
  cases w with
  | create pid v => exact ⟨sound.1.later later, sound.2⟩
  | update pid v revision => exact ⟨sound.1.later later, sound.2.later later⟩
  | delete pid revision => trivial
  | put | remove => exact sound

theorem JobSound.later {j : Job} (sound : JobSound b u j) (later : Later b b' u u') :
    JobSound b' u' j where
  commits := fun worker kind => later.assigned _ _ (sound.commits worker kind)
  pc := by
    have here := sound.pc
    cases at_ : j.pc with
    | putGet w =>
      rw [at_] at here
      exact Authored.later here later
    | create w =>
      rw [at_] at here
      exact ⟨here.1.later later, here.2⟩
    | update w revision =>
      rw [at_] at here
      exact ⟨here.1.later later, here.2.later later⟩
    | get | delete | done => trivial

end Growth

/-! ## One job -/

section Jobs

variable {b : Bucket Pid Written} {u : List (String × Assignment)}

theorem StoreSound.entry (store : StoreSound b u) {pid : Pid} {e}
    (stored : b.Stored pid e) : Authored b u pid e.value :=
  store _ stored e.value rfl

variable {j : Job} {answer : Answer Pid Written}

theorem JobSound.goto (sound : JobSound b u j) (pc : JobPc) (ok : PcSound b u j.pid pc)
    (retries : Nat) : JobSound b u { j with retries := retries, pc := pc } :=
  ⟨sound.commits, ok⟩

theorem JobSound.retry (sound : JobSound b u j) : JobSound b u j.retry := by
  unfold Job.retry
  split
  · exact sound.goto (.done false) trivial _
  · exact sound.goto .get trivial _

theorem JobSound.attempt (sound : JobSound b u j) (store : StoreSound b u) :
    PcSound b u j.pid (j.attempt (b.get j.pid)) := by
  unfold Job.attempt
  split
  next t kind =>
    split
    next => trivial
    next draft wrote =>
      cases live : b.get j.pid with
      | none =>
        rw [live] at wrote
        obtain ⟨initial, owner, epoch⟩ := Transform.apply_none wrote
        exact ⟨by simp [epoch], by simp [initial], fun _ => ⟨initial, owner⟩, by simp⟩
      | some e =>
        rw [live] at wrote
        obtain ⟨follows, commits⟩ := Transform.apply_some wrote
        have stored := Bucket.get_stored live
        refine ⟨?_, fun commit => ?_, by simp, fun c n given => ?_⟩
        · have positive := (store.entry stored).positive
          have epoch := follows.epoch
          split at epoch <;> simp only [epoch] <;> omega
        · exact sound.commits _ (kind.trans (congrArg JobKind.update (commits commit)))
        · simp only [map_some, some.injEq, Prod.mk.injEq] at given
          obtain ⟨rfl, rfl⟩ := given
          exact ⟨follows, e, stored, rfl, rfl⟩
  next => split <;> trivial
  next => trivial

/-- The epoch is never zero, so an expected epoch of zero means that no claim was
given, and no claim found has it. -/
theorem JobSound.compare {w} (sound : JobSound b u j) (at_ : j.pc = .putGet w)
    (store : StoreSound b u) : JobSound b u (j.compare w (b.get j.pid)) := by
  have authored : Authored b u j.pid w := by simpa [at_, PcSound] using sound.pc
  unfold Job.compare
  split
  next absent =>
    split
    next => exact sound.retry
    next zero =>
      refine sound.goto (.create w) ⟨authored, ?_⟩ _
      cases given : w.given with
      | none => rfl
      | some cn =>
        obtain ⟨_, e, stored, _, claim⟩ := authored.changed cn.1 cn.2 given
        have positive := (store.entry stored).positive
        simp only [Job.expectedEpoch, given, ← claim, not_not] at zero
        omega
  next e live =>
    have stored := Bucket.get_stored live
    split
    next => exact sound.retry
    next same =>
      refine sound.goto (.update w e.revision) ⟨authored, ⟨?_⟩⟩ _
      cases given : w.given with
      | none =>
        have positive := (store.entry stored).positive
        simp only [Job.expectedEpoch, given, not_not] at same
        omega
      | some cn =>
        obtain ⟨_, old, older, revision, _⟩ := authored.changed cn.1 cn.2 given
        simp only [Job.expectedEpoch, given, not_not] at same
        exact ⟨cn.1, cn.2, e, rfl, revision ▸ older.le_get live, stored, rfl, same⟩

theorem Job.resume_cases {j' : Job} (moved : j.resume answer = some j') :
    (∃ live, answer = .entry live ∧ j' = { j with pc := j.attempt live }) ∨
    (∃ live w, answer = .entry live ∧ j.pc = .putGet w ∧ j' = j.compare w live) ∨
    j' = j.retry ∨ ∃ ok, j' = { j with pc := .done ok } := by
  unfold Job.resume at moved
  split at moved
  next live =>
    split at moved <;> cases moved
    next => exact .inl ⟨live, rfl, rfl⟩
    next w at_ => exact .inr (.inl ⟨live, w, rfl, at_, rfl⟩)
  next => split at moved <;> cases moved <;> exact .inr (.inr (.inr ⟨true, rfl⟩))
  next =>
    split at moved <;> cases moved
    next => exact .inr (.inr (.inl rfl))
    next => exact .inr (.inr (.inl rfl))
    next => exact .inr (.inr (.inr ⟨true, rfl⟩))
  next =>
    split at moved <;> cases moved
    next => exact .inr (.inr (.inr ⟨false, rfl⟩))
    next => exact .inr (.inr (.inl rfl))
    next => exact .inr (.inr (.inl rfl))
    next => exact .inr (.inr (.inl rfl))
    next => exact .inr (.inr (.inr ⟨true, rfl⟩))
  next => cases moved

theorem JobSound.resume {j' : Job} (sound : JobSound b u j) (store : StoreSound b u)
    (told : ∀ live, answer = .entry live → live = b.get j.pid) (moved : j.resume answer = some j') :
    JobSound b u j' := by
  obtain ⟨live, is, rfl⟩ | ⟨live, w, is, at_, rfl⟩ | rfl | ⟨ok, rfl⟩ := Job.resume_cases moved
  · cases told live is
    exact sound.goto _ (sound.attempt store) _
  · cases told live is
    exact sound.compare at_ store
  · exact sound.retry
  · exact sound.goto (.done ok) trivial _

theorem JobSound.asks {w} (sound : JobSound b u j)
    (asked : j.request = some (.write w)) : WriteSound b u w := by
  have here := sound.pc
  unfold Job.request at asked
  split at asked
  next => cases asked
  next => cases asked
  next v at_ =>
    cases asked
    rw [at_] at here
    exact here
  next v revision at_ =>
    cases asked
    rw [at_] at here
    exact here
  next => cases asked; trivial
  next => cases asked

end Jobs

/-! ## All jobs -/

variable {A J : Type}

structure Each (Q : Job → Prop) (l : Locals A J) : Prop where
  applies : ∀ a ap, l.applies a = some ap → ∀ j ∈ ap.jobs, Q j
  tasks : ∀ t j, l.tasks t = some j → Q j

variable {Q Q' : Job → Prop} {l l' : Locals A J}

theorem Each.mono (each : Each Q l) (weaker : ∀ j, Q j → Q' j) : Each Q' l :=
  ⟨fun a ap running j member => weaker j (each.applies a ap running j member),
    fun t j running => weaker j (each.tasks t j running)⟩

theorem Each.setApply [DecidableEq A] (each : Each Q l) (a : A) (ap : Option Apply)
    (new : ∀ ap', ap = some ap' → ∀ j ∈ ap'.jobs, Q j) : Each Q (l.setApply a ap) := by
  refine ⟨fun a' ap' running j member => ?_, each.tasks⟩
  by_cases same : a' = a
  · subst same
    simp only [Locals.setApply, update_self] at running
    exact new ap' running j member
  · simp only [Locals.setApply, update_of_ne same] at running
    exact each.applies a' ap' running j member

theorem Each.setTask [DecidableEq J] (each : Each Q l) (t : J) (j : Job) (new : Q j) :
    Each Q (l.setTask t (some j)) := by
  refine ⟨each.applies, fun t' j' running => ?_⟩
  by_cases same : t' = t
  · subst same
    simp only [Locals.setTask, update_self, some.injEq] at running
    exact running ▸ new
  · simp only [Locals.setTask, update_of_ne same] at running
    exact each.tasks t' j' running

variable {t : Tid A J} {j : Job} {cfg : Config} {w : Write Pid Written} {s : StoreState A J}
  {b : Bucket Pid Written} {l : Locals A J}

theorem Each.jobAt (each : Each Q l) (at_ : l.jobAt t = some j) : Q j := by
  cases t with
  | job a index =>
    obtain ⟨ap, running, member⟩ := bind_eq_some_iff.mp at_
    exact each.applies a ap running j (mem_of_getElem? member)
  | task t => exact each.tasks t j at_
  | guard a => cases at_

theorem requestOf_job {asked} (request : requestOf l t = some asked)
    (at_ : l.jobAt t = some j) : j.request = some asked := by
  cases t with
  | guard a => cases at_
  | job | task => simpa [requestOf, at_] using request

theorem requestOf_write (request : requestOf l t = some (.write w)) :
    ∃ j, l.jobAt t = some j ∧ j.request = some (.write w) := by
  cases t with
  | guard a =>
    obtain ⟨ap, _, asked⟩ := bind_eq_some_iff.mp request
    split at asked <;> cases asked
  | job | task => exact bind_eq_some_iff.mp request

theorem Job.request_read {k : Pid} (request : j.request = some (.read k)) :
    k = j.pid := by
  unfold Job.request at request
  split at request <;> cases request <;> rfl

structure Sound (s : StoreState A J) : Prop where
  store : StoreSound s.bucket s.locals.updated
  pending : ∀ w ∈ s.pending, WriteSound s.bucket s.locals.updated w
  jobs : Each (JobSound s.bucket s.locals.updated) s.locals

theorem StoreSound.append {u} (store : StoreSound b u)
    (sound : WriteSound b u w) (now : Int) : StoreSound (b.append w.key w.op now) u := by
  have later := Later.append b u w.key w.op now
  intro r member v value
  rcases mem_cons.mp member with rfl | older
  · exact (sound.authored value).later later
  · exact (store r older v value).later later

theorem Sound.append (sound : Sound s) (authored : WriteSound s.bucket s.locals.updated w) :
    Sound { s with bucket := s.bucket.append w.key w.op s.clock } where
  store := sound.store.append authored s.clock
  pending := fun w' member => (sound.pending w' member).later (Later.append _ _ _ _ _)
  jobs := sound.jobs.mono fun _ job => job.later (Later.append _ _ _ _ _)

theorem Fresh.sound (fresh : Fresh s) : Sound s where
  store := fun r member => by simp [fresh.bucket] at member
  pending := by simp [fresh.pending]
  jobs := ⟨fun a ap running => by simp [fresh.applies] at running,
    fun t j running => by simp [fresh.tasks] at running⟩

variable [DecidableEq A] [DecidableEq J] {s' : StoreState A J} {a : Action (Tid A J) (Call A J)}
  {answer : Answer Pid Written} {c : Call A J}

theorem Each.setJob (each : Each Q l) (t : Tid A J) (new : Q j) :
    Each Q (l.setJob t j) := by
  cases t with
  | job a index =>
    refine each.setApply a _ fun ap' same j' member => ?_
    obtain ⟨ap, running, rfl⟩ := map_eq_some_iff.mp same
    rcases mem_or_eq_of_mem_set member with old | rfl
    · exact each.applies a ap running j' old
    · exact new
  | task t => exact each.setTask t j new
  | guard a => exact each

theorem setJob_updated (l : Locals A J) (t : Tid A J) (j : Job) :
    (l.setJob t j).updated = l.updated := by
  cases t <;> rfl

theorem Each.resumeOf (each : Each Q l)
    (goes : ∀ j j', l.jobAt t = some j → j.resume answer = some j' → Q j')
    (moved : resumeOf l t answer = some l') : Each Q l' ∧ l'.updated = l.updated := by
  unfold Parti.Handoff.resumeOf at moved
  split at moved
  next a =>
    obtain ⟨ap, running, moved⟩ := bind_eq_some_iff.mp moved
    have old := each.applies a ap running
    split at moved
    next pids live phase =>
      cases moved
      refine ⟨each.setApply a _ fun ap' stepped => ?_, rfl⟩
      unfold Apply.guardStep at stepped
      split at stepped
      next => split at stepped <;> cases stepped; exact old
      next => cases stepped
    next =>
      cases moved
      exact ⟨each.setApply a none (by simp), rfl⟩
    next => cases moved
  next =>
    obtain ⟨j', went, rfl⟩ := map_eq_some_iff.mp moved
    obtain ⟨j, at_, ran⟩ := bind_eq_some_iff.mp went
    exact ⟨each.setJob t (goes j j' at_ ran), setJob_updated l t j'⟩

/-- A job that a call starts. Commit jobs start with the consumer update of their
assignment, and only `Apply` prepares. -/
inductive Started (l : Locals A J) : Call A J → Job → Prop
  | prepare {a : A} {worker previous next now} {j : Job}
      (kind : j.kind = .update (.prepare worker)) : Started l (.apply a worker previous next now) j
  | stabilize {a : A} {worker now} {j : Job}
      (kind : j.kind = .update (.stabilize worker)) : Started l (.advance a now) j
  | commit {a : A} {ap now} {j : Job} (running : l.applies a = some ap)
      (kind : j.kind = .update (.commit ap.worker))
      (inside : j.pid ∈ ap.next.partitions.map Partition.subjectKey) :
      Started l (.consumer a true now) j
  | task {t : J} {pid : Pid} {transform now} {j : Job}
      (kind : j.kind = .update transform) (background : ∀ worker, transform ≠ .prepare worker ∧
        transform ≠ .commit worker) : Started l (.start t pid transform now) j
  | reap {t : J} {pid : Pid} {now} {j : Job} (kind : j.kind = .reap) : Started l (.reap t pid now) j

def recorded (l : Locals A J) : Call A J → List (String × Assignment)
  | .consumer a true _ => ((l.applies a).map fun ap => (ap.worker, ap.next)).toList ++ l.updated
  | _ => l.updated

theorem Each.callOf (each : Each Q l) (starts : ∀ j, j.pc = .get → Started l c j → Q j)
    (stops : ∀ j, Q j → Q { j with pc := .done false }) (moved : callOf cfg l c = some l') :
    Each Q l' ∧ l'.updated = recorded l c := by
  cases c with
  | apply a worker previous next now =>
    simp only [Parti.Handoff.callOf, ite_none_right_eq_some, some.injEq] at moved
    obtain ⟨_, rfl⟩ := moved
    refine ⟨each.setApply a _ fun ap' started j member => ?_, rfl⟩
    cases started
    obtain ⟨p, _, rfl⟩ := mem_map.mp member
    exact starts _ rfl (.prepare rfl)
  | advance a now =>
    obtain ⟨ap', went, rfl⟩ := map_eq_some_iff.mp moved
    obtain ⟨ap, _, ran⟩ := bind_eq_some_iff.mp went
    refine ⟨each.setApply a _ fun ap'' started j member => ?_, rfl⟩
    cases started
    unfold Apply.advance at ran
    split at ran
    · split at ran <;> cases ran
      · cases member
      · obtain ⟨p, _, rfl⟩ := mem_map.mp member
        exact starts _ rfl (.stabilize rfl)
    · cases ran
  | returnError a | finish a =>
    obtain ⟨ap, _, ran⟩ := bind_eq_some_iff.mp moved
    simp only [ite_none_right_eq_some, some.injEq] at ran
    obtain ⟨_, rfl⟩ := ran
    exact ⟨each.setApply a none (by simp), rfl⟩
  | readCommit a ok =>
    obtain ⟨ap, running, ran⟩ := bind_eq_some_iff.mp moved
    simp only [ite_none_right_eq_some] at ran
    obtain ⟨_, ran⟩ := ran
    split at ran <;> cases ran
    · refine ⟨each.setApply a _ fun ap' started => ?_, rfl⟩
      cases started
      exact each.applies a ap running
    · exact ⟨each.setApply a none (by simp), rfl⟩
  | consumer a ok now =>
    obtain ⟨ap, running, ran⟩ := bind_eq_some_iff.mp moved
    simp only [ite_none_right_eq_some] at ran
    obtain ⟨_, ran⟩ := ran
    cases ok with
    | false =>
      cases ran
      exact ⟨each.setApply a none (by simp), rfl⟩
    | true =>
      cases ran
      have set := each.setApply a (some { ap with
        phase := .commit, jobs := cfg.walk (.commit ap.worker) now ap.next.partitions })
        fun ap' eq j member => by
          cases eq
          obtain ⟨p, inside, rfl⟩ := mem_map.mp member
          exact starts _ rfl (.commit running rfl (mem_map_of_mem inside))
      exact ⟨⟨set.applies, set.tasks⟩, by simp [recorded, running]⟩
  | cancel t =>
    obtain ⟨j, at_, ran⟩ := bind_eq_some_iff.mp moved
    simp only [ite_none_left_eq_some, some.injEq] at ran
    obtain ⟨_, rfl⟩ := ran
    exact ⟨each.setJob t (stops j (each.jobAt at_)), setJob_updated l t _⟩
  | start t pid transform now =>
    obtain ⟨retries, background, ran⟩ := bind_eq_some_iff.mp moved
    simp only [ite_none_right_eq_some, some.injEq] at ran
    obtain ⟨_, rfl⟩ := ran
    refine ⟨each.setTask t _ (starts _ rfl (.task rfl fun worker => ⟨?_, ?_⟩)), rfl⟩
    · rintro rfl
      cases background
    · rintro rfl
      cases background
  | reap t pid now =>
    simp only [Parti.Handoff.callOf, ite_none_right_eq_some, some.injEq] at moved
    obtain ⟨_, rfl⟩ := moved
    exact ⟨each.setTask t _ (starts _ rfl (.reap rfl)), rfl⟩
  | publish commit =>
    simp only [Parti.Handoff.callOf, ite_none_right_eq_some, some.injEq] at moved
    obtain ⟨_, rfl⟩ := moved
    exact ⟨⟨each.applies, each.tasks⟩, rfl⟩

theorem callOf_sound (each : Each (JobSound b l.updated) l) (moved : callOf cfg l c = some l') :
    Each (JobSound b l'.updated) l' ∧ Later b b l.updated l'.updated := by
  have updated := (Each.callOf (Q := fun _ => True) (each.mono fun _ _ => trivial)
    (fun _ _ _ => trivial) (fun _ _ => trivial) moved).2
  have later : Later b b l.updated l'.updated := by
    rw [updated, recorded.eq_def]
    split
    · refine ⟨fun _ _ stored => stored, fun _ _ ⟨next, member, contains⟩ => ?_⟩
      exact ⟨next, mem_append_right _ member, contains⟩
    · exact Later.refl b l.updated
  refine ⟨(Each.callOf (each.mono fun _ sound => sound.later later) (fun j first started => ?_)
    (fun j sound => sound.goto (.done false) trivial _) moved).1, later⟩
  refine ⟨fun worker kind => ?_, by rw [first]; trivial⟩
  cases started with
  | commit running own inside =>
    cases own.symm.trans kind
    exact ⟨_, by simp [updated, recorded, running], inside⟩
  | task own background => exact absurd (JobKind.update.inj (own.symm.trans kind)) (background worker).2
  | _ own => cases own.symm.trans kind

/-! ## All runs -/

theorem Sound.resumed {l'} (sound : Sound s)
    (told : ∀ j live, s.locals.jobAt t = some j → answer = .entry live → live = s.bucket.get j.pid)
    (moved : Parti.Handoff.resumeOf s.locals t answer = some l') :
    Sound { s with locals := l' } := by
  obtain ⟨jobs, updated⟩ := sound.jobs.resumeOf (fun j j' at_ went =>
    (sound.jobs.jobAt at_).resume sound.store (fun live => told j live at_) went) moved
  rw [← updated] at jobs
  exact ⟨updated.symm ▸ sound.store, updated.symm ▸ sound.pending, jobs⟩

theorem Sound.step (sound : Sound s) (taken : (claimStore A J cfg).step s a = some s') :
    Sound s' := by
  have writes : ∀ {t w}, requestOf s.locals t = some (.write w) →
      WriteSound s.bucket s.locals.updated w := fun request => by
    obtain ⟨j, at_, asked⟩ := requestOf_write request
    exact (sound.jobs.jobAt at_).asks asked
  cases Protocol.step_move taken with
  | tick elapsed => exact ⟨sound.store, sound.pending, sound.jobs⟩
  | call c γ moved =>
    obtain ⟨jobs, later⟩ := callOf_sound sound.jobs moved
    exact ⟨fun r member v value => (sound.store r member v value).later later,
      fun w member => (sound.pending w member).later later, jobs⟩
  | land index w waiting accepted =>
    have landed := sound.append (sound.pending w (mem_of_getElem? waiting))
    exact ⟨landed.store, fun w' member => landed.pending w' (mem_of_mem_eraseIdx member),
      landed.jobs⟩
  | wrote t w γ asked accepted moved => exact (sound.append (writes asked)).resumed (by simp) moved
  | refused _ _ _ _ _ moved | listed _ _ _ moved | failed _ _ _ _ moved =>
    exact sound.resumed (by simp) moved
  | read t k γ asked moved =>
    refine sound.resumed (fun j live at_ entry => ?_) moved
    cases entry
    rw [Job.request_read (requestOf_job asked at_)]
  | late t w γ asked moved =>
    have under : Sound { s with pending := w :: s.pending } :=
      ⟨sound.store, by simpa using ⟨writes asked, sound.pending⟩, sound.jobs⟩
    exact under.resumed (by simp) moved

theorem Sound.step_later (sound : Sound s) (taken : (claimStore A J cfg).step s a = some s') :
    Later s.bucket s'.bucket s.locals.updated s'.locals.updated := by
  have kept : ∀ {t answer l'}, Parti.Handoff.resumeOf s.locals t answer = some l' →
      l'.updated = s.locals.updated := fun moved =>
    ((sound.jobs.mono fun _ _ => trivial).resumeOf (Q := fun _ => True)
      (fun _ _ _ _ => trivial) moved).2
  cases Protocol.step_move taken with
  | tick elapsed => exact Later.refl _ _
  | call c γ moved => exact (callOf_sound sound.jobs moved).2
  | land index w waiting accepted => exact Later.append _ _ _ _ _
  | wrote t w γ asked accepted moved => exact kept moved ▸ Later.append _ _ _ _ _
  | refused _ _ _ _ _ moved | read _ _ _ _ moved | listed _ _ _ moved | failed _ _ _ _ moved
  | late _ _ _ _ moved => exact kept moved ▸ Later.refl _ _

theorem sound {ok}
    (reached : Reachable (claimStore A J cfg) ok s) : Sound s :=
  reached.invariant (I := Sound) (fun _ fresh => Fresh.sound fresh)
    fun _ _ _ holds _ taken => holds.step taken

end Parti.Handoff
