/-
# Election.Term — the live check and the term it is about

`CheckLeadership` compares the claim with the agent's term and then reads the key:
it asks that the live entry names the worker and is not older than the claim. If the
agent loses the key and acquires it again between the two steps, an entry of its
second term passes for its first, whoever led in between
(`check_passes_for_later_term`).

While requests on an agent overlap neither each other nor a check on it, and every
create is answered, a check that returns nil has read an entry of the term it was
asked about: no acquisition of any agent is newer than the claim
(`checked_term_is_live`).
-/
import Mathlib.Data.Fintype.Basic
import Parti.Election.Agent

namespace Parti.Election

open Parti.Types Lib Lib.Kv Lib.Client List

/-! ## Acquisitions on the key -/

section Acquisitions

variable {A : Type} {b : Bucket Unit (Leader A)} {a : A} {r : Nat}

def Acquired (b : Bucket Unit (Leader A)) (a : A) (r : Nat) : Prop :=
  ∃ e, b.Stored () e ∧ e.revision = r ∧ e.value.agent = a ∧ e.value.acquires = true

def acquisitions (b : Bucket Unit (Leader A)) : List (A × Nat) :=
  b.log.filterMap fun r =>
    match r.op with
    | .put v => if v.acquires then some (v.agent, r.revision) else none
    | .delete => none

theorem acquired_of_mem (mem : (a, r) ∈ acquisitions b) : Acquired b a r := by
  obtain ⟨⟨_, op, revision, created⟩, stored, found⟩ := mem_filterMap.mp mem
  cases op with
  | delete => cases found
  | put v =>
    simp only [Option.ite_none_right_eq_some, Option.some.injEq, Prod.mk.injEq] at found
    obtain ⟨acquires, own, rev⟩ := found
    exact ⟨⟨v, revision, created⟩, stored, rev, own, acquires⟩

def TermOf (b : Bucket Unit (Leader A)) (a : A) (r : Nat) : Prop :=
  Acquired b a r ∧ ∀ r', Acquired b a r' → r' ≤ r

def Newest (b : Bucket Unit (Leader A)) (a : A) (r : Nat) : Prop :=
  Acquired b a r ∧ ∀ a' r', Acquired b a' r' → r' ≤ r

theorem Newest.termOf (newest : Newest b a r) : TermOf b a r :=
  ⟨newest.1, newest.2 a⟩

theorem TermOf.unique {r' : Nat} (term : TermOf b a r) (term' : TermOf b a r') : r = r' :=
  le_antisymm (term'.2 r term.1) (term.2 r' term'.1)

theorem Acquired.append (acquired : Acquired b a r) (op : Op (Leader A)) (now : Int) :
    Acquired (b.append () op now) a r := by
  obtain ⟨e, stored, rest⟩ := acquired
  exact ⟨e, stored.append () op now, rest⟩

variable {op : Op (Leader A)}

theorem Acquired.of_append {now : Int} (acquired : Acquired (b.append () op now) a r) :
    Acquired b a r ∨ ∃ v, op = .put v ∧ v.agent = a ∧ v.acquires = true ∧ r = b.seq + 1 := by
  obtain ⟨e, stored, rev, own, acquires⟩ := acquired
  obtain new | old := mem_cons.mp stored
  · simp only [Record.mk.injEq, true_and] at new
    exact .inr ⟨e.value, new.1.symm, own, acquires, by rw [← rev, new.2.1]⟩
  · exact .inl ⟨e, old, rev, own, acquires⟩

theorem TermOf.append (term : TermOf b a r) (now : Int)
    (quiet : ∀ v, op = .put v → v.acquires = true → v.agent ≠ a) :
    TermOf (b.append () op now) a r := by
  refine ⟨term.1.append op now, fun r' acquired => ?_⟩
  obtain old | ⟨v, put, own, acquires, _⟩ := acquired.of_append
  · exact term.2 r' old
  · exact absurd own (quiet v put acquires)

theorem Newest.append (newest : Newest b a r) (now : Int)
    (quiet : ∀ v, op = .put v → v.acquires = false) : Newest (b.append () op now) a r := by
  refine ⟨newest.1.append op now, fun a' r' acquired => ?_⟩
  obtain old | ⟨v, put, _, acquires, _⟩ := acquired.of_append
  · exact newest.2 a' r' old
  · rw [quiet v put] at acquires
    cases acquires

theorem newest_acquired (b : Bucket Unit (Leader A)) {v} (acquires : v.acquires = true)
    (now : Int) : Newest (b.append () (.put v) now) v.agent (b.seq + 1) := by
  refine ⟨⟨_, b.stored_append_put () v now, rfl, rfl, acquires⟩, fun a' r' acquired => ?_⟩
  obtain ⟨e, stored, rfl, _⟩ | ⟨_, _, _, _, rfl⟩ := acquired.of_append
  · exact Nat.le_succ_of_le (b.revision_le_seq stored)
  · exact le_refl _

end Acquisitions

/-! ## Requests and checks -/

def Pc.requests {A : Type} : Pc A → Option A
  | .on a (.request _ _) | .on a (.renew (.request _)) | .on a (.update (.request _) _ _)
  | .on a (.updated (.request _) _) | .on a (.renewFailed (.request _))
  | .on a (.renewLost (.request _)) | .on a (.clear _) | .on a (.create _ _)
  | .on a (.acquired _ _) => some a
  | _ => none

def Pc.checks {A : Type} : Pc A → Option A
  | .on a (.check _) | .on a (.checkGet _ _) => some a
  | _ => none

def Pc.isCreate {A : Type} : Pc A → Bool
  | .on _ (.create _ _) => true
  | _ => false

variable {T A : Type}

/-- What `CheckLeadership` relies on; `id` is the worker of each agent. -/
def Fenced (id : A → GoString) (s : State (Pool (A → NATSElection) (Pc A) T) Unit (Leader A)) :
    Action T (T × Input A) → Prop
  | .call (_, .request a workerID _) => workerID = id a ∧
      ∀ u, (s.locals.pcs u).requests ≠ some a ∧ (s.locals.pcs u).checks ≠ some a
  | .call (_, .check a _) => ∀ u, (s.locals.pcs u).requests ≠ some a
  | .step t .unanswered => (s.locals.pcs t).isCreate = false
  | _ => True

def Overlap (x y : Pc A) : Prop :=
  ∃ a, (x.requests = some a ∧ (y.requests = some a ∨ y.checks = some a)) ∨
    (y.requests = some a ∧ (x.requests = some a ∨ x.checks = some a))

theorem Overlap.symm {x y : Pc A} (overlap : Overlap x y) : Overlap y x := by
  obtain ⟨a, both⟩ := overlap
  exact ⟨a, both.symm⟩

theorem Overlap.mono {x x' y : Pc A} (overlap : Overlap x' y)
    (requests : ∀ a, x'.requests = some a → x.requests = some a)
    (checks : ∀ a, x'.checks = some a → x.checks = some a) : Overlap x y := by
  obtain ⟨a, ⟨own, theirs⟩ | ⟨theirs, own⟩⟩ := overlap
  · exact ⟨a, .inl ⟨requests a own, theirs⟩⟩
  · exact ⟨a, .inr ⟨theirs, own.imp (requests a) (checks a)⟩⟩

variable {at_ at' : At} {a c : A} {answer : Answer Unit (Leader A)} {op : Op (Leader A)}
  {pc pc' : Pc A} {e' e : NATSElection} {now : Int}
  {s : State (Pool (A → NATSElection) (Pc A) T) Unit (Leader A)}

theorem Advances.requests (advances : Advances e now at_ e' at')
    (requests : (Pc.on a at').requests = some c) : (Pc.on a at_).requests = some c := by
  cases advances with
  | renew caller | failed caller =>
    cases caller with
    | request workerID => exact requests
    | renew => cases requests
  | renewing | acquire | goneOn | lostOn | clear => exact requests
  | _ => cases requests

theorem Advances.checks (advances : Advances e now at_ e' at')
    (checks : (Pc.on a at').checks = some c) : (Pc.on a at_).checks = some c := by
  cases advances with
  | check held => exact checks
  | _ => cases checks

theorem answered_requests (heard : answered at_ answer = some at') :
    ((Pc.on a at').requests = some c → (Pc.on a at_).requests = some c) ∧
      (Pc.on a at').checks ≠ some c := by
  unfold answered at heard
  split at heard
  all_goals try split_ifs at heard
  all_goals cases heard
  case h_1 caller _ _ _ => cases caller <;> exact ⟨id, nofun⟩
  case h_2 caller _ _ => cases caller <;> exact ⟨id, nofun⟩
  case h_3 caller _ _ => cases caller <;> exact ⟨id, nofun⟩
  all_goals first | exact ⟨id, nofun⟩ | exact ⟨nofun, nofun⟩

variable [DecidableEq T] [DecidableEq A]

theorem unlapped_of_reachable {id} (reached : Reachable (elections T A) (Fenced id) s) :
    ∀ t u, t ≠ u → ¬Overlap (s.locals.pcs t) (s.locals.pcs u) := by
  refine Reachable.apart (C := Overlap) (fun _ _ => Overlap.symm) ?_ ?_ reached
  · rintro x ⟨a, ⟨rests, _⟩ | ⟨_, rests | rests⟩⟩ <;> cases rests
  intro s t a w' pc' spawned allowed does
  obtain ⟨goes, none_⟩ := does_goes does
  subst none_
  refine ⟨fun u other overlap => ?_, nofun⟩
  generalize here : s.locals.pcs t = pc at goes
  cases goes with
  | rests _ _ _ none_ =>
    cases pc' with
    | on agent at_ => cases none_
    | idle | expire => exact overlap.mono nofun nofun
  | enters input _ cells now steps =>
    obtain ⟨agent, ⟨own, theirs⟩ | ⟨theirs, own⟩⟩ := overlap
    · cases steps with
      | request _ _ _ =>
        cases own
        exact absurd theirs (not_or.mpr (allowed.2 u))
      | _ => cases own
    · cases steps with
      | request _ _ _ =>
        obtain own | own := own
        · cases own
          exact absurd theirs (allowed.2 u).1
        · cases own
      | check _ _ =>
        obtain own | own := own
        · cases own
        · cases own
          exact absurd theirs (allowed u)
      | _ => obtain own | own := own <;> cases own
  | advances _ _ at_ at' e e' now advances =>
    exact overlap.mono (fun _ => advances.requests) fun _ => advances.checks
  | hears _ _ at_ at' answer heard =>
    exact overlap.mono (fun _ => (answered_requests heard).1)
      fun _ checks => absurd checks (answered_requests heard).2

/-! ## The agents' terms -/

def Marks (id : A → GoString) (a : A) (text : GoString) : Prop :=
  ∃ rest, text = id a ++ 58 :: rest

structure Standing (id : A → GoString) (b : Bucket Unit (Leader A)) (a : A) (e : NATSElection) :
    Prop where
  flag : e.isLeader = false → e.termRevision = 0
  worker : e.isLeader = true → e.workerID = id a
  term : e.termRevision ≠ 0 → TermOf b a e.termRevision

def Caller.Names (workerID : GoString) : Caller → Prop
  | .request workerID' => workerID' = workerID
  | .renew => True

def Knows (id : A → GoString) (b : Bucket Unit (Leader A)) (a : A) (e : NATSElection) : At → Prop
  | .request workerID _ | .clear workerID => workerID = id a
  | .renew caller | .updated caller _ | .renewFailed caller | .renewLost caller =>
    caller.Names (id a)
  | .update caller text _ => caller.Names (id a) ∧ Marks id a text
  | .create workerID text => workerID = id a ∧ Marks id a text ∧ e.termRevision = 0
  | .acquired workerID revision => workerID = id a ∧ TermOf b a revision
  | .checkGet claimed myWorker => myWorker = id a ∧ TermOf b a claimed
  | _ => True

variable {id : A → GoString} {b : Bucket Unit (Leader A)} {a : A} {e e' : NATSElection} {now : Int}
  {at_ at' : At} {workerID : GoString}

omit [DecidableEq A] in
theorem Standing.cleared : Standing id b a .cleared where
  flag _ := rfl
  worker leads := by cases leads
  term held := absurd rfl held

omit [DecidableEq A] in
theorem marks_leaderValue (same : workerID = id a) (now : Int) :
    Marks id a (leaderValue workerID now) :=
  ⟨_, by rw [leaderValue, same]⟩

omit [DecidableEq A] in
theorem Advances.standing (advances : Advances e now at_ e' at') (standing : Standing id b a e)
    (knows : Knows id b a e at_) : Standing id b a e' ∧ Knows id b a e' at' := by
  cases advances with
  | renewing | goneOn | failed => exact ⟨standing, knows⟩
  | acquire workerID leaseDuration other =>
    refine ⟨standing, knows, marks_leaderValue knows now, standing.flag ?_⟩
    -- a leader goes by the name of its worker, so it would have renewed
    refine Bool.eq_false_iff.mpr fun leads => other ⟨leads, ?_⟩
    rw [standing.worker leads]
    exact knows.symm
  | renew caller leads => exact ⟨standing, knows, marks_leaderValue (standing.worker leads) now⟩
  | renewed caller revision result =>
    exact ⟨⟨standing.flag, standing.worker, standing.term⟩, trivial⟩
  | lostOn workerID => exact ⟨.cleared, knows⟩
  | clear workerID => exact ⟨.cleared, knows, marks_leaderValue knows now, rfl⟩
  | acquired workerID revision result =>
    exact ⟨⟨nofun, fun _ => knows.1, fun _ => knows.2⟩, trivial⟩
  | lost caller result | released result | unverified result => exact ⟨.cleared, trivial⟩
  | check held =>
    refine ⟨standing, standing.worker ?_, standing.term held⟩
    exact Bool.eq_true_of_not_eq_false fun rests => held (standing.flag rests)
  | gone | context | release | isLeader | returns => exact ⟨standing, trivial⟩

theorem Advances.term (advances : Advances e now at_ e' at') (zero : e.termRevision = 0) :
    e'.termRevision = 0 ∨ ∃ workerID revision, at_ = .acquired workerID revision := by
  cases advances with
  | acquired workerID revision result => exact .inr ⟨workerID, revision, rfl⟩
  | lost | lostOn | clear | released | unverified => exact .inl rfl
  | _ => exact .inl zero

omit [DecidableEq A] in
theorem Standing.append (standing : Standing id b a e) (now : Int)
    (quiet : e.termRevision ≠ 0 → ∀ v, op = .put v → v.acquires = true → v.agent ≠ a) :
    Standing id (b.append () op now) a e where
  flag := standing.flag
  worker := standing.worker
  term held := (standing.term held).append now (quiet held)

omit [DecidableEq A] in
theorem Knows.append (knows : Knows id b a e at_) (now : Int)
    (quiet : (Pc.on a at_).requests = some a ∨ (Pc.on a at_).checks = some a →
      ∀ v, op = .put v → v.acquires = true → v.agent ≠ a) :
    Knows id (b.append () op now) a e at_ := by
  cases at_ with
  | acquired workerID revision => exact ⟨knows.1, knows.2.append now (quiet (.inl rfl))⟩
  | checkGet claimed myWorker => exact ⟨knows.1, knows.2.append now (quiet (.inr rfl))⟩
  | _ => exact knows

omit [DecidableEq A] in
theorem answered_knows {b'} (heard : answered at_ answer = some at') (knows : Knows id b a e at_)
    (acquired : ∀ workerID text revision, at_ = .create workerID text →
      answer = .written revision → TermOf b' a revision)
    : Knows id b' a e at' := by
  unfold answered at heard
  split at heard
  all_goals try split_ifs at heard
  all_goals cases heard
  all_goals try trivial
  case h_1 | h_2 | h_3 => exact knows.1
  case h_4 workerID text revision => exact ⟨knows.1, acquired workerID text revision rfl rfl⟩

/-- The agents' fields, the live entry and the texts on the key. -/
structure Terms (id : A → GoString) (w : State (A → NATSElection) Unit (Leader A)) : Prop where
  standing : ∀ a, Standing id w.bucket a (w.locals a)
  live : ∀ e, w.bucket.get () = some e → ∃ r, Newest w.bucket e.value.agent r
  marked : ∀ e, w.bucket.Stored () e → Marks id e.value.agent e.value.text
  pending : ∀ write ∈ w.pending, write = .remove () ∨
    ∃ v revision, write = .update () v revision ∧ v.acquires = false ∧ Marks id v.agent v.text

def Informed (id : A → GoString) (w : State (A → NATSElection) Unit (Leader A)) : Pc A → Prop
  | .on a at_ => Knows id w.bucket a (w.locals a) at_
  | _ => True

variable {w : State (A → NATSElection) Unit (Leader A)} {v : Leader A} {cells' : A → NATSElection}
  {input : Input A} {here : Pc A}

omit [DecidableEq A] in
theorem marked_append {b : Bucket Unit (Leader A)}
    (marked : ∀ e, b.Stored () e → Marks id e.value.agent e.value.text)
    (new : ∀ v, op = .put v → Marks id v.agent v.text) (now : Int) :
    ∀ e, (b.append () op now).Stored () e → Marks id e.value.agent e.value.text := by
  intro e stored
  obtain written | old := mem_cons.mp stored
  · simp only [Record.mk.injEq] at written
    exact new e.value written.2.1.symm
  · exact marked e old

omit [DecidableEq A] in
theorem Terms.removed (terms : Terms id w) :
    Terms id { w with bucket := w.bucket.append () .delete w.clock } where
  standing a := (terms.standing a).append _ fun _ v put => by cases put
  live e there := by
    rw [Bucket.get_append_delete] at there
    cases there
  marked := marked_append terms.marked (fun v put => by cases put) _
  pending := terms.pending

omit [DecidableEq A] in
theorem Terms.renewed (terms : Terms id w) (keeps : v.acquires = false)
    (marks : Marks id v.agent v.text) {e} (there : w.bucket.get () = some e)
    (own : e.value.agent = v.agent) :
    Terms id { w with bucket := w.bucket.append () (.put v) w.clock } where
  standing a := (terms.standing a).append _ fun _ v' put acquires => by
    cases put
    rw [keeps] at acquires
    cases acquires
  live e' there' := by
    rw [Bucket.get_append_put] at there'
    cases there'
    obtain ⟨r, newest⟩ := terms.live e there
    rw [own] at newest
    exact ⟨r, newest.append _ fun v' put => by cases put; exact keeps⟩
  marked := marked_append terms.marked (fun v' put => by cases put; exact marks) _
  pending := terms.pending

omit [DecidableEq A] in
theorem Terms.acquired (terms : Terms id w) (acquires : v.acquires = true)
    (marks : Marks id v.agent v.text) (none_ : (w.locals v.agent).termRevision = 0) :
    Terms id { w with bucket := w.bucket.append () (.put v) w.clock } where
  standing a := (terms.standing a).append _ fun held v' put _ own => by
    cases put
    subst own
    exact held none_
  live e' there' := by
    rw [Bucket.get_append_put] at there'
    cases there'
    exact ⟨_, newest_acquired _ acquires _⟩
  marked := marked_append terms.marked (fun v' put => by cases put; exact marks) _
  pending := terms.pending

theorem Terms.steps (terms : Terms id w) (steps : Steps w.locals w.clock pc input cells' pc')
    (informed : Informed id w pc)
    (named : ∀ a workerID leaseDuration, input = .request a workerID leaseDuration →
      workerID = id a) :
    Terms id { w with locals := cells' } ∧ Informed id { w with locals := cells' } pc' := by
  cases steps with
  | advances a at_ context e' at' advances =>
    obtain ⟨standing, knows⟩ := advances.standing (terms.standing a) informed
    refine ⟨{ terms with standing := fun c => ?_ }, ?_⟩
    · by_cases same : c = a
      · subst same
        simpa only [Function.update_self] using standing
      · simpa only [Function.update_of_ne same] using terms.standing c
    · simpa only [Informed, Function.update_self] using knows
  | request a workerID leaseDuration => exact ⟨terms, named a workerID leaseDuration rfl⟩
  | _ => exact ⟨terms, trivial⟩

theorem Informed.steps (informed : Informed id w here)
    (steps : Steps w.locals w.clock pc input cells' pc') (apart : ¬Overlap pc here) :
    Informed id { w with locals := cells' } here := by
  cases steps with
  | advances a at_ context e' at' advances =>
    cases here with
    | idle | expire => trivial
    | on c there =>
      by_cases same : c = a
      · subst same
        simp only [Informed, Function.update_self] at informed ⊢
        cases there with
        | create workerID text =>
          obtain ⟨name, marks, zero⟩ := informed
          refine ⟨name, marks, (advances.term zero).resolve_right ?_⟩
          rintro ⟨_, _, rfl⟩
          exact apart ⟨c, .inl ⟨rfl, .inl rfl⟩⟩
        | _ => exact informed
      · simpa only [Informed, Function.update_of_ne same] using informed
  | _ => exact informed

omit [DecidableEq A] in
theorem Informed.append (informed : Informed id w here)
    (quiet : ∀ v, op = .put v → v.acquires = true → here.requests ≠ some v.agent ∧
      here.checks ≠ some v.agent) :
    Informed id { w with bucket := w.bucket.append () op w.clock } here := by
  cases here with
  | idle | expire => trivial
  | on a at_ =>
    refine Knows.append informed w.clock fun busy v put acquires own => ?_
    subst own
    obtain ⟨requests, checks⟩ := quiet v put acquires
    exact busy.elim requests checks

omit [DecidableEq A] in
theorem informed_heard
    (heard : (∃ a at_ at', pc = .on a at_ ∧ answered at_ answer = some at' ∧ pc' = .on a at') ∨
      pc = .expire ∧ pc' = .idle ∧ ∃ revision, answer = .written revision)
    (informed : Informed id w pc) (unwritten : ∀ revision, answer ≠ .written revision) :
    Informed id w pc' := by
  obtain ⟨a, at_, at', rfl, heard, rfl⟩ | ⟨_, rfl, _⟩ := heard
  · exact answered_knows heard informed fun _ _ revision _ written =>
      absurd written (unwritten revision)
  · trivial

theorem terms_of_reachable (reached : Reachable (elections T A) (Fenced id) s) :
    Terms id (world s) ∧ ∀ t, Informed id (world s) (s.locals.pcs t) := by
  refine Reachable.routine (I := Terms id) (N := fun w _ pc => Informed id w pc)
    (F := fun s => (∀ t u, t ≠ u → ¬Overlap (s.locals.pcs t) (s.locals.pcs u)) ∧
      Rightly (world s) ∧ ∀ t, Carries s.bucket (s.locals.pcs t))
    (fun s reached => ⟨unlapped_of_reachable reached, owned_of_reachable reached⟩)
    ?_ ?_ ?_ reached
  · rintro ⟨bucket, pending, clock, cells⟩ ⟨rfl, rfl, rfl⟩
    refine ⟨⟨fun _ => .cleared, fun e there => ?_, fun e stored => ?_, fun _ mem => ?_⟩,
      fun _ => trivial⟩
    · cases there
    · cases stored
    · cases mem
  · intro s t a w' pc' spawned known allowed terms informed does
    obtain ⟨apart, right, carries⟩ := known
    cases does with
    | next input turn moved =>
      obtain ⟨steps, none_⟩ := next_steps moved
      rw [none_]
      obtain ⟨terms', informed'⟩ := terms.steps steps (informed t) (by
        rintro a workerID leaseDuration rfl
        exact allowed.1)
      exact ⟨terms', informed', fun u other => (informed u).steps steps (apart t u (Ne.symm other)),
        nofun⟩
    | wrote write cells pc' asked accepted told =>
      obtain ⟨rfl, heard⟩ := told_eq told
      have own := carries t
      have knows := informed t
      have asks := asks_write asked
      have apart := apart t
      generalize s.locals.pcs t = pc at own asks knows heard apart
      suffices held : Terms id _ ∧ Informed id _ pc' ∧ ∀ u, u ≠ t → Informed id _ (s.locals.pcs u) from
        ⟨held.1, held.2.1, held.2.2, nofun⟩
      cases asks with
      | update agent caller text revision =>
        obtain ⟨e, there, same⟩ :=
          Rightful.replaces (v := ⟨text, agent, false⟩) own accepted
        obtain ⟨_, _, _, ⟨⟩, heard, rfl⟩ | ⟨⟨⟩, _⟩ := heard
        refine ⟨terms.renewed rfl knows.2 there same, answered_knows (b := s.bucket) heard knows ?_,
          fun u _ => (informed u).append ?_⟩
        · rintro _ _ _ ⟨⟩
        · rintro v ⟨⟩ ⟨⟩
      | create agent workerID text =>
        obtain ⟨_, _, _, ⟨⟩, heard, rfl⟩ | ⟨⟨⟩, _⟩ := heard
        refine ⟨terms.acquired rfl knows.2.1 knows.2.2,
          answered_knows (b := s.bucket) heard knows ?_, fun u other => (informed u).append ?_⟩
        · rintro _ _ _ ⟨⟩ ⟨⟩
          exact (newest_acquired _ rfl _).termOf
        · rintro v ⟨⟩ _
          have apart := apart u (Ne.symm other)
          exact ⟨fun requests => apart ⟨agent, .inl ⟨rfl, .inl requests⟩⟩,
            fun checks => apart ⟨agent, .inl ⟨rfl, .inr checks⟩⟩⟩
      | delete agent =>
        obtain ⟨_, _, _, ⟨⟩, heard, rfl⟩ | ⟨⟨⟩, _⟩ := heard
        refine ⟨terms.removed, answered_knows (b := s.bucket) heard knows ?_,
          fun u _ => (informed u).append nofun⟩
        rintro _ _ _ ⟨⟩
      | expire =>
        obtain ⟨_, _, _, ⟨⟩, _⟩ | ⟨_, rfl, _⟩ := heard
        exact ⟨terms.removed, trivial, fun u _ => (informed u).append nofun⟩
    | heard _ answer cells pc' hears told =>
      obtain ⟨rfl, heard⟩ := told_eq told
      refine ⟨terms, informed_heard heard (informed t) ?_, fun u _ => informed u, nofun⟩
      rintro revision rfl
      exact Hears.not_written hears
    | late write cells pc' asked told =>
      obtain ⟨rfl, heard⟩ := told_eq told
      refine ⟨{ terms with pending := forall_mem_cons.mpr ⟨?_, terms.pending⟩ },
        informed_heard heard (informed t) nofun, fun u _ => informed u, nofun⟩
      have knows := informed t
      have asks := asks_write asked
      have answered : (s.locals.pcs t).isCreate = false := allowed
      generalize s.locals.pcs t = pc at asks knows answered
      cases asks with
      | update agent caller text revision => exact .inr ⟨_, _, rfl, rfl, knows.2⟩
      | create agent workerID text => cases answered
      | delete | expire => exact .inl rfl
  · intro s a w' known _ terms informed passes
    cases passes with
    | tick elapsed =>
      exact ⟨⟨terms.standing, terms.live, terms.marked, terms.pending⟩, informed⟩
    | land index write waiting accepted =>
      have mem := mem_of_getElem? waiting
      have kept : ∀ write ∈ s.pending.eraseIdx index, _ := fun write left =>
        terms.pending write (mem_of_mem_eraseIdx left)
      obtain rfl | ⟨v, revision, rfl, keeps, marks⟩ := terms.pending write mem
      · exact ⟨{ terms.removed with pending := kept },
          fun t => (informed t).append nofun⟩
      · obtain ⟨e, there, same⟩ := (known.2.1.pending _ mem).replaces accepted
        refine ⟨{ terms.renewed keeps marks there same with pending := kept },
          fun t => (informed t).append fun v' put acquires => ?_⟩
        cases put
        rw [keeps] at acquires
        cases acquires

theorem takeWhile_colon (plain : 58 ∉ workerID) (rest : GoString) :
    (workerID ++ 58 :: rest).takeWhile (· ≠ 58) = workerID := by
  rw [takeWhile_append_of_pos]
  · simp
  · intro c mem
    simp only [ne_eq, decide_eq_true_eq]
    rintro rfl
    exact plain mem

omit [DecidableEq A] in
theorem Marks.agent_eq (ids : Function.Injective id) (plain : ∀ a, 58 ∉ id a) {text}
    (marks : Marks id c text) (begins : (id a ++ [58]).isPrefixOf text = true) : c = a := by
  obtain ⟨rest, rfl⟩ := marks
  obtain ⟨tail, same⟩ := isPrefixOf_iff_prefix.mp begins
  have before := congrArg (List.takeWhile (· ≠ 58)) same
  rw [append_assoc, singleton_append, takeWhile_colon (plain a),
    takeWhile_colon (plain c)] at before
  exact (ids before).symm

theorem checked_term_is_live (ids : Function.Injective id) (plain : ∀ a, 58 ∉ id a)
    {s s' : State (Pool (A → NATSElection) (Pc A) T) Unit (Leader A)}
    (reached : Reachable (elections T A) (Fenced id) s) {t : T} {claimed : Nat}
    {myWorker : GoString} (here : s.locals.pcs t = .on a (.checkGet claimed myWorker))
    (taken : (elections T A).step s (.step t .served) = some s')
    (nil_ : s'.locals.pcs t = .on a (.returned .ok)) :
    (∃ live, s.bucket.get () = some live ∧ live.value.agent = a ∧ claimed ≤ live.revision) ∧
      Newest s.bucket a claimed := by
  obtain ⟨terms, informed⟩ := terms_of_reachable reached
  have knows := informed t
  rw [here] at knows
  obtain ⟨rfl, term⟩ := knows
  -- the answer is what the key holds now
  have read : answered (.checkGet claimed (id a)) (.entry (s.bucket.get ())) =
      some (.returned .ok) := by
    simp only [elections, Routine.system, Protocol.system, Protocol.step, Routine.protocol, agents,
      here, asks, serve, told, Option.bind_some, Option.map_map, Option.map_eq_some_iff] at taken
    obtain ⟨at', heard, rfl⟩ := taken
    simp only [Function.comp_apply, Function.update_self, Pc.on.injEq, true_and] at nil_
    exact nil_ ▸ heard
  cases there : s.bucket.get () with
  | none =>
    rw [there] at read
    cases read
  | some live =>
    rw [there] at read
    simp only [answered] at read
    split_ifs at read with older begins
    · cases read
    · have own := (terms.marked live (Bucket.get_stored there)).agent_eq ids plain begins
      obtain ⟨r, newest⟩ := terms.live live there
      rw [own] at newest
      obtain rfl := newest.termOf.unique term
      exact ⟨⟨live, rfl, own, not_lt.mp older⟩, newest⟩
    · cases read

instance fencedDecidable [Fintype T] (id : A → GoString)
    (s : State (Pool (A → NATSElection) (Pc A) T) Unit (Leader A)) :
    ∀ a : Action T (T × Input A), Decidable (Fenced id s a)
  | .call (_, .request a workerID _) => inferInstanceAs (Decidable (workerID = id a ∧
      ∀ u, (s.locals.pcs u).requests ≠ some a ∧ (s.locals.pcs u).checks ≠ some a))
  | .call (_, .check a _) => inferInstanceAs (Decidable (∀ u, (s.locals.pcs u).requests ≠ some a))
  | .step t .unanswered => inferInstanceAs (Decidable ((s.locals.pcs t).isCreate = false))
  | .call (_, .renew _) | .call (_, .release _) | .call (_, .isLeader _) | .call (_, .expire)
  | .call (_, .go _) | .step _ .served | .step _ .failed | .land _ | .tick _ => isTrue trivial

def twoWorkers (agent : Bool) : GoString :=
  if agent then [97] else [98]

theorem checked_term_is_live_after_request :
    ∃ (s s' : State (Pool (Bool → NATSElection) (Pc Bool) (Fin 2)) Unit (Leader Bool)),
      Function.Injective twoWorkers ∧ (∀ a, 58 ∉ twoWorkers a) ∧
        Reachable (elections (Fin 2) Bool) (Fenced twoWorkers) s ∧
        s.locals.pcs 1 = .on true (.checkGet 1 [97]) ∧
        (elections (Fin 2) Bool).step s (.step 1 .served) = some s' ∧
        s'.locals.pcs 1 = .on true (.returned .ok) ∧ Newest s.bucket true 1 := by
  obtain ⟨s, s', reached, taken, here, nil_⟩ := exists_reachable_step (Fenced twoWorkers)
    (fresh_init (T := Fin 2)) (leads 0 true [97] ++ checks 1 true 1) (.step 1 .served) (fun s s' =>
      s.locals.pcs 1 = .on true (.checkGet 1 [97]) ∧ s'.locals.pcs 1 = .on true (.returned .ok))
    (by decide)
  have ids : Function.Injective twoWorkers := by decide
  have plain : ∀ a, 58 ∉ twoWorkers a := by decide
  exact ⟨s, s', ids, plain, reached, here, taken, nil_,
    (checked_term_is_live ids plain reached here taken nil_).2⟩

def lostAndRegained {T : Type} (t u v : T) : List (Action T (T × Input Bool)) :=
  leads t true [97] ++ checks v true 1 ++ [.call (u, .expire), .step u .served] ++
    leads u false [98] ++ [.call (u, .expire), .step u .served] ++
    [.call (t, .request true [97] 10), .call (t, .go false), .call (t, .go false),
      .step t .served, .call (t, .go false), .call (t, .go false), .step t .served,
      .call (t, .go false)]

theorem check_passes_for_later_term :
    ∃ (s s' : State (Pool (Bool → NATSElection) (Pc Bool) (Fin 3)) Unit (Leader Bool)) (r : Nat),
      Reachable (elections (Fin 3) Bool) Free s ∧
        s.locals.pcs 2 = .on true (.checkGet 1 [97]) ∧
        (elections (Fin 3) Bool).step s (.step 2 .served) = some s' ∧
        s'.locals.pcs 2 = .on true (.returned .ok) ∧
        Acquired s.bucket true 1 ∧ Acquired s.bucket false r ∧ 1 < r ∧
        ¬Newest s.bucket true 1 := by
  obtain ⟨s, s', reached, taken, here, nil_, acquired⟩ := exists_reachable_step Free
    (fresh_init (T := Fin 3)) (lostAndRegained 0 1 2) (.step 2 .served) (fun s s' =>
      s.locals.pcs 2 = .on true (.checkGet 1 [97]) ∧ s'.locals.pcs 2 = .on true (.returned .ok) ∧
      acquisitions s.bucket = [(true, 5), (false, 3), (true, 1)]) (by decide)
  have own : Acquired s.bucket true 1 := acquired_of_mem (by simp [acquired])
  have theirs : Acquired s.bucket false 3 := acquired_of_mem (by simp [acquired])
  refine ⟨s, s', 3, reached, here, taken, nil_, own, theirs, by decide, ?_⟩
  intro newest
  exact absurd (newest.2 false 3 theirs) (by decide)

end Parti.Election
