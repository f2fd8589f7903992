/-
# Election.Release — whose entry a release removes

`ReleaseLeadership` looks at the agent's own flag and then deletes the key without
naming a revision. Between the two, or before, the entry may have expired and another
agent may have acquired the key (`release_unseats_successor`).

While the entry of an agent does not expire as long as the agent takes itself for the
leader or has a call under way, releases overlap no other call on their agent and
every delete is answered, a release finds only an entry of its own agent
(`release_removes_own_entry`).
-/
import Mathlib.Data.Fintype.Basic
import Parti.Election.Agent

namespace Parti.Election

open Parti.Types Lib Lib.Kv Lib.Client Function

def Pc.releases {A : Type} : Pc A → Option A
  | .on a .release | .on a .delete | .on a .released => some a
  | _ => none

variable {T A : Type}

/-- What `ReleaseLeadership` relies on. -/
def Timely (s : State (Pool (A → NATSElection) (Pc A) T) Unit (Leader A)) :
    Action T (T × Input A) → Prop
  | .call (_, .release a) => ∀ u, (s.locals.pcs u).agent ≠ some a
  | .call (_, .request a _ _) | .call (_, .renew a) | .call (_, .isLeader a)
  | .call (_, .check a _) => ∀ u, (s.locals.pcs u).releases ≠ some a
  | .step t .served => s.locals.pcs t = .expire → ∀ e ∈ s.bucket.get (),
      (s.locals.cells e.value.agent).isLeader = false ∧
        ∀ u, (s.locals.pcs u).agent ≠ some e.value.agent
  | .step t .unanswered => ∀ a, s.locals.pcs t ≠ .on a .delete
  | _ => True

/-! ## Releases are alone -/

def Clash (x y : Pc A) : Prop :=
  ∃ a, x.agent = some a ∧ y.agent = some a ∧ (x.releases = some a ∨ y.releases = some a)

theorem Clash.symm {x y : Pc A} (clash : Clash x y) : Clash y x := by
  obtain ⟨a, onX, onY, releases⟩ := clash
  exact ⟨a, onY, onX, releases.symm⟩

variable {e e' : NATSElection} {now : Int} {at_ at' : At} {a c : A}
  {answer : Answer Unit (Leader A)} {b : Bucket Unit (Leader A)}

theorem Advances.releases (advances : Advances e now at_ e' at')
    (releases : (Pc.on a at').releases = some a) :
    (Pc.on a at_).releases = some a := by
  cases advances with
  | release leads => rfl
  | _ => cases releases

theorem answered_releases (moved : answered at_ answer = some at')
    (releases : (Pc.on a at').releases = some a) :
    at_ = .delete ∧ ∃ revision, answer = .written revision := by
  unfold answered at moved
  split at moved
  all_goals try split_ifs at moved
  all_goals cases moved
  all_goals try cases releases
  exact ⟨rfl, _, rfl⟩

variable [DecidableEq T] [DecidableEq A]

theorem apart_of_reachable {s} (reached : Reachable (elections T A) Timely s) :
    ∀ t u, t ≠ u → ¬Clash (s.locals.pcs t) (s.locals.pcs u) := by
  refine Reachable.apart (C := Clash) (fun _ _ => Clash.symm) ?_ ?_ reached
  · rintro x ⟨a, rests, _⟩
    cases rests
  intro s t a w' pc' spawned allowed does
  obtain ⟨goes, none_⟩ := does_goes does
  subst none_
  refine ⟨fun u other clash => ?_, nofun⟩
  obtain ⟨agent, mine, theirs, releases⟩ := clash
  generalize here : s.locals.pcs t = pc at goes
  cases goes with
  | rests _ _ _ none_ =>
    rw [none_] at mine
    cases mine
  | enters input _ cells now steps =>
    -- a call that enters finds no release, and a release no call
    cases steps with
    | release _ =>
      cases mine
      exact absurd theirs (allowed u)
    | request _ _ _ | renew _ | isLeader _ | check _ _ =>
      cases mine
      obtain own | theirs := releases
      · cases own
      · exact absurd theirs (allowed u)
    | expire => cases mine
  | advances _ _ at_ at' e e' now advances =>
    cases mine
    exact ⟨agent, rfl, theirs, releases.imp_left advances.releases⟩
  | hears _ _ at_ at' answer heard =>
    cases mine
    refine ⟨agent, rfl, theirs, releases.imp_left fun own => ?_⟩
    rw [(answered_releases heard own).1]
    rfl

/-! ## The flag and the live entry -/

/-- The live entry is one of agent `a`. -/
def LiveBy (b : Bucket Unit (Leader A)) (a : A) : Prop :=
  ∃ e, b.get () = some e ∧ e.value.agent = a

omit [DecidableEq A] in
theorem LiveBy.unique {a' : A} (live : LiveBy b a) (live' : LiveBy b a') : a = a' := by
  obtain ⟨e, at_, rfl⟩ := live
  obtain ⟨e', at', rfl⟩ := live'
  rw [at_] at at'
  cases at'
  rfl

omit [DecidableEq A] in
theorem liveBy_put (b : Bucket Unit (Leader A)) (v : Leader A) (now : Int) :
    LiveBy (b.append () (.put v) now) v.agent :=
  ⟨_, b.get_append_put () v now, rfl⟩

theorem Advances.leads (advances : Advances e now at_ e' at') (leads : e'.isLeader = true) :
    (e.isLeader = true ∧ at_ ≠ .released) ∨
      ∃ workerID revision, at_ = .acquired workerID revision := by
  cases advances with
  | acquired workerID revision result => exact .inr ⟨workerID, revision, rfl⟩
  | lost caller result | lostOn workerID | clear workerID | released result | unverified result =>
    cases leads
  | returns at_ result entry =>
    refine .inl ⟨leads, ?_⟩
    rintro rfl
    cases entry
  | _ => exact .inl ⟨leads, by simp⟩

/-- The agent whose entry a goroutine counts on: at its delete, and at an acquisition
that is not yet recorded. -/
def Pc.finds : Pc A → Option A
  | .on a .delete | .on a (.acquired _ _) => some a
  | _ => none

variable {pc : Pc A}

omit [DecidableEq A] in
theorem Pc.agent_of_finds (finds : pc.finds = some a) : pc.agent = some a := by
  unfold Pc.finds at finds
  split at finds
  all_goals cases finds
  all_goals rfl

omit [DecidableEq A] in
theorem Advances.finds (advances : Advances e now at_ e' at')
    (finds : (Pc.on a at').finds = some c) :
    c = a ∧ at_ = .release ∧ e.isLeader = true := by
  cases advances with
  | release leads =>
    cases finds
    exact ⟨rfl, rfl, leads⟩
  | _ => cases finds

def Puts (w : Write Unit (Leader A)) : Prop :=
  (∃ v revision, w = .update () v revision) ∨ ∃ v, w = .create () v

/-- The flag means that the live entry is the agent's, or that a release has just
deleted it. -/
structure Held (s : State (Pool (A → NATSElection) (Pc A) T) Unit (Leader A)) : Prop where
  leads : ∀ a, (s.locals.cells a).isLeader = true →
    LiveBy s.bucket a ∨ ∃ t, s.locals.pcs t = .on a .released
  finds : ∀ t a, (s.locals.pcs t).finds = some a → LiveBy s.bucket a
  pending : ∀ write ∈ s.pending, Puts write

variable {s : State (Pool (A → NATSElection) (Pc A) T) Unit (Leader A)} {t : T}
  {w' : State (A → NATSElection) Unit (Leader A)} {pc' : Pc A} {cells' : A → NATSElection}

omit [DecidableEq A] in
theorem released_stays {pcs : T → Pc A} (there : ∃ u, pcs u = .on c .released)
    (mover : pcs t ≠ .on c .released) : ∃ u, Function.update pcs t pc' u = .on c .released := by
  obtain ⟨u, at_⟩ := there
  refine ⟨u, ?_⟩
  rw [update_of_ne, at_]
  rintro rfl
  exact mover at_

omit [DecidableEq A] in
theorem Held.moves (held : Held s) (keeps : ∀ c, LiveBy s.bucket c → LiveBy w'.bucket c)
    (cells : ∀ c, (w'.locals c).isLeader = true →
      ((s.locals.cells c).isLeader = true ∧ s.locals.pcs t ≠ .on c .released) ∨ LiveBy w'.bucket c)
    (finds : ∀ c, pc'.finds = some c → LiveBy w'.bucket c)
    (pending : ∀ write ∈ w'.pending, Puts write) : Held (settle s t w' pc' none) where
  leads c leads := by
    obtain ⟨was, mover⟩ | live := cells c leads
    · exact (held.leads c was).imp (keeps c) fun there => released_stays there mover
    · exact .inl live
  finds u c there := by
    rw [settle_pcs] at there
    by_cases same : u = t
    · rw [same, update_self] at there
      exact finds c there
    · rw [update_of_ne same] at there
      exact keeps c (held.finds u c there)
  pending := pending

theorem Held.steps (held : Held s) (apart : ∀ u v, u ≠ v → ¬Clash (s.locals.pcs u) (s.locals.pcs v))
    {input} (steps : Steps s.locals.cells s.clock (s.locals.pcs t) input cells' pc') :
    Held (settle s t { world s with locals := cells' } pc' none) := by
  generalize here : s.locals.pcs t = pc at steps
  cases steps with
  | advances a at_ context e' at' advances =>
    refine held.moves (fun _ => id) (fun c leads => ?_) (fun c finds => ?_) held.pending
    · by_cases same : c = a
      · subst same
        obtain ⟨was, mover⟩ | ⟨workerID, revision, rfl⟩ :=
          advances.leads (by simpa only [update_self] using leads)
        · refine .inl ⟨was, ?_⟩
          rw [here]
          simpa using mover
        · exact .inr (held.finds t c (by rw [here]; rfl))
      · refine .inl ⟨by simpa only [update_of_ne same] using leads, ?_⟩
        rw [here]
        simp [Ne.symm same]
    · obtain ⟨rfl, rfl, leads⟩ := advances.finds finds
      obtain live | ⟨u, at_⟩ := held.leads c leads
      · exact live
      · -- a second release would be under way
        have other : u ≠ t := by
          rintro rfl
          rw [at_] at here
          cases here
        exact absurd ⟨c, by rw [at_]; rfl, by rw [here]; rfl, .inl (by rw [at_]; rfl)⟩
          (apart u t other)
  | _ =>
    refine held.moves (fun _ => id) (fun c leads => .inl ⟨leads, ?_⟩) (fun c finds => ?_)
      held.pending
    · rw [here]
      simp
    · cases finds

omit [DecidableEq A] in
/-- A write that is not a delete takes no agent's entry away: a renewal replaces an
entry by one of the same agent, and an acquisition finds none. -/
theorem liveBy_kept {w} (rightful : Rightful b w)
    (accepted : b.accepts w = true) (puts : Puts w) (now : Int) (c : A) (live : LiveBy b c) :
    LiveBy (b.append () w.op now) c := by
  obtain ⟨v, revision, rfl⟩ | ⟨v, rfl⟩ := puts
  · obtain rfl : v.agent = c := LiveBy.unique (rightful.replaces accepted) live
    exact liveBy_put b v now
  · obtain ⟨e, there, _⟩ := live
    rw [Bucket.accepts_create.mp accepted] at there
    cases there

omit [DecidableEq A] in
theorem told_finds {cells} (moved : told cells pc answer = some (cells', pc'))
    (finds : pc'.finds = some c) :
    ∃ workerID text revision, pc = .on c (.create workerID text) ∧ answer = .written revision := by
  obtain ⟨_, ⟨a, at_, at', rfl, heard, rfl⟩ | ⟨_, rfl, _⟩⟩ := told_eq moved
  · unfold answered at heard
    split at heard
    all_goals try split_ifs at heard
    all_goals cases heard
    all_goals try cases finds
    exact ⟨_, _, _, rfl, rfl⟩
  · cases finds

omit [DecidableEq A] in
theorem asks_not_released {request} (asked : asks pc = some request)
    (c : A) : pc ≠ .on c .released := by
  rintro rfl
  cases asked

omit [DecidableEq A] in
theorem Held.deleted (held : Held s)
    (apart : ∀ u v, u ≠ v → ¬Clash (s.locals.pcs u) (s.locals.pcs v))
    (here : s.locals.pcs t = .on a .delete) :
    Held (settle s t { world s with bucket := s.bucket.append () .delete s.clock }
      (.on a .released) none) where
  leads c leads := by
    rw [settle_pcs]
    refine .inr ?_
    obtain live | there := held.leads c leads
    · obtain rfl : a = c := LiveBy.unique (held.finds t a (by rw [here]; rfl)) live
      exact ⟨t, update_self ..⟩
    · exact released_stays there (by rw [here]; simp)
  finds u c there := by
    rw [settle_pcs] at there
    by_cases same : u = t
    · rw [same, update_self] at there
      cases there
    · rw [update_of_ne same] at there
      -- the entry was the one of the releasing agent, which no other call is on
      obtain rfl : a = c := LiveBy.unique (held.finds t a (by rw [here]; rfl)) (held.finds u c there)
      exact absurd ⟨a, Pc.agent_of_finds there, by rw [here]; rfl, .inr (by rw [here]; rfl)⟩ (apart u t same)
  pending := held.pending

omit [DecidableEq A] in
theorem Held.expired (held : Held s) (here : s.locals.pcs t = .expire)
    (timely : ∀ e ∈ s.bucket.get (), (s.locals.cells e.value.agent).isLeader = false ∧
      ∀ u, (s.locals.pcs u).agent ≠ some e.value.agent) :
    Held (settle s t { world s with bucket := s.bucket.append () .delete s.clock } .idle none) where
  leads c leads := by
    rw [settle_pcs]
    obtain ⟨e, live, rfl⟩ | there := held.leads c leads
    · change (s.locals.cells e.value.agent).isLeader = true at leads
      rw [(timely e live).1] at leads
      cases leads
    · exact .inr (released_stays there (by rw [here]; simp))
  finds u c there := by
    rw [settle_pcs] at there
    by_cases same : u = t
    · rw [same, update_self] at there
      cases there
    · rw [update_of_ne same] at there
      obtain ⟨e, live, rfl⟩ := held.finds u c there
      exact absurd (Pc.agent_of_finds there) ((timely e live).2 u)
  pending := held.pending

theorem held_of_reachable (reached : Reachable (elections T A) Timely s) : Held s := by
  refine Reachable.invariant_with
    (K := fun s => (∀ u v, u ≠ v → ¬Clash (s.locals.pcs u) (s.locals.pcs v)) ∧
      Rightly (world s) ∧ ∀ u, Carries s.bucket (s.locals.pcs u))
    (fun s reached => ⟨apart_of_reachable reached, owned_of_reachable reached⟩) ?_ ?_ reached
  · rintro ⟨bucket, pending, clock, cells, pcs⟩ ⟨⟨rfl, rfl, rfl⟩, rests⟩
    refine ⟨fun a leads => ?_, fun t a there => ?_, fun write mem => ?_⟩
    · cases leads
    · rw [rests t] at there
      cases there
    · cases mem
  · intro s a s' known held allowed taken
    obtain ⟨apart, right, carries⟩ := known
    cases Routine.step_moves taken with
    | does t _ w' pc' spawned does fits =>
      cases does with
      | next input turn moved =>
        obtain ⟨steps, none_⟩ := next_steps moved
        rw [none_]
        exact held.steps apart steps
      | wrote write cells pc' asked accepted told =>
        obtain ⟨rfl, _⟩ := told_eq told
        have own := carries t
        have asks := asks_write asked
        generalize here : s.locals.pcs t = pc at own asks asked told
        have not_released := asks_not_released asked
        cases asks with
        | update a caller text revision =>
          cases told
          refine held.moves (liveBy_kept (w := .update () ⟨text, a, false⟩ revision) own accepted (.inl ⟨_, _, rfl⟩) s.clock)
            (fun c leads => .inl ⟨leads, here ▸ not_released c⟩) (fun c finds => ?_)
            held.pending
          cases finds
        | create a workerID text =>
          cases told
          refine held.moves (liveBy_kept (w := .create () ⟨text, a, true⟩) trivial accepted (.inr ⟨_, rfl⟩) s.clock)
            (fun c leads => .inl ⟨leads, here ▸ not_released c⟩) (fun c finds => ?_)
            held.pending
          cases finds
          exact liveBy_put _ _ _
        | delete a =>
          cases told
          exact held.deleted apart here
        | expire =>
          cases told
          exact held.expired here (allowed here)
      | heard _ answer cells pc' hears told =>
        obtain ⟨rfl, _⟩ := told_eq told
        refine held.moves (fun _ => id) (fun c leads => .inl ⟨leads, ?_⟩) (fun c finds => ?_)
          held.pending
        · cases hears with
          | refused _ asked | read _ asked | listed asked | failed _ asked =>
            exact asks_not_released asked c
        · obtain ⟨_, _, revision, _, rfl⟩ := told_finds told finds
          exact absurd hears Hears.not_written
      | late write cells pc' asked told =>
        obtain ⟨rfl, _⟩ := told_eq told
        refine held.moves (fun _ => id)
          (fun c leads => .inl ⟨leads, asks_not_released asked c⟩) (fun c finds => ?_) ?_
        · obtain ⟨_, _, revision, _, written⟩ := told_finds told finds
          cases written
        · refine List.forall_mem_cons.mpr ⟨?_, held.pending⟩
          have asks := asks_write asked
          generalize here : s.locals.pcs t = pc at asks told
          cases asks with
          | update a caller text revision => exact .inl ⟨_, _, rfl⟩
          | create a workerID text => exact .inr ⟨_, rfl⟩
          | delete a => exact absurd here (allowed a)
          | expire => cases told
    | passes _ w' passes =>
      cases passes with
      | tick elapsed => exact ⟨held.leads, held.finds, held.pending⟩
      | land index write waiting accepted =>
        have mem := List.mem_of_getElem? waiting
        have kept := liveBy_kept (right.pending write mem) accepted
          (held.pending write mem) s.clock
        exact ⟨fun c leads => (held.leads c leads).imp_left (kept c),
          fun u c there => kept c (held.finds u c there),
          fun w mem => held.pending w (List.mem_of_mem_eraseIdx mem)⟩

theorem release_removes_own_entry (reached : Reachable (elections T A) Timely s) :
    (∀ t a e, s.locals.pcs t = .on a .delete → s.bucket.get () = some e → e.value.agent = a) ∧
      ∀ write ∈ s.pending, write.op ≠ .delete := by
  have held := held_of_reachable reached
  refine ⟨fun t a e here live => ?_, fun write mem => ?_⟩
  · exact LiveBy.unique ⟨e, live, rfl⟩ (held.finds t a (by rw [here]; rfl))
  · obtain ⟨v, revision, rfl⟩ | ⟨v, rfl⟩ := held.pending write mem <;> simp [Write.op]

instance timelyDecidable [Fintype T] [Fintype A]
    (s : State (Pool (A → NATSElection) (Pc A) T) Unit (Leader A)) :
    ∀ a : Action T (T × Input A), Decidable (Timely s a)
  | .call (_, .release a) => inferInstanceAs (Decidable (∀ u, (s.locals.pcs u).agent ≠ some a))
  | .call (_, .request a _ _) | .call (_, .renew a) | .call (_, .isLeader a)
  | .call (_, .check a _) => inferInstanceAs (Decidable (∀ u, (s.locals.pcs u).releases ≠ some a))
  | .step t .served => inferInstanceAs
      (Decidable (s.locals.pcs t = .expire → ∀ e ∈ s.bucket.get (),
        (s.locals.cells e.value.agent).isLeader = false ∧
          ∀ u, (s.locals.pcs u).agent ≠ some e.value.agent))
  | .step t .unanswered => inferInstanceAs (Decidable (∀ a, s.locals.pcs t ≠ .on a .delete))
  | .call (_, .expire) | .call (_, .go _) | .step _ .failed | .land _ | .tick _ => isTrue trivial

/-- The agent has acquired the key and its release is about to delete it. -/
theorem release_removes_own_entry_after_request :
    ∃ (s : State (Pool (Bool → NATSElection) (Pc Bool) (Fin 2)) Unit (Leader Bool)) (e : _),
      Reachable (elections (Fin 2) Bool) Timely s ∧ s.locals.pcs 0 = .on true .delete ∧
        s.bucket.get () = some e ∧ e.value.agent = true := by
  obtain ⟨s, reached, here, some_⟩ := exists_reachable Timely (fresh_init (T := Fin 2))
    (leads 0 true [97] ++ releases 0 true) (fun s => s.locals.pcs 0 = .on true .delete ∧
      (s.bucket.get ()).isSome = true) (by decide)
  obtain ⟨e, live⟩ := Option.isSome_iff_exists.mp some_
  exact ⟨s, e, reached, here, live, (release_removes_own_entry reached).1 0 true e here live⟩

def expiredAndTaken {T : Type} (t u : T) : List (Action T (T × Input Bool)) :=
  leads t true [97] ++ [.call (u, .expire), .step u .served] ++ leads u false [98] ++
    releases t true

theorem release_unseats_successor :
    ∃ (s s' : State (Pool (Bool → NATSElection) (Pc Bool) (Fin 2)) Unit (Leader Bool)) (e : _),
      Reachable (elections (Fin 2) Bool) Free s ∧ s.locals.pcs 0 = .on true .delete ∧
        s.bucket.get () = some e ∧ e.value.agent = false ∧
        (elections (Fin 2) Bool).step s (.step 0 .served) = some s' ∧ s'.bucket.get () = none := by
  obtain ⟨s, s', reached, taken, here, writer, gone⟩ := exists_reachable_step Free
    (fresh_init (T := Fin 2)) (expiredAndTaken 0 1) (.step 0 .served) (fun s s' => s.locals.pcs 0 = .on true .delete ∧
      (s.bucket.get ()).map (fun e => e.value.agent) = some false ∧ s'.bucket.get () = none)
    (by decide)
  obtain ⟨e, live, by_⟩ := Option.map_eq_some_iff.mp writer
  exact ⟨s, s', e, reached, here, live, by_, taken, gone⟩

end Parti.Election
