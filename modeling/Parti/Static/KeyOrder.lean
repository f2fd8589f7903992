/-
# Static.KeyOrder — per-key order of the key dispatcher

Exiting, re-created and draining workers of one key are around at the same time. A message
is sent and the worker looked up in one critical section, and an idle worker checks its
channel and leaves the map in one. So the worker in the map is the only one with messages.

That is the invariant, key by key (`Flows`): the accepted messages are those handled, then the
one in hand, then the channel of the worker in the map.

`dispatch_keeps_order` says what holds of every key: its messages are handled one at a time
in the order of dispatch, by the worker in the map and nobody else, and when `Close` has
returned nil all of them were, each once.
-/
import Parti.Static.KeyDispatcher

namespace Parti.Static

open Lib Function WorkerPc List Option

/-! ## The messages of one key -/

section Flow

variable {K M : Type} [DecidableEq K] (key : M → K)

def ofKey (k : K) (msgs : List M) : List M := msgs.filter fun msg => key msg = k

def handledOf (k : K) (calls : List (Handling M)) : List (Handling M) :=
  calls.filter fun call => key call.msg = k

def handling (msg : M) : List (Handling M) := [.start msg, .finish msg]

variable {key} {k : K} {msg : M}

theorem ofKey_append_of_eq (same : key msg = k) (msgs : List M) :
    ofKey key k (msgs ++ [msg]) = ofKey key k msgs ++ [msg] := by
  simp [ofKey, same]

theorem ofKey_append_of_ne (other : key msg ≠ k) (msgs : List M) :
    ofKey key k (msgs ++ [msg]) = ofKey key k msgs := by
  simp [ofKey, other]

theorem handledOf_append_of_eq (call : Handling M) (same : key call.msg = k)
    (calls : List (Handling M)) :
    handledOf key k (calls ++ [call]) = handledOf key k calls ++ [call] := by
  simp [handledOf, same]

theorem handledOf_append_of_ne {call} (other : key call.msg ≠ k) (calls : List (Handling M)) :
    handledOf key k (calls ++ [call]) = handledOf key k calls := by
  simp [handledOf, other]

end Flow

namespace WorkerPc

variable {M : Type} {pc : WorkerPc M}

def serves : WorkerPc M → Bool
  | .select | .drain | .process _ _ => true
  | _ => false

def inHand : WorkerPc M → List M
  | .process msg _ => [msg]
  | _ => []

def draining : WorkerPc M → Bool
  | .drain | .process _ true => true
  | _ => false

def running : WorkerPc M → Bool
  | .exited => false
  | _ => true

theorem serves_of_draining (draining : pc.draining = true) : pc.serves = true := by
  cases pc <;> first | rfl | cases draining

theorem running_of_serves (serves : pc.serves = true) : pc.running = true := by
  cases pc <;> first | rfl | cases serves

end WorkerPc

/-- The wait of `Close` was over. -/
def ClosePc.isOver : ClosePc → Bool
  | .drained | .returned true => true
  | _ => false

section Invariant

variable {K M : Type} [DecidableEq K] (key : M → K)

/-- Worker `i` is the one of key `k`: of the accepted messages some were handled, then comes
the one in hand, and the rest is in the channel. -/
structure Serves (s : KeyDispatcher K M) (k : K) (i : Nat) (w : KeyWorker K M) : Prop where
  here : s.started[i]? = some w
  mine : w.key = k
  place : w.pc.serves = true ∨ w.pc = .removing ∧ s.cancelled = true
  flow : ∃ past, ofKey key k s.accepted = past ++ (w.pc.inHand ++ w.msgCh) ∧
    handledOf key k s.handled = past.flatMap handling ++ w.pc.inHand.map .start

/-- A key without a worker has nothing to handle. -/
def Flows (s : KeyDispatcher K M) (k : K) : Prop :=
  s.workers k = none ∧ handledOf key k s.handled = (ofKey key k s.accepted).flatMap handling ∨
    ∃ i w, s.workers k = some i ∧ Serves key s k i w

structure Orderly (s : KeyDispatcher K M) : Prop where
  flows : ∀ k, Flows key s k
  registered : ∀ (i : Nat) (w : KeyWorker K M), s.started[i]? = some w → w.pc.serves = true →
    s.workers w.key = some i
  empty : ∀ (i : Nat) (w : KeyWorker K M), s.started[i]? = some w → w.pc.serves = false →
    w.msgCh = []
  drains : ∀ (i : Nat) (w : KeyWorker K M), s.started[i]? = some w → w.pc.draining = true →
    s.cancelled = true
  stopped : s.cancelled = true → s.dispatch = .stopped
  begun : s.close ≠ .start → s.cancelled = true
  count : s.wg = s.started.countP fun w => w.pc.running
  waited : s.close.isOver = true → s.wg = 0

end Invariant

section Preservation

variable {K M : Type} [DecidableEq K] {key : M → K} {s s' : KeyDispatcher K M} {i : Nat}
  {w w' : KeyWorker K M} {k : K} {draining : Bool} {msg : M} {pc : WorkerPc M}

theorem Orderly.serving (orderly : Orderly key s) (registered : s.workers k = some i)
    (here : s.started[i]? = some w) : Serves key s k i w := by
  rcases orderly.flows k with ⟨none, _⟩ | ⟨i', w', some, serves⟩
  · rw [registered] at none
    cases none
  · rw [registered] at some
    cases some
    have same := serves.here
    rw [here] at same
    cases same
    exact serves

theorem Orderly.unregistered (orderly : Orderly key s) (here : s.started[i]? = some w)
    (idle : w.pc.serves = false) (place : w.pc ≠ .removing) : s.workers k ≠ some i := by
  intro registered
  rcases (orderly.serving registered here).place with serves | ⟨removing, _⟩
  · rw [idle] at serves
    cases serves
  · exact place removing

theorem Orderly.elsewhere (orderly : Orderly key s) (here : s.started[i]? = some w)
    (other : k ≠ w.key) : s.workers k ≠ some i :=
  fun registered => other (orderly.serving registered here).mine.symm

theorem Flows.frame (flows : Flows key s k) (workers : s'.workers k = s.workers k)
    (kept : ∀ (j : Nat) (v : KeyWorker K M), s.workers k = some j → s.started[j]? = some v →
      s'.started[j]? = some v)
    (accepted : ofKey key k s'.accepted = ofKey key k s.accepted)
    (handled : handledOf key k s'.handled = handledOf key k s.handled)
    (cancelled : s.cancelled = true → s'.cancelled = true) : Flows key s' k := by
  rcases flows with ⟨none, done⟩ | ⟨j, v, some, serves⟩
  · exact .inl ⟨workers.trans none, by rw [handled, accepted]; exact done⟩
  · refine .inr ⟨j, v, workers.trans some, kept j v some serves.here, serves.mine, ?_, ?_⟩
    · exact serves.place.imp id fun removing => ⟨removing.1, cancelled removing.2⟩
    · rw [accepted, handled]
      exact serves.flow

theorem Orderly.pos (orderly : Orderly key s) (here : s.started[i]? = some w)
    (running : w.pc.running = true) : 0 < s.wg := by
  rw [orderly.count]
  exact countP_pos_iff.mpr ⟨w, mem_of_getElem? here, running⟩

/-- What a step does that takes worker `i` from `w` to `w'`, apart from the flow of its key. -/
structure Moves (key : M → K) (s s' : KeyDispatcher K M) (i : Nat) (w w' : KeyWorker K M) :
    Prop where
  here : s.started[i]? = some w
  registered : w'.pc.serves = true → s'.workers w.key = some i
  empty : w'.pc.serves = false → w'.msgCh = []
  drains : w'.pc.draining = true → s.cancelled = true
  running : w.pc.running = true
  count : w'.pc.running = true ∧ s'.wg = s.wg ∨ w'.pc.running = false ∧ s'.wg = s.wg - 1 := by
    exact .inl ⟨rfl, rfl⟩
  /-- Only the worker itself leaves the map. -/
  kept : ∀ j, j ≠ i → s.workers w.key = some j → s'.workers w.key = some j := by
    exact fun _ _ same => same
  put : s'.started = s.started.set i w' := by rfl
  mine : w'.key = w.key := by rfl
  workers : ∀ k, k ≠ w.key → s'.workers k = s.workers k := by exact fun _ _ => rfl
  accepted : ∀ k, k ≠ w.key → ofKey key k s'.accepted = ofKey key k s.accepted := by
    exact fun _ _ => rfl
  handled : ∀ k, k ≠ w.key → handledOf key k s'.handled = handledOf key k s.handled := by
    exact fun _ _ => rfl
  cancelled : s'.cancelled = s.cancelled := by rfl
  stopped : s.cancelled = true → s'.dispatch = s.dispatch := by exact fun _ => rfl
  close : s'.close = s.close := by rfl

theorem Moves.get (moves : Moves key s s' i w w') {j : Nat} {v}
    (found : s'.started[j]? = some v) : j = i ∧ v = w' ∨ j ≠ i ∧ s.started[j]? = some v := by
  rw [moves.put] at found
  by_cases same : j = i
  · subst same
    have bound := (List.getElem?_eq_some_iff.mp moves.here).1
    rw [List.getElem?_set_self bound] at found
    exact .inl ⟨rfl, (some.inj found).symm⟩
  · rw [List.getElem?_set_ne (Ne.symm same)] at found
    exact .inr ⟨same, found⟩

theorem Moves.frame (moves : Moves key s s' i w w') (flows : Flows key s k)
    (other : s.workers k ≠ some i) (workers : s'.workers k = s.workers k)
    (accepted : ofKey key k s'.accepted = ofKey key k s.accepted)
    (handled : handledOf key k s'.handled = handledOf key k s.handled) : Flows key s' k := by
  refine flows.frame workers (fun j v registered found => ?_) accepted handled
    fun cancelled => moves.cancelled.trans cancelled
  have apart : i ≠ j := fun same => other (same ▸ registered)
  rw [moves.put, List.getElem?_set_ne apart]
  exact found

theorem Orderly.moves (orderly : Orderly key s) (moves : Moves key s s' i w w')
    (flows : Flows key s' w.key) : Orderly key s' where
  flows k := by
    by_cases same : k = w.key
    · exact same ▸ flows
    · exact moves.frame (orderly.flows k) (orderly.elsewhere moves.here same)
        (moves.workers k same) (moves.accepted k same) (moves.handled k same)
  registered j v found serves := by
    rcases moves.get found with ⟨rfl, rfl⟩ | ⟨other, found⟩
    · rw [moves.mine]
      exact moves.registered serves
    · have before := orderly.registered j v found serves
      by_cases same : v.key = w.key
      · rw [same] at before ⊢
        exact moves.kept j other before
      · rw [moves.workers v.key same]
        exact before
  empty j v found idle := by
    rcases moves.get found with ⟨rfl, rfl⟩ | ⟨_, found⟩
    · exact moves.empty idle
    · exact orderly.empty j v found idle
  drains j v found draining := by
    rw [moves.cancelled]
    rcases moves.get found with ⟨rfl, rfl⟩ | ⟨_, found⟩
    · exact moves.drains draining
    · exact orderly.drains j v found draining
  stopped cancelled := by
    rw [moves.cancelled] at cancelled
    rw [moves.stopped cancelled]
    exact orderly.stopped cancelled
  begun started := by
    rw [moves.cancelled]
    rw [moves.close] at started
    exact orderly.begun started
  count := by
    have positive := orderly.pos moves.here moves.running
    have before := orderly.count
    obtain ⟨bound, here⟩ := List.getElem?_eq_some_iff.mp moves.here
    rw [moves.put, countP_set bound, here, ← before, moves.running]
    rcases moves.count with ⟨running, same⟩ | ⟨running, fewer⟩
    · simp only [running, if_true]
      omega
    · simpa [running] using fewer
  waited closed := by
    rw [moves.close] at closed
    have zero := orderly.waited closed
    rcases moves.count with ⟨_, same⟩ | ⟨_, fewer⟩ <;> omega

theorem Serves.key_eq (serves : Serves key s k i w) (mem : msg ∈ w.pc.inHand ++ w.msgCh) :
    key msg = k := by
  obtain ⟨past, accepted, _⟩ := serves.flow
  have among : msg ∈ ofKey key k s.accepted := by
    rw [accepted]
    exact mem_append_right past mem
  simpa [ofKey] using (mem_filter.mp among).2

theorem Moves.flows (moves : Moves key s s' i w w') (registered : s'.workers w.key = some i)
    (place : w'.pc.serves = true ∨ w'.pc = .removing ∧ s.cancelled = true) (past : List M)
    (accepted : ofKey key w.key s'.accepted = past ++ (w'.pc.inHand ++ w'.msgCh))
    (handled : handledOf key w.key s'.handled = past.flatMap handling ++ w'.pc.inHand.map .start) :
    Flows key s' w.key := by
  refine .inr ⟨i, w', registered, ?_, moves.mine, ?_, past, accepted, handled⟩
  · rw [moves.put]
    exact List.getElem?_set_self (List.getElem?_eq_some_iff.mp moves.here).1
  · rw [moves.cancelled]
    exact place

theorem Moves.flows_left (moves : Moves key s s' i w w') (orderly : Orderly key s)
    (left : s.workers w.key ≠ some i) (workers : s'.workers = s.workers)
    (accepted : s'.accepted = s.accepted) (handled : s'.handled = s.handled) :
    Flows key s' w.key :=
  moves.frame (orderly.flows w.key) left (by rw [workers]) (by rw [accepted]) (by rw [handled])

theorem Orderly.receive (orderly : Orderly key s) (here : s.started[i]? = some w) {rest : List M}
    (serves : w.pc.serves = true) (free : w.pc.inHand = []) (first : w.msgCh = msg :: rest)
    (drains : draining = true → s.cancelled = true) :
    Orderly key (s.receive i w draining msg rest) := by
  have registered := orderly.registered i w here serves
  have served := orderly.serving registered here
  have mine : key msg = w.key := served.key_eq (by simp [first])
  obtain ⟨past, accepted, handled⟩ := served.flow
  rw [free] at accepted handled
  have moves : Moves key s (s.receive i w draining msg rest) i w
      { w with msgCh := rest, pc := .process msg draining } :=
    { here := here
      registered := fun _ => registered
      empty := nofun
      drains := fun draining' => drains (by cases draining <;> first | rfl | cases draining')
      running := running_of_serves serves
      handled := fun k other => handledOf_append_of_ne (fun same => other (same.symm.trans mine)) _ }
  refine orderly.moves moves (moves.flows registered (.inl rfl) past ?_ ?_)
  · exact accepted.trans (by rw [first]; rfl)
  · refine (handledOf_append_of_eq (.start msg) mine s.handled).trans ?_
    rw [handled]
    simp [inHand]

theorem Orderly.finish (orderly : Orderly key s) (here : s.started[i]? = some w)
    (place : w.pc = .process msg draining) :
    Orderly key ((s.put i { w with pc := if draining then .drain else .select }).record
      (.finish msg)) := by
  have serves : w.pc.serves = true := by rw [place]; rfl
  have registered := orderly.registered i w here serves
  have served := orderly.serving registered here
  have mine : key msg = w.key := served.key_eq (by simp [place, inHand])
  obtain ⟨past, accepted, handled⟩ := served.flow
  rw [place] at accepted handled
  have back : ∀ draining : Bool, (if draining then .drain else .select : WorkerPc M).serves = true ∧
      (if draining then .drain else .select : WorkerPc M).inHand = [] ∧
      (if draining then .drain else .select : WorkerPc M).running = true := by
    intro draining
    cases draining <;> exact ⟨rfl, rfl, rfl⟩
  obtain ⟨serves', free, running⟩ := back draining
  have moves : Moves key s ((s.put i { w with pc := if draining then .drain else .select }).record
      (.finish msg)) i w { w with pc := if draining then .drain else .select } :=
    { here := here
      registered := fun _ => registered
      empty := fun idle => by rw [serves'] at idle; cases idle
      drains := fun draining' => by
        refine orderly.drains i w here ?_
        rw [place]
        cases draining <;> first | rfl | cases draining'
      running := running_of_serves serves
      count := .inl ⟨running, rfl⟩
      handled := fun k other => handledOf_append_of_ne (fun same => other (same.symm.trans mine)) _ }
  refine orderly.moves moves (moves.flows registered (.inl serves') (past ++ [msg]) ?_ ?_)
  · rw [free]
    exact accepted.trans (by simp [inHand])
  · refine (handledOf_append_of_eq (.finish msg) mine s.handled).trans ?_
    rw [handled, free]
    simp [inHand, handling]

theorem Orderly.leavesMap (orderly : Orderly key s) (here : s.started[i]? = some w)
    (registered : s.workers w.key = some i) (free : w.pc.inHand = []) (empty : w.msgCh = [])
    (running : w.pc.running = true) (idle : pc.serves = false) (running' : pc.running = true) :
    Orderly key ((s.put i { w with pc := pc }).remove w.key) := by
  obtain ⟨past, accepted, handled⟩ := (orderly.serving registered here).flow
  rw [free, empty, append_nil, append_nil] at accepted
  rw [free, map_nil, append_nil, ← accepted] at handled
  have moves : Moves key s ((s.put i { w with pc := pc }).remove w.key) i w { w with pc := pc } :=
    { here := here
      registered := fun serves => by
        rw [idle] at serves
        cases serves
      empty := fun _ => empty
      drains := fun draining => by
        rw [serves_of_draining draining] at idle
        cases idle
      running := running
      count := .inl ⟨running', rfl⟩
      workers := fun k other => update_of_ne other ..
      kept := fun j other same => absurd (some.inj (same.symm.trans registered)) other }
  exact orderly.moves moves (.inl ⟨update_self .., handled⟩)

theorem Orderly.cancelled (orderly : Orderly key s) (here : s.started[i]? = some w)
    (serves : w.pc.serves = true) (free : w.pc.inHand = []) (cancelled : s.cancelled = true)
    (free' : pc.inHand = []) (running : pc.running = true)
    (place : pc.serves = true ∨ pc = .removing) (empty : pc.serves = false → w.msgCh = []) :
    Orderly key (s.put i { w with pc := pc }) := by
  have registered := orderly.registered i w here serves
  obtain ⟨past, accepted, handled⟩ := (orderly.serving registered here).flow
  have moves : Moves key s (s.put i { w with pc := pc }) i w { w with pc := pc } :=
    { here := here
      registered := fun _ => registered
      empty := empty
      drains := fun _ => cancelled
      running := running_of_serves serves
      count := .inl ⟨running, rfl⟩ }
  refine orderly.moves moves (moves.flows registered (place.imp id fun same => ⟨same, cancelled⟩)
    past ?_ ?_)
  · rw [free']
    rw [free] at accepted
    exact accepted
  · rw [free']
    rw [free] at handled
    exact handled

theorem Orderly.removed (orderly : Orderly key s) (here : s.started[i]? = some w)
    (place : w.pc = .removing) :
    Orderly key ((s.put i { w with pc := .ending }).removeWorker i w) := by
  have empty : w.msgCh = [] := orderly.empty i w here (by rw [place]; rfl)
  unfold KeyDispatcher.removeWorker
  split
  next registered =>
    exact orderly.leavesMap here registered (by rw [place]; rfl) empty (by rw [place]; rfl) rfl rfl
  next unregistered =>
    have moves : Moves key s (s.put i { w with pc := .ending }) i w { w with pc := .ending } :=
      { here := here
        registered := nofun
        empty := fun _ => empty
        drains := nofun
        running := by rw [place]; rfl }
    exact orderly.moves moves (moves.flows_left orderly unregistered rfl rfl rfl)

theorem Orderly.leaves (orderly : Orderly key s) (here : s.started[i]? = some w)
    (idle : w.pc.serves = false) (place : w.pc ≠ .removing) (running : w.pc.running = true)
    (put : s'.started = s.started.set i w') (same : w'.key = w.key ∧ w'.msgCh = w.msgCh)
    (idle' : w'.pc.serves = false)
    (count : w'.pc.running = true ∧ s'.wg = s.wg ∨ w'.pc.running = false ∧ s'.wg = s.wg - 1)
    (rest : s' = { s with started := s'.started, wg := s'.wg }) : Orderly key s' := by
  have empty := orderly.empty i w here idle
  have moves : Moves key s s' i w w' :=
    { here := here
      registered := fun serves => by rw [idle'] at serves; cases serves
      empty := fun _ => same.2.trans empty
      drains := fun draining => by
        rw [serves_of_draining draining] at idle'
        cases idle'
      running := running
      count := count
      kept := fun j _ registered => by rw [rest]; exact registered
      put := put
      mine := same.1
      workers := fun k _ => by rw [rest]
      accepted := fun k _ => by rw [rest]
      handled := fun k _ => by rw [rest]
      cancelled := by rw [rest]
      stopped := fun _ => by rw [rest]
      close := by rw [rest] }
  refine orderly.moves moves (moves.flows_left orderly (orderly.unregistered here idle place) ?_ ?_ ?_)
  · rw [rest]
  · rw [rest]
  · rw [rest]

theorem Orderly.worker (orderly : Orderly key s) (here : s.started[i]? = some w)
    (step : WorkerStep s i w s') : Orderly key s' := by
  cases step with
  | receive place first =>
    exact orderly.receive here (by rw [place]; rfl) (by rw [place]; rfl) first (by simp)
  | drain place first =>
    have cancelled := orderly.drains i w here (by rw [place]; rfl)
    exact orderly.receive here (by rw [place]; rfl) (by rw [place]; rfl) first fun _ => cancelled
  | finish place => exact orderly.finish here place
  | busy => exact orderly
  | expire place empty =>
    exact orderly.leavesMap here (orderly.registered i w here (by rw [place]; rfl))
      (by rw [place]; rfl) empty (by rw [place]; rfl) rfl rfl
  | cancel place cancelled =>
    exact orderly.cancelled here (by rw [place]; rfl) (by rw [place]; rfl) cancelled rfl rfl
      (.inl rfl) (nofun)
  | drained place empty =>
    have cancelled := orderly.drains i w here (by rw [place]; rfl)
    exact orderly.cancelled here (by rw [place]; rfl) (by rw [place]; rfl) cancelled rfl rfl
      (.inr rfl) fun _ => empty
  | closes place | ended place =>
    exact orderly.leaves here (by rw [place]; rfl) (by simp [place]) (by rw [place]; rfl) rfl
      ⟨rfl, rfl⟩ rfl (.inl ⟨rfl, rfl⟩) rfl
  | removed place => exact orderly.removed here place
  | left place =>
    exact orderly.leaves here (by rw [place]; rfl) (by simp [place]) (by rw [place]; rfl) rfl
      ⟨rfl, rfl⟩ rfl (.inr ⟨rfl, rfl⟩) rfl

/-- `Dispatch` runs only while the dispatcher is open, and then the worker in the map is in
its loop: what is sent will be received. -/
theorem Orderly.send (orderly : Orderly key s) (running : s.dispatch ≠ .stopped)
    (registered : s.workers (key msg) = some i) (here : s.started[i]? = some w) :
    Orderly key (s.send i w msg) := by
  have served := orderly.serving registered here
  have isOpen : s.cancelled ≠ true := fun cancelled => running (orderly.stopped cancelled)
  have serves : w.pc.serves = true := served.place.resolve_right fun removing => isOpen removing.2
  obtain ⟨past, accepted, handled⟩ := served.flow
  have mine : w.key = key msg := served.mine
  have moves : Moves key s (s.send i w msg) i w { w with msgCh := w.msgCh ++ [msg] } :=
    { here := here
      registered := fun _ => mine ▸ registered
      empty := fun idle => by
        rw [show w.pc.serves = false from idle] at serves
        cases serves
      drains := orderly.drains i w here
      running := running_of_serves serves
      count := .inl ⟨running_of_serves serves, rfl⟩
      accepted := fun k other => ofKey_append_of_ne (fun same => other (same.symm.trans mine.symm)) _
      stopped := fun cancelled => absurd cancelled isOpen }
  refine orderly.moves moves (moves.flows (mine ▸ registered) (.inl serves) past ?_ ?_)
  · rw [mine]
    refine (ofKey_append_of_eq rfl s.accepted).trans ?_
    rw [accepted]
    simp
  · rw [mine]
    exact handled

theorem Orderly.create (orderly : Orderly key s) (running : s.dispatch ≠ .stopped)
    (free : s.workers (key msg) = none) :
    Orderly key { s.createWorker (key msg) with dispatch := .look msg } := by
  have isOpen : s.cancelled ≠ true := fun cancelled => running (orderly.stopped cancelled)
  have get : ∀ {j : Nat} {v : KeyWorker K M},
      (s.started ++ [⟨key msg, [], false, false, .select⟩])[j]? = some v →
        s.started[j]? = some v ∨ j = s.started.length ∧ v = ⟨key msg, [], false, false, .select⟩ := by
    intro j v found
    rcases Nat.lt_trichotomy j s.started.length with below | same | above
    · rw [List.getElem?_append_left below] at found
      exact .inl found
    · subst same
      rw [List.getElem?_concat_length] at found
      exact .inr ⟨rfl, (some.inj found).symm⟩
    · rw [List.getElem?_eq_none (by simp; omega)] at found
      cases found
  refine ⟨fun k => ?_, fun j v found serves => ?_, fun j v found idle => ?_,
    fun j v found draining => ?_, fun cancelled => absurd cancelled isOpen, orderly.begun, ?_,
    fun isOver => ?_⟩
  · by_cases same : k = key msg
    · subst same
      have done : handledOf key (key msg) s.handled =
          (ofKey key (key msg) s.accepted).flatMap handling := by
        rcases orderly.flows (key msg) with ⟨_, done⟩ | ⟨j, _, some, _⟩
        · exact done
        · rw [free] at some
          cases some
      refine .inr ⟨s.started.length, ⟨key msg, [], false, false, .select⟩, update_self ..,
        List.getElem?_concat_length .., rfl, .inl rfl, ofKey key (key msg) s.accepted, ?_, ?_⟩
      · simp [inHand, KeyDispatcher.createWorker]
      · exact done.trans (by simp [inHand])
    · refine (orderly.flows k).frame (update_of_ne same ..) (fun j v _ found => ?_) rfl rfl id
      exact (List.getElem?_append_left (List.getElem?_eq_some_iff.mp found).1).trans found
  · rcases get found with found | ⟨rfl, rfl⟩
    · have registered := orderly.registered j v found serves
      have other : v.key ≠ key msg := by
        intro same
        rw [same, free] at registered
        cases registered
      exact (update_of_ne other ..).trans registered
    · exact update_self ..
  · rcases get found with found | ⟨rfl, rfl⟩
    · exact orderly.empty j v found idle
    · cases idle
  · rcases get found with found | ⟨rfl, rfl⟩
    · exact orderly.drains j v found draining
    · cases draining
  · have count := orderly.count
    simp only [KeyDispatcher.createWorker, countP_append, countP_singleton, count]
    rfl
  · have isOver : s.close.isOver = true := isOver
    refine absurd (orderly.begun fun start => ?_) isOpen
    rw [start] at isOver
    cases isOver

theorem Orderly.step (orderly : Orderly key s) (step : DispatcherStep key s s') :
    Orderly key s' := by
  have same : ∀ (k : K) (pc : DispatchPc M) (close : ClosePc) (cancelled : Bool),
      (s.cancelled = true → cancelled = true) →
      Flows key { s with dispatch := pc, close := close, cancelled := cancelled } k :=
    fun k _ _ _ cancelled => (orderly.flows k).frame rfl (fun _ _ _ found => found) rfl rfl cancelled
  cases step with
  | moved running =>
    have isOpen : s.cancelled ≠ true := fun cancelled => running (orderly.stopped cancelled)
    exact ⟨fun k => same k _ _ _ id, orderly.registered, orderly.empty, orderly.drains,
      fun cancelled => absurd cancelled isOpen, orderly.begun, orderly.count, orderly.waited⟩
  | create running free => exact orderly.create running free
  | send running registered here => exact orderly.send running registered here
  | worker here moves => exact orderly.worker here moves
  | cancel stopped =>
    exact ⟨fun k => same k _ _ _ fun _ => rfl, orderly.registered, orderly.empty,
      fun _ _ _ _ => rfl, fun _ => stopped, fun _ => rfl, orderly.count, nofun⟩
  | waited waiting zero =>
    exact ⟨fun k => same k _ _ _ id, orderly.registered, orderly.empty, orderly.drains,
      orderly.stopped, fun _ => orderly.begun (by simp [waiting]), orderly.count, fun _ => zero⟩
  | @returned ok waited begun =>
    refine ⟨fun k => same k _ _ _ id, orderly.registered, orderly.empty, orderly.drains,
      orderly.stopped, fun _ => orderly.begun begun, orderly.count, fun isOver => ?_⟩
    cases ok with
    | true => exact orderly.waited (by rw [waited rfl]; rfl)
    | false => cases isOver

theorem orderly_of_reachable {channelBuf : Int}
    (reached : Reachable (keyDispatcher key channelBuf) AfterDispatch s) : Orderly key s := by
  refine Reachable.invariant (I := Orderly key) ?_ ?_ reached
  · rintro s rfl
    refine ⟨fun k => .inl ⟨rfl, rfl⟩, ?_, ?_, ?_, ?_, ?_, rfl, ?_⟩
    · intro i w found
      cases found
    · intro i w found
      cases found
    · intro i w found
      cases found
    · intro cancelled
      cases cancelled
    · intro started
      exact absurd rfl started
    · intro isOver
      cases isOver
  · intro s event s' orderly after taken
    exact orderly.step (dispatcher_step after taken)

end Preservation

/-! ## Every run -/

section Runs

variable {K M : Type} [DecidableEq K] {key : M → K} {s : KeyDispatcher K M}

/-- The calls of the handler are those of the first messages, one after the other; the last
of them may be running. -/
def OneAtATime (msgs : List M) (calls : List (Handling M)) : Prop :=
  ∃ past ahead, msgs = past ++ ahead ∧
    (calls = past.flatMap handling ∨
      ∃ msg rest, ahead = msg :: rest ∧ calls = past.flatMap handling ++ [.start msg])

theorem Flows.oneAtATime {k : K} (flows : Flows key s k) :
    OneAtATime (ofKey key k s.accepted) (handledOf key k s.handled) := by
  rcases flows with ⟨_, done⟩ | ⟨i, w, _, serves⟩
  · exact ⟨ofKey key k s.accepted, [], by simp, .inl done⟩
  · obtain ⟨past, accepted, handled⟩ := serves.flow
    cases hand : w.pc.inHand with
    | nil =>
      rw [hand] at accepted handled
      exact ⟨past, w.msgCh, accepted, .inl (by simpa using handled)⟩
    | cons msg rest =>
      -- a worker has at most one message in hand
      have one : rest = [] := by
        cases pc : w.pc <;> rw [pc] at hand <;> cases hand
        rfl
      rw [hand, one] at accepted handled
      exact ⟨past, msg :: w.msgCh, accepted, .inr ⟨msg, w.msgCh, rfl, handled⟩⟩

theorem Orderly.all_handled (orderly : Orderly key s) (isOver : s.close.isOver = true) (k : K) :
    handledOf key k s.handled = (ofKey key k s.accepted).flatMap handling := by
  rcases orderly.flows k with ⟨_, done⟩ | ⟨i, w, _, serves⟩
  · exact done
  · have running : w.pc.running = true := by
      rcases serves.place with serves | ⟨removing, _⟩
      · exact running_of_serves serves
      · rw [removing]
        rfl
    have positive := orderly.pos serves.here running
    rw [orderly.waited isOver] at positive
    cases positive

/-- **`Close` leaves no worker behind**: when its wait is over, every worker goroutine that was
ever started has exited, with an empty channel. -/
theorem close_joins_workers {channelBuf : Int}
    (reached : Reachable (keyDispatcher key channelBuf) AfterDispatch s)
    (isOver : s.close.isOver = true) : ∀ w ∈ s.started, w.pc = .exited ∧ w.msgCh = [] := by
  intro w mem
  obtain ⟨i, here⟩ := mem_iff_getElem?.mp mem
  have orderly := orderly_of_reachable reached
  have exited : w.pc = .exited := by
    cases pc : w.pc with
    | exited => rfl
    | _ =>
      have positive := orderly.pos here (by rw [pc]; rfl)
      rw [orderly.waited isOver] at positive
      cases positive
  exact ⟨exited, orderly.empty i w here (by rw [exited]; rfl)⟩

variable [DecidableEq M]

theorem count_handling {call : M → Handling M}
    (once : ∀ first msg, (handling first).count (call msg) = if first = msg then 1 else 0)
    (msgs : List M) (msg : M) : (msgs.flatMap handling).count (call msg) = msgs.count msg := by
  induction msgs with
  | nil => rfl
  | cons first rest ih =>
    rw [flatMap_cons, count_append, ih, count_cons, once, Nat.add_comm]
    simp

theorem Orderly.once (orderly : Orderly key s) (isOver : s.close.isOver = true) (msg : M) :
    s.handled.count (.start msg) = s.accepted.count msg ∧
      s.handled.count (.finish msg) = s.accepted.count msg := by
  have all := orderly.all_handled isOver (key msg)
  have accepted : (ofKey key (key msg) s.accepted).count msg = s.accepted.count msg :=
    count_filter (by simp)
  have start : (handledOf key (key msg) s.handled).count (.start msg) =
      s.handled.count (.start msg) := count_filter (by simp [Handling.msg])
  have finish : (handledOf key (key msg) s.handled).count (.finish msg) =
      s.handled.count (.finish msg) := count_filter (by simp [Handling.msg])
  constructor
  · rw [← start, all, count_handling (by simp [handling, count_cons]), accepted]
  · rw [← finish, all, count_handling (by simp [handling, count_cons]), accepted]

theorem dispatch_keeps_order {channelBuf : Int}
    (reached : Reachable (keyDispatcher key channelBuf) AfterDispatch s) :
    (∀ k, OneAtATime (ofKey key k s.accepted) (handledOf key k s.handled)) ∧
      (s.close = .returned true → ∀ msg, s.handled.count (.start msg) = s.accepted.count msg ∧
        s.handled.count (.finish msg) = s.accepted.count msg) ∧
      ∀ (i : Nat) (w : KeyWorker K M), s.started[i]? = some w → w.pc.serves = true →
        s.workers w.key = some i := by
  have orderly := orderly_of_reachable reached
  refine ⟨fun k => (orderly.flows k).oneAtATime, fun returned msg => ?_, orderly.registered⟩
  exact orderly.once (by rw [returned]; rfl) msg

end Runs

/-- Message `2` finds the worker of `0` gone for being idle, and gets a new one before the old
has exited; `4` finds the buffer full. `Close` drains. -/
def recreation : List (DispatcherEvent Nat) :=
  [.dispatch 0, .go, .go, .go, .worker 0 .receive, .worker 0 .go, .worker 0 .timeout,
    .dispatch 2, .go, .go, .go, .worker 0 .go, .worker 0 .go, .worker 0 .go, .worker 0 .go,
    .dispatch 4, .go, .again, .worker 1 .receive, .go, .stop, .close, .worker 1 .go,
    .worker 1 .cancel, .worker 1 .go, .worker 1 .go, .worker 1 .go, .worker 1 .go, .worker 1 .go,
    .worker 1 .go, .waited, .closed true]

theorem dispatch_keeps_order_recreated :
    ∃ s, Reachable (keyDispatcher (fun msg : Nat => msg % 2) 1) AfterDispatch s ∧
      s.close = .returned true ∧ s.accepted = [0, 2, 4] ∧
      ∀ msg, s.handled.count (.finish msg) = s.accepted.count msg := by
  obtain ⟨s, reached, close, accepted⟩ := exists_reachable
    (M := keyDispatcher (fun msg : Nat => msg % 2) 1) AfterDispatch rfl recreation
    (fun s => s.close = .returned true ∧ s.accepted = [0, 2, 4]) (by decide)
  exact ⟨s, reached, close, accepted, fun msg => ((dispatch_keeps_order reached).2.1 close msg).2⟩

theorem close_joins_workers_recreated :
    ∃ s, Reachable (keyDispatcher (fun msg : Nat => msg % 2) 1) AfterDispatch s ∧
      (s.close.isOver = true ∧ s.started.length = 2) ∧
      ∀ w ∈ s.started, w.pc = .exited ∧ w.msgCh = [] :=
  exists_reachable_and (M := keyDispatcher (fun msg : Nat => msg % 2) 1) rfl recreation (by decide)
    fun _ reached done => close_joins_workers reached done.1

end Parti.Static
