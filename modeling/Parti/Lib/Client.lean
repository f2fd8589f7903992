/-
# Lib.Client — programs that share a revisioned bucket

A `Protocol` is a set of threads over one bucket. Its local state `Γ` holds
everything that is not in the bucket: program counters, mutexes, caches. A
thread either waits for the store (`request`), in which case one store
operation and what the thread does with the answer are one step (`resume`), or
it waits for something else, in which case a `call` of the environment moves it.

A write may go unanswered. The client then sees a failure, and the request stays
`pending`; it may reach the server at any later moment or never.

`Move` lists what one step of the combined system can do. Every invariant of a
protocol is proved by cases on it.
-/
import Parti.Lib.Run
import Parti.Lib.Kv

namespace Parti.Lib.Client

open Parti.Lib.Kv Option

universe u v w x y

/-- What a thread asks of the store. -/
inductive Request (K : Type u) (V : Type v) where
  | read (key : K)
  | write (w : Write K V)
  | keys

/-- What it is told. `conflict` is a failed precondition; `failed` is every
other error, also of a write whose outcome is unknown. -/
inductive Answer (K : Type u) (V : Type v) where
  | entry (live : Option (Entry V))
  | written (revision : Nat)
  | conflict
  | keys (names : List K)
  | failed

/-- How the store treats a request. -/
inductive Reply where
  | served
  | failed
  | unanswered
deriving DecidableEq

structure Protocol (Γ : Type w) (T : Type x) (C : Type y) (K : Type u) (V : Type v) where
  request : Γ → T → Option (Request K V)
  resume : Γ → T → Int → Answer K V → Option Γ
  call : Γ → C → Int → Option Γ

structure State (Γ : Type w) (K : Type u) (V : Type v) where
  bucket : Bucket K V
  pending : List (Write K V)
  clock : Int
  locals : Γ

inductive Action (T : Type x) (C : Type y) where
  | step (thread : T) (reply : Reply)
  | call (c : C)
  | land (index : Nat)
  | tick (elapsed : Nat)

variable {Γ : Type w} {T : Type x} {C : Type y} {K : Type u} {V : Type v} [DecidableEq K]

/-- The store's side of one request: the bucket after it, the answer, and the
write that is still under way. -/
def serve (b : Bucket K V) (now : Int) :
    Request K V → Reply → Option (Bucket K V × Answer K V × List (Write K V))
  | .read k, .served => some (b, .entry (b.get k), [])
  | .keys, .served => some (b, .keys b.keys, [])
  | .write w, .served =>
    match b.write now w with
    | some b' => some (b', .written b'.seq, [])
    | none => some (b, .conflict, [])
  | _, .failed => some (b, .failed, [])
  | .write w, .unanswered => some (b, .failed, [w])
  | _, .unanswered => none

def Protocol.step (P : Protocol Γ T C K V) (s : State Γ K V) : Action T C → Option (State Γ K V)
  | .tick elapsed => some { s with clock := s.clock + elapsed }
  | .call c => (P.call s.locals c s.clock).map fun γ => { s with locals := γ }
  | .land index =>
    (s.pending[index]?).bind fun w => (s.bucket.write s.clock w).map fun b =>
      { s with bucket := b, pending := s.pending.eraseIdx index }
  | .step thread reply =>
    (P.request s.locals thread).bind fun request =>
      (serve s.bucket s.clock request reply).bind fun served =>
        (P.resume s.locals thread s.clock served.2.1).map fun γ =>
          { s with bucket := served.1, pending := served.2.2 ++ s.pending, locals := γ }

/-- What a step can do, and the action that does it. -/
inductive Move (P : Protocol Γ T C K V) (s : State Γ K V) : Action T C → State Γ K V → Prop
  | tick (elapsed) : Move P s (.tick elapsed) { s with clock := s.clock + elapsed }
  | call (c) (γ : Γ) (moved : P.call s.locals c s.clock = some γ) :
      Move P s (.call c) { s with locals := γ }
  | land (index : Nat) (w) (waiting : s.pending[index]? = some w)
      (accepted : s.bucket.accepts w = true) :
      Move P s (.land index) { s with bucket := s.bucket.append w.key w.op s.clock,
                                      pending := s.pending.eraseIdx index }
  | wrote (t w) (γ : Γ) (asked : P.request s.locals t = some (.write w))
      (accepted : s.bucket.accepts w = true)
      (moved : P.resume s.locals t s.clock (.written (s.bucket.seq + 1)) = some γ) :
      Move P s (.step t .served)
        { s with bucket := s.bucket.append w.key w.op s.clock, locals := γ }
  | refused (t w) (γ : Γ) (asked : P.request s.locals t = some (.write w))
      (rejected : s.bucket.accepts w = false)
      (moved : P.resume s.locals t s.clock .conflict = some γ) :
      Move P s (.step t .served) { s with locals := γ }
  | read (t k) (γ : Γ) (asked : P.request s.locals t = some (.read k))
      (moved : P.resume s.locals t s.clock (.entry (s.bucket.get k)) = some γ) :
      Move P s (.step t .served) { s with locals := γ }
  | listed (t) (γ : Γ) (asked : P.request s.locals t = some .keys)
      (moved : P.resume s.locals t s.clock (.keys s.bucket.keys) = some γ) :
      Move P s (.step t .served) { s with locals := γ }
  | failed (t request) (γ : Γ) (asked : P.request s.locals t = some request)
      (moved : P.resume s.locals t s.clock .failed = some γ) :
      Move P s (.step t .failed) { s with locals := γ }
  | late (t w) (γ : Γ) (asked : P.request s.locals t = some (.write w))
      (moved : P.resume s.locals t s.clock .failed = some γ) :
      Move P s (.step t .unanswered) { s with pending := w :: s.pending, locals := γ }

variable {P : Protocol Γ T C K V} {s s' : State Γ K V} {a : Action T C} {asked : Request K V}
  {b : Bucket K V} {now : Int}

theorem Protocol.step_move (taken : P.step s a = some s') : Move P s a s' := by
  cases a with
  | tick elapsed =>
    simp only [Protocol.step, some.injEq] at taken
    exact taken ▸ .tick elapsed
  | call c =>
    simp only [Protocol.step, map_eq_some_iff] at taken
    obtain ⟨γ, moved, rfl⟩ := taken
    exact .call c γ moved
  | land index =>
    simp only [Protocol.step, bind_eq_some_iff, map_eq_some_iff,
      Bucket.write_eq_some] at taken
    obtain ⟨w, found, b, ⟨accepted, rfl⟩, rfl⟩ := taken
    exact .land index w found accepted
  | step t reply =>
    simp only [Protocol.step, bind_eq_some_iff, map_eq_some_iff] at taken
    obtain ⟨request, asked, ⟨b, answer, late⟩, served, γ, moved, rfl⟩ := taken
    cases reply with
    | failed =>
      cases request <;> simp only [serve, some.injEq, Prod.mk.injEq] at served <;>
        obtain ⟨rfl, rfl, rfl⟩ := served <;> exact .failed t _ γ asked moved
    | unanswered =>
      cases request <;> simp only [serve, some.injEq, Prod.mk.injEq, reduceCtorEq]
        at served
      obtain ⟨rfl, rfl, rfl⟩ := served
      exact .late t _ γ asked moved
    | served =>
      cases request with
      | read k =>
        cases served
        exact .read t k γ asked moved
      | keys =>
        cases served
        exact .listed t γ asked moved
      | write w =>
        simp only [serve, Bucket.write] at served
        split at served
        next b' written =>
          split at written
          next accepted =>
            simp only [some.injEq, Prod.mk.injEq] at served written
            obtain ⟨rfl, rfl, rfl⟩ := served
            subst written
            exact .wrote t w γ asked accepted moved
          next => cases written
        next written =>
          split at written
          next => cases written
          next rejected =>
            cases served
            exact .refused t w γ asked (by simpa using rejected) moved

/-- The write an action puts into the bucket: a thread's write that is served, or
an earlier one that arrives now. -/
def Protocol.writes (P : Protocol Γ T C K V) (s : State Γ K V) : Action T C → Option (Write K V)
  | .step thread .served =>
    match P.request s.locals thread with
    | some (.write w) => if s.bucket.accepts w then some w else none
    | _ => none
  | .land index => (s.pending[index]?).filter fun w => s.bucket.accepts w
  | _ => none

theorem Protocol.writes_eq_some {w} (writes : P.writes s a = some w) :
    s.bucket.accepts w = true ∧
      ((∃ t, P.request s.locals t = some (.write w)) ∨ w ∈ s.pending) := by
  cases a with
  | tick | call => cases writes
  | land index =>
    obtain ⟨waiting, accepted⟩ := filter_eq_some_iff.mp writes
    exact ⟨accepted, .inr (List.mem_of_getElem? waiting)⟩
  | step t reply =>
    cases reply with
    | failed | unanswered => cases writes
    | served =>
      simp only [Protocol.writes] at writes
      split at writes
      next w' asked =>
        split at writes
        next accepted =>
          cases writes
          exact ⟨accepted, .inl ⟨t, asked⟩⟩
        next => cases writes
      next => cases writes

theorem Protocol.step_bucket (taken : P.step s a = some s') :
    s'.bucket = s.bucket ∨
      ∃ w, P.writes s a = some w ∧ s'.bucket = s.bucket.append w.key w.op s.clock := by
  cases Protocol.step_move taken with
  | land index w waiting accepted =>
    exact .inr ⟨w, filter_eq_some_iff.mpr ⟨waiting, accepted⟩, rfl⟩
  | wrote t w γ asked accepted moved =>
    exact .inr ⟨w, by simp [Protocol.writes, asked, accepted], rfl⟩
  | _ => exact .inl rfl

/-- What a thread may be told, seen from the bucket after the operation. -/
inductive Told (b : Bucket K V) (now : Int) : Request K V → Answer K V → Prop
  | read (k) : Told b now (.read k) (.entry (b.get k))
  | written (before : Bucket K V) (w : Write K V) (eq : b = before.append w.key w.op now) :
      Told b now (.write w) (.written b.seq)
  | conflict (w) : Told b now (.write w) .conflict
  | keys : Told b now .keys (.keys b.keys)
  | failed (asked : Request K V) : Told b now asked .failed

theorem Told.entry {live} (told : Told b now asked (.entry live)) :
    ∃ k, asked = .read k ∧ b.get k = live := by
  generalize answered : Answer.entry live = answer at told
  cases told with
  | read k => exact ⟨k, rfl, by simpa using answered.symm⟩
  | written | conflict | keys | failed => cases answered

theorem Told.wrote {revision : Nat} (told : Told b now asked (.written revision)) :
    ∃ (w : Write K V) (before : Bucket K V), asked = .write w ∧
      b = before.append w.key w.op now ∧ revision = b.seq := by
  generalize answered : Answer.written revision = answer at told
  cases told with
  | written before w eq => exact ⟨w, before, rfl, eq, by simpa using answered⟩
  | read | conflict | keys | failed => cases answered

/-- The transition system of a protocol. -/
def Protocol.system (P : Protocol Γ T C K V) (init : State Γ K V → Prop) :
    System (State Γ K V) (Action T C) where
  init := init
  step := P.step

end Parti.Lib.Client
