/-
# Static.KeyDispatcher — one goroutine per key

The run loop calls `Dispatch`, which sends a message to the worker of its key and creates
the worker if there is none; a worker handles the messages of its channel one after the other
and leaves when it was idle for long enough. `Close` cancels the workers, which drain their
channels first, and waits for them.

Each critical section of the lock is a step, and so is each operation outside it. When a
timer fires and which branch a `select` takes comes with the step. All workers ever created
are kept; the pointer of one is its position. A call of the handler is recorded when it
starts and when it returns. What it returned is left out.

`Close` is called after the run loop has ended, and once: `JSConsumer.Stop` sees to both.
-/
import Mathlib.Data.List.Basic
import Mathlib.Tactic.Common
import Parti.Lib.Run

namespace Parti.Static

open Lib Option

inductive WorkerPc (M : Type) where
  | select
  | drain
  /-- Inside the handler, called from the loop or from the drain. -/
  | process (msg : M) (draining : Bool)
  /-- Removed for being idle, before it closes `closeCh`. -/
  | closing
  /-- The deferred calls: `removeWorker`, the close of `done`, `wg.Done`. -/
  | removing
  | ending
  | leaving
  | exited
deriving DecidableEq

structure KeyWorker (K M : Type) where
  key : K
  msgCh : List M
  closeCh : Bool
  done : Bool
  pc : WorkerPc M

inductive DispatchPc (M : Type) where
  | idle
  | look (msg : M)
  | create (msg : M)
  | full (msg : M) (worker : Nat)
  | waitDone (msg : M) (worker : Nat)
  /-- The run loop has ended. -/
  | stopped
deriving DecidableEq

/-- `Close`: the cancel, the wait, the wait over, and what it returned. -/
inductive ClosePc where
  | start
  | waiting
  | drained
  | returned (ok : Bool)
deriving DecidableEq

inductive Handling (M : Type) where
  | start (msg : M)
  | finish (msg : M)
deriving DecidableEq

def Handling.msg {M : Type} : Handling M → M
  | .start msg | .finish msg => msg

structure KeyDispatcher (K M : Type) where
  channelBuf : Nat
  workers : K → Option Nat
  /-- Every worker ever created. -/
  started : List (KeyWorker K M)
  wg : Nat
  cancelled : Bool
  dispatch : DispatchPc M
  close : ClosePc
  /-- For the record: the messages for which `Dispatch` returned true, and the calls of the
  handler. -/
  accepted : List M
  handled : List (Handling M)

inductive WorkerMove where
  /-- The branches of the loop's `select`. -/
  | receive
  | timeout
  | cancel
  | go

inductive DispatcherEvent (M : Type) where
  | dispatch (msg : M)
  /-- The next step of `Dispatch`; while it waits, the branch of the worker's channel. -/
  | go
  /-- The wait for a full buffer is over after a millisecond. -/
  | again
  /-- The branch of the dispatcher's context. -/
  | shut
  /-- The run loop ends. -/
  | stop
  | worker (pointer : Nat) (move : WorkerMove)
  | close
  | waited
  | closed (ok : Bool)

section Steps

variable {K M : Type}

/-- A buffer that is not positive is one of 32. -/
def newKeyDispatcher (K M : Type) (channelBuf : Int) : KeyDispatcher K M where
  channelBuf := if channelBuf ≤ 0 then 32 else channelBuf.toNat
  workers := fun _ => none
  started := []
  wg := 0
  cancelled := false
  dispatch := .idle
  close := .start
  accepted := []
  handled := []

namespace KeyDispatcher

def put (s : KeyDispatcher K M) (i : Nat) (w : KeyWorker K M) : KeyDispatcher K M :=
  { s with started := s.started.set i w }

def record (s : KeyDispatcher K M) (event : Handling M) : KeyDispatcher K M :=
  { s with handled := s.handled ++ [event] }

variable [DecidableEq K]

def createWorker (s : KeyDispatcher K M) (key : K) : KeyDispatcher K M :=
  { s with
    workers := Function.update s.workers key (some s.started.length)
    started := s.started ++ [⟨key, [], false, false, .select⟩]
    wg := s.wg + 1 }

def remove (s : KeyDispatcher K M) (key : K) : KeyDispatcher K M :=
  { s with workers := Function.update s.workers key none }

def removeWorker (s : KeyDispatcher K M) (i : Nat) (w : KeyWorker K M) : KeyDispatcher K M :=
  if s.workers w.key = some i then s.remove w.key else s

def send (s : KeyDispatcher K M) (i : Nat) (w : KeyWorker K M) (msg : M) : KeyDispatcher K M :=
  { s.put i { w with msgCh := w.msgCh ++ [msg] } with
    dispatch := .idle
    accepted := s.accepted ++ [msg] }

/-- One step of `Dispatch`. -/
def dispatchStep (key : M → K) (s : KeyDispatcher K M) : Option (KeyDispatcher K M) :=
  match s.dispatch with
  | .look msg =>
    match s.workers (key msg) with
    | none => some { s with dispatch := .create msg }
    | some i =>
      (s.started[i]?).map fun w =>
        if w.msgCh.length < s.channelBuf then s.send i w msg
        else { s with dispatch := .full msg i }
  | .create msg =>
    if (s.workers (key msg)).isSome then some { s with dispatch := .look msg }
    else if s.cancelled then some { s with dispatch := .idle }
    else some { s.createWorker (key msg) with dispatch := .look msg }
  | .full msg i =>
    (s.started[i]?).bind fun w =>
      if w.closeCh then some { s with dispatch := .waitDone msg i } else none
  | .waitDone msg i =>
    (s.started[i]?).bind fun w => if w.done then some { s with dispatch := .look msg } else none
  | .idle | .stopped => none

def dispatchShut (s : KeyDispatcher K M) : Option (KeyDispatcher K M) :=
  match s.dispatch with
  | .full _ _ | .waitDone _ _ => if s.cancelled then some { s with dispatch := .idle } else none
  | _ => none

def dispatchAgain (s : KeyDispatcher K M) : Option (KeyDispatcher K M) :=
  match s.dispatch with
  | .full msg _ => some { s with dispatch := .look msg }
  | _ => none

/-- The worker takes the first message of its channel and calls the handler. -/
def receive (s : KeyDispatcher K M) (i : Nat) (w : KeyWorker K M) (draining : Bool) (msg : M)
    (rest : List M) : KeyDispatcher K M :=
  (s.put i { w with msgCh := rest, pc := .process msg draining }).record (.start msg)

def workerStep (s : KeyDispatcher K M) (i : Nat) (w : KeyWorker K M) :
    WorkerMove → Option (KeyDispatcher K M)
  | .receive =>
    match w.pc, w.msgCh with
    | .select, msg :: rest => some (s.receive i w false msg rest)
    | _, _ => none
  | .timeout =>
    match w.pc with
    | .select =>
      if w.msgCh = [] then some ((s.put i { w with pc := .closing }).remove w.key) else some s
    | _ => none
  | .cancel =>
    match w.pc with
    | .select => if s.cancelled then some (s.put i { w with pc := .drain }) else none
    | _ => none
  | .go =>
    match w.pc with
    | .select => none
    | .drain =>
      match w.msgCh with
      | [] => some (s.put i { w with pc := .removing })
      | msg :: rest => some (s.receive i w true msg rest)
    | .process msg draining =>
      some ((s.put i { w with pc := if draining then .drain else .select }).record (.finish msg))
    | .closing => some (s.put i { w with closeCh := true, pc := .removing })
    | .removing => some ((s.put i { w with pc := .ending }).removeWorker i w)
    | .ending => some (s.put i { w with done := true, pc := .leaving })
    | .leaving => some { s.put i { w with pc := .exited } with wg := s.wg - 1 }
    | .exited => none

/-- The context of `Close` may end its wait at any time. -/
def closed (s : KeyDispatcher K M) : Bool → Option (KeyDispatcher K M)
  | true => if s.close = .drained then some { s with close := .returned true } else none
  | false =>
    if s.close = .waiting ∨ s.close = .drained then some { s with close := .returned false }
    else none

def step (key : M → K) (s : KeyDispatcher K M) : DispatcherEvent M → Option (KeyDispatcher K M)
  | .dispatch msg =>
    match s.dispatch with
    | .idle => some { s with dispatch := .look msg }
    | _ => none
  | .go => s.dispatchStep key
  | .again => s.dispatchAgain
  | .shut => s.dispatchShut
  | .stop =>
    match s.dispatch with
    | .idle => some { s with dispatch := .stopped }
    | _ => none
  | .worker i move => (s.started[i]?).bind fun w => s.workerStep i w move
  | .close => if s.close = .start then some { s with cancelled := true, close := .waiting } else none
  | .waited => if s.close = .waiting ∧ s.wg = 0 then some { s with close := .drained } else none
  | .closed ok => s.closed ok

end KeyDispatcher

end Steps

section System

variable {K M : Type} [DecidableEq K]

def keyDispatcher (key : M → K) (channelBuf : Int) :
    System (KeyDispatcher K M) (DispatcherEvent M) :=
  ⟨fun s => s = newKeyDispatcher K M channelBuf, KeyDispatcher.step key⟩

/-- `Close` starts after the run loop has ended. -/
def AfterDispatch (s : KeyDispatcher K M) : DispatcherEvent M → Prop
  | .close => s.dispatch = .stopped
  | _ => True

instance [DecidableEq M] (s : KeyDispatcher K M) : DecidablePred (AfterDispatch s)
  | .close => inferInstanceAs (Decidable (s.dispatch = .stopped))
  | .dispatch _ | .go | .again | .shut | .stop | .worker .. | .waited | .closed _ => .isTrue trivial

end System

/-! ## What each step can do -/

variable {K M : Type} [DecidableEq K] {key : M → K} {s s' : KeyDispatcher K M}

variable (s : KeyDispatcher K M) (i : Nat) (w : KeyWorker K M) in
/-- A step of worker `i`, found as `w`. -/
inductive WorkerStep : KeyDispatcher K M → Prop
  | receive {msg rest} (place : w.pc = .select) (first : w.msgCh = msg :: rest) :
      WorkerStep (s.receive i w false msg rest)
  | drain {msg rest} (place : w.pc = .drain) (first : w.msgCh = msg :: rest) :
      WorkerStep (s.receive i w true msg rest)
  | finish {msg draining} (place : w.pc = .process msg draining) : WorkerStep
        ((s.put i { w with pc := if draining then .drain else .select }).record (.finish msg))
  | busy : WorkerStep s
  | expire (place : w.pc = .select) (empty : w.msgCh = []) :
      WorkerStep ((s.put i { w with pc := .closing }).remove w.key)
  | cancel (place : w.pc = .select) (cancelled : s.cancelled = true) :
      WorkerStep (s.put i { w with pc := .drain })
  | drained (place : w.pc = .drain) (empty : w.msgCh = []) :
      WorkerStep (s.put i { w with pc := .removing })
  | closes (place : w.pc = .closing) :
      WorkerStep (s.put i { w with closeCh := true, pc := .removing })
  | removed (place : w.pc = .removing) :
      WorkerStep ((s.put i { w with pc := .ending }).removeWorker i w)
  | ended (place : w.pc = .ending) : WorkerStep (s.put i { w with done := true, pc := .leaving })
  | left (place : w.pc = .leaving) :
      WorkerStep { s.put i { w with pc := .exited } with wg := s.wg - 1 }

theorem workerStep_inv {i : Nat} {w} {move}
    (taken : s.workerStep i w move = some s') : WorkerStep s i w s' := by
  cases move with
  | receive =>
    simp only [KeyDispatcher.workerStep] at taken
    split at taken
    next place first => cases taken; exact .receive place first
    next => cases taken
  | timeout =>
    simp only [KeyDispatcher.workerStep] at taken
    split at taken
    next place =>
      split at taken
      next empty => cases taken; exact .expire place empty
      next => cases taken; exact .busy
    next => cases taken
  | cancel =>
    simp only [KeyDispatcher.workerStep] at taken
    split at taken
    next place =>
      split at taken
      next cancelled => cases taken; exact .cancel place cancelled
      next => cases taken
    next => cases taken
  | go =>
    simp only [KeyDispatcher.workerStep] at taken
    split at taken
    next => cases taken
    next place =>
      split at taken
      next empty => cases taken; exact .drained place empty
      next first => cases taken; exact .drain place first
    next place => cases taken; exact .finish place
    next place => cases taken; exact .closes place
    next place => cases taken; exact .removed place
    next place => cases taken; exact .ended place
    next place => cases taken; exact .left place
    next => cases taken

inductive DispatcherStep (key : M → K) (s : KeyDispatcher K M) : KeyDispatcher K M → Prop
  | moved {pc} (running : s.dispatch ≠ .stopped) : DispatcherStep key s { s with dispatch := pc }
  | create {msg} (running : s.dispatch ≠ .stopped) (free : s.workers (key msg) = none) :
      DispatcherStep key s { s.createWorker (key msg) with dispatch := .look msg }
  | send {msg i w} (running : s.dispatch ≠ .stopped) (registered : s.workers (key msg) = some i)
      (here : s.started[i]? = some w) : DispatcherStep key s (s.send i w msg)
  | worker {i w s'} (here : s.started[i]? = some w)
      (moves : WorkerStep s i w s') : DispatcherStep key s s'
  | cancel (stopped : s.dispatch = .stopped) :
      DispatcherStep key s { s with cancelled := true, close := .waiting }
  | waited (waiting : s.close = .waiting) (zero : s.wg = 0) :
      DispatcherStep key s { s with close := .drained }
  | returned {ok} (waited : ok = true → s.close = .drained) (begun : s.close ≠ .start) :
      DispatcherStep key s { s with close := .returned ok }

theorem dispatchStep_inv (taken : s.dispatchStep key = some s') : DispatcherStep key s s' := by
  have running : s.dispatch ≠ .stopped := by
    intro stopped
    simp [KeyDispatcher.dispatchStep, stopped] at taken
  unfold KeyDispatcher.dispatchStep at taken
  split at taken
  next msg place =>
    split at taken
    next => cases taken; exact .moved running
    next i registered =>
      obtain ⟨w, here, sent⟩ := map_eq_some_iff.mp taken
      split at sent
      next => cases sent; exact .send running registered here
      next => cases sent; exact .moved running
  next msg place =>
    split at taken
    next => cases taken; exact .moved running
    next free =>
      split at taken
      next => cases taken; exact .moved running
      next =>
        cases taken
        exact .create running (by simpa using free)
  next msg i place =>
    obtain ⟨w, here, waits⟩ := bind_eq_some_iff.mp taken
    split at waits <;> cases waits
    exact .moved running
  next msg i place =>
    obtain ⟨w, here, waits⟩ := bind_eq_some_iff.mp taken
    split at waits <;> cases waits
    exact .moved running
  next => cases taken
  next => cases taken

theorem dispatcher_step {channelBuf : Int} {event} (after : AfterDispatch s event)
    (taken : (keyDispatcher key channelBuf).step s event = some s') : DispatcherStep key s s' := by
  cases event with
  | dispatch msg | stop =>
    simp only [keyDispatcher, KeyDispatcher.step] at taken
    split at taken
    next idle => cases taken; exact .moved (by simp [idle])
    next => cases taken
  | go => exact dispatchStep_inv taken
  | again =>
    simp only [keyDispatcher, KeyDispatcher.step, KeyDispatcher.dispatchAgain] at taken
    split at taken
    next place => cases taken; exact .moved (by simp [place])
    next => cases taken
  | shut =>
    simp only [keyDispatcher, KeyDispatcher.step, KeyDispatcher.dispatchShut] at taken
    split at taken
    next place =>
      split at taken <;> cases taken
      exact .moved (by simp [place])
    next place =>
      split at taken <;> cases taken
      exact .moved (by simp [place])
    next => cases taken
  | worker i move =>
    obtain ⟨w, here, moves⟩ := bind_eq_some_iff.mp taken
    exact .worker here (workerStep_inv moves)
  | close => exact some_guard taken fun _ => .cancel after
  | waited => exact some_guard taken fun waiting => .waited waiting.1 waiting.2
  | closed ok =>
    cases ok with
    | true =>
      exact some_guard taken fun drained => .returned (fun _ => drained) (by simp [drained])
    | false =>
      refine some_guard taken fun waits => .returned (by simp) ?_
      rcases waits with waiting | drained
      · simp [waiting]
      · simp [drained]

end Parti.Static
