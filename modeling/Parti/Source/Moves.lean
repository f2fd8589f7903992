/-
# Source.Moves — what one event does to the key and to the source

`Moves` lists the steps of the source with the state each leads to: a request that
is served splits into an accepted write, a refused write and a read. Results about
the key and the cache are proved by cases on it, so that `World.step` is unfolded
here and nowhere else.
-/
import Parti.Source.Goroutines

namespace Parti.Source

open Parti.Types Lib Lib.Kv Lib.Client Option

section Resumes

variable {B L : Type} (codec : Codec B)

inductive Fetches : Option (Entry B) → List Partition → Nat → Prop
  | absent : Fetches none [] 0
  | present (e parts) (decoded : codec.decode e.value = some parts) :
      Fetches (some e) parts e.revision

inductive Resumes (s : NatsKV L) : Pc B → Answer Unit B → Pc B → Prop
  | returned (pc answer) {result : Result} (fails : result ≠ .ok ∧ result ≠ .skipped) :
      Resumes s pc answer (.returned result)
  | updated {clean data left rev known} (newRev) :
      Resumes s (.updateWrite clean data left rev known) (.written newRev)
        (.updateApply clean newRev)
  | outdated {clean data left rev known} :
      Resumes s (.updateWrite clean data left rev known) .conflict (.refresh clean data left)
  | absent {clean data left} :
      Resumes s (.refresh clean data left) (.entry none) (.refreshApply clean data left none)
  | refreshed {clean data left e parts} (decoded : codec.decode e.value = some parts) :
      Resumes s (.refresh clean data left) (.entry (some e))
        (.refreshApply clean data left (some (parts, e.revision)))
  | proposed {fn left live parts rev clean data} (fetches : Fetches codec live parts rev)
      (checked : validateAndDedupe (fn parts) = .ok clean)
      (encoded : codec.encode clean = some data) :
      Resumes s (.modify fn left) (.entry live) (.modifyWrite fn left clean data rev)
  | modified {fn left clean data rev} (newRev) :
      Resumes s (.modifyWrite fn left clean data rev) (.written newRev)
        (.modifyApply clean newRev)
  | contended {fn left clean data rev} :
      Resumes s (.modifyWrite fn left clean data rev) .conflict (.modify fn (left - 1))
  | empty : Resumes s .reconcile (.entry none) .reconcileEmpty
  | skipped {e} (same : s.reconcileKnown ∧ e.revision = s.reconcileRev ∧
      e.created = s.reconcileCreated) : Resumes s .reconcile (.entry (some e)) (.returned .skipped)
  | entry {e parts} (decoded : codec.decode e.value = some parts) :
      Resumes s .reconcile (.entry (some e)) (.reconcileEntry parts e.revision e.created)
  | reset {cachedRev cachedGen e parts} (decoded : codec.decode e.value = some parts)
      (below : e.revision < cachedRev) :
      Resumes s (.reconcileConfirm cachedRev cachedGen) (.entry (some e))
        (.reconcileReset parts e.revision e.created cachedRev cachedGen)
  | confirmed {cachedRev cachedGen e parts} (decoded : codec.decode e.value = some parts) :
      Resumes s (.reconcileConfirm cachedRev cachedGen) (.entry (some e))
        (.reconcileApply parts e.revision e.created)

variable {codec} {s : NatsKV L}

theorem resumes_modifyPropose {live} {parts} {rev : Nat}
    (fetches : Fetches codec live parts rev) (fn : List Partition → List Partition) (left : Nat) :
    Resumes codec s (.modify fn left) (.entry live) (modifyPropose codec fn left parts rev) := by
  unfold modifyPropose
  split
  · exact .returned _ _ (by simp)
  next clean checked =>
    split
    · exact .returned _ _ (by simp)
    next encoded => exact .proposed fetches checked encoded

theorem Pc.resumes {pc pc' : Pc B} {answer}
    (moved : pc.resume codec s answer = pc') : Resumes codec s pc answer pc' := by
  have failed : ∀ pc answer, Resumes codec s pc answer (.returned .failed) :=
    fun pc answer => .returned pc answer (by simp)
  subst moved
  unfold Pc.resume
  split
  · exact .updated _
  · exact .outdated
  · exact .absent
  · split
    · exact failed _ _
    next decoded => exact .refreshed decoded
  · exact resumes_modifyPropose .absent _ _
  · split
    · exact failed _ _
    next decoded => exact resumes_modifyPropose (.present _ _ decoded) _ _
  · exact .modified _
  · unfold modifyRetry
    split
    · exact .returned _ _ (by simp)
    · exact .contended
  · exact .empty
  · split
    next same => exact .skipped same
    next =>
      split
      · exact failed _ _
      next decoded => exact .entry decoded
  · split
    · exact failed _ _
    next decoded =>
      split
      next below => exact .reset decoded below.2
      next => exact .confirmed decoded
  · exact failed _ _

end Resumes

variable {T L B : Type} [DecidableEq T] [DecidableEq L] (codec : Codec B) (retries : Nat)

inductive Moves (s : World T L B) : SourceEvent T L B → World T L B → Prop
  | update (t parts) (free : s.tasks (.caller t) = none) :
      Moves s (.update t parts) (s.set (.caller t) (some (.ofUpdate codec retries parts)))
  | modify (t) (fn : List Partition → List Partition) (free : s.tasks (.caller t) = none) :
      Moves s (.modify t fn) (s.set (.caller t) (some (.modify fn retries)))
  | reconcile (free : s.tasks .reconciler = none) :
      Moves s .reconcile (s.set .reconciler (some .reconcile))
  | wrote (g pc w) (at_ : s.tasks g = some pc) (asked : pc.request = some (.write w))
      (accepted : s.bucket.accepts w = true) : Moves s (.request g .served)
        { s.set g (some (pc.resume codec s.source (.written (s.bucket.seq + 1)))) with
          bucket := s.bucket.append w.key w.op s.clock }
  | refused (g pc w) (at_ : s.tasks g = some pc) (asked : pc.request = some (.write w))
      (rejected : s.bucket.accepts w = false) :
      Moves s (.request g .served) (s.set g (some (pc.resume codec s.source .conflict)))
  | read (g pc) (at_ : s.tasks g = some pc) (asked : pc.request = some (.read ())) :
      Moves s (.request g .served)
        (s.set g (some (pc.resume codec s.source (.entry (s.bucket.get ())))))
  | failed (g pc) (at_ : s.tasks g = some pc) (asked : pc.request.isSome) :
      Moves s (.request g .failed) (s.set g (some (pc.resume codec s.source .failed)))
  | late (g pc w) (at_ : s.tasks g = some pc) (asked : pc.request = some (.write w)) :
      Moves s (.request g .unanswered)
        { s.set g (some (pc.resume codec s.source .failed)) with late := w :: s.late }
  | locked (g pc pc' source) (at_ : s.tasks g = some pc)
      (moved : pc.locked s.source = some (source, pc')) :
      Moves s (.locked g) { s.set g (some pc') with source := source }
  | done (g result) (at_ : s.tasks g = some (.returned result)) : Moves s (.done g) (s.set g none)
  | deliver (index r) (found : (s.bucket.log ++ s.past)[index]? = some r) :
      Moves s (.deliver index) { s with source := watched codec s.source r }
  | running (watching) (on : s.source.running = true) : Moves s (.start watching) s
  | start (watching source) (idle : s.source.running = false)
      (seeded : started codec s.source (s.bucket.get ()) watching = some source) :
      Moves s (.start watching) { s with source := source }
  | stop : Moves s .stop { s with source := s.source.stop }
  | watch (l) (on : s.source.running = true) (free : s.source.listeners l = none) :
      Moves s (.watch l) (s.setListener l (some ⟨false, true, []⟩))
  | unwatch (l) : Moves s (.unwatch l) (s.setListener l none)
  | receive (l x) (at_ : s.source.listeners l = some x) (full : x.signal = true) :
      Moves s (.receive l) (s.setListener l (some { x with signal := false, due := true }))
  | list (l x) (at_ : s.source.listeners l = some x) : Moves s (.list l)
        (s.setListener l (some { x with due := false, seen := s.source.partitions }))
  | foreign (op) : Moves s (.foreign op) { s with bucket := s.bucket.append () op s.clock }
  | recreate : Moves s .recreate { s with bucket := .empty, past := s.bucket.log ++ s.past }
  | land (index w) (waiting : s.late[index]? = some w) (accepted : s.bucket.accepts w = true) :
      Moves s (.land index)
        { s with bucket := s.bucket.append w.key w.op s.clock, late := s.late.eraseIdx index }
  | tick (elapsed) : Moves s (.tick elapsed) { s with clock := s.clock + elapsed }

variable {codec : Codec B} {retries : Nat}

variable {s s' : World T L B} {g : Goroutine T} {event : SourceEvent T L B}

omit [DecidableEq L] in
theorem enter_eq_some {pc : Pc B} (took : s.enter g pc = some s') :
    s.tasks g = none ∧ s' = s.set g (some pc) := by
  exact some_guard took fun free => ⟨by simpa using free, rfl⟩

theorem Pc.request_ne_keys (pc : Pc B) : pc.request ≠ some .keys := by
  cases pc <;> simp [Pc.request]

theorem request_moves {reply : Reply} (took : s.step codec retries (.request g reply) = some s') :
    Moves codec retries s (.request g reply) s' := by
  simp only [World.step, bind_eq_some_iff, map_eq_some_iff] at took
  obtain ⟨pc, at_, request, asked, ⟨b, answer, late⟩, served, rfl⟩ := took
  cases reply with
  | failed =>
    have bucket : (b, answer, late) = (s.bucket, .failed, []) := by
      cases request <;> simpa [serve] using served.symm
    cases bucket
    exact .failed g pc at_ (by simp [asked])
  | unanswered =>
    cases request with
    | read | keys => simp [serve] at served
    | write w =>
      cases served
      exact .late g pc w at_ asked
  | served =>
    cases request with
    | read key =>
      cases served
      exact .read g pc at_ asked
    | keys => exact absurd asked pc.request_ne_keys
    | write w =>
      by_cases accepted : s.bucket.accepts w = true
      · simp only [serve, Bucket.write, accepted, if_true, some.injEq,
          Prod.mk.injEq] at served
        obtain ⟨rfl, rfl, rfl⟩ := served
        exact .wrote g pc w at_ asked accepted
      · simp only [serve, Bucket.write, accepted, Bool.false_eq_true, if_false,
          some.injEq, Prod.mk.injEq] at served
        obtain ⟨rfl, rfl, rfl⟩ := served
        exact .refused g pc w at_ asked (by simpa using accepted)

theorem step_moves (took : s.step codec retries event = some s') :
    Moves codec retries s event s' := by
  cases event with
  | update t parts =>
    obtain ⟨free, rfl⟩ := enter_eq_some took
    exact .update t parts free
  | modify t fn =>
    obtain ⟨free, rfl⟩ := enter_eq_some took
    exact .modify t fn free
  | reconcile =>
    obtain ⟨free, rfl⟩ := enter_eq_some took
    exact .reconcile free
  | request g reply => exact request_moves took
  | locked g =>
    simp only [World.step, bind_eq_some_iff, map_eq_some_iff] at took
    obtain ⟨pc, at_, ⟨source, pc'⟩, moved, rfl⟩ := took
    exact .locked g pc pc' source at_ moved
  | done g =>
    simp only [World.step] at took
    split at took
    next result at_ =>
      cases took
      exact .done g result at_
    next => cases took
  | deliver index =>
    obtain ⟨r, found, rfl⟩ := map_eq_some_iff.mp took
    exact .deliver index r found
  | start watching =>
    simp only [World.step] at took
    split at took
    next on =>
      cases took
      exact .running watching on
    next idle =>
      obtain ⟨source, seeded, rfl⟩ := map_eq_some_iff.mp took
      exact .start watching source (by simpa using idle) seeded
  | stop =>
    cases took
    exact .stop
  | watch l => exact some_guard took fun free => .watch l free.1 (by simpa using free.2)
  | unwatch l =>
    cases took
    exact .unwatch l
  | receive l =>
    simp only [World.step] at took
    split at took
    next x at_ =>
      split at took
      next full =>
        cases took
        exact .receive l x at_ full
      next => cases took
    next => cases took
  | list l =>
    simp only [World.step] at took
    split at took
    next x at_ =>
      cases took
      exact .list l x at_
    next => cases took
  | foreign op =>
    cases took
    exact .foreign op
  | recreate =>
    cases took
    exact .recreate
  | land index =>
    simp only [World.step, bind_eq_some_iff, map_eq_some_iff,
      Bucket.write_eq_some] at took
    obtain ⟨w, waiting, b, ⟨accepted, rfl⟩, rfl⟩ := took
    exact .land index w waiting accepted
  | tick elapsed =>
    cases took
    exact .tick elapsed

omit [DecidableEq L] in
theorem World.set_tasks {pc'} {R : Goroutine T → Pc B → Prop} (self : ∀ pc, pc' = some pc → R g pc)
    (others : ∀ g' pc, g' ≠ g → s.tasks g' = some pc → R g' pc) (g' : Goroutine T) (pc : Pc B)
    (at_ : (s.set g pc').tasks g' = some pc) : R g' pc := by
  replace at_ : Function.update s.tasks g pc' g' = some pc := at_
  by_cases mover : g' = g
  · subst mover
    rw [Function.update_self] at at_
    exact self pc at_
  · rw [Function.update_of_ne mover] at at_
    exact others g' pc mover at_

def Grown (b b' : Bucket Unit B) : Prop := b' = b ∨ ∃ op now, b' = b.append () op now

def SourceEvent.sameBucket : SourceEvent T L B → Bool
  | .recreate => false
  | _ => true

theorem step_grown (same : event.sameBucket = true) (took : s.step codec retries event = some s') :
    Grown s.bucket s'.bucket := by
  cases step_moves took with
  | wrote _ _ w | land _ w => exact .inr ⟨w.op, s.clock, rfl⟩
  | foreign op => exact .inr ⟨op, s.clock, rfl⟩
  | recreate => cases same
  | _ => exact .inl rfl

end Parti.Source
