/-
# Source.Notify — who hears of a change

A listener that lists again after every signal should end up with the current
list. Each way into the cache compares with the cache and announces a
difference, so the guarantee is one fact per way: `Announces`.

One way is silent. `Update` refreshes the cache after a conflict without telling
anybody; if the rest of the call writes nothing new, the watcher's own event for
the refreshed revision then finds the cache equal and stays silent too
(`refresh_swallows_change`). `changes_reach_listeners` is the guarantee in runs
whose refreshes bring nothing new, or find every listener with a signal already.
-/
import Mathlib.Data.Fintype.Basic
import Parti.Source.Moves

namespace Parti.Source

open Parti.Types Lib Lib.Kv Lib.Client NatsKV Option

/-! ## The ways into the cache -/

section Cache

variable {L : Type} {s s' : NatsKV L}

/-- Nothing a listener could see has changed, or every listener has a signal. -/
structure Announces (s s' : NatsKV L) : Prop where
  running : s'.running = s.running
  told : (s'.partitions = s.partitions ∧ s'.listeners = s.listeners) ∨
    s'.listeners = s.notify.listeners

theorem Announces.refl (s : NatsKV L) : Announces s s := ⟨rfl, .inl ⟨rfl, rfl⟩⟩

theorem applyLocalLocked_listeners (s : NatsKV L) (parts : List Partition) (rev : Nat)
    (known : Bool) : (s.applyLocalLocked parts rev known).1.listeners = s.listeners := by
  unfold applyLocalLocked
  split <;> rfl

theorem applyLocalLocked_running (s : NatsKV L) (parts : List Partition) (rev : Nat)
    (known : Bool) : (s.applyLocalLocked parts rev known).1.running = s.running := by
  unfold applyLocalLocked
  split <;> rfl

theorem applyLocalLocked_partitions (s : NatsKV L) (parts : List Partition) (rev : Nat)
    (known : Bool) (unchanged : (s.applyLocalLocked parts rev known).2 = false) :
    (s.applyLocalLocked parts rev known).1.partitions = s.partitions := by
  unfold applyLocalLocked at unchanged ⊢
  split
  · rfl
  · rename_i fresh
    simp only [fresh, Bool.false_eq_true, if_false] at unchanged
    simp [unchanged]

theorem applyLocal_announces (s : NatsKV L) (parts : List Partition) (rev : Nat) :
    Announces s (s.applyLocal parts rev true).1 := by
  have listeners := applyLocalLocked_listeners s parts rev true
  have running := applyLocalLocked_running s parts rev true
  cases changed : (s.applyLocalLocked parts rev true).2 with
  | true =>
    have state : (s.applyLocal parts rev true).1 =
        (s.applyLocalLocked parts rev true).1.notify := by
      simp [applyLocal, changed]
    rw [state]
    refine ⟨running, .inr ?_⟩
    simp only [notify, listeners]
  | false =>
    have state : (s.applyLocal parts rev true).1 = (s.applyLocalLocked parts rev true).1 := by
      simp [applyLocal, changed]
    rw [state]
    exact ⟨running, .inl ⟨applyLocalLocked_partitions s parts rev true changed, listeners⟩⟩

theorem applyReconcileReset_announces (s : NatsKV L) (parts : List Partition)
    (rev baseline gen : Nat) : Announces s (s.applyReconcileReset parts rev baseline gen).1 := by
  unfold applyReconcileReset
  dsimp only
  split
  · -- the baseline is no part of what listeners see
    obtain ⟨running, told⟩ := applyLocal_announces { s with revision := 0 } parts rev
    exact ⟨running, told⟩
  · exact applyLocal_announces s parts rev

theorem applyEmptyPreservingKnown_announces (s : NatsKV L) :
    Announces s s.applyEmptyPreservingKnown := by
  unfold applyEmptyPreservingKnown
  split
  · split
    · exact .refl s
    · exact ⟨rfl, .inr rfl⟩
  · exact .refl s

theorem recorded_announces {applied} (told : Announces s applied.1) (rev : Nat)
    (created : Int) : Announces s (recorded applied rev created) := by
  unfold recorded
  split
  · exact ⟨told.running, told.told⟩
  · exact told

theorem watched_announces {B : Type} (codec : Codec B) (s : NatsKV L) (r : Record Unit B) :
    Announces s (watched codec s r) := by
  unfold watched
  split
  · exact applyLocal_announces s _ _
  · split
    · exact .refl s
    · exact applyLocal_announces s _ _

/-- What a refresh has read can be applied in silence. -/
def Harmless (s : NatsKV L) (read : List Partition × Nat) : Prop :=
  s.stale read.2 = true ∨ sortPartitions read.1 = s.partitions ∨
    ∀ l, (s.listeners l).all Listener.signal = true

theorem notify_of_signalled (signalled : ∀ l, (s.listeners l).all Listener.signal = true) :
    s.notify.listeners = s.listeners := by
  funext l
  have full := signalled l
  rw [notify_listeners]
  cases at_ : s.listeners l with
  | none => rfl
  | some x =>
    rw [at_, all_some] at full
    rw [map_some, ← full]

theorem refreshFromKV_announces (found : Option (List Partition × Nat))
    (harmless : ∀ read ∈ found, Harmless s read) : Announces s (refreshFromKV s found) := by
  cases found with
  | none => exact applyEmptyPreservingKnown_announces s
  | some read =>
    obtain ⟨parts, rev⟩ := read
    have listeners := applyLocalLocked_listeners s parts rev true
    have running := applyLocalLocked_running s parts rev true
    refine ⟨running, ?_⟩
    simp only [refreshFromKV, applyLocal, Bool.false_and, Bool.false_eq_true, if_false]
    rcases harmless _ rfl with old | equal | signalled
    · refine .inl ⟨applyLocalLocked_partitions s parts rev true ?_, listeners⟩
      simp only [applyLocalLocked, old, if_true]
    · refine .inl ⟨applyLocalLocked_partitions s parts rev true ?_, listeners⟩
      unfold applyLocalLocked
      split
      · rfl
      · simpa using equal.symm
    · exact .inr (listeners.trans (notify_of_signalled signalled).symm)

/-! ## What one event does to the listeners -/

/-- Every listener has a signal, has to list, or has seen the current list; a
source that does not run has no listeners. -/
structure Informed (s : NatsKV L) : Prop where
  closed : s.running = false → ∀ l, s.listeners l = none
  current : ∀ l x, s.listeners l = some x →
    x.signal = true ∨ x.due = true ∨ x.seen = s.partitions

/-- If the list changes, every registered listener has a signal afterwards. -/
def Heard (s s' : NatsKV L) : Prop :=
  s'.partitions ≠ s.partitions → ∀ l x, s.listeners l = some x →
    ∃ x', s'.listeners l = some x' ∧ x'.signal = true

theorem Announces.heard (announces : Announces s s') : Heard s s' := by
  intro changed l x at_
  rcases announces.told with ⟨same, -⟩ | told
  · exact absurd same changed
  · refine ⟨{ x with signal := true }, ?_, rfl⟩
    rw [told, notify_listeners, at_]
    rfl

theorem Announces.informed (announces : Announces s s') (informed : Informed s) :
    Informed s' := by
  obtain ⟨running, ⟨same, listeners⟩ | told⟩ := announces
  · refine ⟨?_, ?_⟩
    · rw [running, listeners]
      exact informed.closed
    · rw [same, listeners]
      exact informed.current
  · refine ⟨?_, ?_⟩
    · intro stopped l
      rw [told, notify_listeners, informed.closed (running ▸ stopped) l]
      rfl
    · intro l x' at_
      rw [told] at at_
      obtain ⟨x, -, rfl⟩ := map_eq_some_iff.mp at_
      exact .inl rfl

variable [DecidableEq L]

inductive Change (s : NatsKV L) : NatsKV L → Prop
  | announced {s' : NatsKV L} (announces : Announces s s') : Change s s'
  | started {s' : NatsKV L} (idle : s.running = false) (listeners : s'.listeners = s.listeners) :
      Change s s'
  | stopped : Change s s.stop
  | closed (l) : Change s (s.setListener l none)
  | listener (l x) (running : s.running = true ∨ (s.listeners l).isSome)
      (fine : x.due = true ∨ x.seen = s.partitions) : Change s (s.setListener l (some x))

theorem Change.heard (change : Change s s') (informed : Informed s) : Heard s s' := by
  cases change with
  | announced announces => exact announces.heard
  | started idle _ =>
    intro _ l x at_
    rw [informed.closed idle l] at at_
    cases at_
  | stopped | closed | listener => exact fun changed => absurd rfl changed

theorem Change.informed (change : Change s s') (informed : Informed s) : Informed s' := by
  cases change with
  | announced announces => exact announces.informed informed
  | started idle listeners =>
    have none_left := informed.closed idle
    refine ⟨fun _ l => by rw [listeners, none_left], ?_⟩
    intro l x at_
    rw [listeners, none_left] at at_
    cases at_
  | stopped => exact ⟨fun _ _ => rfl, nofun⟩
  | closed l =>
    refine ⟨?_, ?_⟩
    · intro stopped l'
      by_cases same : l' = l
      · simp [setListener, same]
      · simpa [setListener, same] using informed.closed stopped l'
    · intro l' x at_
      by_cases same : l' = l
      · simp [setListener, same] at at_
      · exact informed.current l' x (by simpa [setListener, same] using at_)
  | listener l x running fine =>
    refine ⟨?_, ?_⟩
    · intro stopped
      have stopped' : s.running = false := stopped
      rcases running with on | registered
      · rw [stopped'] at on
        cases on
      · rw [informed.closed stopped' l] at registered
        cases registered
    · intro l' x' at_
      by_cases same : l' = l
      · simp only [setListener, same, Function.update_self, some.injEq] at at_
        exact .inr (at_ ▸ fine)
      · exact informed.current l' x' (by simpa [setListener, same] using at_)

end Cache

/-! ## Every run -/

section Runs

variable {T L B : Type} [DecidableEq T] [DecidableEq L] {codec : Codec B} {retries : Nat}

/-- What a goroutine that is about to apply its refresh has read. -/
def Pc.refreshing : Pc B → Option (List Partition × Nat)
  | .refreshApply _ _ _ found => found
  | _ => none

/-- No refresh brings anything to the cache that a listener has not been told. -/
def HarmlessRefresh (s : World T L B) : SourceEvent T L B → Prop
  | .locked g => ∀ read ∈ (s.tasks g).bind Pc.refreshing, Harmless s.source read
  | _ => True

omit [DecidableEq L] in
theorem Pc.locked_announces {s : NatsKV L} {pc : Pc B} {next}
    (took : pc.locked s = some next) (harmless : ∀ read ∈ pc.refreshing, Harmless s read) :
    Announces s next.1 := by
  cases pc with simp only [Pc.locked, reduceCtorEq] at took
  | update clean data left =>
    cases took
    exact .refl s
  | updateApply clean rev =>
    cases took
    exact applyLocal_announces s _ _
  | refreshApply clean data left found =>
    cases took
    exact refreshFromKV_announces found harmless
  | modifyApply clean rev =>
    cases took
    exact applyLocal_announces s _ _
  | reconcileEmpty =>
    cases took
    have announces := applyEmptyPreservingKnown_announces s
    exact ⟨announces.running, announces.told⟩
  | reconcileEntry parts rev created =>
    split at took <;> cases took <;> exact .refl s
  | reconcileApply parts rev created =>
    cases took
    exact recorded_announces (applyLocal_announces s _ _) _ _
  | reconcileReset parts rev created cachedRev cachedGen =>
    cases took
    exact recorded_announces (applyReconcileReset_announces s _ _ _ _) _ _

omit [DecidableEq L] in
theorem started_listeners {s s' : NatsKV L} {live} {watching : Bool}
    (took : started codec s live watching = some s') : s'.listeners = s.listeners := by
  cases live with
  | none =>
    cases took
    exact applyLocalLocked_listeners s _ _ _
  | some e =>
    obtain ⟨parts, -, rfl⟩ := map_eq_some_iff.mp took
    exact applyLocalLocked_listeners s _ _ _

theorem step_change {s s' : World T L B} {event}
    (allowed : HarmlessRefresh s event) (took : s.step codec retries event = some s') :
    Change s.source s'.source := by
  cases step_moves took with
  | locked g pc pc' source at_ moved =>
    refine .announced (Pc.locked_announces moved ?_)
    intro read reads
    exact allowed read (by rw [at_]; exact reads)
  | deliver index r found => exact .announced (watched_announces codec s.source r)
  | start watching source idle seeded => exact .started idle (started_listeners seeded)
  | stop => exact .stopped
  | watch l on free => exact .listener l _ (.inl on) (.inl rfl)
  | unwatch l => exact .closed l
  | receive l x at_ full => exact .listener l _ (.inr (by simp [at_])) (.inl rfl)
  | list l x at_ => exact .listener l _ (.inr (by simp [at_])) (.inr rfl)
  | _ => exact .announced (.refl s.source)

/-- **No change is lost, as long as no refresh swallows one.** -/
theorem changes_reach_listeners {s : World T L B}
    (reached : Reachable (natsKV T L codec retries) HarmlessRefresh s) :
    (∀ l x, s.source.listeners l = some x →
      x.signal = true ∨ x.due = true ∨ x.seen = s.source.partitions) ∧
    ∀ event s', HarmlessRefresh s event → s.step codec retries event = some s' →
      Heard s.source s'.source := by
  have informed : Informed s.source := by
    refine reached.invariant (I := fun s => Informed s.source) ?_ ?_
    · intro s unused
      rw [unused.source]
      exact ⟨fun _ _ => rfl, nofun⟩
    · intro s event s' informed allowed took
      exact (step_change allowed took).informed informed
  refine ⟨informed.current, ?_⟩
  intro event s' allowed took
  exact (step_change allowed took).heard informed

end Runs

/-! ## Concrete runs -/

def plainCodec : Codec (List Partition) := ⟨some, some⟩

def unusedWorld : World Unit Unit (List Partition) :=
  ⟨.empty, [], [], 0, newNatsKV Unit, fun _ => none⟩

theorem unusedWorld_unused : unusedWorld.Unused := ⟨rfl, fun _ => rfl⟩

def partitionOf (byte : Fin 256) : Partition := ⟨[[byte]], 0, []⟩

instance (s : NatsKV Unit) (read : List Partition × Nat) : Decidable (Harmless s read) :=
  inferInstanceAs (Decidable (_ ∨ _ ∨ ∀ _l, _))

instance (s : World Unit Unit (List Partition)) :
    ∀ event, Decidable (HarmlessRefresh s event)
  | .locked g => inferInstanceAs (Decidable (∀ read ∈ (s.tasks g).bind Pc.refreshing, _))
  | .update _ _ | .modify _ _ | .reconcile | .request _ _ | .done _ | .deliver _ | .start _
  | .stop | .watch _ | .unwatch _ | .receive _ | .list _ | .foreign _ | .recreate | .land _
  | .tick _ => inferInstanceAs (Decidable True)

/-- A listener has listed the empty source; an `Update` reads the cache and then
loses the race for the key to another writer, whose list it reads back. -/
def conflictRun : List (SourceEvent Unit Unit (List Partition)) :=
  [.start true, .watch (), .list (), .update () [partitionOf 98], .locked (.caller ()),
    .foreign (.put [partitionOf 97]), .request (.caller ()) .served,
    .request (.caller ()) .served]

/-- The watcher is ahead of the refresh, so the listener has its signal. -/
theorem changes_reach_listeners_watcher :
    ∃ s, Reachable (natsKV Unit Unit plainCodec 5) HarmlessRefresh s ∧
      s.source.partitions = [partitionOf 97] ∧
      ((∀ l x, s.source.listeners l = some x →
        x.signal = true ∨ x.due = true ∨ x.seen = s.source.partitions) ∧
      ∀ event s', HarmlessRefresh s event → s.step plainCodec 5 event = some s' →
        Heard s.source s'.source) :=
  exists_reachable_and unusedWorld_unused (conflictRun ++ [.deliver 0, .locked (.caller ())])
    (by decide) fun _ reached _ => changes_reach_listeners reached

theorem refresh_swallows_change :
    ∃ s x, Reachable (natsKV Unit Unit plainCodec 5) Free s ∧
      s.source.listeners () = some x ∧ x.signal = false ∧ x.due = false ∧
      x.seen ≠ s.source.partitions ∧ ∀ g, s.tasks g = none := by
  obtain ⟨s, reached, listener, partitions, caller, reconciler⟩ : ∃ s,
      Reachable (natsKV Unit Unit plainCodec 5) Free s ∧
      s.source.listeners () = some ⟨false, false, []⟩ ∧ s.source.partitions = [partitionOf 97] ∧
      s.tasks (.caller ()) = none ∧ s.tasks .reconciler = none :=
    exists_reachable _ unusedWorld_unused
      (conflictRun ++ [.locked (.caller ()), .locked (.caller ()), .request (.caller ()) .failed, .done (.caller ()), .deliver 0])
      _ (by decide)
  refine ⟨s, _, reached, listener, rfl, rfl, by simp [partitions], ?_⟩
  rintro (_ | _)
  · exact reconciler
  · exact caller

end Parti.Source
