/-
# Calculator.LabelRecheck — what wakes a leader that has parked partitions

A commit that parks partitions arms a timer, which fires once and leaves the flag
`pendingLabelRecheck`; the label monitor takes the flag before it runs a rebalance, and
puts it back if it cannot run one or if the rebalance bails out for recovery grace. A
rebalance that defers, or answers from a cached observation, sets the flag again, and one
that publishes arms the timer again. The other exits set nothing.

`parked_without_wakeup`: the timer fires, the monitor takes the flag, and the enumeration
of the workers fails once; afterwards no timer is armed, no flag is set and nothing runs.
`parked_has_wakeup`: if no rebalance of the label monitor takes such an exit, then whenever
the last commit has parked partitions the timer is armed, the flag is set or a rebalance is
running, or the monitor is between its flag and its rebalance.
-/
import Mathlib.Data.Fintype.Basic
import Parti.Calculator.Rebalance

namespace Parti.Calculator.Rebalance

open Parti.Types Lib Assignment.Labels List

/-! ## Grace clocks -/

namespace LabelState

variable {grace now : Int} {s : LabelState} {l : GoString}

theorem mem_observeEmptyPools {empty} (there : l ∈ empty ∨ l ∈ s.emptySince) :
    l ∈ (observeEmptyPools grace now empty s).1.emptySince := by
  induction empty generalizing s with
  | nil => exact there.resolve_left not_mem_nil
  | cons first rest ih =>
    have starts : (s.observeEmpty grace now first).1.emptySince =
        s.emptySince.insert first ((s.emptySince.lookup first).getD now) := by
      simp only [observeEmpty]
      split_ifs <;> rfl
    simp only [observeEmptyPools]
    refine ih ?_
    rw [starts, AList.mem_insert]
    rcases there with listed | old
    · rcases mem_cons.mp listed with rfl | later
      · exact .inr (.inl rfl)
      · exact .inl later
    · exact .inr (.inr old)

theorem mem_foldl_erase {gone : List GoString} {map : AList fun _ : GoString => Int}
    (there : l ∈ map) (kept : l ∉ gone) : l ∈ gone.foldl (fun map l => map.erase l) map := by
  induction gone generalizing map with
  | nil => exact there
  | cons first rest ih =>
    obtain ⟨other, later⟩ := not_or.mp (mt mem_cons.mpr kept)
    exact ih (AList.mem_erase.mpr ⟨other, there⟩) later

theorem mem_prune {labels} (there : l ∈ s.emptySince) (current : l ∈ labels) :
    l ∈ (s.prune labels).emptySince := by
  refine mem_foldl_erase there fun gone => ?_
  exact of_decide_eq_true (mem_filter.mp gone).2 current

theorem minRemainingGrace_isSome (there : l ∈ s.emptySince) :
    (s.minRemainingGrace grace now).isSome = true := by
  -- the fold has a value after its last entry
  obtain none_ | ⟨before, last, entries⟩ := eq_nil_or_concat s.emptySince.entries
  · rw [AList.mem_keys, AList.keys, none_] at there
    cases there
  · rw [minRemainingGrace, entries, concat_eq_append, foldl_append]
    rfl

end LabelState

theorem clock_of_parked {S ε : Type} {cfg : Config S ε} {now : Int} {state : S} {s s'} {input}
    {assignments} {parked}
    (routed : labelRoutedAssignments cfg now state s input = (s', .routed assignments parked))
    (some_ : parked ≠ []) : ∃ l, l ∈ s'.emptySince := by
  unfold labelRoutedAssignments at routed
  simp only [Prod.mk.injEq] at routed
  obtain ⟨rfl, routed⟩ := routed
  split_ifs at routed
  split at routed
  · cases routed
  next ok =>
    cases routed
    obtain ⟨p, mem⟩ := exists_mem_of_ne_nil parked some_
    have empty := parked_label_empty ok p mem
    have sorted := mem_sortStrings.mpr (mem_filter.mp (mem_sortStrings.mp empty)).1
    exact ⟨p.label, LabelState.mem_prune (LabelState.mem_observeEmptyPools (.inl empty)) sorted⟩

/-! ## Who looks after the parked partitions -/

def Pc.rebalancing : Pc → Bool
  | .waiting _ => true
  | pc => pc.critical

/-- The label monitor between its flag and its rebalance, or between its rebalance and its
`select`. -/
def Pc.between : Pc → Bool
  | .drained | .claiming | .settling _ => true
  | _ => false

/-- A rebalance of the label monitor that returns and leaves nothing to wake it. -/
def Pc.lapsed : Pc → Bool
  | .returning .labelRecheck outcome =>
    outcome = .noWorkers || outcome = .suspiciousWorkers || outcome = .suspiciousPartitions ||
      outcome = .failed
  | _ => false

def Caller.rechecks : Caller → Bool
  | .rebalance .labelRecheck _ _ => true
  | _ => false

/-- Has taken the flag and will put it back, or arm the timer. -/
def Pc.carries : Pc → Bool
  | .drained | .claiming | .arming _ _ => true
  | .settling outcome => outcome = .shuttingDown
  | .returning lifecycle outcome => lifecycle = .labelRecheck && outcome = .shuttingDown
  | .waiting lifecycle | .collecting lifecycle | .snapshotting lifecycle _ _ _ =>
    lifecycle = .labelRecheck
  | .scanning caller | .fallback caller | .caching caller _ => caller.rechecks
  | .floor r | .guarding r _ | .cached r _ | .labels r _ | .routing r _ _ | .deferring r _
  | .checking r _ _ | .publishing r _ _ => r.lifecycle = .labelRecheck
  | _ => false

section Wakeup

variable {T S ε : Type}

/-- No rebalance of the label monitor ends by an exit that sets nothing. -/
def Served (cfg : Config S ε) (s : Pool (Calc T) Pc T) (a : T × Input S) : Prop :=
  ∀ turned ∈ next cfg s.cells a.1 (s.pcs a.1) a.2, turned.pc.lapsed = false

def Parked (c : Calc T) : Prop := ∃ last ∈ c.published.head?, 0 < last.parked

/-- What a rebalance knows of the clocks, up to the arming of the timer. -/
def Clocked (c : Calc T) : Pc → Prop
  | .checking _ _ parked | .publishing _ _ parked =>
    parked ≠ [] → ∃ l, l ∈ c.labelState.emptySince
  | .arming _ parked => (parked ≠ [] → ∃ l, l ∈ c.labelState.emptySince) ∧
      ∃ last ∈ c.published.head?, last.parked = parked.length
  | _ => True

variable {cfg : Config S ε} {c c' : Calc T} {t u : T} {pc pc' : Pc}

theorem Clocked.congr (clocked : Clocked c pc) (published : c'.published = c.published)
    (labelState : c'.labelState = c.labelState) : Clocked c' pc := by
  unfold Clocked at clocked ⊢
  rw [published, labelState]
  exact clocked

theorem Scanned.clocked {caller : Caller} (leads : Scanned caller pc) : Clocked c pc := by
  cases leads <;> cases caller <;> trivial

theorem Steps.clocked (steps : Steps cfg c t pc c' pc') (clocked : Clocked c pc) :
    Clocked c' pc' := by
  cases steps with
  | scans _ _ _ leads | falls _ _ leads => exact leads.clocked
  | caches caller ws => exact (Scanned.observed ws true).clocked
  | credits r before shrunk pc' leads => obtain rfl | rfl := leads <;> trivial
  | routes r before read s now state assignments parked routed =>
    exact fun some_ => clock_of_parked routed some_
  | checked r before parked => exact clocked
  | publishes r before parked => exact ⟨clocked, _, rfl, rfl⟩
  | _ => trivial

theorem Caller.rechecks_rebalance (lifecycle : Lifecycle) (gone : List GoString) (deaths : Bool) :
    (Caller.rebalance lifecycle gone deaths).rechecks = decide (lifecycle = .labelRecheck) := by
  cases lifecycle <;> rfl

theorem not_lapsed {lifecycle} {outcome} (served : (Pc.returning lifecycle outcome).lapsed = false)
    (sets : outcome = .noWorkers ∨ outcome = .suspiciousWorkers ∨ outcome = .suspiciousPartitions ∨
      outcome = .failed) : lifecycle ≠ .labelRecheck := by
  rintro rfl
  obtain rfl | rfl | rfl | rfl := sets <;> cases served

theorem Scanned.carries {caller : Caller} (leads : Scanned caller pc) (served : pc.lapsed = false)
    (own : caller.rechecks = true) : pc.carries = true := by
  cases caller with
  | poll => cases own
  | rebalance lifecycle gone deaths =>
    rw [Caller.rechecks_rebalance] at own
    cases leads with
    | fallback | caching => exact (Caller.rechecks_rebalance _ _ _).trans own
    | observed ws fresh => exact own
    | failed =>
      have other := not_lapsed served (.inr (.inr (.inr rfl)))
      exact absurd (of_decide_eq_true own) other

theorem Steps.wakes (steps : Steps cfg c t pc c' pc') (clocked : Clocked c pc)
    (served : pc'.lapsed = false) (parked : Parked c') :
    (pc'.carries = true ∨ c'.labelRecheckTimer = true ∨ c'.pendingLabelRecheck = true) ∨
      Parked c ∧ pc.carries = false ∧ c'.labelRecheckTimer = c.labelRecheckTimer ∧
        c'.pendingLabelRecheck = c.pendingLabelRecheck := by
  have still (published : c'.published = c.published)
      (timer : c'.labelRecheckTimer = c.labelRecheckTimer)
      (pending : c'.pendingLabelRecheck = c.pendingLabelRecheck)
      (moves : pc.carries = true → pc'.carries = true) :
      (pc'.carries = true ∨ c'.labelRecheckTimer = true ∨ c'.pendingLabelRecheck = true) ∨
        Parked c ∧ pc.carries = false ∧ c'.labelRecheckTimer = c.labelRecheckTimer ∧
          c'.pendingLabelRecheck = c.pendingLabelRecheck := by
    by_cases carries : pc.carries = true
    · exact .inl (.inl (moves carries))
    · refine .inr ⟨?_, Bool.not_eq_true _ ▸ carries, timer, pending⟩
      unfold Parked at parked ⊢
      rwa [published] at parked
  -- an exit that sets nothing is not taken by the label monitor
  have other {lifecycle : Lifecycle} {outcome : Outcome} (is : pc' = .returning lifecycle outcome)
      (sets : outcome = .noWorkers ∨ outcome = .suspiciousWorkers ∨
        outcome = .suspiciousPartitions ∨ outcome = .failed) :
      decide (lifecycle = .labelRecheck) = true → pc'.carries = true := by
    intro own
    rw [is] at served
    exact absurd (of_decide_eq_true own) (not_lapsed served sets)
  cases steps with
  | requests | fires | inGrace | busy | replays | rechecks | restores =>
    exact .inl (.inr (.inr rfl))
  | drains | publishes => exact .inl (.inl rfl)
  | clear | claims => exact still rfl rfl rfl fun _ => rfl
  | locks | listed | passes | reads | defers | routes | checked => exact still rfl rfl rfl id
  | bails | shutdown | endsRecheck =>
    refine still rfl rfl rfl fun own => ?_
    simpa [Pc.carries] using own
  | collects lifecycle left gone deaths =>
    exact still rfl rfl rfl fun own => (Caller.rechecks_rebalance _ _ _).trans own
  | scans _ _ _ leads | falls _ _ leads =>
    exact still rfl rfl rfl fun own => leads.carries served own
  | caches caller ws =>
    exact still rfl rfl rfl fun own => (Scanned.observed ws true).carries served own
  | unlisted lifecycle deaths ws fresh outcome is =>
    refine still rfl rfl rfl (other rfl ?_)
    obtain rfl | rfl := is
    · exact .inr (.inr (.inr rfl))
    · exact .inl rfl
  | blocked r => exact still rfl rfl rfl (other rfl (.inr (.inl rfl)))
  | suspects r before shrunk => exact still rfl rfl rfl (other rfl (.inr (.inr (.inl rfl))))
  | credits r before shrunk pc' leads =>
    obtain rfl | rfl := leads
    · exact still rfl rfl rfl id
    · exact still rfl rfl rfl id
  | unread | unrouted => exact still rfl rfl rfl (other rfl (.inr (.inr (.inr rfl))))
  | unpublished r before parked outcome is =>
    obtain rfl | rfl := is
    · refine still rfl rfl rfl fun own => ?_
      simpa [Pc.carries] using own
    · exact still rfl rfl rfl (other rfl (.inr (.inr (.inr rfl))))
  | arms r held time =>
    obtain ⟨running, last, newest, count⟩ := clocked
    have some_ : held.length ≠ 0 := by
      intro none_
      obtain ⟨last', newest', positive⟩ := parked
      rw [(armLabelRecheck_fields cfg c time held.length).2.2, newest] at newest'
      cases newest'
      omega
    obtain ⟨l, there⟩ := running (by rintro rfl; exact some_ rfl)
    refine .inl (.inr (.inl ?_))
    rw [armLabelRecheckAfterRebalance, if_neg some_]
    exact LabelState.minRemainingGrace_isSome there
  | ends lifecycle outcome differs =>
    refine still rfl rfl rfl fun own => ?_
    simp only [Pc.carries, Bool.and_eq_true, decide_eq_true_eq] at own
    exact absurd own.1 differs
  | settles outcome is =>
    refine still rfl rfl rfl fun own => ?_
    exact absurd (of_decide_eq_true own) is
  | _ => exact still rfl rfl rfl nofun

end Wakeup

/-! ## Whole runs -/

section Reachability

variable {T S ε : Type} [DecidableEq T] {cfg : Config S ε} {s : Pool (Calc T) Pc T}

theorem clocked_of_reachable {ok}
    (reached : Reachable (system T cfg) ok s) (t : T) : Clocked s.cells (s.pcs t) := by
  have knows := (Reachable.knows (K := fun _ => True) (I := fun _ => True)
    (N := fun c t pc => (pc.critical = true → c.rebalanceMu = some t) ∧ Clocked c pc)
    (fun _ _ => trivial) ?_ ?_ reached).2 t
  · exact knows.2
  · exact fun c _ => ⟨trivial, fun t => ⟨nofun, trivial⟩⟩
  · intro s t input turned _ _ _ knows moved
    obtain ⟨steps, alone⟩ := next_steps moved
    refine ⟨trivial, ⟨steps.holds knows.1, steps.clocked knows.2⟩, fun u other known => ?_,
      fun fresh pc started => ?_⟩
    · by_cases inside : (s.pcs u).critical = true
      · obtain ⟨mu, _, published, labelState⟩ := steps.beside other knows.1 (known.1 inside)
        exact ⟨fun _ => mu, known.2.congr published labelState⟩
      · refine ⟨fun is => absurd is inside, ?_⟩
        cases at_ : s.pcs u <;> first | trivial | (rw [at_] at inside; exact absurd rfl inside)
    · rw [alone] at started
      cases started

/-- Something will wake the leader, as far as there is something parked. -/
def Woken (s : Pool (Calc T) Pc T) : Prop :=
  Parked s.cells → s.cells.labelRecheckTimer = true ∨ s.cells.pendingLabelRecheck = true ∨
    ∃ t, (s.pcs t).carries = true

theorem woken_of_reachable (reached : Reachable (system T cfg) (Served cfg) s) : Woken s := by
  refine Reachable.invariant_with (K := fun s => ∀ t, Clocked s.cells (s.pcs t)) (I := Woken)
    (fun s reached t => clocked_of_reachable reached t) ?_ ?_ reached
  · rintro s ⟨⟨_, unpublished⟩, _⟩ ⟨last, mem, _⟩
    rw [unpublished] at mem
    cases mem
  · rintro s ⟨t, input⟩ s' clocked woken served taken parked
    obtain ⟨turned, moved, fits, rfl⟩ := Program.step_eq_some.mp taken
    obtain ⟨steps, alone⟩ := next_steps moved
    have own : (turned.pool s.pcs t).pcs t = turned.pc := Turn.pool_self fits
    rw [Turn.pool_cells] at parked
    show (turned.pool s.pcs t).cells.labelRecheckTimer = true ∨ _
    rw [Turn.pool_cells]
    obtain (carries | timer | pending) | ⟨before, free, timer, pending⟩ :=
      steps.wakes (clocked t) (served turned moved) parked
    · exact .inr (.inr ⟨t, own ▸ carries⟩)
    · exact .inl timer
    · exact .inr (.inl pending)
    · rw [timer, pending]
      refine (woken before).imp_right (Or.imp_right ?_)
      rintro ⟨u, carries⟩
      -- the one that carries is another goroutine, and stands where it stood
      have other : u ≠ t := by
        rintro rfl
        rw [free] at carries
        cases carries
      refine ⟨u, ?_⟩
      obtain ⟨same, _⟩ | ⟨_, _, started⟩ | ⟨_, at_⟩ := Turn.pool_pcs fits u
      · exact absurd same other
      · rw [alone] at started
        cases started
      · rw [at_]
        exact carries

theorem Pc.carries_cases {pc : Pc} (carries : pc.carries = true) :
    pc.rebalancing = true ∨ pc.between = true := by
  cases pc with
  | scanning caller | fallback caller | caching caller =>
    cases caller with
    | poll => cases carries
    | rebalance lifecycle gone deaths => exact .inl rfl
  | idle => cases carries
  | drained | claiming | settling => exact .inr rfl
  | _ => exact .inl rfl

theorem parked_has_wakeup (reached : Reachable (system T cfg) (Served cfg) s)
    (settled : ∀ t, (s.pcs t).between = false)
    (parked : ∃ last ∈ s.cells.published.head?, 0 < last.parked) :
    s.cells.labelRecheckTimer = true ∨ s.cells.pendingLabelRecheck = true ∨
      ∃ t, (s.pcs t).rebalancing = true := by
  refine (woken_of_reachable reached parked).imp_right (Or.imp_right ?_)
  rintro ⟨t, carries⟩
  refine ⟨t, (Pc.carries_cases carries).resolve_right fun between => ?_⟩
  rw [settled t] at between
  cases between

end Reachability

/-! ## Two runs -/

variable {T : Type}

def graceConfig : Config Unit Unit := ⟨50, 1, 50, 1, 10, .shared, firstOfPool⟩

def plainWorker : WorkerSet := ⟨[[97]], by decide⟩

/-- Inside a rebalance, with a partition of label `x`, up to the label pipeline. -/
def routesX (t : T) (now : Int) : List (T × Input Unit) :=
  [(t, .grace false), (t, .go), (t, .scan (.workers plainWorker)), (t, .go),
    (t, .snapshot (some ([labelled [120]], 1, true))), (t, .go), (t, .go),
    (t, .labels (some noLabels)), (t, .route now ())]

def rechecksNow (t : T) : List (T × Input Unit) :=
  [(t, .drain), (t, .grace false), (t, .claim true)]

/-- The first observation of the empty pool is deferred, and the re-check parks. -/
def parks (t : T) : List (T × Input Unit) :=
  [(t, .rebalance (.other "manual-refresh"))] ++ routesX t 0 ++ [(t, .go), (t, .go)] ++
    rechecksNow t ++ routesX t 5 ++
    [(t, .manager false), (t, .published .ok), (t, .now 5), (t, .go), (t, .go), (t, .go)]

/-- The timer fires, and the workers cannot be enumerated in the re-check. -/
def lapses (t : T) : List (T × Input Unit) :=
  parks t ++ [(t, .fire)] ++ rechecksNow t ++
    [(t, .grace false), (t, .go), (t, .scan .otherError), (t, .go), (t, .go)]

instance [DecidableEq T] {S ε : Type} (cfg : Config S ε) (s : Pool (Calc T) Pc T)
    (a : T × Input S) : Decidable (Served cfg s a) :=
  inferInstanceAs (Decidable (∀ turned ∈ next cfg s.cells a.1 (s.pcs a.1) a.2, _))

theorem parked_has_wakeup_armed :
    ∃ s, Reachable (system Unit graceConfig) (Served graceConfig) s ∧
      (∀ t, (s.pcs t).between = false) ∧
      (∃ last ∈ s.cells.published.head?, 0 < last.parked) ∧
      (s.cells.labelRecheckTimer = true ∨ s.cells.pendingLabelRecheck = true ∨
        ∃ t, (s.pcs t).rebalancing = true) := by
  obtain ⟨s, reached, between, parked⟩ := exists_reachable (Served graceConfig)
    (start_init graceConfig) (parks ()) (fun s => (∀ t, (s.pcs t).between = false) ∧
      ∃ last ∈ s.cells.published.head?, 0 < last.parked) (by decide)
  exact ⟨s, reached, between, parked, parked_has_wakeup reached between parked⟩

theorem parked_without_wakeup :
    ∃ s, Reachable (system Unit graceConfig) Free s ∧
      (∃ last ∈ s.cells.published.head?, 0 < last.parked) ∧
      s.cells.labelRecheckTimer = false ∧ s.cells.pendingLabelRecheck = false ∧
      ∀ t, (s.pcs t).rebalancing = false ∧ (s.pcs t).between = false :=
  exists_reachable _ (start_init graceConfig) (lapses ()) _ (by decide)

end Parti.Calculator.Rebalance
