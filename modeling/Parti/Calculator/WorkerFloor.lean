/-
# Calculator.WorkerFloor — how far a commit's worker set may shrink

A rebalance is refused when its worker count has dropped below a percentage of
`lastKnownWorkerCount` and no death is confirmed. That baseline is moved as soon as the
check passes; the partition guard, the label pipeline and the publisher can still end the
rebalance after it, and the baseline stays moved.

`worker_floor_ratchets_down`: four workers are published, a rebalance with two passes the
check and fails to publish, and the next one publishes with one. `worker_floor_kept`: when
no rebalance that lowered the baseline ends without publishing, every commit has the
percentage of workers of the commit before it, or deaths were confirmed for its rebalance.
-/
import Mathlib.Data.List.Chain
import Mathlib.Tactic.Linarith
import Parti.Calculator.Rebalance

namespace Parti.Calculator.Rebalance

open Parti.Types Lib Assignment.Labels

/-- Past the floor and not yet published: the rebalance, and the baseline it was checked
against. -/
def Pc.past : Pc → Option (Run × Nat)
  | .guarding r before | .cached r before | .labels r before | .routing r before _
  | .deferring r before | .checking r before _ | .publishing r before _ => some (r, before)
  | _ => none

/-- A step from past the floor to a return leaves no smaller baseline behind. -/
def sustains : Option (Run × Nat) → Pc → Bool
  | some (r, before), .returning _ _ => before ≤ r.workers.1.length
  | _, _ => true

section Floor

variable {T S ε : Type}

/-- No rebalance that lowered the baseline ends without publishing. -/
def Sustained (cfg : Config S ε) (s : Pool (Calc T) Pc T) (a : T × Input S) : Prop :=
  ∀ turned ∈ next cfg s.cells a.1 (s.pcs a.1) a.2, sustains (s.pcs a.1).past turned.pc = true

def Base (c : Calc T) : Prop :=
  ∀ last ∈ c.published.head?, last.workers ≤ c.lastKnownWorkerCount

def Place (cfg : Config S ε) (c : Calc T) (pc : Pc) : Prop :=
  match pc.past with
  | some (r, before) =>
    c.lastKnownWorkerCount = r.workers.1.length ∧
      (∀ last ∈ c.published.head?, last.workers ≤ before) ∧
      (r.deathsConfirmed = true ∨
        (before : Int) * cfg.workerShrinkConfirmationThresholdPct ≤ r.workers.1.length * 100)
  | none => pc.critical = true → Base c

def Floored (pct : Int) (newer older : Published) : Prop :=
  newer.deaths = true ∨ (older.workers : Int) * pct ≤ newer.workers * 100

structure Sound (cfg : Config S ε) (c : Calc T) : Prop where
  chain : c.published.IsChain (Floored cfg.workerShrinkConfirmationThresholdPct)
  base : c.rebalanceMu = none → Base c

variable {cfg : Config S ε} {c c' : Calc T} {t u : T} {pc pc' : Pc}

theorem floor_of_fits {r : Run} (fits : r.deathsConfirmed = true ∨
      workerObservationSuspicious cfg c r.workers.1.length = false) :
    r.deathsConfirmed = true ∨ (c.lastKnownWorkerCount : Int) *
      cfg.workerShrinkConfirmationThresholdPct ≤ r.workers.1.length * 100 := by
  refine fits.imp_right fun credible => ?_
  simp only [workerObservationSuspicious, shrinkSuspicious, Bool.and_eq_false_iff,
    decide_eq_false_iff_not, not_not, not_lt] at credible
  obtain none_ | above := credible
  · rw [none_]
    simp
  · exact above

theorem Floored.of_baseline {pct : Int} {newer older} {before : Nat}
    (above : older.workers ≤ before)
    (fits : newer.deaths = true ∨ (before : Int) * pct ≤ newer.workers * 100) :
    Floored pct newer older := by
  refine fits.imp_right fun kept => ?_
  have above' : (older.workers : Int) ≤ before := by exact_mod_cast above
  by_cases sign : 0 ≤ pct
  · exact (mul_le_mul_of_nonneg_right above' sign).trans kept
  · have small : (older.workers : Int) * pct ≤ 0 :=
      mul_nonpos_of_nonneg_of_nonpos (Int.natCast_nonneg _) (not_le.mp sign).le
    have positive : (0 : Int) ≤ newer.workers * 100 := by positivity
    exact small.trans positive

theorem Scanned.past {caller : Caller} (leads : Scanned caller pc) : pc.past = none := by
  cases leads <;> cases caller <;> rfl

theorem Base.congr (base : Base c) (count : c'.lastKnownWorkerCount = c.lastKnownWorkerCount)
    (published : c'.published = c.published) : Base c' := by
  unfold Base
  rw [count, published]
  exact base

theorem Sound.congr (sound : Sound cfg c) (mu : c'.rebalanceMu = c.rebalanceMu)
    (count : c'.lastKnownWorkerCount = c.lastKnownWorkerCount)
    (published : c'.published = c.published) : Sound cfg c' := by
  refine ⟨?_, fun free => ?_⟩
  · rw [published]
    exact sound.chain
  · exact (sound.base (mu ▸ free)).congr count published

theorem Place.base_of_past {r : Run} {before : Nat} (place : Place cfg c pc)
    (past : pc.past = some (r, before)) (kept : before ≤ r.workers.1.length) : Base c := by
  simp only [Place, past] at place
  intro last mem
  rw [place.1]
  exact (place.2.1 last mem).trans kept

theorem Steps.place (steps : Steps cfg c t pc c' pc') (sound : Sound cfg c)
    (holds : pc.critical = true → c.rebalanceMu = some t) (place : Place cfg c pc)
    (sustained : sustains pc.past pc' = true) : Sound cfg c' ∧ Place cfg c' pc' := by
  have locked (inside : pc.critical = true) : c.rebalanceMu ≠ none := by
    rw [holds inside]
    exact Option.some_ne_none t
  cases steps with
  | locks _ free | bails _ free => exact ⟨⟨sound.chain, nofun⟩, fun _ => sound.base free⟩
  | scans caller shrunk pc' leads =>
    refine ⟨sound.congr rfl rfl rfl, ?_⟩
    simp only [Place, leads.past]
    exact fun inside => place (leads.critical.1.trans inside)
  | falls caller pc' leads =>
    refine ⟨sound, ?_⟩
    simp only [Place, leads.past]
    exact fun inside => place (leads.critical.2.trans inside)
  | caches caller ws =>
    refine ⟨sound.congr rfl rfl rfl, ?_⟩
    cases caller with
    | poll => rintro ⟨⟩
    | rebalance lifecycle gone deaths => exact fun _ => place rfl
  | passes r fits =>
    refine ⟨⟨sound.chain, fun free => absurd free (locked rfl)⟩, rfl, ?_, floor_of_fits fits⟩
    exact place rfl
  | suspects | replays | unrouted | rechecks =>
    exact ⟨sound.congr rfl rfl rfl, fun _ => place.base_of_past rfl (of_decide_eq_true sustained)⟩
  | credits r before shrunk pc' leads =>
    refine ⟨sound.congr rfl rfl rfl, ?_⟩
    obtain rfl | rfl := leads <;> exact place
  | unread | shutdown | unpublished =>
    exact ⟨sound, fun _ => place.base_of_past rfl (of_decide_eq_true sustained)⟩
  | reads | checked => exact ⟨sound, place⟩
  | defers | routes => exact ⟨sound.congr rfl rfl rfl, place⟩
  | publishes r before parked =>
    obtain ⟨count, above, fits⟩ := place
    refine ⟨⟨?_, fun free => absurd free (locked rfl)⟩, fun _ => ?_⟩
    · refine List.isChain_cons.mpr ⟨fun older mem => ?_, sound.chain⟩
      exact Floored.of_baseline (above older mem) fits
    · rintro last ⟨⟩
      exact count.ge
  | arms r parked time =>
    obtain ⟨_, count, published⟩ := armLabelRecheck_fields cfg c time parked.length
    have base := (place rfl).congr count published
    refine ⟨⟨by rw [published]; exact sound.chain, fun _ => base⟩, fun _ => base⟩
  | tracks | collects => exact ⟨sound.congr rfl rfl rfl, fun _ => place rfl⟩
  | ends | endsRecheck => exact ⟨⟨sound.chain, fun _ => place rfl⟩, nofun⟩
  | unlisted | listed | blocked => exact ⟨sound, fun _ => place rfl⟩
  | _ => exact ⟨sound.congr rfl rfl rfl, nofun⟩

end Floor

/-! ## Histories -/

section Histories

variable {T S ε : Type} [DecidableEq T] {cfg : Config S ε} {s : Pool (Calc T) Pc T}

theorem sound_of_reachable (reached : Reachable (system T cfg) (Sustained cfg) s) :
    Sound cfg s.cells := by
  refine (Reachable.knows (K := fun _ => True) (I := Sound cfg)
    (N := fun c t pc => (pc.critical = true → c.rebalanceMu = some t) ∧ Place cfg c pc)
    (fun _ _ => trivial) ?_ ?_ reached).1
  · rintro c ⟨unlocked, unpublished⟩
    have base : Base c := by
      intro last mem
      rw [unpublished] at mem
      cases mem
    refine ⟨⟨?_, fun _ => base⟩, fun t => ⟨nofun, nofun⟩⟩
    rw [unpublished]
    exact .nil
  · intro s t input turned _ sustained sound knows moved
    obtain ⟨steps, alone⟩ := next_steps moved
    obtain ⟨sound', place⟩ := steps.place sound knows.1 knows.2 (sustained turned moved)
    refine ⟨sound', ⟨steps.holds knows.1, place⟩, fun u other known => ?_,
      fun fresh pc started => ?_⟩
    · by_cases inside : (s.pcs u).critical = true
      · -- who holds the lock is not the one that moves
        obtain ⟨mu, count, published, _⟩ := steps.beside other knows.1 (known.1 inside)
        refine ⟨fun _ => mu, ?_⟩
        have place := known.2
        unfold Place at place ⊢
        unfold Base at place ⊢
        rw [count, published]
        exact place
      · refine ⟨fun is => absurd is inside, ?_⟩
        have none_ : (s.pcs u).past = none := by
          cases at_ : s.pcs u <;> first | rfl | (rw [at_] at inside; exact absurd rfl inside)
        simp only [Place, none_]
        exact fun is => absurd is inside
    · rw [alone] at started
      cases started

theorem worker_floor_kept (reached : Reachable (system T cfg) (Sustained cfg) s) :
    s.cells.published.IsChain fun newer older =>
      newer.deaths = true ∨
        (older.workers : Int) * cfg.workerShrinkConfirmationThresholdPct ≤ newer.workers * 100 :=
  (sound_of_reachable reached).chain

end Histories

/-! ## Runs -/

variable {T : Type}

/-- Half of the workers must be left; one observation confirms. -/
def halfConfig : Config Unit Unit := ⟨50, 1, 50, 1, 0, .shared, firstOfPool⟩

/-- A planned rebalance of one partition with these workers, up to its publish. -/
def plans (t : T) (ws : WorkerSet) : List (T × Input Unit) :=
  [(t, .rebalance (.other "planned_scale")), (t, .grace false), (t, .go), (t, .scan (.workers ws)),
    (t, .go), (t, .snapshot (some ([labelled []], 1, true))), (t, .go), (t, .go),
    (t, .labels (some noLabels)), (t, .route 0 ()), (t, .manager false)]

def publishes (t : T) (ws : WorkerSet) : List (T × Input Unit) :=
  plans t ws ++ [(t, .published .ok), (t, .now 0), (t, .go), (t, .go)]

def failsToPublish (t : T) (ws : WorkerSet) : List (T × Input Unit) :=
  plans t ws ++ [(t, .published .failed), (t, .go)]

def fourWorkers : WorkerSet := ⟨[[97], [98], [99], [100]], by decide⟩
def twoWorkers : WorkerSet := ⟨[[97], [98]], by decide⟩

theorem nodup_a : ([[97]] : List GoString).Nodup := List.nodup_singleton _

def oneWorker : WorkerSet := ⟨[[97]], nodup_a⟩

instance [DecidableEq T] {S ε : Type} (cfg : Config S ε) (s : Pool (Calc T) Pc T)
    (a : T × Input S) : Decidable (Sustained cfg s a) :=
  inferInstanceAs (Decidable (∀ turned ∈ next cfg s.cells a.1 (s.pcs a.1) a.2, _))

theorem worker_floor_kept_halved :
    ∃ s, Reachable (system Unit halfConfig) (Sustained halfConfig) s ∧
      s.cells.published = [⟨2, false, 0⟩, ⟨4, false, 0⟩] ∧
      s.cells.published.IsChain fun newer older =>
        newer.deaths = true ∨ (older.workers : Int) * 50 ≤ newer.workers * 100 :=
  exists_reachable_and (start_init halfConfig) (publishes () fourWorkers ++ publishes () twoWorkers)
    (by decide) fun _ reached _ => worker_floor_kept reached

theorem worker_floor_ratchets_down :
    ∃ s, Reachable (system Unit halfConfig) Free s ∧
      s.cells.published = [⟨1, false, 0⟩, ⟨4, false, 0⟩] ∧
      ¬s.cells.published.IsChain fun newer older =>
        newer.deaths = true ∨ (older.workers : Int) *
          halfConfig.workerShrinkConfirmationThresholdPct ≤ newer.workers * 100 :=
  exists_reachable _ (start_init halfConfig)
    (publishes () fourWorkers ++ failsToPublish () twoWorkers ++
      publishes () oneWorker) _ (by decide)

end Parti.Calculator.Rebalance
