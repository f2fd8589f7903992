/-
# Assignment.Invariant — how to prove something of every run of the cluster

An invariant of the cluster is given in pieces: what it says of the bucket, of a
write under way, of a publisher's fields, and of each program counter. The
`Obligations` are what has to be shown of each piece, program by program:

* a piece survives every record appended to the bucket, and the passing of time;
* a program that satisfies its piece only asks for writes that satisfy theirs;
* a program goes on from its piece to its piece, whatever it is told (`Told`).

`Obligations.holds` is the induction over runs, `publish_invariant` its case for what
only `Publish` calls keep. There the mutex is used: nobody else changes a publisher
whose mutex a `Publish` call holds (`Held`).
-/
import Parti.Assignment.Cluster

namespace Parti.Assignment

open Parti.Types Lib Function Option
open Lib.Kv (Bucket Entry Write)
open Lib.Client (Request Answer Protocol State Action Reply Move Told)

variable {P T : Type} [DecidableEq P] [DecidableEq T]

/-! ## The mutex -/

/-- A `Publish` call under way holds its publisher's mutex. -/
def Held (l : Locals P T) : Prop :=
  ∀ t p pc, l.threads t = some (p, .publish pc) → l.mu p = some t

variable {l l' : Locals P T} {cfg : Config T}

theorem Held.publishing (held : Held l) {t : T} {p : P} (pub : Publisher) (r : PublishProgress)
    (mine : l.mu p = none ∨ l.mu p = some t) :
    Held (l.publishing t p pub r) := by
  intro t' q pc at_
  by_cases same : t' = t
  · subst same
    simp only [Locals.publishing, update_self, map_eq_some_iff] at at_ ⊢
    obtain ⟨pc', waits, eq⟩ := at_
    simp only [Prod.mk.injEq] at eq
    simp [← eq.1, waits]
  · simp only [Locals.publishing, update_of_ne same] at at_ ⊢
    have owner := held t' q pc at_
    have ne : q ≠ p := by
      rintro rfl
      rcases mine with free | mine
      · simp [free] at owner
      · exact same (by simpa [mine] using owner.symm)
    rw [update_of_ne ne, owner]

theorem Held.going {Pc' R : Type} (held : Held l) (t : T) (p : P) (pub : Publisher)
    (wrap : Pc' → Pc) (r : Progress Pc' R) (other : ∀ pc pc', wrap pc ≠ .publish pc') :
    Held (l.going t p pub wrap r) := by
  intro t' q pc at_
  by_cases same : t' = t
  · subst same
    simp only [Locals.going, update_self, map_eq_some_iff] at at_
    obtain ⟨pc', _, eq⟩ := at_
    simp only [Prod.mk.injEq] at eq
    exact absurd eq.2 (other _ _)
  · simp only [Locals.going, update_of_ne same] at at_
    exact held t' q pc at_

theorem Held.resumed {t : T} {answer} (held : Held l)
    (moved : Resumed cfg l t answer l') : Held l' := by
  cases moved with
  | publish p pc pub r at_ _ => exact held.publishing pub r (.inr (held t p pc at_))
  | discover p _ r | bootstrap p _ r | sweep p _ r => exact held.going t p _ _ r (by intros; simp)

theorem Held.called {c} {now : Int} (held : Held l) (moved : Called cfg l now c l') :
    Held l' := by
  cases moved with
  | startPublish t p input _ free => exact held.publishing _ _ (.inl free)
  | startDiscover t p | startBootstrap t p | startSweep t p =>
    exact held.going t p _ _ _ (by intros; simp)
  | publish t choice p pc pub r at_ _ => exact held.publishing pub r (.inr (held t p pc at_))
  | discover t _ p _ _ r | bootstrap t _ p _ _ r | sweep t _ p _ r =>
    exact held.going t p _ _ r (by intros; simp)

/-! ## Piecewise invariants -/

/-- What an invariant says of each part of the cluster. Only the piece of a
`Publish` call may speak about its publisher: it holds the mutex. -/
structure Piecewise (T : Type) where
  bucket : Bucket Key Value → Int → Prop
  write : Bucket Key Value → Int → Write Key Value → Prop
  pub : Bucket Key Value → Int → Publisher → Prop
  publish : Bucket Key Value → Int → Publisher → PublishPc → Prop
  discover : Bucket Key Value → Int → DiscoverPc → Prop
  bootstrap : Bucket Key Value → Int → BootstrapPc → Prop
  sweep : Bucket Key Value → Int → T → SweepPc → Prop

def Piecewise.at_ (I : Piecewise T) (b : Bucket Key Value) (now : Int) (t : T) (pub : Publisher) :
    Pc → Prop
  | .publish pc => I.publish b now pub pc
  | .discover pc => I.discover b now pc
  | .bootstrap pc => I.bootstrap b now pc
  | .sweep pc => I.sweep b now t pc

structure Piecewise.Holds (I : Piecewise T) (s : State (Locals P T) Key Value) : Prop where
  bucket : I.bucket s.bucket s.clock
  pending : ∀ w ∈ s.pending, I.write s.bucket s.clock w
  pubs : ∀ p, I.pub s.bucket s.clock (s.locals.pubs p)
  threads : ∀ t p pc, s.locals.threads t = some (p, pc) →
    I.at_ s.bucket s.clock t (s.locals.pubs p) pc

variable (okWrite : Bucket Key Value → Int → Write Key Value → Prop)
  (okSweep : Bucket Key Value → Int → T → SweepPc → Prop)

def asWrite : Request Key Value → Option (Write Key Value)
  | .write w => some w
  | _ => none

def sweepAt (l : Locals P T) (t : T) : Option SweepPc :=
  match l.threads t with
  | some (_, .sweep pc) => some pc
  | _ => none

/-- The runs in which every write that lands meets one condition and every local
step of a sweep another. -/
def Guarded (cfg : Config T) (s : ClusterState P T) : Action T (Call P T) → Prop
  | .land index => ∀ w ∈ s.pending[index]?, s.bucket.accepts w = true →
      okWrite s.bucket s.clock w
  | .step t .served => ∀ w ∈ (request cfg s.locals t).bind asWrite,
      s.bucket.accepts w = true → okWrite s.bucket s.clock w
  | .call (.proceed t _) => ∀ pc ∈ sweepAt s.locals t, okSweep s.bucket s.clock t pc
  | _ => True

instance Guarded.decide [∀ b now w, Decidable (okWrite b now w)]
    [∀ b now t pc, Decidable (okSweep b now t pc)] (cfg : Config T) (s : ClusterState P T) :
    ∀ a, Decidable (Guarded okWrite okSweep cfg s a)
  | .land index => inferInstanceAs (Decidable (∀ w ∈ s.pending[index]?, _ → _))
  | .step t .served =>
    inferInstanceAs (Decidable (∀ w ∈ (request cfg s.locals t).bind asWrite, _ → _))
  | .call (.proceed t _) => inferInstanceAs (Decidable (∀ pc ∈ sweepAt s.locals t, _))
  | .step _ .failed | .step _ .unanswered | .call (.start _ _ _) | .tick _ => isTrue trivial

theorem unguarded {s} (reached : Reachable (cluster P cfg) Free s) :
    Reachable (cluster P cfg) (Guarded (fun _ _ _ => True) (fun _ _ _ _ => True) cfg) s :=
  reached.mono fun s a _ => by
    unfold Guarded
    split <;> intros <;> trivial

structure Obligations (cfg : Config T) (I : Piecewise T) : Prop where
  tick : ∀ b now (d : Nat), (I.bucket b now → I.bucket b (now + d)) ∧
    (∀ w, I.write b now w → I.write b (now + d) w) ∧
    (∀ pub, I.pub b now pub → I.pub b (now + d) pub) ∧
    ∀ t pub pc, I.at_ b now t pub pc → I.at_ b (now + d) t pub pc
  append : ∀ b now k op, (∀ w, I.write b now w → I.write (b.append k op now) now w) ∧
    (∀ pub, I.pub b now pub → I.pub (b.append k op now) now pub) ∧
    ∀ t pub pc, I.at_ b now t pub pc → I.at_ (b.append k op now) now t pub pc
  store : ∀ b now w, I.bucket b now → I.write b now w → b.accepts w = true → okWrite b now w →
    I.bucket (b.append w.key w.op now) now
  publishWrite : ∀ b now pub pc w, I.bucket b now → I.pub b now pub → I.publish b now pub pc →
    publishRequest cfg.codec pub pc = some (.write w) → I.write b now w
  sweepWrite : ∀ b now t pc w, I.bucket b now → I.sweep b now t pc →
    sweepRequest pc = some (.write w) → I.write b now w
  publishStart : ∀ b now pub input pc, I.bucket b now → I.pub b now pub →
    (beginPublish pub input).pc? = some pc → I.publish b now pub pc
  discoverStart : ∀ b now, I.discover b now .list
  bootstrapStart : ∀ b now, I.bootstrap b now .get
  sweepStart : ∀ b now t, I.sweep b now t .commit
  publishResume : ∀ b now pub pc asked answer pub' r, I.bucket b now → I.pub b now pub →
    I.publish b now pub pc → publishRequest cfg.codec pub pc = some asked →
    Told b now asked answer → publishResume cfg.codec pub pc answer = some (pub', r) →
    I.pub b now pub' ∧ ∀ pc', r.pc? = some pc' → I.publish b now pub' pc'
  publishProceed : ∀ b now at_ pub pc choice pub' r, I.bucket b now → I.pub b now pub →
    I.publish b now pub pc → publishProceed cfg.codec pub at_ pc choice = some (pub', r) →
    I.pub b now pub' ∧ ∀ pc', r.pc? = some pc' → I.publish b now pub' pc'
  discoverResume : ∀ b now pc asked answer r, I.bucket b now → I.discover b now pc →
    discoverRequest pc = some asked → Told b now asked answer →
    discoverResume pc answer = some r → ∀ pc', r.pc? = some pc' → I.discover b now pc'
  discoverLocked : ∀ b now pub pc pub' r, I.bucket b now → I.pub b now pub → I.discover b now pc →
    discoverLocked pub pc = some (pub', r) →
    I.pub b now pub' ∧ ∀ pc', r.pc? = some pc' → I.discover b now pc'
  bootstrapResume : ∀ b now pc asked answer r, I.bucket b now → I.bootstrap b now pc →
    bootstrapRequest pc = some asked → Told b now asked answer →
    bootstrapResume pc answer = some r → ∀ pc', r.pc? = some pc' → I.bootstrap b now pc'
  bootstrapLocked : ∀ b now pub pc pub' r, I.bucket b now → I.pub b now pub →
    I.bootstrap b now pc → bootstrapLocked pub pc = some (pub', r) →
    I.pub b now pub' ∧ ∀ pc', r.pc? = some pc' → I.bootstrap b now pc'
  sweepResume : ∀ b now t pc asked answer r, I.bucket b now → I.sweep b now t pc →
    sweepRequest pc = some asked → Told b now asked answer →
    sweepResume cfg.gc pc answer = some r → ∀ pc', r.pc? = some pc' → I.sweep b now t pc'
  sweepProceed : ∀ b now t pub pc r, I.bucket b now → I.sweep b now t pc → okSweep b now t pc →
    sweepProceed pub (now + cfg.skew t) pc = some r →
    ∀ pc', r.pc? = some pc' → I.sweep b now t pc'

/-! ## The induction over runs -/

variable {okWrite : Bucket Key Value → Int → Write Key Value → Prop}
  {okSweep : Bucket Key Value → Int → T → SweepPc → Prop} {cfg : Config T} {I : Piecewise T}

variable {s : ClusterState P T} {l' : Locals P T} {t : T} {p : P} {pub : Publisher}

theorem Piecewise.Holds.move (holds : I.Holds s) {next}
    (pubs : l'.pubs = Function.update s.locals.pubs p pub)
    (threads : l'.threads = Function.update s.locals.threads t next)
    (frame : ∀ t' pc, t' ≠ t → s.locals.threads t' = some (p, .publish pc) → pub = s.locals.pubs p)
    (pubOk : I.pub s.bucket s.clock pub)
    (nextOk : ∀ q pc, next = some (q, pc) → q = p ∧ I.at_ s.bucket s.clock t pub pc) :
    I.Holds { s with locals := l' } := by
  refine ⟨holds.bucket, holds.pending, fun q => ?_, fun t' q pc at_ => ?_⟩
  · rw [pubs]
    by_cases same : q = p
    · subst same
      rwa [update_self]
    · rw [update_of_ne same]
      exact holds.pubs q
  · simp only [pubs, threads] at at_ ⊢
    by_cases same : t' = t
    · subst same
      rw [update_self] at at_
      obtain ⟨rfl, ok⟩ := nextOk q pc at_
      rwa [update_self]
    · rw [update_of_ne same] at at_
      have before := holds.threads t' q pc at_
      by_cases here : q = p
      · subst here
        rw [update_self]
        cases pc with
        | publish pc => rwa [frame t' pc same at_]
        | discover | bootstrap | sweep => exact before
      · rwa [update_of_ne here]

theorem Piecewise.Holds.publishing (holds : I.Holds s) (held : Held s.locals) {r}
    (mine : s.locals.mu p = none ∨ s.locals.mu p = some t) (pubOk : I.pub s.bucket s.clock pub)
    (nextOk : ∀ pc, r.pc? = some pc → I.publish s.bucket s.clock pub pc) :
    I.Holds { s with locals := s.locals.publishing t p pub r } := by
  refine holds.move rfl rfl (fun t' pc other at_ => ?_) pubOk (fun q pc next => ?_)
  · have owner := held t' p pc at_
    rcases mine with free | mine
    · simp [free] at owner
    · exact absurd (by simpa [mine] using owner.symm) other
  · obtain ⟨pc', waits, eq⟩ := map_eq_some_iff.mp next
    simp only [Prod.mk.injEq] at eq
    obtain ⟨rfl, rfl⟩ := eq
    exact ⟨rfl, nextOk pc' waits⟩

theorem Piecewise.Holds.going (holds : I.Holds s) {Pc' R : Type} {wrap} {r : Progress Pc' R}
    (frame : ∀ t' pc, t' ≠ t → s.locals.threads t' = some (p, .publish pc) → pub = s.locals.pubs p)
    (pubOk : I.pub s.bucket s.clock pub)
    (nextOk : ∀ pc, r.pc? = some pc → I.at_ s.bucket s.clock t pub (wrap pc)) :
    I.Holds { s with locals := s.locals.going t p pub wrap r } := by
  refine holds.move rfl rfl frame pubOk (fun q pc next => ?_)
  obtain ⟨pc', waits, eq⟩ := map_eq_some_iff.mp next
  simp only [Prod.mk.injEq] at eq
  obtain ⟨rfl, rfl⟩ := eq
  exact ⟨rfl, nextOk pc' waits⟩

theorem Obligations.resumed (obl : Obligations okWrite okSweep cfg I) (held : Held s.locals)
    (holds : I.Holds s) {asked} {answer}
    (asks : request cfg s.locals t = some asked) (told : Told s.bucket s.clock asked answer)
    (moved : Resumed cfg s.locals t answer l') : I.Holds { s with locals := l' } := by
  cases moved with
  | publish p pc pub r at_ ran =>
    have piece := holds.threads t p _ at_
    simp only [request, at_] at asks
    obtain ⟨pubOk, nextOk⟩ := obl.publishResume _ _ _ _ _ _ _ _ holds.bucket (holds.pubs p)
      piece asks told ran
    exact holds.publishing held (.inr (held t p pc at_)) pubOk nextOk
  | discover p pc r at_ ran =>
    have piece := holds.threads t p _ at_
    simp only [request, at_] at asks
    exact holds.going (fun _ _ _ _ => rfl) (holds.pubs p)
      (obl.discoverResume _ _ _ _ _ _ holds.bucket piece asks told ran)
  | bootstrap p pc r at_ ran =>
    have piece := holds.threads t p _ at_
    simp only [request, at_] at asks
    exact holds.going (fun _ _ _ _ => rfl) (holds.pubs p)
      (obl.bootstrapResume _ _ _ _ _ _ holds.bucket piece asks told ran)
  | sweep p pc r at_ ran =>
    have piece := holds.threads t p _ at_
    simp only [request, at_] at asks
    exact holds.going (fun _ _ _ _ => rfl) (holds.pubs p)
      (obl.sweepResume _ _ _ _ _ _ _ holds.bucket piece asks told ran)

theorem Obligations.called (obl : Obligations okWrite okSweep cfg I) (held : Held s.locals)
    (holds : I.Holds s) {c} (allowed : Guarded okWrite okSweep cfg s (.call c))
    (moved : Called cfg s.locals s.clock c l') : I.Holds { s with locals := l' } := by
  -- a section under the mutex finds it free, so no `Publish` call is under way
  have unlocked : ∀ {p : P} {pub : Publisher} {t t' : T} {pc : PublishPc},
      s.locals.mu p = none → t' ≠ t → s.locals.threads t' = some (p, .publish pc) →
        pub = s.locals.pubs p :=
    fun free _ at_ => by
      have owner := held _ _ _ at_
      rw [free] at owner
      cases owner
  cases moved with
  | startPublish t p input _ free =>
    exact holds.publishing held (.inl free) (holds.pubs p) fun pc waits =>
      obl.publishStart _ _ _ _ _ holds.bucket (holds.pubs p) waits
  | startDiscover t p _ =>
    refine holds.going (fun _ _ _ _ => rfl) (holds.pubs p) fun pc waits => ?_
    exact some.inj waits ▸ obl.discoverStart _ _
  | startBootstrap t p _ =>
    refine holds.going (fun _ _ _ _ => rfl) (holds.pubs p) fun pc waits => ?_
    exact some.inj waits ▸ obl.bootstrapStart _ _
  | startSweep t p _ =>
    refine holds.going (fun _ _ _ _ => rfl) (holds.pubs p) fun pc waits => ?_
    exact some.inj waits ▸ obl.sweepStart _ _ _
  | publish t choice p pc pub r at_ ran =>
    obtain ⟨pubOk, nextOk⟩ := obl.publishProceed _ _ _ _ _ _ _ _ holds.bucket (holds.pubs p)
      (holds.threads t p _ at_) ran
    exact holds.publishing held (.inr (held t p pc at_)) pubOk nextOk
  | discover t choice p pc pub r at_ free ran =>
    obtain ⟨pubOk, nextOk⟩ := obl.discoverLocked _ _ _ _ _ _ holds.bucket (holds.pubs p)
      (holds.threads t p _ at_) ran
    exact holds.going (fun _ _ => unlocked free) pubOk nextOk
  | bootstrap t choice p pc pub r at_ free ran =>
    obtain ⟨pubOk, nextOk⟩ := obl.bootstrapLocked _ _ _ _ _ _ holds.bucket (holds.pubs p)
      (holds.threads t p _ at_) ran
    exact holds.going (fun _ _ => unlocked free) pubOk nextOk
  | sweep t choice p pc r at_ ran =>
    exact holds.going (fun _ _ _ _ => rfl) (holds.pubs p)
      (obl.sweepProceed _ _ _ _ _ _ holds.bucket (holds.threads t p _ at_)
        (allowed pc (by simp [sweepAt, at_])) ran)

omit [DecidableEq P] [DecidableEq T] in
theorem Obligations.asked (obl : Obligations okWrite okSweep cfg I) (holds : I.Holds s)
    {w} (asks : request cfg s.locals t = some (.write w)) :
    I.write s.bucket s.clock w := by
  cases at_ : s.locals.threads t with
  | none => simp [request, at_] at asks
  | some here =>
    obtain ⟨p, pc⟩ := here
    have piece := holds.threads t p pc at_
    simp only [request, at_] at asks
    cases pc with
    | publish pc => exact obl.publishWrite _ _ _ _ _ holds.bucket (holds.pubs p) piece asks
    | sweep pc => exact obl.sweepWrite _ _ _ _ _ holds.bucket piece asks
    | discover pc => exact absurd asks (discoverRequest_ne_write pc w)
    | bootstrap pc => exact absurd asks (bootstrapRequest_ne_write pc w)

omit [DecidableEq P] [DecidableEq T] in
theorem Obligations.stored (obl : Obligations okWrite okSweep cfg I) (holds : I.Holds s)
    {w} (piece : I.write s.bucket s.clock w)
    (accepted : s.bucket.accepts w = true) (allowed : okWrite s.bucket s.clock w) :
    I.Holds { s with bucket := s.bucket.append w.key w.op s.clock } := by
  obtain ⟨writes, pubs, pcs⟩ := obl.append s.bucket s.clock w.key w.op
  exact ⟨obl.store _ _ _ holds.bucket piece accepted allowed,
    fun w' member => writes w' (holds.pending w' member), fun p => pubs _ (holds.pubs p),
    fun t p pc at_ => pcs _ _ _ (holds.threads t p pc at_)⟩

theorem Obligations.holds (obl : Obligations okWrite okSweep cfg I)
    (fresh : ∀ s : ClusterState P T, Fresh s → I.Holds s)
    (reached : Reachable (cluster P cfg) (Guarded okWrite okSweep cfg) s) :
    Held s.locals ∧ I.Holds s := by
  refine reached.invariant (I := fun s => Held s.locals ∧ I.Holds s) (fun s starts => ?_)
    (fun s a s' ih allowed taken => ?_)
  · refine ⟨fun t p pc at_ => ?_, fresh s starts⟩
    rw [starts.idle t] at at_
    cases at_
  · obtain ⟨held, holds⟩ := ih
    cases Protocol.step_move taken with
    | tick elapsed =>
      obtain ⟨bucket, writes, pubs, pcs⟩ := obl.tick s.bucket s.clock elapsed
      exact ⟨held, bucket holds.bucket, fun w member => writes w (holds.pending w member),
        fun p => pubs _ (holds.pubs p), fun t p pc at_ => pcs _ _ _ (holds.threads t p pc at_)⟩
    | call c l' moved =>
      have moved := call_called moved
      exact ⟨held.called moved, obl.called held holds allowed moved⟩
    | land index w waiting accepted =>
      have stored := obl.stored holds (holds.pending w (List.mem_of_getElem? waiting)) accepted
        (allowed w waiting accepted)
      exact ⟨held, stored.bucket,
        fun w' member => stored.pending w' (List.mem_of_mem_eraseIdx member), stored.pubs,
        stored.threads⟩
    | wrote t w l' asks accepted moved =>
      have moved := resume_resumed moved
      have stored := obl.stored holds (obl.asked holds asks) accepted
        (allowed w (by simp [show request cfg s.locals t = _ from asks, asWrite]) accepted)
      let after : ClusterState P T := { s with bucket := s.bucket.append w.key w.op s.clock }
      exact ⟨held.resumed moved, obl.resumed (s := after) held stored asks
        (.written s.bucket w rfl) moved⟩
    | refused t w l' asks _ moved =>
      have moved := resume_resumed moved
      exact ⟨held.resumed moved, obl.resumed held holds asks (.conflict w) moved⟩
    | read t k l' asks moved =>
      have moved := resume_resumed moved
      exact ⟨held.resumed moved, obl.resumed held holds asks (.read k) moved⟩
    | listed t l' asks moved =>
      have moved := resume_resumed moved
      exact ⟨held.resumed moved, obl.resumed held holds asks .keys moved⟩
    | failed t asked l' asks moved =>
      have moved := resume_resumed moved
      exact ⟨held.resumed moved, obl.resumed held holds asks (.failed asked) moved⟩
    | late t w l' asks moved =>
      have moved := resume_resumed moved
      have kept := obl.resumed held holds asks (.failed _) moved
      refine ⟨held.resumed moved, kept.bucket, fun w' member => ?_, kept.pubs, kept.threads⟩
      rcases List.mem_cons.mp member with rfl | older
      · exact obl.asked holds asks
      · exact holds.pending w' older

theorem publish_invariant {Q : Publisher → PublishPc → Prop}
    (start : ∀ pub input pc, (beginPublish pub input).pc? = some pc → Q pub pc)
    (resume : ∀ pub pc asked answer pub' r, Q pub pc →
      publishRequest cfg.codec pub pc = some asked →
      publishResume cfg.codec pub pc answer = some (pub', r) →
      ∀ pc', r.pc? = some pc' → Q pub' pc')
    (proceed : ∀ pub pc now choice pub' r, Q pub pc →
      publishProceed cfg.codec pub now pc choice = some (pub', r) →
      ∀ pc', r.pc? = some pc' → Q pub' pc')
    (reached : Reachable (cluster P cfg) Free s) {pc}
    (at_ : s.locals.threads t = some (p, .publish pc)) : Q (s.locals.pubs p) pc := by
  let I : Piecewise T :=
    { bucket := fun _ _ => True
      write := fun _ _ _ => True
      pub := fun _ _ _ => True
      publish := fun _ _ => Q
      discover := fun _ _ _ => True
      bootstrap := fun _ _ _ => True
      sweep := fun _ _ _ _ => True }
  have same (b b' : Bucket Key Value) (now now' : Int) (t : T) (pub : Publisher) (pc : Pc)
      (ok : I.at_ b now t pub pc) : I.at_ b' now' t pub pc := by
    cases pc <;> exact ok
  have obl : Obligations (fun _ _ _ => True) (fun _ _ _ _ => True) cfg I := by
    constructor
    case tick => exact fun _ _ _ => ⟨id, fun _ => id, fun _ => id, same _ _ _ _⟩
    case append => exact fun _ _ _ _ => ⟨fun _ => id, fun _ => id, same _ _ _ _⟩
    case publishStart => exact fun _ _ _ _ _ _ _ waits => start _ _ _ waits
    case publishResume =>
      exact fun _ _ _ _ _ _ _ _ _ _ ok asks _ ran => ⟨trivial, resume _ _ _ _ _ _ ok asks ran⟩
    case publishProceed =>
      exact fun _ _ _ _ _ _ _ _ _ _ ok ran => ⟨trivial, proceed _ _ _ _ _ _ ok ran⟩
    -- nothing is said of the other programs
    all_goals
      intros
      first
      | trivial
      | exact ⟨trivial, fun _ _ => trivial⟩
  have fresh (s : ClusterState P T) (fresh : Fresh s) : I.Holds s :=
    ⟨trivial, fun _ _ => trivial, fun _ => trivial, fun t p pc at_ => by
      rw [fresh.idle t] at at_; cases at_⟩
  exact (obl.holds fresh (unguarded reached)).2.threads t p _ at_

end Parti.Assignment
