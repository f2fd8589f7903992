/-
# StableId.Exclusive — one claimer at a time holds an id

A claimer holds an id from the write that won it until it asks for its delete, reports
the claim lost, sees the key expire, or its last acknowledged write is older than the
stale threshold. `stable_ids_exclusive`: in every run no two claimers hold one id, a
renewal that is accepted finds only the claimer's own entry, and so does the delete of
a `Release`, also one that arrives late.

Whoever may write has a reason why nobody else holds the id (`Fair`): there is no entry
(a create), the entry is its own (a renewal), or the entry was old when it was read and
still is what it was (a takeover).
-/
import Mathlib.Data.Fintype.Basic
import Parti.StableId.Claimer

namespace Parti.StableId

open Parti.Types Lib Lib.Kv Lib.Client Function Option Bucket List

section Revisions

variable {C : Type} {b : Bucket GoString (Lease C)} {c : C} {revision : Nat}

/-- Revision `revision` was handed out before, and if it is an entry's then claimer `c`
wrote it. -/
def Own (b : Bucket GoString (Lease C)) (c : C) (revision : Nat) : Prop :=
  revision ≤ b.seq ∧ ∀ k e, b.Stored k e → e.revision = revision → e.value.claimer = c

theorem Own.append (own : Own b c revision) (k : GoString) (op : Op (Lease C)) (now : Int) :
    Own (b.append k op now) c revision := by
  refine ⟨Nat.le_succ_of_le own.1, fun k' e stored same => ?_⟩
  obtain new | old := mem_cons.mp stored
  · simp only [Record.mk.injEq] at new
    have := own.1
    omega
  · exact own.2 k' e old same

theorem own_zero (b : Bucket GoString (Lease C)) (c : C) : Own b c 0 :=
  ⟨Nat.zero_le _, fun _ _ stored same => absurd (b.positive _ stored) (by simp [same])⟩

theorem own_written (b : Bucket GoString (Lease C)) (k : GoString) (c : C) (now : Int) :
    Own (b.append k (.put ⟨c⟩) now) c (b.seq + 1) := by
  refine ⟨le_refl _, fun k' e stored same => ?_⟩
  obtain ⟨_, rfl⟩ := stored.unique (b.stored_append_put k ⟨c⟩ now) same
  rfl

theorem Own.live (own : Own b c revision) {k} {e}
    (live : b.get k = some e) (current : b.lastRevision k = revision) : e.value.claimer = c := by
  exact own.2 k e (get_stored live) ((lastRevision_of_get live).symm.trans current)

end Revisions

variable {T C : Type}

/-- The entry of revision `revision` at `k` is older than the threshold. -/
def Stale (cfg : Config) (w : State (C → Claimer T) GoString (Lease C)) (k : GoString)
    (revision : Nat) : Prop :=
  ∃ e, w.bucket.Stored k e ∧ e.revision = revision ∧ e.created + staleThreshold cfg < w.clock

def Fair (cfg : Config) (w : State (C → Claimer T) GoString (Lease C)) :
    Write GoString (Lease C) → Prop
  | .create _ _ => True
  | .update k v revision => Own w.bucket v.claimer revision ∨ Stale cfg w k revision
  | .delete k revision => ∃ c, (k, revision) ∈ (w.locals c).unsure ∧
      ((w.locals c).held k ≠ none → revision < w.bucket.lastRevision k)
  | _ => False

def Carries (cfg : Config) (w : State (C → Claimer T) GoString (Lease C)) : Pc C → Prop
  | .on _ (.judge id revision created) =>
    ∃ e, w.bucket.Stored (keyForID cfg id) e ∧ e.revision = revision ∧ e.created = created
  | .on _ (.takeover id revision) => Stale cfg w (keyForID cfg id) revision
  | .on c (.won _ revision) | .on c (.wonID _ revision) | .on c (.renewUpdate _ revision)
  | .on c (.renewed revision) | .on c (.delete _ revision) => Own w.bucket c revision
  | _ => True

structure Exclusive (cfg : Config) (w : State (C → Claimer T) GoString (Lease C)) : Prop where
  timed : w.bucket.Timed w.clock
  last : ∀ c, Own w.bucket c (w.locals c).lastRevision
  unsure : ∀ c p, p ∈ (w.locals c).unsure → Own w.bucket c p.2
  held : ∀ c k since, (w.locals c).held k = some since →
    w.clock - since ≤ staleThreshold cfg →
    ∃ e, w.bucket.get k = some e ∧ e.value.claimer = c ∧ since ≤ e.created
  pending : ∀ write ∈ w.pending, Fair cfg w write

variable {cfg : Config} {w : State (C → Claimer T) GoString (Lease C)}

/-! ## Frames -/

variable {w' : State (C → Claimer T) GoString (Lease C)} {k : GoString} {revision : Nat} {pc : Pc C}
  {c : C} {e' e : Claimer T} {now since : Int} {at_ at' : At} {write : Write GoString (Lease C)}
  {cells' : C → Claimer T} {key : GoString} {pc' : Pc C} {answer : Answer GoString (Lease C)}

theorem Stale.frame (stale : Stale cfg w k revision)
    (kept : ∀ e, w.bucket.Stored k e → w'.bucket.Stored k e) (later : w.clock ≤ w'.clock) :
    Stale cfg w' k revision := by
  obtain ⟨e, stored, same, old⟩ := stale
  exact ⟨e, kept e stored, same, by omega⟩

theorem Carries.frame (carries : Carries cfg w pc)
    (kept : ∀ k e, w.bucket.Stored k e → w'.bucket.Stored k e)
    (own : ∀ c revision, Own w.bucket c revision → Own w'.bucket c revision)
    (later : w.clock ≤ w'.clock) : Carries cfg w' pc := by
  unfold Carries at carries ⊢
  split
  · obtain ⟨e, stored, rest⟩ := carries
    exact ⟨e, kept _ e stored, rest⟩
  · exact Stale.frame carries (kept _) later
  all_goals first | exact own _ _ carries | trivial

/-- Records and claims that a step does not add to. -/
structure Subdued (e e' : Claimer T) : Prop where
  unsure : e'.unsure = e.unsure
  held : ∀ k since, e'.held k = some since → e.held k = some since

theorem Subdued.refl (e : Claimer T) : Subdued e e := ⟨rfl, fun _ _ => id⟩

theorem subdued_lets (e : Claimer T) (key : GoString) : Subdued e (e.lets key) := by
  refine ⟨rfl, fun k since held => ?_⟩
  by_cases same : k = key
  · subst same
    simp [Claimer.lets] at held
  · simpa [Claimer.lets, same] using held

variable [DecidableEq C]

theorem Subdued.update {cells} (subdued : Subdued (cells c) e') (c' : C) :
    Subdued (cells c') (Function.update cells c e' c') := by
  by_cases same : c' = c
  · subst same
    rwa [update_self]
  · rw [update_of_ne same]
    exact .refl _

theorem Advances.subdued (advances : Advances cfg e now at_ e' at') : Subdued e e' := by
  cases advances with
  | lost key missing result =>
    exact ⟨rfl, (subdued_lets e key).held⟩
  | _ => exact ⟨rfl, fun _ _ => id⟩

omit [DecidableEq C] in
theorem Advances.carries (advances : Advances cfg e w.clock at_ e' at')
    (last : Own w.bucket c e.lastRevision) (carries : Carries cfg w (.on c at_)) :
    Own w.bucket c e'.lastRevision ∧ Carries cfg w (.on c at') := by
  cases advances with
  | stale id revision created old =>
    obtain ⟨live, stored, same, rfl⟩ := carries
    exact ⟨last, live, stored, same, by omega⟩
  | won key revision => exact ⟨last, carries⟩
  | claimed | renewed => exact ⟨carries, trivial⟩
  | load | releaseLoad => exact ⟨last, last⟩
  | _ => exact ⟨last, trivial⟩

/-! ## Writes -/

/-- In time: the claimer's last acknowledged write is not older than the threshold. -/
def InTime (cfg : Config) (w : State (C → Claimer T) GoString (Lease C)) (c : C) (k : GoString) :
    Prop :=
  ∃ since, (w.locals c).held k = some since ∧ w.clock - since ≤ staleThreshold cfg

omit [DecidableEq C] in
theorem Exclusive.live (exclusive : Exclusive cfg w) (inTime : InTime cfg w c k) :
    ∃ e, w.bucket.get k = some e ∧ e.value.claimer = c ∧
      w.clock - e.created ≤ staleThreshold cfg := by
  obtain ⟨since, held, young⟩ := inTime
  obtain ⟨e, live, own, le⟩ := exclusive.held c k since held young
  exact ⟨e, live, own, by omega⟩

theorem Fair.free (exclusive : Exclusive cfg w) (fair : Fair cfg w write)
    (accepted : w.bucket.accepts write = true) {v} (put : write.op = .put v)
    (inTime : InTime cfg w c write.key) : c = v.claimer := by
  obtain ⟨e, live, own, young⟩ := exclusive.live inTime
  cases write with
  | create k v' =>
    rw [accepts_create] at accepted
    rw [show (Write.create k v').key = k from rfl, accepted] at live
    cases live
  | update k v' revision =>
    cases put
    rw [accepts_update] at accepted
    obtain mine | ⟨old, stored, same, stale⟩ := fair
    · exact own.symm.trans (mine.live live accepted)
    · -- the entry that was old when it was read is the live one
      rw [show (Write.update k v revision).key = k from rfl,
        stored.get_of_lastRevision (accepted.trans same.symm)] at live
      cases live
      omega
  | put k v' => cases fair
  | delete | remove => cases put

omit [DecidableEq C] in
theorem Fair.append {op} (exclusive : Exclusive cfg w) (fair : Fair cfg w write)
    (unsure : ∀ c p, p ∈ (w.locals c).unsure → p ∈ (cells' c).unsure)
    (held : ∀ c k', (cells' c).held k' ≠ none → (w.locals c).held k' ≠ none ∨ k' = k) :
    Fair cfg { w with bucket := w.bucket.append k op w.clock, locals := cells' } write := by
  cases write with
  | create k' v => trivial
  | update k' v revision =>
    exact fair.imp (fun own => own.append k op _)
      fun stale => stale.frame (fun _ stored => stored.append k op _) (le_refl w.clock)
  | delete k' revision =>
    obtain ⟨c, mem, gone⟩ := fair
    refine ⟨c, unsure c _ mem, fun some_ => ?_⟩
    obtain was | rfl := held c k' some_
    · exact lt_of_lt_of_le (gone was) (lastRevision_append_le _ _ _ _ _)
    · have := (exclusive.unsure c _ mem).1
      simp only [lastRevision, last_append_self, map_some, getD_some]
      exact Nat.lt_succ_of_le this
  | put | remove => cases fair

omit [DecidableEq C] in
theorem Exclusive.put (exclusive : Exclusive cfg w) (free : ∀ c', InTime cfg w c' k → c' = c)
    (last : ∀ c', Own (w.bucket.append k (.put ⟨c⟩) w.clock) c' (cells' c').lastRevision)
    (unsure : ∀ c', (cells' c').unsure = (w.locals c').unsure)
    (held : ∀ c' k' since, (cells' c').held k' = some since →
      (w.locals c').held k' = some since ∨ c' = c ∧ k' = k ∧ since = w.clock) :
    Exclusive cfg { w with bucket := w.bucket.append k (.put ⟨c⟩) w.clock, locals := cells' } where
  timed := exclusive.timed.append k _
  last := last
  unsure c' p mem := (exclusive.unsure c' p (unsure c' ▸ mem)).append k _ _
  held c' k' since there young := by
    obtain was | ⟨rfl, rfl, rfl⟩ := held c' k' since there
    · by_cases same : k' = k
      · subst same
        obtain rfl := free c' ⟨since, was, young⟩
        obtain ⟨e, live, _, le⟩ := exclusive.held c' k' since was young
        exact ⟨_, get_append_put _ _ _ _, rfl,
          le.trans (exclusive.timed.upTo _ (get_stored live))⟩
      · obtain ⟨e, live, rest⟩ := exclusive.held c' k' since was young
        exact ⟨e, (get_append_ne _ _ _ same).trans live, rest⟩
    · exact ⟨_, get_append_put _ _ _ _, rfl, le_refl _⟩
  pending write mem := by
    refine (exclusive.pending write mem).append exclusive (fun c' p here => unsure c' ▸ here)
      fun c' k' some_ => ?_
    obtain ⟨since, there⟩ := ne_none_iff_exists'.mp some_
    refine (held c' k' since there).imp (fun was => ?_) fun new => new.2.1
    rw [was]
    exact some_ne_none since

omit [DecidableEq C] in
theorem Exclusive.delete (exclusive : Exclusive cfg w)
    (gone : ∀ c since, (cells' c).held k = some since → ¬w.clock - since ≤ staleThreshold cfg)
    (subdued : ∀ c, Subdued (w.locals c) (cells' c))
    (last : ∀ c, (cells' c).lastRevision = (w.locals c).lastRevision) :
    Exclusive cfg { w with bucket := w.bucket.append k .delete w.clock, locals := cells' } where
  timed := exclusive.timed.append k _
  last c := by
    simp only [last c]
    exact (exclusive.last c).append k _ _
  unsure c p mem := (exclusive.unsure c p ((subdued c).unsure ▸ mem)).append k _ _
  held c k' since there young := by
    by_cases same : k' = k
    · subst same
      exact absurd young (gone c since there)
    · obtain ⟨e, live, rest⟩ := exclusive.held c k' since ((subdued c).held k' since there) young
      exact ⟨e, (get_append_ne _ _ _ same).trans live, rest⟩
  pending write mem := by
    refine (exclusive.pending write mem).append exclusive (fun c p here => (subdued c).unsure ▸ here)
      fun c k' some_ => .inl ?_
    obtain ⟨since, there⟩ := ne_none_iff_exists'.mp some_
    rw [(subdued c).held k' since there]
    exact some_ne_none since

/-! ## Steps that write nothing -/

/-- What the claimer's fields may do in such a step: nothing is held that was not, and
revisions come from where they may. -/
structure Modest (b : Bucket GoString (Lease C)) (c : C) (e e' : Claimer T) : Prop where
  last : Own b c e'.lastRevision
  kept : ∀ p ∈ e.unsure, p ∈ e'.unsure
  unsure : ∀ p ∈ e'.unsure, Own b c p.2
  held : ∀ k since, e'.held k = some since → e.held k = some since

omit [DecidableEq C] in
theorem Exclusive.modest (exclusive : Exclusive cfg w) (subdued : Subdued (w.locals c) e')
    (last : Own w.bucket c e'.lastRevision) :
    Modest w.bucket c (w.locals c) e' where
  last := last
  kept _ mem := subdued.unsure ▸ mem
  unsure p mem := exclusive.unsure c p (subdued.unsure ▸ mem)
  held := subdued.held

theorem Exclusive.modest_update (exclusive : Exclusive cfg w)
    (modest : Modest w.bucket c (w.locals c) e') (c' : C) :
    Modest w.bucket c' (w.locals c') (Function.update w.locals c e' c') := by
  by_cases same : c' = c
  · subst same
    rwa [update_self]
  · rw [update_of_ne same]
    exact exclusive.modest (.refl _) (exclusive.last c')

omit [DecidableEq C] in
theorem Fair.still (fair : Fair cfg w write) (bucket : w'.bucket = w.bucket)
    (later : w.clock ≤ w'.clock) (modest : ∀ c, Modest w.bucket c (w.locals c) (w'.locals c)) :
    Fair cfg w' write := by
  cases write with
  | create k v => trivial
  | update k v revision =>
    rw [Fair, bucket]
    exact fair.imp id fun stale => stale.frame (fun _ stored => bucket ▸ stored) later
  | delete k revision =>
    obtain ⟨c, mem, gone⟩ := fair
    refine ⟨c, (modest c).kept _ mem, fun some_ => ?_⟩
    obtain ⟨since, there⟩ := ne_none_iff_exists'.mp some_
    rw [bucket]
    exact gone (by rw [(modest c).held k since there]; exact some_ne_none since)
  | put | remove => cases fair

omit [DecidableEq C] in
theorem Exclusive.still (exclusive : Exclusive cfg w) (bucket : w'.bucket = w.bucket)
    (later : w.clock ≤ w'.clock) (modest : ∀ c, Modest w.bucket c (w.locals c) (w'.locals c))
    (pending : ∀ write ∈ w'.pending, write ∈ w.pending ∨ Fair cfg w' write) :
    Exclusive cfg w' where
  timed := bucket ▸ exclusive.timed.later later
  last c := bucket ▸ (modest c).last
  unsure c p mem := bucket ▸ (modest c).unsure p mem
  held c k since there young := by
    rw [bucket]
    exact exclusive.held c k since ((modest c).held k since there) (by omega)
  pending write mem := (pending write mem).elim
    (fun old => (exclusive.pending write old).still bucket later modest) id

omit [DecidableEq C] in
theorem Answers.unwritten (answers : Answers cfg (w.locals c) w.clock at_ answer e' at')
    (exclusive : Exclusive cfg w) (carries : Carries cfg w (.on c at_))
    (unwritten : ∀ revision, answer ≠ .written revision)
    (read : ∀ id live, at_ = .get id → answer = .entry (some live) →
      w.bucket.Stored (keyForID cfg id) live) :
    Modest w.bucket c (w.locals c) e' ∧ Carries cfg w (.on c at') := by
  have same := exclusive.modest (.refl _) (exclusive.last c)
  have lets (key : GoString) := exclusive.modest (subdued_lets _ key) (exclusive.last c)
  cases answers with
  | wins _ _ revision | renews _ _ revision => exact absurd rfl (unwritten revision)
  | taken | beaten | gone | lost | failed => exact ⟨same, trivial⟩
  | unclaimed _ id claims result => exact ⟨{ same with }, trivial⟩
  | seen id live => exact ⟨same, live, read id live rfl rfl, rfl, rfl⟩
  | lets key last _ _ => exact ⟨lets key, trivial⟩
  | unsure key last result =>
    refine ⟨{ lets key with kept := fun p mem => .tail _ mem, unsure := ?_ }, trivial⟩
    exact forall_mem_cons.mpr ⟨carries, exclusive.unsure c⟩

/-! ## Every run -/

theorem Exclusive.told (exclusive : Exclusive cfg w) (free : ∀ c', InTime cfg w c' k → c' = c)
    (last : e'.lastRevision = (w.locals c).lastRevision) (unsure : e'.unsure = (w.locals c).unsure)
    (held : ∀ k' since, e'.held k' = some since →
      (w.locals c).held k' = some since ∨ k' = k ∧ since = w.clock) :
    Exclusive cfg { w with bucket := w.bucket.append k (.put ⟨c⟩) w.clock,
                           locals := Function.update w.locals c e' } := by
  refine exclusive.put free (fun c' => ?_) (fun c' => ?_) fun c' k' since there => ?_
  all_goals by_cases same : c' = c
  · subst same
    rw [update_self, last]
    exact (exclusive.last c').append k _ _
  · rw [update_of_ne same]
    exact (exclusive.last c').append k _ _
  · subst same
    rw [update_self, unsure]
  · rw [update_of_ne same]
  · subst same
    rw [update_self] at there
    exact (held k' since there).imp_right fun new => ⟨rfl, new⟩
  · rw [update_of_ne same] at there
    exact .inl there

theorem wins_held (held : (e.wins now key revision).held k = some since) :
    e.held k = some since ∨ k = key ∧ since = now := by
  by_cases same : k = key
  · subst same
    simp only [Claimer.wins, update_self, Option.some.injEq] at held
    exact .inr ⟨rfl, held.symm⟩
  · simp only [Claimer.wins, update_of_ne same] at held
    exact .inl held

theorem renews_held (held : (e.renews now key revision).held k = some since) :
    e.held k = some since ∨ k = key ∧ since = now := by
  by_cases same : k = key
  · subst same
    simp only [Claimer.renews, update_self, map_eq_some_iff] at held
    obtain ⟨_, _, rfl⟩ := held
    exact .inr ⟨rfl, rfl⟩
  · simp only [Claimer.renews, update_of_ne same] at held
    exact .inl held

theorem Exclusive.wins (exclusive : Exclusive cfg w) (free : ∀ c', InTime cfg w c' key → c' = c) :
    Exclusive cfg { w with bucket := w.bucket.append key (.put ⟨c⟩) w.clock,
                           locals := Function.update w.locals c
                             ((w.locals c).wins w.clock key revision) } :=
  exclusive.told free rfl rfl fun _ _ => wins_held

theorem Exclusive.lets (exclusive : Exclusive cfg w) (own : Own w.bucket c revision)
    (current : w.bucket.lastRevision key = revision) :
    Exclusive cfg { w with bucket := w.bucket.append key .delete w.clock,
                           locals := Function.update w.locals c ((w.locals c).lets key) } := by
  refine exclusive.delete (fun c' since there young => ?_) (subdued_lets _ key).update fun c' => ?_
  · by_cases same : c' = c
    · subst same
      simp [Claimer.lets] at there
    · rw [update_of_ne same] at there
      obtain ⟨e, live, theirs, _⟩ := exclusive.live ⟨since, there, young⟩
      exact same (theirs.symm.trans (own.live live current))
  · by_cases same : c' = c
    · subst same
      rw [update_self]
      rfl
    · rw [update_of_ne same]

theorem Exclusive.steps (exclusive : Exclusive cfg w) {t : T} {input}
    {spawned} (steps : Steps cfg w.locals t w.clock pc input cells' pc' spawned)
    (carries : Carries cfg w pc) :
    Exclusive cfg { w with locals := cells' } ∧ Carries cfg { w with locals := cells' } pc' ∧
      ∀ fresh first, spawned = some (fresh, first) → Carries cfg { w with locals := cells' } first := by
  have cells {c : C} {e' : Claimer T} (modest : Modest w.bucket c (w.locals c) e') :
      Exclusive cfg { w with locals := Function.update w.locals c e' } :=
    exclusive.still rfl (le_refl w.clock) (exclusive.modest_update modest) fun _ => .inl
  have same (c : C) : Modest w.bucket c (w.locals c) (w.locals c) :=
    exclusive.modest (.refl _) (exclusive.last c)
  cases steps with
  | claim c | close c => exact ⟨cells { same c with }, trivial, nofun⟩
  | startRenewal | release | expire | done => exact ⟨exclusive, trivial, nofun⟩
  | spawn c fresh first => exact ⟨cells { same c with }, trivial, by rintro _ _ ⟨⟩; trivial⟩
  | advances c at_ input e' at' advances =>
    obtain ⟨last, carries'⟩ := advances.carries (exclusive.last c) carries
    exact ⟨cells (exclusive.modest advances.subdued last),
      carries'.frame (fun _ _ => id) (fun _ _ => id) (le_refl w.clock), nofun⟩

omit [DecidableEq C] in
theorem Asks.fair (asks : Asks cfg pc write) (carries : Carries cfg w pc)
    (puts : write.op ≠ .delete) : Fair cfg w write := by
  cases asks with
  | create | createRetry => trivial
  | takeover c id revision => exact .inr carries
  | renew c key revision =>
    unfold renewal
    split
    next => trivial
    next => exact .inl carries
  | delete | expire => exact absurd rfl puts

omit [DecidableEq C] in
@[simp] theorem renewal_key (c : C) (key : GoString) (revision : Nat) :
    (renewal c key revision).key = key := by
  unfold renewal
  split <;> rfl

omit [DecidableEq C] in
@[simp] theorem renewal_op (c : C) (key : GoString) (revision : Nat) :
    (renewal c key revision).op = .put ⟨c⟩ := by
  unfold renewal
  split <;> rfl

theorem At.Claims.unique {id id' : Int} (claims : at_.Claims id) (claims' : at_.Claims id') :
    id = id' := by
  obtain rfl | rfl | ⟨_, rfl⟩ := claims <;> obtain same | same | ⟨_, same⟩ := claims' <;>
    cases same <;> rfl

theorem Exclusive.claims (exclusive : Exclusive cfg w) {id : Int}
    (free : ∀ c', InTime cfg w c' (keyForID cfg id) → c' = c) (claims : at_.Claims id)
    (tells : Tells cfg w.locals w.clock (.on c at_) (.written (w.bucket.seq + 1)) cells' pc') :
    let w' := { w with bucket := w.bucket.append (keyForID cfg id) (.put ⟨c⟩) w.clock,
                       locals := cells' }
    Exclusive cfg w' ∧ Carries cfg w' pc' := by
  cases tells with
  | answers _ _ _ e' at' answers =>
    cases answers with
    | wins _ id' _ claims' =>
      obtain rfl := claims.unique claims'
      exact ⟨exclusive.wins free, own_written _ _ _ _⟩
    | gone | renews | lets => obtain claims | claims | ⟨_, claims⟩ := claims <;> cases claims

theorem Exclusive.wrote (exclusive : Exclusive cfg w) (asks : Asks cfg pc write)
    (accepted : w.bucket.accepts write = true) (carries : Carries cfg w pc)
    (tells : Tells cfg w.locals w.clock pc (.written (w.bucket.seq + 1)) cells' pc') :
    let w' := { w with bucket := w.bucket.append write.key write.op w.clock, locals := cells' }
    Exclusive cfg w' ∧ Carries cfg w' pc' := by
  cases asks with
  | create c id =>
    have fair : Fair cfg w (.create (keyForID cfg id) ⟨c⟩) := trivial
    exact exclusive.claims (fun c' => fair.free exclusive accepted rfl) (.inl rfl) tells
  | createRetry c id =>
    have fair : Fair cfg w (.create (keyForID cfg id) ⟨c⟩) := trivial
    exact exclusive.claims (fun c' => fair.free exclusive accepted rfl) (.inr (.inl rfl)) tells
  | takeover c id revision =>
    have fair : Fair cfg w (.update (keyForID cfg id) ⟨c⟩ revision) := .inr carries
    exact exclusive.claims (fun c' => fair.free exclusive accepted rfl)
      (.inr (.inr ⟨revision, rfl⟩)) tells
  | renew c key revision =>
    have fair : Fair cfg w (renewal c key revision) := Asks.fair (.renew c key revision) carries (by simp)
    rw [renewal_key, renewal_op]
    cases tells with
    | answers _ _ _ e' at' answers =>
      cases answers with
      | wins _ id _ claims => obtain claims | claims | ⟨_, claims⟩ := claims <;> cases claims
      | renews _ _ _ =>
        refine ⟨exclusive.told (fun c' inTime => ?_) rfl rfl fun _ _ => renews_held,
          own_written _ _ _ _⟩
        exact fair.free exclusive accepted (renewal_op c key revision) (by simpa using inTime)
  | delete c key revision =>
    cases tells with
    | answers _ _ _ e' at' answers =>
      cases answers with
      | wins _ id _ claims => obtain claims | claims | ⟨_, claims⟩ := claims <;> cases claims
      | lets _ _ _ _ =>
        exact ⟨exclusive.lets carries (accepts_delete.mp accepted), trivial⟩
  | expire key =>
    cases tells with
    | expired _ _ =>
      refine ⟨exclusive.delete (fun c since there => ?_) (fun c => subdued_lets _ key)
        fun _ => rfl, trivial⟩
      simp [Claimer.lets, Write.key] at there

theorem Exclusive.heard (exclusive : Exclusive cfg w) (carries : Carries cfg w pc)
    (tells : Tells cfg w.locals w.clock pc answer cells' pc')
    (unwritten : ∀ revision, answer ≠ .written revision)
    (read : ∀ c id live, pc = .on c (.get id) → answer = .entry (some live) →
      w.bucket.Stored (keyForID cfg id) live) :
    (∀ c, Modest w.bucket c (w.locals c) (cells' c)) ∧
      Carries cfg { w with locals := cells' } pc' := by
  cases tells with
  | answers c at_ _ e' at' answers =>
    obtain ⟨modest, carries'⟩ := answers.unwritten exclusive carries unwritten
      fun id live here => read c id live (here ▸ rfl)
    exact ⟨exclusive.modest_update modest,
      carries'.frame (fun _ _ => id) (fun _ _ => id) (le_refl w.clock)⟩
  | expired key revision => exact absurd rfl (unwritten revision)

theorem Exclusive.late (exclusive : Exclusive cfg w) (asks : Asks cfg pc write)
    (carries : Carries cfg w pc) (tells : Tells cfg w.locals w.clock pc .failed cells' pc') :
    let w' := { w with pending := write :: w.pending, locals := cells' }
    Exclusive cfg w' ∧ Carries cfg w' pc' := by
  obtain ⟨modest, carries'⟩ := exclusive.heard carries tells (by simp) (by simp)
  refine ⟨exclusive.still rfl (le_refl w.clock) modest fun write' mem => ?_, carries'⟩
  obtain rfl | old := mem_cons.mp mem
  · right
    by_cases puts : write'.op = .delete
    · cases asks with
      | delete c key revision =>
        cases tells with
        | answers _ _ _ e' at' answers =>
          cases answers with
          | lets _ _ _ definite => exact absurd rfl definite
          | unclaimed _ id claims _ =>
            obtain claims | claims | ⟨_, claims⟩ := claims <;> cases claims
          | unsure _ _ result =>
            refine ⟨c, ?_, ?_⟩
            · simp
            · simp [Claimer.lets]
      | expire key => cases tells
      | renew c key revision => simp at puts
      | create | createRetry | takeover => cases puts
    · exact (asks.fair carries puts).still rfl (le_refl w.clock) modest
  · exact .inl old

theorem Exclusive.land (exclusive : Exclusive cfg w) {index : Nat}
    (waiting : w.pending[index]? = some write) (accepted : w.bucket.accepts write = true) :
    Exclusive cfg { w with bucket := w.bucket.append write.key write.op w.clock,
                           pending := w.pending.eraseIdx index } := by
  have fair := exclusive.pending write (mem_of_getElem? waiting)
  have arrives : Exclusive cfg { w with bucket := w.bucket.append write.key write.op w.clock } := by
    by_cases puts : write.op = .delete
    · cases write with
      | delete k revision =>
        obtain ⟨c, mem, gone⟩ := fair
        have current := accepts_delete.mp accepted
        refine exclusive.delete (fun c' since there young => ?_) (fun _ => .refl _) fun _ => rfl
        obtain ⟨e, live, theirs, _⟩ := exclusive.live ⟨since, there, young⟩
        obtain rfl := theirs.symm.trans ((exclusive.unsure c _ mem).live live current)
        have := gone (ne_none_iff_exists'.mpr ⟨since, there⟩)
        omega
      | create | update | put => cases puts
      | remove k => cases fair
    · obtain ⟨⟨c⟩, put⟩ : ∃ v, write.op = .put v := by
        cases op : write.op with
        | put v => exact ⟨v, rfl⟩
        | delete => exact absurd op puts
      rw [put]
      exact exclusive.put (fun c' => fair.free exclusive accepted put)
        (fun c' => (exclusive.last c').append _ _ _) (fun _ => rfl) fun _ _ _ => .inl
  exact { arrives with
    pending := fun write' mem => arrives.pending write' (mem_of_mem_eraseIdx mem) }

variable [DecidableEq T]

theorem exclusive_of_reachable {ok} {s} (reached : Reachable (pool T C cfg) ok s) :
    Exclusive cfg (world s) ∧ ∀ t, Carries cfg (world s) (s.locals.pcs t) := by
  refine Reachable.routine (F := fun _ => True) (I := Exclusive cfg)
    (N := fun w _ pc => Carries cfg w pc) (fun _ _ => trivial) ?_ ?_ ?_ reached
  · rintro ⟨bucket, pending, clock, cells⟩ ⟨rfl, rfl, rfl⟩
    refine ⟨⟨⟨by simp [empty], .nil⟩, fun c => own_zero _ c, fun c p mem => ?_,
      fun c k since there => ?_, fun _ mem => ?_⟩, fun _ => trivial⟩
    · cases mem
    · cases there
    · cases mem
  · intro s t a w' pc' spawned _ _ exclusive carries does
    have beside (cells : C → Claimer T) (pending : List (Write GoString (Lease C))) (u : T)
        (_ : u ≠ t) :
        Carries cfg { world s with locals := cells, pending := pending } (s.locals.pcs u) :=
      (carries u).frame (fun _ _ => id) (fun _ _ => id) (le_refl s.clock)
    cases does with
    | next input turn moved =>
      obtain ⟨exclusive', own, first⟩ := exclusive.steps (next_steps moved) (carries t)
      exact ⟨exclusive', own, beside _ _, fun fresh pc new _ _ => first fresh pc new⟩
    | wrote write cells pc' asked accepted told =>
      obtain ⟨exclusive', own⟩ :=
        exclusive.wrote (asks_write asked) accepted (carries t) (told_tells told)
      exact ⟨exclusive', own, fun u _ => (carries u).frame (fun _ _ stored => stored.append _ _ _)
        (fun _ _ own => own.append _ _ _) (le_refl s.clock), nofun⟩
    | heard _ answer cells pc' hears told =>
      obtain ⟨modest, own⟩ := exclusive.heard (carries t) (told_tells told)
        (by rintro revision rfl; exact Hears.not_written hears) (by
          rintro c id live here rfl
          obtain ⟨k, asked, live⟩ := hears.entry
          rw [here] at asked
          cases asked
          exact get_stored live)
      exact ⟨exclusive.still rfl (le_refl s.clock) modest fun _ => .inl, own, beside _ _,
        nofun⟩
    | late write cells pc' asked told =>
      obtain ⟨exclusive', own⟩ := exclusive.late (asks_write asked) (carries t) (told_tells told)
      exact ⟨exclusive', own, beside _ _, nofun⟩
  · intro s a w' _ _ exclusive carries passes
    cases passes with
    | tick elapsed =>
      refine ⟨exclusive.still rfl (Int.le_add_of_nonneg_right (Int.natCast_nonneg _))
        (fun c => exclusive.modest (.refl _) (exclusive.last c)) fun _ => .inl, fun t => ?_⟩
      exact (carries t).frame (fun _ _ => id) (fun _ _ => id)
        (Int.le_add_of_nonneg_right (Int.natCast_nonneg _))
    | land index write waiting accepted =>
      refine ⟨exclusive.land waiting accepted, fun t => ?_⟩
      exact (carries t).frame (fun _ _ stored => stored.append _ _ _)
        (fun _ _ own => own.append _ _ _) (le_refl s.clock)

theorem stable_ids_exclusive {s : State (Pool (C → Claimer T) (Pc C) T) GoString (Lease C)}
    (reached : Reachable (pool T C cfg) Free s) :
    (∀ c c' k, InTime cfg (world s) c k → InTime cfg (world s) c' k → c = c') ∧
      (∀ t c k revision e, s.locals.pcs t = .on c (.renewUpdate k revision) →
        s.bucket.accepts (renewal c k revision) = true → s.bucket.get k = some e →
        e.value.claimer = c) ∧
      (∀ t c k revision e, s.locals.pcs t = .on c (.delete k revision) →
        s.bucket.accepts (.delete k revision) = true → s.bucket.get k = some e →
        e.value.claimer = c) ∧
      ∀ k revision, .delete k revision ∈ s.pending →
        ∃ c, (k, revision) ∈ (s.locals.cells c).unsure ∧
          ∀ e, s.bucket.accepts (.delete k revision) = true → s.bucket.get k = some e →
            e.value.claimer = c := by
  obtain ⟨exclusive, carries⟩ := exclusive_of_reachable reached
  refine ⟨fun c c' k inTime inTime' => ?_, fun t c k revision e here accepted live => ?_,
    fun t c k revision e here accepted live => ?_, fun k revision mem => ?_⟩
  · obtain ⟨e, live, own, _⟩ := exclusive.live inTime
    obtain ⟨e', live', own', _⟩ := exclusive.live inTime'
    rw [live] at live'
    cases live'
    exact own.symm.trans own'
  · have own := carries t
    rw [here] at own
    unfold renewal at accepted
    split at accepted
    · rw [accepts_create, live] at accepted
      cases accepted
    · exact Own.live own live (accepts_update.mp accepted)
  · have own := carries t
    rw [here] at own
    exact Own.live own live (accepts_delete.mp accepted)
  · obtain ⟨c, unsure, _⟩ := exclusive.pending _ mem
    exact ⟨c, unsure, fun e accepted live =>
      (exclusive.unsure c _ unsure).live live (accepts_delete.mp accepted)⟩

/-- The ids `w-0` and `w-1`, with a lease of three seconds. -/
def twoIDs : Config := ⟨[119], 0, 1, 3000000000⟩

def claimsFree {T C : Type} (t : T) (c : C) : List (Action T (T × Input C T)) :=
  [.call (t, .claim c), .call (t, .go), .step t .served, .call (t, .go), .call (t, .go),
    .call (t, .go)]

def takesOver {T C : Type} (t : T) (c : C) : List (Action T (T × Input C T)) :=
  [.call (t, .claim c), .call (t, .go), .step t .served, .step t .served, .call (t, .go),
    .step t .served, .call (t, .go), .call (t, .go), .call (t, .go)]

theorem stable_ids_exclusive_after_takeover :
    ∃ s : State (Pool (Bool → Claimer (Fin 1)) (Pc Bool) (Fin 1)) GoString (Lease Bool),
      Reachable (pool (Fin 1) Bool twoIDs) Free s ∧ InTime twoIDs (world s) false [119, 45, 48] ∧
        (s.locals.cells true).held [119, 45, 48] = some 0 ∧
        ¬InTime twoIDs (world s) true [119, 45, 48] := by
  obtain ⟨s, reached, now, before, after⟩ := exists_reachable Free (fresh_init (T := Fin 1) twoIDs)
    (claimsFree 0 true ++ [.tick 3000000001] ++ takesOver 0 false) (fun s => s.clock = 3000000001 ∧
      (s.locals.cells true).held [119, 45, 48] = some 0 ∧
      (s.locals.cells false).held [119, 45, 48] = some 3000000001) (by decide)
  have inTime : InTime twoIDs (world s) false [119, 45, 48] :=
    ⟨3000000001, after, by simp [world, now]; decide⟩
  refine ⟨s, reached, inTime, before, fun other => ?_⟩
  exact absurd ((stable_ids_exclusive reached).1 _ _ _ inTime other) (by decide)

end Parti.StableId
