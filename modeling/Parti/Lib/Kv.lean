/-
# Lib.Kv — a bucket of revisioned keys, as the log behind it

A bucket is the log of everything written to it, newest record first. Each
record takes the next revision of the whole bucket, so revisions name records;
that is a field of the structure, not a fact to re-prove. A key's live entry is
its newest record, unless that record is a delete marker.

`Write` is the set of write requests a client can make. `Bucket.accepts` is
their precondition:

* `create` needs a key with no live entry;
* `update` and `delete` are conditioned on the revision of the key's newest
  record;
* `put` and `remove` are unconditional.

`Stored b k e` says that entry `e` was stored under `k` at some point. It is
what a client that read `e` knows forever (`Stored.append`).
-/
import Mathlib.Data.List.Dedup
import Mathlib.Data.List.Pairwise

namespace Parti.Lib.Kv

open List Option

universe u v

/-- What a record does to its key. -/
inductive Op (V : Type v) where
  | put (value : V)
  | delete
deriving DecidableEq

/-- One message of the stream behind the bucket. -/
structure Record (K : Type u) (V : Type v) where
  key : K
  op : Op V
  revision : Nat
  created : Int
deriving DecidableEq

/-- What a read returns. -/
structure Entry (V : Type v) where
  value : V
  revision : Nat
  created : Int
deriving DecidableEq

/-- The log of a bucket, newest first. -/
structure Bucket (K : Type u) (V : Type v) where
  log : List (Record K V)
  numbered : log.Pairwise fun newer older => older.revision < newer.revision
  positive : ∀ r ∈ log, 0 < r.revision

/-- A write request. -/
inductive Write (K : Type u) (V : Type v) where
  | create (key : K) (value : V)
  | put (key : K) (value : V)
  | update (key : K) (value : V) (last : Nat)
  | delete (key : K) (last : Nat)
  | remove (key : K)
deriving DecidableEq

namespace Write

variable {K : Type u} {V : Type v}

def key : Write K V → K
  | .create k _ | .put k _ | .update k _ _ | .delete k _ | .remove k => k

def op : Write K V → Op V
  | .create _ v | .put _ v | .update _ v _ => .put v
  | .delete _ _ | .remove _ => .delete

end Write

def Record.entry? {K : Type u} {V : Type v} (r : Record K V) : Option (Entry V) :=
  match r.op with
  | .put v => some ⟨v, r.revision, r.created⟩
  | .delete => none

namespace Bucket

variable {K : Type u} {V : Type v}

def empty : Bucket K V := ⟨[], .nil, by simp⟩

/-- The last revision handed out. -/
def seq (b : Bucket K V) : Nat :=
  match b.log with
  | [] => 0
  | r :: _ => r.revision

variable {r : Record K V} {b : Bucket K V} {now : Int} {k k' : K} {e e' : Entry V}

theorem revision_le_seq (b : Bucket K V) (member : r ∈ b.log) :
    r.revision ≤ b.seq := by
  obtain ⟨log, numbered, positive⟩ := b
  cases log with
  | nil => cases member
  | cons newest rest =>
    simp only [seq]
    rcases mem_cons.mp member with rfl | older
    · exact Nat.le_refl _
    · exact Nat.le_of_lt (rel_of_pairwise_cons numbered older)

/-- Record `op` on `k` under the next revision. -/
def append (b : Bucket K V) (k : K) (op : Op V) (now : Int) : Bucket K V where
  log := ⟨k, op, b.seq + 1, now⟩ :: b.log
  numbered := pairwise_cons.mpr
    ⟨fun _ member => Nat.lt_succ_of_le (b.revision_le_seq member), b.numbered⟩
  positive := fun r member => by
    rcases mem_cons.mp member with rfl | older
    · exact Nat.succ_pos _
    · exact b.positive r older

@[simp] theorem append_log (b : Bucket K V) (k : K) (op : Op V) (now : Int) :
    (b.append k op now).log = ⟨k, op, b.seq + 1, now⟩ :: b.log := rfl

@[simp] theorem append_seq (b : Bucket K V) (k : K) (op : Op V) (now : Int) :
    (b.append k op now).seq = b.seq + 1 := rfl

theorem record_unique (b : Bucket K V) {r'} (member : r ∈ b.log) (member' : r' ∈ b.log)
    (same : r.revision = r'.revision) : r = r' := by
  have distinct : (b.log.map Record.revision).Nodup :=
    pairwise_map.mpr (b.numbered.imp fun older => Nat.ne_of_gt older)
  exact inj_on_of_nodup_map distinct member member' same

variable [DecidableEq K]

/-- The newest record of a key. -/
def last (b : Bucket K V) (k : K) : Option (Record K V) :=
  b.log.find? fun r => r.key = k

/-- The live entry of a key. -/
def get (b : Bucket K V) (k : K) : Option (Entry V) :=
  (b.last k).bind Record.entry?

/-- The keys with a live entry. -/
def keys (b : Bucket K V) : List K :=
  (b.log.map Record.key).dedup.filter fun k => (b.get k).isSome

/-- The revision a conditioned write has to name. -/
def lastRevision (b : Bucket K V) (k : K) : Nat :=
  ((b.last k).map Record.revision).getD 0

def accepts (b : Bucket K V) : Write K V → Bool
  | .create k _ => (b.get k).isNone
  | .put _ _ | .remove _ => true
  | .update k _ last | .delete k last => b.lastRevision k = last

/-- Serve a write request; `none` when its precondition fails. -/
def write (b : Bucket K V) (now : Int) (w : Write K V) : Option (Bucket K V) :=
  if b.accepts w then some (b.append w.key w.op now) else none

theorem write_eq_some {b'} {w} :
    b.write now w = some b' ↔ b.accepts w = true ∧ b' = b.append w.key w.op now := by
  by_cases accepted : b.accepts w = true
  · simp [write, accepted, eq_comm]
  · simp [write, accepted]

/-! ## The newest record and the live entry -/

@[simp] theorem last_append_self (b : Bucket K V) (k : K) (op : Op V) (now : Int) :
    (b.append k op now).last k = some ⟨k, op, b.seq + 1, now⟩ := by
  simp [last]

@[simp] theorem last_append_ne (b : Bucket K V) (op : Op V) (now : Int) (ne : k' ≠ k) :
    (b.append k op now).last k' = b.last k' := by
  simp [last, Ne.symm ne]

@[simp] theorem get_append_put (b : Bucket K V) (k : K) (v : V) (now : Int) :
    (b.append k (.put v) now).get k = some ⟨v, b.seq + 1, now⟩ := by
  simp [get, Record.entry?]

@[simp] theorem get_append_delete (b : Bucket K V) (k : K) (now : Int) :
    (b.append k .delete now).get k = none := by
  simp [get, Record.entry?]

@[simp] theorem get_append_ne (b : Bucket K V) (op : Op V) (now : Int) (ne : k' ≠ k) :
    (b.append k op now).get k' = b.get k' := by
  simp [get, ne]

theorem last_spec (newest : b.last k = some r) :
    r ∈ b.log ∧ r.key = k ∧ ∀ r' ∈ b.log, r'.key = k → r'.revision ≤ r.revision := by
  obtain ⟨log, numbered, positive⟩ := b
  simp only [last] at newest ⊢
  induction log with
  | nil => cases newest
  | cons head rest ih =>
    have below := pairwise_cons.mp numbered
    simp only [find?_cons] at newest
    split at newest
    next hit =>
      cases newest
      refine ⟨.head _, by simpa using hit, fun r' member _ => ?_⟩
      rcases mem_cons.mp member with rfl | older
      · exact Nat.le_refl _
      · exact Nat.le_of_lt (below.1 r' older)
    next miss =>
      obtain ⟨member, key, newer⟩ := ih below.2
        (fun r' older => positive r' (.tail _ older)) newest
      refine ⟨.tail _ member, key, fun r' member' key' => ?_⟩
      rcases mem_cons.mp member' with rfl | older
      · simp [key'] at miss
      · exact newer r' older key'

theorem last_eq_none :
    b.last k = none ↔ ∀ r ∈ b.log, r.key ≠ k := by
  simp [last]

/-- Entry `e` was stored under `k` at some point. -/
def Stored (b : Bucket K V) (k : K) (e : Entry V) : Prop :=
  (⟨k, .put e.value, e.revision, e.created⟩ : Record K V) ∈ b.log

omit [DecidableEq K] in
theorem Stored.append (stored : b.Stored k e) (k' : K) (op : Op V) (now : Int) :
    (b.append k' op now).Stored k e :=
  .tail _ stored

omit [DecidableEq K] in
theorem stored_append_put (b : Bucket K V) (k : K) (v : V) (now : Int) :
    (b.append k (.put v) now).Stored k ⟨v, b.seq + 1, now⟩ :=
  .head _

omit [DecidableEq K] in
theorem Stored.unique (stored : b.Stored k e) (stored' : b.Stored k' e')
    (same : e.revision = e'.revision) : k = k' ∧ e = e' := by
  have one := b.record_unique stored stored' same
  obtain ⟨v, rev, created⟩ := e
  obtain ⟨v', rev', created'⟩ := e'
  simp only [Record.mk.injEq, Op.put.injEq] at one
  simp_all

theorem get_eq_some :
    b.get k = some e ↔ b.last k = some ⟨k, .put e.value, e.revision, e.created⟩ := by
  constructor
  · intro live
    obtain ⟨r, newest, entry⟩ := bind_eq_some_iff.mp live
    have key := (last_spec newest).2.1
    obtain ⟨rk, op, rev, created⟩ := r
    cases op with
    | delete => simp [Record.entry?] at entry
    | put v =>
      simp only [Record.entry?, some.injEq] at entry
      subst entry key
      exact newest
  · intro newest
    simp [get, newest, Record.entry?]

theorem get_stored (live : b.get k = some e) :
    b.Stored k e :=
  (last_spec (get_eq_some.mp live)).1

theorem Stored.le_get (stored : b.Stored k e) (live : b.get k = some e') :
    e.revision ≤ e'.revision :=
  (last_spec (get_eq_some.mp live)).2.2 _ stored rfl

theorem Stored.lt_seq (stored : b.Stored k e) (gone : b.get k = none) : e.revision < b.seq := by
  cases newest : b.last k with
  | none => exact absurd rfl (last_eq_none.mp newest _ stored)
  | some r =>
    obtain ⟨member, -, newer⟩ := last_spec newest
    have older : e.revision ≤ r.revision := newer _ stored rfl
    have marker : e.revision ≠ r.revision := by
      intro same
      have one := b.record_unique stored member same
      rw [get_eq_some.mpr (one ▸ newest)] at gone
      cases gone
    exact Nat.lt_of_lt_of_le (Nat.lt_of_le_of_ne older marker) (b.revision_le_seq member)

theorem get_append_eq_some {op : Op V} (live : (b.append k op now).get k' = some e) :
    b.get k' = some e ∨ e.revision = b.seq + 1 := by
  by_cases same : k' = k
  · subst same
    cases op with
    | put v =>
      rw [get_append_put] at live
      cases live
      exact .inr rfl
    | delete =>
      rw [get_append_delete] at live
      cases live
  · rw [get_append_ne _ _ _ same] at live
    exact .inl live

theorem mem_keys : k ∈ b.keys ↔ (b.get k).isSome = true := by
  simp only [keys, mem_filter, mem_dedup, List.mem_map, and_iff_right_iff_imp]
  intro live
  obtain ⟨e, found⟩ := isSome_iff_exists.mp live
  exact ⟨_, get_stored found, rfl⟩

/-! ## Accepted writes -/

@[simp] theorem accepts_create {v : V} :
    b.accepts (.create k v) = true ↔ b.get k = none := by
  simp [accepts]

@[simp] theorem accepts_update {v : V} {n : Nat} :
    b.accepts (.update k v n) = true ↔ b.lastRevision k = n := by
  simp [accepts]

@[simp] theorem accepts_delete {n : Nat} :
    b.accepts (.delete k n) = true ↔ b.lastRevision k = n := by
  simp [accepts]

theorem lastRevision_of_get (live : b.get k = some e) :
    b.lastRevision k = e.revision := by
  simp [lastRevision, get_eq_some.mp live]

theorem lastRevision_le_seq (b : Bucket K V) (k : K) : b.lastRevision k ≤ b.seq := by
  unfold lastRevision
  cases newest : b.last k with
  | none => exact Nat.zero_le _
  | some r => exact b.revision_le_seq (last_spec newest).1

theorem lastRevision_append_le (b : Bucket K V) (k k' : K) (op : Op V) (now : Int) :
    b.lastRevision k' ≤ (b.append k op now).lastRevision k' := by
  by_cases same : k' = k
  · subst same
    have new : (b.append k' op now).lastRevision k' = b.seq + 1 := by
      simp [lastRevision]
    exact new ▸ Nat.le_succ_of_le (b.lastRevision_le_seq k')
  · simp [lastRevision, last_append_ne b op now same]

/-- A conditioned write that names the revision of a stored entry and is
accepted found that entry live. -/
theorem Stored.get_of_lastRevision (stored : b.Stored k e) (current : b.lastRevision k = e.revision)
    : b.get k = some e := by
  have some_last : ∃ r, b.last k = some r := by
    cases newest : b.last k with
    | none => exact absurd rfl (last_eq_none.mp newest _ stored)
    | some r => exact ⟨r, rfl⟩
  obtain ⟨r, newest⟩ := some_last
  have same : r.revision = e.revision := by simpa [lastRevision, newest] using current
  have one := b.record_unique (last_spec newest).1 stored same
  exact get_eq_some.mpr (one ▸ newest)

/-! ## Timestamps -/

/-- Records carry the server's clock, which has not run past `now`. -/
structure Timed (b : Bucket K V) (now : Int) : Prop where
  upTo : ∀ r ∈ b.log, r.created ≤ now
  ordered : b.log.Pairwise fun newer older => older.created ≤ newer.created

omit [DecidableEq K] in
theorem Timed.append (timed : b.Timed now) (k : K) (op : Op V) :
    (b.append k op now).Timed now where
  upTo := fun r member => by
    rcases mem_cons.mp member with rfl | older
    · exact Int.le_refl _
    · exact timed.upTo r older
  ordered := pairwise_cons.mpr ⟨timed.upTo, timed.ordered⟩

omit [DecidableEq K] in
theorem Timed.later {now' : Int} (timed : b.Timed now) (le : now ≤ now') :
    b.Timed now' :=
  ⟨fun r member => Int.le_trans (timed.upTo r member) le, timed.ordered⟩

omit [DecidableEq K] in
theorem Timed.created_le (timed : b.Timed now) (stored : b.Stored k e) (stored' : b.Stored k' e')
    (le : e.revision ≤ e'.revision) : e.created ≤ e'.created := by
  rcases Nat.lt_or_eq_of_le le with lt | same
  · have both := b.numbered.and timed.ordered
    obtain ⟨i, hi, ei⟩ := getElem_of_mem stored
    obtain ⟨j, hj, ej⟩ := getElem_of_mem stored'
    rcases Nat.lt_trichotomy i j with before | rfl | after
    · have wrong := (pairwise_iff_getElem.mp both i j hi hj before).1
      rw [ei, ej] at wrong
      exact absurd wrong (by simpa using Nat.le_of_lt lt)
    · rw [ei] at ej
      simp only [Record.mk.injEq] at ej
      omega
    · have right := (pairwise_iff_getElem.mp both j i hj hi after).2
      rw [ei, ej] at right
      exact right
  · exact (stored.unique stored' same).2 ▸ Int.le_refl _

end Bucket

end Parti.Lib.Kv
