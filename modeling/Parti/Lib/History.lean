/-
# Lib.History — the life of one key

`history b k` is what was written to key `k`, newest record first. `Chained R`
says of two values of the key, one written over the other, that they are related
by `R`; a delete between two values breaks the chain, so nothing is said across
it.

* `Chained.append`: a write keeps the chain if the value it replaces, if there is
  one, is related to the value it writes;
* `Chained.span`: between a value once stored and the live one, with no delete in
  between, the chain is a path of `R`-steps.
-/
import Mathlib.Data.List.Chain
import Mathlib.Logic.Relation
import Parti.Lib.Kv

namespace Parti.Lib.Kv

open List

universe u v

namespace Bucket

variable {K : Type u} {V : Type v} [DecidableEq K]

/-- The records of a key, newest first. -/
def history (b : Bucket K V) (k : K) : List (Record K V) :=
  b.log.filter fun r => r.key = k

@[simp] theorem history_append_self (b : Bucket K V) (k : K) (op : Op V) (now : Int) :
    (b.append k op now).history k = ⟨k, op, b.seq + 1, now⟩ :: b.history k := by
  simp [history]

variable {k : K} {b : Bucket K V} {R : V → V → Prop}

@[simp] theorem history_append_ne (b : Bucket K V) {k' : K} (op : Op V) (now : Int) (ne : k' ≠ k) :
    (b.append k op now).history k' = b.history k' := by
  simp [history, Ne.symm ne]

theorem mem_history {r} :
    r ∈ b.history k ↔ r ∈ b.log ∧ r.key = k := by
  simp [history]

theorem history_head (b : Bucket K V) (k : K) : (b.history k).head? = b.last k := by
  simp [history, last, head?_filter]

/-- Two records of which the newer is a value written over the value of the
older. -/
def Over (R : V → V → Prop) (newer older : Record K V) : Prop :=
  ∀ v v', older.op = .put v → newer.op = .put v' → R v v'

/-- Values written one over the other are related. -/
def Chained (R : V → V → Prop) (b : Bucket K V) (k : K) : Prop :=
  (b.history k).IsChain (Over R)

theorem Chained.append (chain : Chained R b k) (k' : K) (op : Op V) (now : Int)
    (step : ∀ e v, k' = k → b.get k = some e → op = .put v → R e.value v) :
    Chained R (b.append k' op now) k := by
  by_cases same : k = k'
  · subst same
    unfold Chained at chain ⊢
    rw [history_append_self]
    have head := b.history_head k
    cases older : b.history k with
    | nil => exact isChain_singleton _
    | cons r rest =>
      rw [older] at chain head
      refine isChain_cons_cons.mpr ⟨fun v v' put put' => ?_, chain⟩
      -- the newest record is a put, so its value is the live one
      have newest : b.last k = some r := head.symm
      have live : b.get k = some ⟨v, r.revision, r.created⟩ := by
        simp [get, newest, Record.entry?, put]
      exact step _ v' rfl live put'
  · unfold Chained at chain ⊢
    rwa [history_append_ne b op now same]

theorem chained_of_empty (empty : b.log = []) :
    Chained R b k := by
  simp [Chained, history, empty]

omit [DecidableEq K] in
/-- Down a sorted chain of records from its head to a value `a` below: every
record above that value is itself a value with property `Q`, so the path is made
of chain steps. -/
theorem span_records {Q : V → Prop} {x} {a : V} (isValue : x.op = .put a) :
    ∀ {records : List (Record K V)} {head : Record K V} {c : V},
      records.head? = some head → head.op = .put c → x ∈ records →
      records.Pairwise (fun newer older => older.revision < newer.revision) →
      records.IsChain (Over R) →
      (∀ r ∈ records, x.revision < r.revision → ∃ v, r.op = .put v ∧ Q v) →
      x = head ∨ Relation.TransGen (fun v v' => R v v' ∧ Q v') a c
  | r :: rest, head, c, isHead, headValue, member, sorted, chain, values => by
      cases isHead
      rcases mem_cons.mp member with here | below
      · exact .inl here
      right
      have lower := pairwise_cons.mp sorted
      have good : Q c := by
        obtain ⟨v, put, good⟩ := values r mem_cons_self (lower.1 x below)
        rw [headValue, Op.put.injEq] at put
        exact put ▸ good
      cases rest with
      | nil => cases below
      | cons r' rest' =>
        obtain ⟨linked, tail⟩ := isChain_cons_cons.mp chain
        -- the record below the head is a value too
        obtain ⟨c', value⟩ : ∃ c', r'.op = .put c' := by
          rcases mem_cons.mp below with rfl | deeper
          · exact ⟨a, isValue⟩
          · have above := (pairwise_cons.mp lower.2).1 x deeper
            obtain ⟨v, put, _⟩ := values r' (by simp) above
            exact ⟨v, put⟩
        have step : R c' c ∧ Q c := ⟨linked c' c value headValue, good⟩
        rcases span_records isValue rfl value below lower.2 tail
            (fun r mem => values r (.tail _ mem)) with rfl | path
        · rw [isValue, Op.put.injEq] at value
          exact .single (value ▸ step)
        · exact path.tail step

/-- From a stored value to the live one, along records that are all values with
property `Q`: they are one entry, or joined by a path of chain steps. -/
theorem Chained.span {Q : V → Prop} (chain : Chained R b k) {e live}
    (stored : b.Stored k e) (current : b.get k = some live)
    (between : ∀ r ∈ b.log, r.key = k → e.revision < r.revision → ∃ v, r.op = .put v ∧ Q v) :
    e = live ∨ Relation.TransGen (fun v v' => R v v' ∧ Q v') e.value live.value := by
  have newest : (b.history k).head? = some ⟨k, .put live.value, live.revision, live.created⟩ :=
    (b.history_head k).trans (get_eq_some.mp current)
  have found := span_records rfl newest rfl (mem_history.mpr ⟨stored, rfl⟩) (b.numbered.filter _)
    chain fun r mem newer => between r (mem_history.mp mem).1 (mem_history.mp mem).2 newer
  refine found.imp_left fun same => ?_
  obtain ⟨v, rev, created⟩ := e
  obtain ⟨v', rev', created'⟩ := live
  simp only [Record.mk.injEq, Op.put.injEq, true_and] at same
  simp only [same]

end Bucket

end Parti.Lib.Kv
