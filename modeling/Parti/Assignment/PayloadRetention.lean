/-
# Assignment.PayloadRetention — the payloads of the live commit, and the collector

A publisher writes its payload keys first and its commit later; the collector
deletes payload keys it believes unreferenced. They share no lock. The lease
(`Leased`) says that a commit lands while every payload entry it references is
younger than the retention window on every sweep's clock.

The lease alone is not enough: a commit can land after a sweep has read `_commit`
and before it takes the time (`stale_live_set_deletes_live_payload`). `SampleOk` is
about the state in which a sweep takes its time: each payload of the commit live at
that moment is in the sweep's live set, or younger than the window.

* `live_payloads_exist`: in every run that keeps the lease and samples so, every
  payload key of the live commit exists.
-/
import Parti.Assignment.Invariant

namespace Parti.Assignment

open Parti.Types Lib List
open Lib.Kv (Bucket Entry Write Op)
open Lib.Client (Request Answer Action Reply Told)

variable {P T : Type}

def writtenCommit (w : Write Key Value) : Option AssignmentCommit :=
  match w.key, w.op with
  | .commit, .put value => value.asCommit
  | _, _ => none

/-- The retention lease, at the moment a commit lands: every entry it references
is younger than the window on every clock. -/
def Leased (cfg : Config T) (b : Bucket Key Value) (now : Int) (w : Write Key Value) : Prop :=
  ∀ c ∈ writtenCommit w, ∀ ref ∈ c.payloads.entries, ∀ r ∈ b.log, r.key = ref.2.key →
    r.revision = ref.2.revision → ∀ g, now + cfg.skew g - r.created < cfg.gc.retention

def sampling : SweepPc → Option (List Key)
  | .clock live _ => some live
  | _ => none

/-- The condition on the state in which a sweep takes its time. -/
def SampleOk (cfg : Config T) (b : Bucket Key Value) (now : Int) (t : T) (pc : SweepPc) : Prop :=
  ∀ live ∈ sampling pc, ∀ ec ∈ b.get .commit, ∀ c ∈ ec.value.asCommit, ∀ key ∈ c.refKeys,
    key ∈ live ∨ ∀ e ∈ b.get key, now + cfg.skew t - e.created < cfg.gc.retention

/-- What every reader of the live commit relies on. -/
def LivePayloadsExist (b : Bucket Key Value) : Prop :=
  ∀ ec ∈ b.get .commit, ∀ c ∈ ec.value.asCommit, ∀ key ∈ c.refKeys, (b.get key).isSome = true

instance [Fintype T] (cfg : Config T) (b : Bucket Key Value) (now : Int) (w : Write Key Value) :
    Decidable (Leased cfg b now w) :=
  inferInstanceAs (Decidable (∀ c ∈ writtenCommit w, _))

instance (cfg : Config T) (b : Bucket Key Value) (now : Int) (t : T) (pc : SweepPc) :
    Decidable (SampleOk cfg b now t pc) :=
  inferInstanceAs (Decidable (∀ live ∈ sampling pc, _))

instance (b : Bucket Key Value) : Decidable (LivePayloadsExist b) :=
  inferInstanceAs (Decidable (∀ ec ∈ b.get .commit, _))

/-! ## The invariant -/

def RefsStored (b : Bucket Key Value) (refs : GoMap AssignmentPayloadRef) : Prop :=
  ∀ ref ∈ refs.entries, Key.isPayload ref.2.key = true ∧
    ∃ e, b.Stored ref.2.key e ∧ e.revision = ref.2.revision

/-- A payload entry once stored is live, or some clock has seen it expire. -/
def Expires (cfg : Config T) (b : Bucket Key Value) (now : Int) : Prop :=
  ∀ key e, Key.isPayload key = true → b.Stored key e →
    (b.get key).isSome = true ∨ ∃ g, cfg.gc.retention ≤ now + cfg.skew g - e.created

/-- The live commit landed within the lease, and its payloads exist. -/
def Referenced (cfg : Config T) (b : Bucket Key Value) : Prop :=
  ∀ ec c, b.get .commit = some ec → ec.value = .commit c → ∀ ref ∈ c.payloads.entries,
    Key.isPayload ref.2.key = true ∧ (b.get ref.2.key).isSome = true ∧
      ∃ e, b.Stored ref.2.key e ∧ ∀ g, ec.created + cfg.skew g - e.created < cfg.gc.retention

/-- A key a sweep may delete: if the live commit landed before the sweep took its
time and references the key, then the key has an entry too young to delete. -/
def Spared (cfg : Config T) (b : Bucket Key Value) (t : T) (sampled : Int) (key : Key) : Prop :=
  ∀ ec c, b.get .commit = some ec → ec.value = .commit c → ec.created < sampled →
    key ∈ c.refKeys → ∃ e, b.Stored key e ∧ sampled + cfg.skew t - e.created < cfg.gc.retention

/-- A delete under way: at the revision of an entry that was old enough when the
sweep took its time. -/
def DeleteOk (cfg : Config T) (b : Bucket Key Value) (now : Int) (key : Key) (last : Nat) :
    Prop :=
  ∃ e t sampled, b.Stored key e ∧ e.revision = last ∧ sampled ≤ now ∧
    cfg.gc.retention ≤ sampled + cfg.skew t - e.created ∧ Spared cfg b t sampled key

/-- Which writes are under way: commits of stored references, fenced deletes of
payload keys, and writes of other keys. -/
def PayloadWrite (cfg : Config T) (b : Bucket Key Value) (now : Int) : Write Key Value → Prop
  | .create .commit value | .update .commit value _ => ∃ c, value = .commit c ∧
      RefsStored b c.payloads
  | .put .commit _ | .delete .commit _ | .remove .commit => False
  | .delete key last => Key.isPayload key = true → DeleteOk cfg b now key last
  | .remove key => Key.isPayload key = false
  | .create _ _ | .update _ _ _ | .put _ _ => True

def BatchStored (b : Bucket Key Value) : PublishPc → Prop
  | .create batch _ _ | .verifyBack batch _ _ | .touch batch _ _ _ | .preAlias batch
  | .classify batch | .aliasBarrier batch _ _ _ | .postAlias batch _ => RefsStored b batch.refs
  | .shutdownGate _ _ commit | .cas _ _ commit => RefsStored b commit.payloads
  | .bestEffort _ todo => ∀ w ∈ todo, w.key ≠ .commit ∧ Key.isPayload w.key = false
  | .ensureView _ | .reseed _ => True

/-- What a sweep knows of the keys it still has to visit and of the one it is
about to delete. -/
def SweepOk (cfg : Config T) (b : Bucket Key Value) (now : Int) (t : T) : SweepPc → Prop
  | .visit todo at_ => ∃ sampled, sampled ≤ now ∧ at_ = sampled + cfg.skew t ∧
      ∀ key ∈ todo, Key.isPayload key = true ∧ Spared cfg b t sampled key
  | .recheck todo at_ key seen | .delete todo at_ key seen =>
    ∃ sampled, sampled ≤ now ∧ at_ = sampled + cfg.skew t ∧
      (∀ key ∈ todo, Key.isPayload key = true ∧ Spared cfg b t sampled key) ∧
      Key.isPayload key = true ∧ Spared cfg b t sampled key ∧ b.Stored key seen ∧
      cfg.gc.retention ≤ at_ - seen.created
  | _ => True

def retentionPieces (cfg : Config T) : Piecewise T where
  bucket b now := b.Timed now ∧ Expires cfg b now ∧ Referenced cfg b
  write b now w := PayloadWrite cfg b now w
  pub _ _ _ := True
  publish b _ _ pc := BatchStored b pc
  discover _ _ _ := True
  bootstrap _ _ _ := True
  sweep b now t pc := SweepOk cfg b now t pc

/-! ## Pieces survive a record and the passing of time -/

section Keeping

variable {cfg : Config T} {b : Bucket Key Value} {now : Int}

theorem RefsStored.append {refs} (stored : RefsStored b refs)
    (k : Key) (op : Op Value) : RefsStored (b.append k op now) refs := by
  intro ref member
  obtain ⟨payload, e, here, revision⟩ := stored ref member
  exact ⟨payload, e, here.append k op now, revision⟩

variable {t : T} {key : Key}

theorem Spared.append {sampled : Int} (spared : Spared cfg b t sampled key) (past : sampled ≤ now)
    (k : Key) (op : Op Value) :
    Spared cfg (b.append k op now) t sampled key := by
  intro ec c live value before member
  by_cases isCommit : k = .commit
  · subst isCommit
    cases op with
    | delete => simp at live
    | put v =>
      simp only [Bucket.get_append_put, Option.some.injEq] at live
      subst live
      exact absurd before (by simpa using past)
  · rw [Bucket.get_append_ne b op now (Ne.symm isCommit)] at live
    obtain ⟨e, stored, young⟩ := spared ec c live value before member
    exact ⟨e, stored.append k op now, young⟩

theorem DeleteOk.append {last : Nat} (ok : DeleteOk cfg b now key last) (k : Key) (op : Op Value) :
    DeleteOk cfg (b.append k op now) now key last := by
  obtain ⟨e, t, sampled, stored, revision, past, old, spared⟩ := ok
  exact ⟨e, t, sampled, stored.append k op now, revision, past, old, spared.append past k op⟩

theorem DeleteOk.later {last : Nat} (ok : DeleteOk cfg b now key last) (d : Nat) :
    DeleteOk cfg b (now + d) key last := by
  obtain ⟨e, t, sampled, stored, revision, past, old, spared⟩ := ok
  exact ⟨e, t, sampled, stored, revision, by omega, old, spared⟩

theorem PayloadWrite.append {w} (ok : PayloadWrite cfg b now w) (k : Key)
    (op : Op Value) : PayloadWrite cfg (b.append k op now) now w := by
  unfold PayloadWrite at ok ⊢
  split at ok
  case h_1 | h_2 =>
    obtain ⟨c, value, stored⟩ := ok
    exact ⟨c, value, stored.append k op⟩
  case h_6 => exact fun payload => (ok payload).append k op
  all_goals exact ok

theorem PayloadWrite.later {w} (ok : PayloadWrite cfg b now w) (d : Nat) :
    PayloadWrite cfg b (now + d) w := by
  unfold PayloadWrite at ok ⊢
  split at ok
  case h_6 => exact fun payload => (ok payload).later d
  all_goals exact ok

theorem BatchStored.append {pc} (ok : BatchStored b pc) (k : Key) (op : Op Value) :
    BatchStored (b.append k op now) pc := by
  unfold BatchStored at ok ⊢
  split at ok
  case h_10 | h_11 | h_12 => exact ok
  all_goals exact RefsStored.append ok k op

theorem SweepOk.append {pc} (ok : SweepOk cfg b now t pc) (k : Key) (op : Op Value) :
    SweepOk cfg (b.append k op now) now t pc := by
  cases pc with
  | visit todo at_ =>
    obtain ⟨sampled, past, time, keys⟩ := ok
    exact ⟨sampled, past, time, fun key member =>
      ⟨(keys key member).1, (keys key member).2.append past k op⟩⟩
  | recheck todo at_ key seen | delete todo at_ key seen =>
    obtain ⟨sampled, past, time, keys, payload, spared, stored, old⟩ := ok
    exact ⟨sampled, past, time, fun key member =>
      ⟨(keys key member).1, (keys key member).2.append past k op⟩, payload,
      spared.append past k op, stored.append k op now, old⟩
  | _ => trivial

theorem SweepOk.later {pc} (ok : SweepOk cfg b now t pc) (d : Nat) :
    SweepOk cfg b (now + d) t pc := by
  cases pc with
  | visit | recheck | delete =>
    obtain ⟨sampled, past, rest⟩ := ok
    exact ⟨sampled, by omega, rest⟩
  | _ => trivial

theorem Expires.later (expires : Expires cfg b now) (d : Nat) : Expires cfg b (now + d) := by
  intro key e payload stored
  rcases expires key e payload stored with live | ⟨g, old⟩
  · exact .inl live
  · exact .inr ⟨g, by omega⟩

end Keeping

/-! ## Every write that lands keeps the bucket's part -/

section Landing

variable {cfg : Config T} {b : Bucket Key Value} {now : Int}

/-- A record that removes no payload: a put, or a record of another key. -/
def Harmless (k : Key) (op : Op Value) : Prop :=
  (∃ v, op = .put v) ∨ Key.isPayload k = false

variable {k key : Key} {op : Op Value}

theorem Harmless.live (harmless : Harmless k op) (payload : Key.isPayload key = true)
    (live : (b.get key).isSome = true) :
    ((b.append k op now).get key).isSome = true := by
  by_cases same : key = k
  · subst same
    rcases harmless with ⟨v, rfl⟩ | other
    · simp
    · rw [payload] at other
      cases other
  · rwa [Bucket.get_append_ne b op now same]

theorem Expires.harmless (expires : Expires cfg b now) (harmless : Harmless k op) :
    Expires cfg (b.append k op now) now := by
  intro key e payload stored
  rcases mem_cons.mp stored with new | old
  · simp only [Kv.Record.mk.injEq] at new
    obtain ⟨rfl, put, _⟩ := new
    subst put
    exact .inl (by simp)
  · exact (expires key e payload old).imp_left (harmless.live payload)

theorem Referenced.harmless (referenced : Referenced cfg b) (other : k ≠ .commit)
    (harmless : Harmless k op) :
    Referenced cfg (b.append k op now) := by
  intro ec c live value ref member
  rw [Bucket.get_append_ne b op now (Ne.symm other)] at live
  obtain ⟨payload, exist, e, stored, young⟩ := referenced ec c live value ref member
  exact ⟨payload, harmless.live payload exist, e, stored.append k op now, young⟩

theorem Referenced.commit (expires : Expires cfg b now) {c} (stored : RefsStored b c.payloads)
    (leased : ∀ ref ∈ c.payloads.entries, ∀ r ∈ b.log, r.key = ref.2.key →
      r.revision = ref.2.revision → ∀ g, now + cfg.skew g - r.created < cfg.gc.retention) :
    Referenced cfg (b.append .commit (.put (.commit c)) now) := by
  intro ec c' live value ref member
  simp only [Bucket.get_append_put, Option.some.injEq] at live
  subst live
  simp only [Value.commit.injEq] at value
  subst value
  obtain ⟨payload, e, here, revision⟩ := stored ref member
  have young := leased ref member _ here rfl revision
  refine ⟨payload, ?_, e, here.append _ _ now, young⟩
  rcases expires _ e payload here with exist | ⟨g, old⟩
  · exact Harmless.live (.inl ⟨_, rfl⟩) payload exist
  · exact absurd (young g) (by simpa using old)

/-- A fenced delete that lands removes no payload of the live commit: the entry
it names is live, so it is at least as young as the one the commit references,
and too old for the commit to have landed after the sweep took its time. -/
theorem Referenced.delete (timed : b.Timed now) (referenced : Referenced cfg b) {last : Nat}
    (payload : Key.isPayload key = true) (ok : DeleteOk cfg b now key last)
    (current : b.lastRevision key = last) : Referenced cfg (b.append key .delete now) := by
  have notCommit : key ≠ .commit := by
    rintro rfl
    cases payload
  intro ec c live value ref member
  rw [Bucket.get_append_ne b _ now (Ne.symm notCommit)] at live
  obtain ⟨isPayload, exist, e, stored, young⟩ := referenced ec c live value ref member
  refine ⟨isPayload, ?_, e, stored.append key .delete now, young⟩
  by_cases hit : ref.2.key = key
  · exfalso
    obtain ⟨found, t, sampled, storedFound, revision, past, old, spared⟩ := ok
    have liveFound := storedFound.get_of_lastRevision (current.trans revision.symm)
    have younger := timed.created_le (hit ▸ stored) storedFound
      ((hit ▸ stored : b.Stored key e).le_get liveFound)
    have landed : ec.created < sampled := by
      have := young t
      omega
    have isRef : key ∈ c.refKeys := mem_map.mpr ⟨ref, member, hit⟩
    obtain ⟨e', stored', young'⟩ := spared ec c live value landed isRef
    have younger' := timed.created_le stored' storedFound (stored'.le_get liveFound)
    omega
  · rwa [Bucket.get_append_ne b _ now hit]

theorem Expires.delete (timed : b.Timed now) (expires : Expires cfg b now) {last : Nat}
    (ok : DeleteOk cfg b now key last) (current : b.lastRevision key = last) :
    Expires cfg (b.append key .delete now) now := by
  intro key' e payload stored
  rcases mem_cons.mp stored with new | old
  · simp at new
  · by_cases hit : key' = key
    · subst hit
      obtain ⟨found, t, sampled, storedFound, revision, past, aged, _⟩ := ok
      have liveFound := storedFound.get_of_lastRevision (current.trans revision.symm)
      have older := timed.created_le old storedFound (Bucket.Stored.le_get old liveFound)
      exact .inr ⟨t, by omega⟩
    · exact (expires key' e payload old).imp_left fun live => by
        rwa [Bucket.get_append_ne b _ now hit]

theorem retention_store {w} (timed : b.Timed now) (expires : Expires cfg b now)
    (referenced : Referenced cfg b) (ok : PayloadWrite cfg b now w)
    (accepted : b.accepts w = true) (leased : Leased cfg b now w) :
    Expires cfg (b.append w.key w.op now) now ∧ Referenced cfg (b.append w.key w.op now) := by
  have putOther : ∀ {k : Key} (v : Value), k ≠ .commit →
      Expires cfg (b.append k (.put v) now) now ∧ Referenced cfg (b.append k (.put v) now) :=
    fun v other => ⟨expires.harmless (.inl ⟨v, rfl⟩), referenced.harmless other (.inl ⟨v, rfl⟩)⟩
  unfold PayloadWrite at ok
  split at ok
  case h_1 value =>
    obtain ⟨c, rfl, stored⟩ := ok
    exact ⟨expires.harmless (.inl ⟨_, rfl⟩), .commit expires stored (leased c rfl)⟩
  case h_2 value last =>
    obtain ⟨c, rfl, stored⟩ := ok
    exact ⟨expires.harmless (.inl ⟨_, rfl⟩), .commit expires stored (leased c rfl)⟩
  case h_3 | h_4 | h_5 => exact ok.elim
  case h_6 key last other =>
    by_cases payload : Key.isPayload key = true
    · have current := Bucket.accepts_delete.mp accepted
      exact ⟨expires.delete timed (ok payload) current,
        referenced.delete timed payload (ok payload) current⟩
    · have harmless : Harmless key .delete := .inr (by simpa using payload)
      exact ⟨expires.harmless harmless, referenced.harmless other harmless⟩
  case h_7 key other =>
    exact ⟨expires.harmless (.inr ok), referenced.harmless other (.inr ok)⟩
  case h_8 key value other => exact putOther value other
  case h_9 key value last other => exact putOther value other
  case h_10 key value other => exact putOther value other

end Landing

/-! ## The programs keep their parts -/

section Programs

variable {cfg : Config T} {b : Bucket Key Value} {now : Int}

variable {batch : Batch} {pc : PublishPc} {codec : Codec} {pub pub' : Publisher}
  {w : Write Key Value} {t : T} {answer : Answer Key Value} {asked : Request Key Value}
  {worker : String}

theorem BatchStored.job {todo} (job : pc.payloadJob = some (batch, todo)) :
    BatchStored b pc ↔ RefsStored b batch.refs := by
  cases PublishPc.writes job <;> exact Iff.rfl

theorem BatchStored.fence (fence : pc.fence = some batch) :
    BatchStored b pc ↔ RefsStored b batch.refs := by
  cases PublishPc.fences fence <;> exact Iff.rfl

theorem refsStored_empty : RefsStored b ∅ := by
  intro ref member
  cases member

theorem RefsStored.addRef (stored : RefsStored b batch.refs) {revision : Nat} {e}
    (here : b.Stored (codec.payloadKey (buildPayload batch.input worker)) e)
    (same : e.revision = revision) : RefsStored b (batch.addRef codec worker revision).refs := by
  intro ref member
  -- the entries of an updated map are the new pair and what is left of the old ones
  change ref ∈ List.kinsert worker _ batch.refs.entries at member
  rcases mem_cons.mp member with rfl | old
  · exact ⟨rfl, e, here, same⟩
  · exact stored ref ((kerase_sublist worker batch.refs.entries).mem old)

theorem payloadJob_write {rest} (job : pc.payloadJob = some (batch, worker :: rest))
    (asks : publishRequest codec pub pc = some (.write w)) :
    w.key = codec.payloadKey (buildPayload batch.input worker) ∧ ∃ v, w.op = .put v := by
  cases PublishPc.writes job with
  | create | touch => cases asks; exact ⟨rfl, _, rfl⟩
  | verifyBack attempt => cases asks

theorem startBatch_stored {input} (waits : (startBatch pub input).pc? = some pc) :
    BatchStored b pc := by
  unfold startBatch at waits
  split at waits
  · cases waits
  · cases waits
    exact refsStored_empty

theorem afterCommit_other {legacy} {commit} :
    ∀ w ∈ batch.afterCommit legacy commit, w.key ≠ .commit ∧ Key.isPayload w.key = false := by
  intro w member
  simp only [Batch.afterCommit, cons_append, mem_cons, mem_append,
    mem_map] at member
  rcases member with rfl | ⟨_, _, rfl⟩ | ⟨_, _, rfl⟩ <;> simp [Write.key, Key.isPayload]

theorem publishResume_stored {pc'} {r} (stored : BatchStored b pc)
    (asks : publishRequest codec pub pc = some asked) (told : Told b now asked answer)
    (ran : publishResume codec pub pc answer = some (pub', r)) (waits : r.pc? = some pc') :
    BatchStored b pc' := by
  cases publishResume_resumed ran with
  | started input seen winner decoded => exact startBatch_stored waits
  | referenced pc batch worker rest revision job =>
    cases waits
    obtain ⟨w, before, rfl, eq, rfl⟩ := told.wrote
    obtain ⟨key, v, put⟩ := payloadJob_write job asks
    rw [key, put] at eq
    have here := Bucket.stored_append_put before
      (codec.payloadKey (buildPayload batch.input worker)) v now
    refine ((BatchStored.job job).mp stored).addRef (eq ▸ here) ?_
    rw [eq, Bucket.append_seq]
  | retried pc next answer batch todo job job' =>
    cases waits
    exact (BatchStored.job job').mpr ((BatchStored.job job).mp stored)
  | aliased batch legacy todo todo' attempt attempt' answer =>
    cases waits
    exact stored
  | committed batch legacy commit revision =>
    cases waits
    exact afterCommit_other
  | lost batch legacy commit =>
    cases waits
    trivial
  | reseeded | gaveUp => cases waits
  | bestEffort batch w rest answer =>
    cases waits
    exact fun w' member => stored w' (.tail _ member)

theorem publishProceed_stored {at_ : Int} {pc'} {choice : Choice} {r}
    (stored : BatchStored b pc) (ran : publishProceed codec pub at_ pc choice = some (pub', r))
    (waits : r.pc? = some pc') : BatchStored b pc' := by
  cases publishProceed_proceeded ran with
  | registered | built | opened =>
    cases waits
    exact stored
  | passed pc next batch fence fence' =>
    cases waits
    exact (BatchStored.fence fence').mpr ((BatchStored.fence fence).mp stored)
  | returned pc pub' result same => cases waits

theorem publishWrite_stored (stored : BatchStored b pc)
    (asks : publishRequest codec pub pc = some (.write w)) : PayloadWrite cfg b now w := by
  unfold publishRequest at asks
  split at asks <;>
    simp only [Option.some.injEq, Request.write.injEq, reduceCtorEq] at asks <;> subst asks
  · trivial
  · trivial
  · trivial
  · unfold casWriteCommit
    split
    · exact ⟨_, rfl, stored⟩
    · exact ⟨_, rfl, stored⟩
  · next batch w rest =>
    have other := stored w mem_cons_self
    unfold PayloadWrite
    split
    case h_6 key last _ =>
      intro payload
      rw [show Key.isPayload key = false from other.2] at payload
      cases payload
    case h_7 => exact other.2
    case h_8 | h_9 | h_10 => trivial
    all_goals exact absurd rfl other.1

theorem sweepWrite_stored {pc} (ok : SweepOk cfg b now t pc)
    (asks : sweepRequest pc = some (.write w)) :
    PayloadWrite cfg b now w := by
  unfold sweepRequest at asks
  split at asks
  case h_5 todo at_ key seen =>
    cases asks
    obtain ⟨sampled, past, rfl, _, payload, spared, stored, old⟩ := ok
    cases key with
    | payload hash => exact fun _ => ⟨seen, t, sampled, stored, rfl, past, old, spared⟩
    | _ => cases payload
  case h_2 => split at asks <;> cases asks
  all_goals cases asks

theorem sweepResume_spared {pc pc'} {r}
    (ok : SweepOk cfg b now t pc) (asks : sweepRequest pc = some asked)
    (told : Told b now asked answer) (ran : sweepResume cfg.gc pc answer = some r)
    (waits : r.pc? = some pc') : SweepOk cfg b now t pc' := by
  cases sweepResume_resumed ran with
  | aged key rest at_ seen old =>
    cases waits
    cases asks
    obtain ⟨sampled, past, time, keys⟩ := ok
    obtain ⟨payload, spared⟩ := keys key mem_cons_self
    obtain ⟨k, eq, live⟩ := told.entry
    cases eq
    exact ⟨sampled, past, time, fun key member => keys key (.tail _ member),
      payload, spared, Bucket.get_stored live, old⟩
  | passed key rest at_ answer =>
    cases waits
    obtain ⟨sampled, past, time, keys⟩ := ok
    exact ⟨sampled, past, time, fun key member => keys key (.tail _ member)⟩
  | tried rest at_ key seen answer =>
    cases waits
    obtain ⟨sampled, past, time, keys, _⟩ := ok
    exact ⟨sampled, past, time, keys⟩
  | _ => cases waits <;> trivial

theorem sweepProceed_spared {pc pc'} {r}
    (referenced : Referenced cfg b) (ok : SweepOk cfg b now t pc) (sample : SampleOk cfg b now t pc)
    (ran : sweepProceed pub (now + cfg.skew t) pc = some r) (waits : r.pc? = some pc') :
    SweepOk cfg b now t pc' := by
  cases sweepProceed_proceeded ran with
  | sampled live keys =>
    cases waits
    refine ⟨now, le_refl _, rfl, fun key member => ?_⟩
    simp only [candidates, mem_filter, Bool.and_eq_true, Bool.not_eq_true',
      decide_eq_false_iff_not] at member
    obtain ⟨_, payload, notLive⟩ := member
    refine ⟨payload, fun ec c current value _ isRef => ?_⟩
    obtain ⟨ref, inRefs, isKey⟩ := mem_map.mp isRef
    obtain ⟨_, exist, _⟩ := referenced ec c current value ref inRefs
    obtain ⟨e, found⟩ := Option.isSome_iff_exists.mp exist
    have young :=
      (sample live rfl ec current c (by rw [value]; rfl) key isRef).resolve_left notLive
    rw [isKey] at found
    exact ⟨e, Bucket.get_stored found, young e found⟩
  | spared rest at_ key seen =>
    cases waits
    obtain ⟨sampled, past, time, keys, _⟩ := ok
    exact ⟨sampled, past, time, keys⟩
  | doomed rest at_ key seen => cases waits; exact ok
  | _ => cases waits <;> trivial

end Programs

/-! ## Every run -/

theorem retention_obligations (cfg : Config T) :
    Obligations (Leased cfg) (SampleOk cfg) cfg (retentionPieces cfg) where
  tick b now d := by
    refine ⟨fun ⟨timed, expires, referenced⟩ => ⟨timed.later (by omega), expires.later d,
      referenced⟩, fun w ok => ok.later d, fun _ ok => ok, fun t pub pc ok => ?_⟩
    cases pc with
    | sweep pc => exact SweepOk.later ok d
    | publish pc | discover pc | bootstrap pc => exact ok
  append b now k op := by
    refine ⟨fun w ok => ok.append k op, fun _ ok => ok, fun t pub pc ok => ?_⟩
    cases pc with
    | publish pc => exact BatchStored.append ok k op
    | sweep pc => exact SweepOk.append ok k op
    | discover pc | bootstrap pc => exact ok
  store b now w holds ok accepted leased :=
    ⟨holds.1.append w.key w.op, retention_store holds.1 holds.2.1 holds.2.2 ok accepted leased⟩
  publishWrite b now pub pc w _ _ stored asks := publishWrite_stored stored asks
  sweepWrite b now t pc w _ ok asks := sweepWrite_stored ok asks
  publishStart b now pub input pc _ _ waits := by
    rcases beginPublish_pc waits with rfl | started
    · trivial
    · exact startBatch_stored started
  discoverStart _ _ := trivial
  bootstrapStart _ _ := trivial
  sweepStart _ _ _ := trivial
  publishResume b now pub pc asked answer pub' r _ _ stored asks told ran :=
    ⟨trivial, fun _ => publishResume_stored stored asks told ran⟩
  publishProceed b now at_ pub pc choice pub' r _ _ stored ran :=
    ⟨trivial, fun _ => publishProceed_stored stored ran⟩
  discoverResume _ _ _ _ _ _ _ _ _ _ _ _ _ := trivial
  discoverLocked _ _ _ _ _ _ _ _ _ _ := ⟨trivial, fun _ _ => trivial⟩
  bootstrapResume _ _ _ _ _ _ _ _ _ _ _ _ _ := trivial
  bootstrapLocked _ _ _ _ _ _ _ _ _ _ := ⟨trivial, fun _ _ => trivial⟩
  sweepResume b now t pc asked answer r _ ok asks told ran _ waits :=
    sweepResume_spared ok asks told ran waits
  sweepProceed b now t pub pc r holds ok sample ran _ waits :=
    sweepProceed_spared holds.2.2 ok sample ran waits

theorem fresh_retention (cfg : Config T) (s : ClusterState P T) (fresh : Fresh s) :
    (retentionPieces cfg).Holds s where
  bucket := by
    refine ⟨fresh.timed, fun key e payload stored => ?_, fun ec c live => ?_⟩
    · obtain ⟨worker, isAlias⟩ := fresh.aliases _ stored
      simp only at isAlias
      rw [isAlias] at payload
      cases payload
    · obtain ⟨worker, isAlias⟩ := fresh.aliases _ (Bucket.get_stored live)
      cases isAlias
  pending := by simp [fresh.quiet]
  pubs _ := trivial
  threads := fun t p pc at_ => by rw [fresh.idle t] at at_; cases at_

section Cluster

variable [DecidableEq P] [DecidableEq T]

theorem live_payloads_exist (cfg : Config T) {s : ClusterState P T}
    (reached : Reachable (cluster P cfg) (Guarded (Leased cfg) (SampleOk cfg) cfg) s) :
    LivePayloadsExist s.bucket := by
  obtain ⟨_, holds⟩ := (retention_obligations cfg).holds (fresh_retention cfg) reached
  intro ec live c decoded key isRef
  have value : ec.value = .commit c := by
    cases shape : ec.value <;> simp_all [Value.asCommit]
  obtain ⟨ref, member, rfl⟩ := mem_map.mp isRef
  exact (holds.bucket.2.2 ec c live value ref member).2.1

end Cluster

/-- A publish writes its payload; a sweep reads the empty `_commit` and lists the
keys; the publish lands its commit nine ticks later, within the window of ten;
one tick later the sweep takes its time, visits the payload and deletes it. -/
def staleSweepRun : List (Action Bool (Call Bool Bool)) :=
  payloadSteps false false soloInput ++
    [.call (.start true true .runOnce), .step true .served, .call (.proceed true .go),
      .call (.proceed true .go), .step true .served, .tick 9] ++
    fenceSteps Bool false ++ [.step false .served, .tick 1] ++
    [.call (.proceed true .go), .step true .served, .call (.proceed true .go),
      .step true .served]

/-- The same, with the sweep reading `_commit` only after it was written. -/
def freshSweepRun : List (Action Bool (Call Bool Bool)) :=
  payloadSteps false false soloInput ++ [.tick 9] ++
    fenceSteps Bool false ++ [.step false .served, .tick 1] ++
    [.call (.start true true .runOnce), .step true .served, .step true .served,
      .call (.proceed true .go), .call (.proceed true .go), .step true .served,
      .call (.proceed true .go), .call (.proceed true .go)]

set_option maxRecDepth 4000 in
theorem live_payloads_exist_fresh_sweep :
    ∃ s, Reachable (cluster Bool (plainConfig Bool))
        (Guarded (Leased (plainConfig Bool)) (SampleOk (plainConfig Bool)) (plainConfig Bool)) s ∧
      (s.bucket.get .commit).isSome = true ∧ s.clock = 10 ∧ LivePayloadsExist s.bucket := by
  obtain ⟨s, reached, committed, now⟩ : ∃ s, Reachable (cluster Bool (plainConfig Bool))
        (Guarded (Leased (plainConfig Bool)) (SampleOk (plainConfig Bool)) (plainConfig Bool)) s ∧
      (s.bucket.get .commit).isSome = true ∧ s.clock = 10 :=
    exists_reachable _ emptyCluster_fresh freshSweepRun _ (by decide)
  exact ⟨s, reached, committed, now, live_payloads_exist _ reached⟩

set_option maxRecDepth 4000 in
theorem stale_live_set_deletes_live_payload :
    ∃ s, Reachable (cluster Bool (plainConfig Bool))
        (Guarded (Leased (plainConfig Bool)) (fun _ _ _ _ => True) (plainConfig Bool)) s ∧
      ¬ LivePayloadsExist s.bucket :=
  exists_reachable _ emptyCluster_fresh staleSweepRun _ (by decide)

end Parti.Assignment
