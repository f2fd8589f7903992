/-
# Source.Calls — what a call writes, and what it has written

`Modify` reads the key, applies its function and writes under the revision it has
read, or creates the key where there was nothing. So a write that is accepted
replaces the list its function was given (`Issued.encodes`), also when it arrives
long after its caller has given up.

`Traced` is the source with a record of its calls: who called what, the live entry
a call's write replaced and the one it put there, and whose the unanswered writes
are. `Follows` ties the record and the key to where a caller's goroutine is.
-/
import Parti.Source.Moves

namespace Parti.Source

open Parti.Types Lib Lib.Kv Lib.Client Partition List Option

/-! ## Adding and removing partitions -/

/-- The partitions of a list whose id is not among the existing ones. -/
def addNew (existing : List GoString) : List Partition → List Partition
  | [] => []
  | p :: rest =>
    if p.canonicalID ∈ existing then addNew existing rest
    else p :: addNew (p.canonicalID :: existing) rest

def added (parts current : List Partition) : List Partition :=
  current ++ addNew (current.map canonicalID) parts

def removed (parts current : List Partition) : List Partition :=
  current.filter fun p => p.canonicalID ∉ parts.map canonicalID

def validateInputs (i : Nat) : List Partition → Except PartitionsError Unit
  | [] => .ok ()
  | p :: rest =>
    match p.validate with
    | .error cause => .error (.invalid i cause)
    | .ok () => validateInputs (i + 1) rest

section Calls

variable {T L B : Type}

def addPartitions (t : T) (parts : List Partition) :
    Except PartitionsError (SourceEvent T L B) := do
  validateInputs 0 parts
  return .modify t (added parts)

def removePartitions (t : T) (parts : List Partition) :
    Except PartitionsError (SourceEvent T L B) := do
  validateInputs 0 parts
  return .modify t (removed parts)

end Calls

variable {p : Partition}

theorem canonicalID_mem_addNew : ∀ {parts : List Partition}
    {existing : List GoString}, p ∈ parts →
      p.canonicalID ∈ existing ∨
        p.canonicalID ∈ (addNew existing parts).map canonicalID
  | q :: rest, existing, member => by
      simp only [addNew]
      rcases mem_cons.mp member with rfl | later
      · split
        next known => exact .inl known
        next => exact .inr (by simp)
      · split
        next => exact canonicalID_mem_addNew later
        next =>
          rcases (canonicalID_mem_addNew later : p.canonicalID ∈ q.canonicalID :: existing ∨ _)
            with known | new
          · rcases mem_cons.mp known with same | known
            · exact .inr (by simp [same])
            · exact .inl known
          · exact .inr (.tail _ new)

variable {parts : List Partition}

theorem canonicalID_mem_added (member : p ∈ parts) (current : List Partition) :
    p.canonicalID ∈ (added parts current).map canonicalID := by
  rw [added, map_append, mem_append]
  exact canonicalID_mem_addNew member

theorem mem_added_of_mem {id} {current} (parts : List Partition)
    (member : id ∈ current.map canonicalID) :
    id ∈ (added parts current).map canonicalID := by
  rw [added, map_append, mem_append]
  exact .inl member

theorem validateAndDedupe_eq_ok {clean} :
    validateAndDedupe parts = .ok clean ↔ validatePartitions parts = .ok () ∧ clean = parts := by
  unfold validateAndDedupe
  cases verdict : validatePartitions parts with
  | error cause => simp [Bind.bind, Except.bind]
  | ok checked =>
    simp only [Bind.bind, Except.bind, Pure.pure, Except.pure, Except.ok.injEq, true_and]
    exact eq_comm

/-! ## What a call writes -/

def goBytes (s : GoString) : ByteArray :=
  ⟨(s.map fun byte => UInt8.ofNat byte.val).toArray⟩

/-- Keys and labels are UTF-8, so that JSON keeps them. -/
def Utf8Table (parts : List Partition) : Prop :=
  ∀ p ∈ parts, (∀ key ∈ p.keys, (goBytes key).IsValidUTF8) ∧ (goBytes p.label).IsValidUTF8

/-- What is written can be read back, if its texts are UTF-8. -/
structure Codec.Faithful {B : Type} (codec : Codec B) : Prop where
  decode_encode : ∀ parts data, validatePartitions parts = .ok () → Utf8Table parts →
    codec.encode parts = some data → codec.decode data = some parts

/-- A call of `Update` or `Modify`. -/
inductive Call where
  | update (parts : List Partition)
  | modify (fn : List Partition → List Partition)

def Call.proposes : Call → List Partition → List Partition
  | .update parts, _ => parts
  | .modify fn, current => fn current

section Writes

variable {B : Type} (codec : Codec B)

/-- The list of a key with this live entry, as `fetchFromKV` reads it. -/
def held : Option (Entry B) → Option (List Partition)
  | none => some []
  | some e => codec.decode e.value

def Present (id : GoString) (live : Option (Entry B)) : Prop :=
  ∃ list, held codec live = some list ∧ id ∈ list.map canonicalID

def Fetched (b : Bucket Unit B) (current : List Partition) (rev : Nat) : Prop :=
  (rev = 0 ∧ current = []) ∨
    ∃ e, b.Stored () e ∧ e.revision = rev ∧ codec.decode e.value = some current

def modifyRequest (data : B) (rev : Nat) : Write Unit B :=
  if rev = 0 then .create () data else .update () data rev

def Issued (b : Bucket Unit B) : Call → Write Unit B → Prop
  | .update parts, w => validatePartitions parts = .ok () ∧
      ∃ data, codec.encode parts = some data ∧ w.op = .put data
  | .modify fn, w => ∃ current rev data, Fetched codec b current rev ∧
      validatePartitions (fn current) = .ok () ∧ codec.encode (fn current) = some data ∧
      w = modifyRequest data rev

variable {codec} {b : Bucket Unit B}

variable {current : List Partition} {call : Call} {w : Write Unit B} {rev : Nat}

theorem Fetched.append (fetched : Fetched codec b current rev) (k : Unit) (op : Op B) (now : Int) :
    Fetched codec (b.append k op now) current rev := by
  rcases fetched with fresh | ⟨e, stored, at_, decoded⟩
  · exact .inl fresh
  · exact .inr ⟨e, stored.append k op now, at_, decoded⟩

theorem Issued.append (issued : Issued codec b call w) (k : Unit) (op : Op B) (now : Int) :
    Issued codec (b.append k op now) call w := by
  cases call with
  | update parts => exact issued
  | modify fn =>
    obtain ⟨current, rev, data, fetched, rest⟩ := issued
    exact ⟨current, rev, data, fetched.append k op now, rest⟩

theorem Fetched.held_of_accepts {data : B} (fetched : Fetched codec b current rev)
    (accepted : b.accepts (modifyRequest data rev) = true) :
    held codec (b.get ()) = some current := by
  rcases fetched with ⟨rfl, rfl⟩ | ⟨e, stored, rfl, decoded⟩
  · have absent : b.get () = none := by simpa [modifyRequest] using accepted
    rw [absent]
    rfl
  · have positive : e.revision ≠ 0 := Nat.ne_of_gt (b.positive _ stored)
    have current : b.lastRevision () = e.revision := by
      simpa [modifyRequest, positive] using accepted
    rw [stored.get_of_lastRevision current]
    exact decoded

theorem Issued.encodes (issued : Issued codec b call w) (accepted : b.accepts w = true)
    (replaced : held codec (b.get ()) = some current) :
    ∃ data, w.op = .put data ∧ validatePartitions (call.proposes current) = .ok () ∧
      codec.encode (call.proposes current) = some data := by
  cases call with
  | update parts =>
    obtain ⟨valid, data, encoded, puts⟩ := issued
    exact ⟨data, puts, valid, encoded⟩
  | modify fn =>
    obtain ⟨read, rev, data, fetched, valid, encoded, rfl⟩ := issued
    have same : read = current := by
      rw [fetched.held_of_accepts accepted] at replaced
      exact some.inj replaced
    subst same
    refine ⟨data, ?_, valid, encoded⟩
    unfold modifyRequest
    split <;> rfl

theorem Issued.decodes {fn}
    (issued : Issued codec b (.modify fn) w) (accepted : b.accepts w = true) :
    ∃ current, held codec (b.get ()) = some current := by
  obtain ⟨current, rev, data, fetched, -, -, rfl⟩ := issued
  exact ⟨current, fetched.held_of_accepts accepted⟩

theorem Issued.held_after (faithful : codec.Faithful) (issued : Issued codec b call w)
    (accepted : b.accepts w = true) (replaced : held codec (b.get ()) = some current)
    (utf8 : Utf8Table (call.proposes current)) (now : Int) :
    held codec ((b.append w.key w.op now).get ()) = some (call.proposes current) := by
  obtain ⟨data, puts, valid, encoded⟩ := issued.encodes accepted replaced
  rw [puts, Bucket.get_append_put]
  exact faithful.decode_encode _ _ valid utf8 encoded

end Writes

/-! ## The calls of a run -/

structure Traced (T L B : Type) where
  world : World T L B
  /-- The call a caller has made last. -/
  calls : T → Option Call
  /-- The live entry before and after the write of that call. -/
  wrote : T → Option (Option (Entry B) × Option (Entry B))
  /-- Who made the writes that are under way; `none` for another process. -/
  late : List (Option Call)

section Traced

variable {T L B : Type} [DecidableEq T] [DecidableEq L] (codec : Codec B) (retries : Nat)

namespace Traced

def called (s : Traced T L B) (t : T) (call : Call) : Traced T L B :=
  { s with calls := Function.update s.calls t (some call), wrote := Function.update s.wrote t none }

/-- Write down what an event that led to `world` has done. -/
def note (s : Traced T L B) (world : World T L B) : SourceEvent T L B → Traced T L B
  | .update t parts => { s.called t (.update parts) with world := world }
  | .modify t fn => { s.called t (.modify fn) with world := world }
  | .request (.caller t) .served =>
    if world.bucket.seq = s.world.bucket.seq then { s with world := world }
    else
      { s with
        world := world
        wrote := Function.update s.wrote t
          (some (s.world.bucket.get (), world.bucket.get ())) }
  | .request (.caller t) .unanswered =>
    { s with world := world, late := s.calls t :: s.late }
  | .land index => { s with world := world, late := s.late.eraseIdx index }
  | _ => { s with world := world }

def step (s : Traced T L B) (event : SourceEvent T L B) : Option (Traced T L B) :=
  (s.world.step codec retries event).map fun world => s.note world event

structure Unused (s : Traced T L B) : Prop where
  world : s.world.Unused
  calls : ∀ t, s.calls t = none
  late : s.late = s.world.late.map fun _ => none

end Traced

variable (T L)

def traced : System (Traced T L B) (SourceEvent T L B) :=
  ⟨Traced.Unused, Traced.step codec retries⟩

variable {T L}

def OneBucket (_ : Traced T L B) (event : SourceEvent T L B) : Prop := event.sameBucket = true

variable {codec retries}

omit [DecidableEq L] in
theorem note_world (s : Traced T L B) (world : World T L B) (event : SourceEvent T L B) :
    (s.note world event).world = world := by
  unfold Traced.note
  split <;> first | rfl | (split <;> rfl)

/-- Taking the record away leaves a run of the source. -/
theorem traced_reachable {ok} {s} (reached : Reachable (traced T L codec retries) ok s) :
    Reachable (natsKV T L codec retries) Free s.world := by
  induction reached with
  | initial unused => exact .initial unused.world
  | @next s s' event _ _ took ih =>
    obtain ⟨world, stepped, rfl⟩ := map_eq_some_iff.mp took
    exact ih.next trivial ((note_world s world event).symm ▸ stepped)

end Traced

/-! ## Where a call is, and what it has done -/

variable {B : Type} (codec : Codec B)

/-- The write of a `Modify` has replaced the list its function was given. -/
def Replaced (call : Call) (wrote : Option (Option (Entry B) × Option (Entry B))) : Prop :=
  ∀ fn, call = .modify fn → ∃ before e current, wrote = some (before, some e) ∧
    held codec before = some current ∧ validatePartitions (fn current) = .ok () ∧
    codec.encode (fn current) = some e.value

def Updates (call : Call) (clean : List Partition) (data : B) : Prop :=
  call = .update clean ∧ validatePartitions clean = .ok () ∧ codec.encode clean = some data

def Follows (b : Bucket Unit B) (call : Call)
    (wrote : Option (Option (Entry B) × Option (Entry B))) : Pc B → Prop
  | .update clean data _ | .updateWrite clean data _ _ _ | .refresh clean data _
  | .refreshApply clean data _ _ => Updates codec call clean data
  | .updateApply _ _ => ∃ parts, call = .update parts
  | .modify fn _ => call = .modify fn
  | .modifyWrite fn _ _ data rev =>
    call = .modify fn ∧ Issued codec b call (modifyRequest data rev)
  | .modifyApply _ _ | .returned .ok => Replaced codec call wrote
  | .returned _ => True
  | _ => False

def Pc.reconciling : Pc B → Bool
  | .reconcile | .reconcileEmpty | .reconcileEntry _ _ _ | .reconcileApply _ _ _
  | .reconcileConfirm _ _ | .reconcileReset _ _ _ _ _ | .returned _ => true
  | _ => false

variable {codec} {b : Bucket Unit B} {call : Call} {pc : Pc B}
  {wrote : Option (Option (Entry B) × Option (Entry B))}

theorem Follows.append (follows : Follows codec b call wrote pc) (k : Unit) (op : Op B)
    (now : Int) : Follows codec (b.append k op now) call wrote pc := by
  cases pc with
  | modifyWrite fn left clean data rev => exact ⟨follows.1, follows.2.append k op now⟩
  | returned result => cases result <;> exact follows
  | _ => exact follows

variable {w : Write Unit B}

theorem Follows.issued (follows : Follows codec b call wrote pc)
    (asked : pc.request = some (.write w)) : Issued codec b call w := by
  cases pc with simp only [Pc.request, some.injEq, Request.write.injEq, reduceCtorEq] at asked
  | updateWrite clean data left rev known =>
    obtain ⟨rfl, valid, encoded⟩ := follows
    refine ⟨valid, data, encoded, ?_⟩
    rw [← asked]
    split <;> rfl
  | modifyWrite fn left clean data rev =>
    rw [← asked]
    exact follows.2

variable {L : Type} (s : NatsKV L)

theorem Follows.read {live} (follows : Follows codec b call wrote pc)
    (found : b.get () = live) : Follows codec b call wrote (pc.resume codec s (.entry live)) := by
  generalize moved : pc.resume codec s (.entry live) = pc'
  cases Pc.resumes moved with
  | returned _ _ fails =>
    rename_i result
    cases result with
    | ok => exact absurd rfl fails.1
    | _ => trivial
  | absent | refreshed => exact follows
  | @proposed fn _ _ current rev _ data fetches checked encoded =>
    obtain ⟨valid, rfl⟩ := validateAndDedupe_eq_ok.mp checked
    obtain rfl := follows
    refine ⟨rfl, current, rev, data, ?_, valid, encoded, rfl⟩
    cases fetches with
    | absent => exact .inl ⟨rfl, rfl⟩
    | present e parts decoded => exact .inr ⟨e, Bucket.get_stored found, rfl, decoded⟩
  | _ => exact follows.elim

theorem Follows.refused (follows : Follows codec b call wrote pc)
    (asked : pc.request = some (.write w)) :
    Follows codec b call wrote (pc.resume codec s .conflict) := by
  cases pc with simp only [Pc.request, reduceCtorEq] at asked
  | updateWrite clean data left rev known => exact follows
  | modifyWrite fn left clean data rev =>
    simp only [Pc.resume, modifyRetry]
    split
    · trivial
    · exact follows.1
  | _ => simp at asked

theorem Follows.accepted (follows : Follows codec b call wrote pc)
    (asked : pc.request = some (.write w)) (accepts : b.accepts w = true) (now : Int) :
    Follows codec (b.append w.key w.op now) call
      (some (b.get (), (b.append w.key w.op now).get ()))
      (pc.resume codec s (.written (b.seq + 1))) := by
  have issued := follows.issued asked
  cases pc with simp only [Pc.request, reduceCtorEq] at asked
  | updateWrite clean data left rev known => exact ⟨clean, follows.1⟩
  | modifyWrite fn left clean data rev =>
    obtain rfl := follows.1
    intro fn' same
    cases same
    obtain ⟨current, replaced⟩ := issued.decodes accepts
    obtain ⟨data, puts, valid, encoded⟩ := issued.encodes accepts replaced
    refine ⟨b.get (), ⟨data, b.seq + 1, now⟩, current, ?_, replaced, valid, encoded⟩
    rw [puts, Bucket.get_append_put]
  | _ => simp at asked

theorem Pc.resume_failed (codec : Codec B) (s : NatsKV L) (pc : Pc B) :
    pc.resume codec s .failed = .returned .failed := by
  cases pc <;> rfl

variable {s} {pc' : Pc B} {s' : NatsKV L}

theorem Follows.locked (follows : Follows codec b call wrote pc)
    (moved : pc.locked s = some (s', pc')) : Follows codec b call wrote pc' := by
  cases pc with simp only [Pc.locked, some.injEq, Prod.mk.injEq, reduceCtorEq] at moved
  | update clean data left =>
    obtain ⟨-, rfl⟩ := moved
    exact follows
  | updateApply clean newRev =>
    obtain ⟨-, rfl⟩ := moved
    obtain ⟨parts, rfl⟩ := follows
    intro fn same
    cases same
  | refreshApply clean data left found =>
    obtain ⟨-, rfl⟩ := moved
    unfold updateRetry
    split
    · trivial
    · exact follows
  | modifyApply clean newRev =>
    obtain ⟨-, rfl⟩ := moved
    exact follows
  | _ => exact follows.elim

theorem reconciling_resume (reconciling : pc.reconciling = true) (answer : Answer Unit B) :
    (pc.resume codec s answer).reconciling = true := by
  generalize moved : pc.resume codec s answer = pc'
  cases Pc.resumes moved with
  | returned | empty | skipped | entry | reset | confirmed => rfl
  | _ => cases reconciling

theorem reconciling_asks (reconciling : pc.reconciling = true) :
    pc.request ≠ some (.write w) := by
  intro asked
  cases pc with simp only [Pc.request, reduceCtorEq] at asked
  | updateWrite clean data left rev known => cases reconciling
  | modifyWrite fn left clean data rev => cases reconciling
  | _ => simp at asked

theorem reconciling_locked (reconciling : pc.reconciling = true)
    (moved : pc.locked s = some (s', pc')) : pc'.reconciling = true := by
  cases pc with simp only [Pc.locked, some.injEq, Prod.mk.injEq, reduceCtorEq] at moved
  | reconcileEmpty =>
    obtain ⟨-, rfl⟩ := moved
    rfl
  | reconcileEntry parts rev created =>
    split at moved <;> cases moved <;> rfl
  | reconcileApply parts rev created =>
    obtain ⟨-, rfl⟩ := moved
    rfl
  | reconcileReset parts rev created cachedRev cachedGen =>
    obtain ⟨-, rfl⟩ := moved
    rfl
  | _ => cases reconciling

end Parti.Source
