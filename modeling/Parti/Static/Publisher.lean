/-
# Static.Publisher — where a key is published, and who reads it

A publisher hashes the key to a partition index and writes the subject of the pattern; a
consumer of a partition filters by the same pattern with `*` for the key, and reads the
key off the subject by the number of its token. Over the items of the pattern the three
agree token by token (`matchTokens_fill`).

`*` stands for one token, and `ValidateKeyForPublish` takes keys of several: under such a
key the message is in no filter (`dotted_key_unmatched`).
-/
import Mathlib.Data.List.Infix
import Parti.Static.Pattern
import Parti.Strategy.Ring

namespace Parti.Static

open Lib Parti.Types Durable Strategy List Partition

inductive KeyError where
  /-- Text: "partition key must not be empty". -/
  | emptyKey
  /-- Text: "partition key contains invalid subject tokens". -/
  | invalidKey
deriving DecidableEq

def validateKeyForPublish (key : GoString) : Except KeyError Unit :=
  if key = [] then .error .emptyKey
  else if key.any ([42, 62].contains ·) then .error .invalidKey
  else
    match validateSubjectTokens key false with
    | .error _ => .error .invalidKey
    | .ok () => .ok ()

structure PartitionConfig where
  numPartitions : Int
  subjectPattern : GoString
  hashSeed : UInt64

inductive ConfigError where
  /-- Text: "num partitions must be > 0". -/
  | numPartitions
  /-- Text: "subject pattern is required". -/
  | patternRequired
  | pattern (cause : PatternError)
deriving DecidableEq

def PartitionConfig.validate (cfg : PartitionConfig) : Except ConfigError Unit :=
  if cfg.numPartitions ≤ 0 then .error .numPartitions
  else if cfg.subjectPattern = [] then .error .patternRequired
  else
    match parsePattern cfg.subjectPattern with
    | .error cause => .error (.pattern cause)
    | .ok parts =>
      match validateSubjectTokens (parts.buildFilterSubject 0) true with
      | .error cause => .error (.pattern cause)
      | .ok () => .ok ()

/-- `-1` for an empty key or no partitions. -/
def computePartition (x : Xxh3) (key : GoString) (numPartitions : Int) (seed : UInt64) : Int :=
  if key = [] ∨ numPartitions ≤ 0 then -1
  else (x.seeded key seed).toNat % numPartitions

structure PartitionCore where
  config : PartitionConfig
  precomputedSubjects : Option (List GoString)
  patternParts : PatternParts

def newPartitionCore (config : PartitionConfig) : Except ConfigError PartitionCore :=
  match config.validate with
  | .error cause => .error cause
  | .ok () =>
    match parsePattern config.subjectPattern with
    | .error cause => .error (.pattern cause)
    | .ok parts =>
      match validateSubjectTokens (parts.buildSubject [107, 101, 121] 0) false with
      | .error cause => .error (.pattern cause)
      | .ok () =>
        .ok
          { config
            precomputedSubjects :=
              if !parts.hasKey then
                some ((List.range config.numPartitions.toNat).map fun (i : Nat) =>
                  parts.buildSubjectNoKey i)
              else none
            patternParts := parts }

inductive PublishError where
  | cancelled
  | key (cause : KeyError)
  | invalidPattern
  /-- Text: "message is required". -/
  | noMessage
deriving DecidableEq

namespace PartitionCore

variable (c : PartitionCore) (x : Xxh3)

def getPartition (key : GoString) : Int :=
  computePartition x key c.config.numPartitions c.config.hashSeed

def subjectForKey (key : GoString) (partition : Int) : GoString :=
  if partition < 0 then []
  else
    match c.precomputedSubjects with
    | some subjects => subjects.getD partition.toNat []
    | none => c.patternParts.buildSubject key partition

def publish (cancelled : Bool) (key : GoString) : Except PublishError GoString :=
  if cancelled then .error .cancelled
  else
    match validateKeyForPublish key with
    | .error cause => .error (.key cause)
    | .ok () =>
      if c.subjectForKey key (c.getPartition x key) = [] then .error .invalidPattern
      else .ok (c.subjectForKey key (c.getPartition x key))

def publishMsg (cancelled given : Bool) (key : GoString) : Except PublishError GoString :=
  if cancelled then .error .cancelled
  else if !given then .error .noMessage
  else
    match validateKeyForPublish key with
    | .error cause => .error (.key cause)
    | .ok () => .ok (c.subjectForKey key (c.getPartition x key))

end PartitionCore

/-! ## Concrete tokens -/

def Concrete (token : GoString) : Prop :=
  token ≠ [] ∧ containsSpace token = false ∧ token ≠ [42] ∧ token ≠ [62]

theorem validateTokens_false {parts} :
    validateTokens false parts = .ok () ↔ ∀ token ∈ parts, Concrete token := by
  induction parts with
  | nil => simp [validateTokens]
  | cons token rest ih =>
    rw [forall_mem_cons, ← ih, validateTokens]
    by_cases empty : token = []
    · simp [empty, Concrete]
    · by_cases space : containsSpace token = true
      · simp [empty, space, Concrete]
      · by_cases wild : token = [42] ∨ token = [62]
        · rcases wild with rfl | rfl <;> simp [Concrete]
        · rw [not_or] at wild
          simp [empty, space, wild, Concrete]

theorem validateSubjectTokens_false {subject} :
    validateSubjectTokens subject false = .ok () ↔ ∀ token ∈ tokens subject, Concrete token := by
  rw [validateSubjectTokens]
  by_cases empty : subject = []
  · subst empty
    simp [tokens, Concrete]
  · rw [if_neg empty, validateTokens_false]

theorem validateKeyForPublish_ok {key} (accepted : validateKeyForPublish key = .ok ()) :
    ∀ token ∈ tokens key, Concrete token := by
  rw [validateKeyForPublish] at accepted
  split_ifs at accepted
  apply validateSubjectTokens_false.mp
  cases valid : validateSubjectTokens key false with
  | error cause =>
    rw [valid] at accepted
    cases accepted
  | ok => rfl

theorem containsSpace_of_printable {token}
    (printable : ∀ c ∈ token, 32 < c.val ∧ c.val < 128) : containsSpace token = false := by
  by_contra found
  rw [Bool.not_eq_false, containsSpace, any_eq_true] at found
  obtain ⟨space, listed, found⟩ := found
  obtain ⟨tail, suffix, start⟩ := any_eq_true.mp found
  have all : spaces.all (fun space => space.head?.any fun c => c ≤ 32 || 128 ≤ c) = true := by
    decide +kernel
  obtain ⟨c, first, outside⟩ := (Option.any_eq_true _ _).mp (all_eq_true.mp all space listed)
  obtain ⟨bytes, rfl⟩ := head?_eq_some_iff.mp first
  have here : c ∈ tail := ( isPrefixOf_iff_prefix.mp start).subset mem_cons_self
  have range := printable c (((mem_tails _ _).mp suffix).subset here)
  simp only [Bool.or_eq_true, decide_eq_true_eq, Fin.le_def] at outside
  omega

theorem decimalInt_ne_nil (n : Int) : decimalInt n ≠ [] := by
  rw [decimalInt]
  split_ifs
  · simp
  · simp [decimal, Nat.toDigits_ne_nil]

theorem concrete_decimalInt (n : Int) : Concrete (decimalInt n) := by
  refine ⟨decimalInt_ne_nil n, containsSpace_of_printable fun c mem => ?_, ?_, ?_⟩
  · have range := mem_decimalInt mem
    omega
  · intro same
    have range := mem_decimalInt (same ▸ mem_singleton_self 42 : (42 : Fin 256) ∈ _)
    omega
  · intro same
    have range := mem_decimalInt (same ▸ mem_singleton_self 62 : (62 : Fin 256) ∈ _)
    omega

theorem decimalInt_injective {m n : Int} (nonneg : 0 ≤ m) (nonneg' : 0 ≤ n)
    (same : decimalInt m = decimalInt n) : m = n := by
  rw [decimalInt, decimalInt, if_neg (not_lt.mpr nonneg),
    if_neg (not_lt.mpr nonneg')] at same
  have same := decimal_injective same
  omega

/-! ## The three loops agree -/

section Agree

variable {items : List Item} {key : GoString} {keys' keys : List GoString}

/-- Token by token: a filter of the pattern selects the subject of a key of one token if
they have the same index. -/
theorem matchTokens_fill (literal : ∀ token, Item.text token ∈ items → Concrete token) (i j : Int) :
    matchTokens (items.flatMap (Item.fill [[42]] j)) (items.flatMap (Item.fill [key] i)) = true ↔
      (Item.partition ∈ items → decimalInt j = decimalInt i) := by
  induction items with
  | nil => simp [matchTokens]
  | cons item items ih =>
    have ih := ih fun token mem => literal token (.tail _ mem)
    rw [flatMap_cons, flatMap_cons]
    cases item with
    | text token =>
      have concrete := literal token mem_cons_self
      rw [Item.fill, Item.fill, singleton_append, singleton_append,
        matchTokens_cons fun tail => absurd tail concrete.2.2.2]
      simp [ih]
    | partition =>
      have concrete := concrete_decimalInt j
      rw [Item.fill, Item.fill, singleton_append, singleton_append,
        matchTokens_cons fun tail => absurd tail concrete.2.2.2]
      simp only [concrete.2.2.1, decide_false, Bool.false_or, Bool.and_eq_true,
        decide_eq_true_eq, ih, mem_cons_self, forall_const, and_iff_left_iff_imp]
      exact fun same _ => same
    | key =>
      rw [Item.fill, Item.fill, singleton_append, singleton_append,
        matchTokens_cons fun tail => absurd tail (by decide)]
      simp [ih]

theorem concrete_fill {i j : Int}
    (sample : ∀ token ∈ items.flatMap (Item.fill keys j), Concrete token)
    (sound : Item.key ∈ items → ∀ token ∈ keys', Concrete token) :
    ∀ token ∈ items.flatMap (Item.fill keys' i), Concrete token := by
  intro token mem
  obtain ⟨item, listed, mem⟩ := mem_flatMap.mp mem
  cases item with
  | text text => exact sample token (mem_flatMap.mpr ⟨.text text, listed, mem⟩)
  | partition =>
    rw [mem_singleton.mp mem]
    exact concrete_decimalInt i
  | key => exact sound listed token mem

theorem fill_of_keyless {i : Int} (keyless : Item.key ∉ items) :
    items.flatMap (Item.fill keys i) = items.flatMap (Item.fill keys' i) := by
  refine flatMap_congr fun item listed => ?_
  cases item with
  | text token => rfl
  | partition => rfl
  | key => exact absurd listed keyless

theorem length_le_fill (items : List Item) (i : Int) (some : keys ≠ []) :
    items.length ≤ (items.flatMap (Item.fill keys i)).length := by
  induction items with
  | nil => exact Nat.zero_le _
  | cons item items ih =>
    have one : 1 ≤ (Item.fill keys i item).length := by
      cases item with
      | key => exact length_pos_of_ne_nil some
      | _ => exact Nat.le_refl 1
    rw [flatMap_cons, length_append, length_cons]
    omega

theorem length_lt_fill {i : Int} (keyed : Item.key ∈ items) (several : 1 < keys.length) :
    items.length < (items.flatMap (Item.fill keys i)).length := by
  obtain ⟨before, after, rfl⟩ := append_of_mem keyed
  have some : keys ≠ [] := ne_nil_of_length_pos (Nat.zero_lt_of_lt several)
  have shorter := length_le_fill before i some
  have shorter' := length_le_fill after i some
  simp only [flatMap_append, flatMap_cons, length_append, length_cons, Item.fill]
  omega

theorem not_matchTokens_fill (literal : ∀ token, Item.text token ∈ items → Concrete token) (i j : Int)
    (keyed : Item.key ∈ items) (several : 1 < keys.length) :
    matchTokens (items.flatMap (Item.fill [[42]] j)) (items.flatMap (Item.fill keys i)) ≠ true := by
  intro matched
  have longer := length_lt_fill (i := i) keyed several
  rw [← length_of_matchTokens (fun tail => ?_) matched, length_flatMap] at longer
  · have each : items.map (fun item => (Item.fill [[42]] j item).length) = items.map fun _ => 1 :=
      map_congr_left fun item _ => by cases item <;> rfl
    simp [each] at longer
  · obtain ⟨item, listed, mem⟩ := mem_flatMap.mp tail
    cases item with
    | text token => exact (literal token listed).2.2.2 (mem_singleton.mp mem).symm
    | partition => exact (concrete_decimalInt j).2.2.2 (mem_singleton.mp mem).symm
    | key => cases mem_singleton.mp mem

theorem getD_fill {k : Nat} (i : Int) (located : items[k]? = some .key) :
    (items.flatMap (Item.fill [key] i)).getD k [] = key := by
  induction items generalizing k with
  | nil => cases located
  | cons item items ih =>
    have one : ∃ token, Item.fill [key] i item = [token] := by
      cases item <;> exact ⟨_, rfl⟩
    obtain ⟨token, one⟩ := one
    rw [flatMap_cons, one, singleton_append]
    cases k with
    | zero =>
      obtain rfl := Option.some.inj located
      exact (List.cons.inj one).1.symm
    | succ k =>
      rw [getD_cons_succ]
      exact ih located

end Agree

/-! ## What is published -/

variable {x : Xxh3} {cfg : PartitionConfig} {c : PartitionCore} {key subject : GoString}
  {cancelled : Bool}

theorem newPartitionCore_ok (made : newPartitionCore cfg = .ok c) :
    0 < cfg.numPartitions ∧ parsePattern cfg.subjectPattern = .ok c.patternParts ∧
      validateSubjectTokens (c.patternParts.buildSubject [107, 101, 121] 0) false = .ok () ∧
      c.config = cfg ∧
      c.precomputedSubjects =
        if !c.patternParts.hasKey then
          some ((List.range cfg.numPartitions.toNat).map fun (i : Nat) =>
            c.patternParts.buildSubjectNoKey i)
        else none := by
  rw [newPartitionCore] at made
  cases valid : cfg.validate with
  | error cause =>
    rw [valid] at made
    cases made
  | ok =>
    have positive : 0 < cfg.numPartitions := by
      rw [PartitionConfig.validate] at valid
      split_ifs at valid with few
      · exact lt_of_not_ge few
    cases parsed : parsePattern cfg.subjectPattern with
    | error cause =>
      simp only [valid, parsed] at made
      cases made
    | ok parts =>
      cases sample : validateSubjectTokens (parts.buildSubject [107, 101, 121] 0) false with
      | error cause =>
        simp only [valid, parsed, sample] at made
        cases made
      | ok =>
        simp only [valid, parsed, sample] at made
        obtain rfl := Except.ok.inj made
        exact ⟨positive, rfl, sample, rfl, rfl⟩

theorem computePartition_range (x : Xxh3) {n : Int} (seed : UInt64) (some : key ≠ [])
    (positive : 0 < n) :
    0 ≤ computePartition x key n seed ∧ computePartition x key n seed < n := by
  rw [computePartition, if_neg (by simp [some, positive])]
  exact ⟨Int.emod_nonneg _ positive.ne', Int.emod_lt_of_pos _ positive⟩

theorem subjectForKey_eq (made : newPartitionCore cfg = .ok c) {i : Int} (nonneg : 0 ≤ i)
    (below : i < cfg.numPartitions) :
    c.subjectForKey key i = c.patternParts.buildSubject key i := by
  obtain ⟨_, _, _, _, precomputed⟩ := newPartitionCore_ok made
  rw [PartitionCore.subjectForKey, if_neg (by omega), precomputed]
  by_cases keyless : (!c.patternParts.hasKey) = true
  · have inside : i.toNat < cfg.numPartitions.toNat := by omega
    rw [PatternParts.buildSubject, if_pos keyless, if_pos keyless]
    simp [inside, Int.toNat_of_nonneg nonneg]
  · rw [if_neg keyless]

theorem publish_ok (sent : c.publish x cancelled key = .ok subject) :
    validateKeyForPublish key = .ok () ∧ subject = c.subjectForKey key (c.getPartition x key) := by
  rw [PartitionCore.publish] at sent
  cases valid : validateKeyForPublish key with
  | error cause =>
    simp only [valid] at sent
    split_ifs at sent
  | ok =>
    simp only [valid] at sent
    split_ifs at sent
    exact ⟨rfl, (Except.ok.inj sent).symm⟩

theorem publishMsg_ok {given : Bool} (sent : c.publishMsg x cancelled given key = .ok subject) :
    validateKeyForPublish key = .ok () ∧ subject = c.subjectForKey key (c.getPartition x key) := by
  rw [PartitionCore.publishMsg] at sent
  split_ifs at sent
  cases valid : validateKeyForPublish key with
  | error cause =>
    rw [valid] at sent
    cases sent
  | ok =>
    simp only [valid] at sent
    exact ⟨rfl, (Except.ok.inj sent).symm⟩

/-- The subject of a key with several tokens is longer than any filter. -/
theorem Layout.dotted_unselected (layout : Layout p items)
    (concrete : ∀ token, Item.text token ∈ items → Concrete token) (dotted : 46 ∈ key)
    (keyed : p.hasKey = true) (i : Int) :
    ¬ subjectMatches (p.buildFilterSubject i) (p.buildSubject key i) = true := by
  have several : 1 < (tokens key).length := by
    rw [tokens, length_splitOn]
    exact Nat.succ_lt_succ (count_pos_iff.mpr dotted)
  rw [subjectMatches, layout.filter, layout.subject]
  exact not_matchTokens_fill concrete i i (layout.keyed.mp keyed) several

theorem Layout.subject_single (layout : Layout p items)
    (undotted : 46 ∉ key ∨ p.hasKey = false) (i : Int) :
    tokens (p.buildSubject key i) = items.flatMap (Item.fill [key] i) := by
  rw [layout.subject]
  rcases undotted with undotted | keyless
  · rw [tokens, splitOn_eq_singleton undotted]
  · exact fill_of_keyless fun listed => by simp [layout.keyed.mpr listed] at keyless

variable (x cfg) in
/-- **Publisher and consumer agree.** The subject of an accepted key is concrete and the key's
partition is in the range. The subject is under the filter of that partition and of no other, and
the key is read back from it, exactly for keys of one token and for patterns without a key. -/
theorem published_agrees (made : newPartitionCore cfg = .ok c)
    (sent : (∃ cancelled, c.publish x cancelled key = .ok subject) ∨
      ∃ cancelled given, c.publishMsg x cancelled given key = .ok subject) :
    validateSubjectTokens subject false = .ok () ∧
      0 ≤ computePartition x key cfg.numPartitions cfg.hashSeed ∧
      computePartition x key cfg.numPartitions cfg.hashSeed < cfg.numPartitions ∧
      ((∀ j : Int, 0 ≤ j → j < cfg.numPartitions →
          (subjectMatches (c.patternParts.buildFilterSubject j) subject = true ↔
            j = computePartition x key cfg.numPartitions cfg.hashSeed)) ∧
        (c.patternParts.hasKey = true →
          c.patternParts.keyExtractorFunc.map (· subject) = some key ∧
            c.patternParts.extractKey subject = key) ↔
        46 ∉ key ∨ c.patternParts.hasKey = false) := by
  have ⟨valid, written⟩ : validateKeyForPublish key = .ok () ∧
      subject = c.subjectForKey key (c.getPartition x key) := by
    rcases sent with ⟨_, sent⟩ | ⟨_, _, sent⟩
    · exact publish_ok sent
    · exact publishMsg_ok sent
  obtain ⟨positive, parsed, sample, rfl, _⟩ := newPartitionCore_ok made
  obtain ⟨items, layout⟩ := (parsed_of_parsePattern parsed).layout
  have nonempty : key ≠ [] := by
    rintro rfl
    cases valid
  obtain ⟨nonneg, below⟩ := computePartition_range x c.config.hashSeed nonempty positive
  rw [PartitionCore.getPartition, subjectForKey_eq made nonneg below] at written
  generalize computePartition x key c.config.numPartitions c.config.hashSeed = i at *
  rw [validateSubjectTokens_false, layout.subject] at sample
  have concrete : ∀ token, Item.text token ∈ items → Concrete token := fun token mem =>
    sample token (mem_flatMap.mpr ⟨_, mem, mem_singleton_self token⟩)
  subst written
  refine ⟨?_, nonneg, below, ?_, fun undotted => ?_⟩
  · rw [validateSubjectTokens_false, layout.subject]
    exact concrete_fill sample fun _ => validateKeyForPublish_ok valid
  · rintro ⟨selects, -⟩
    by_contra dotted
    rw [not_or, not_not, Bool.not_eq_false] at dotted
    exact layout.dotted_unselected concrete dotted.1 dotted.2 i ((selects i nonneg below).mpr rfl)
  · have parts := layout.subject_single undotted i
    refine ⟨fun j _ _ => ?_, fun keyed => ?_⟩
    · rw [subjectMatches, layout.filter, parts, matchTokens_fill concrete]
      exact ⟨fun same => decimalInt_injective ‹0 ≤ j› nonneg (same layout.placed),
        fun same _ => same ▸ rfl⟩
    · obtain ⟨k, index⟩ := Option.isSome_iff_exists.mp (layout.extracts.trans keyed)
      have read : (tokens (c.patternParts.buildSubject key i)).getD k [] = key := by
        rw [parts, getD_fill i (layout.located k index)]
      rw [PatternParts.keyExtractorFunc, PatternParts.extractKey, index]
      exact ⟨congrArg some read, read⟩

def lengthHash : Xxh3 :=
  ⟨fun s => .ofNat s.length, fun s _ => .ofNat s.length, fun s _ => .ofNat s.length⟩

def twoPartitions : PartitionConfig :=
  ⟨2, [101, 46] ++ partitionPlaceholder ++ [46] ++ keyPlaceholder, 0⟩

def twoPartitionsCore : PartitionCore :=
  ⟨twoPartitions, none, ⟨[[101, 46], [46], []], true, some 1, some 0⟩⟩

/-- The key `k` is published as `e.1.k`. -/
theorem published_agrees_two :
    twoPartitionsCore.publish lengthHash false [107] = .ok [101, 46, 49, 46, 107] ∧
      subjectMatches (twoPartitionsCore.patternParts.buildFilterSubject 0)
        [101, 46, 49, 46, 107] = false ∧
      twoPartitionsCore.patternParts.keyExtractorFunc.map (· [101, 46, 49, 46, 107]) =
        some [107] := by
  have sent : twoPartitionsCore.publish lengthHash false [107] = .ok [101, 46, 49, 46, 107] := by
    decide
  obtain ⟨selects, extracts⟩ := (published_agrees lengthHash twoPartitions
    (c := twoPartitionsCore) rfl (.inl ⟨false, sent⟩)).2.2.2.mpr (.inl (by decide))
  refine ⟨sent, ?_, (extracts rfl).1⟩
  rw [← Bool.not_eq_true, selects 0 (by decide) (by decide)]
  decide

/-- The key `a.b` is accepted; its message is under no filter, and the consumer would read
the key `a` off its subject. -/
theorem dotted_key_unmatched :
    newPartitionCore twoPartitions = .ok twoPartitionsCore ∧
      twoPartitionsCore.publish lengthHash false [97, 46, 98] =
        .ok [101, 46, 49, 46, 97, 46, 98] ∧
      (∀ j ∈ [0, 1], subjectMatches (twoPartitionsCore.patternParts.buildFilterSubject j)
        [101, 46, 49, 46, 97, 46, 98] = false) ∧
      twoPartitionsCore.patternParts.keyExtractorFunc.map (· [101, 46, 49, 46, 97, 46, 98]) =
        some [97] :=
  ⟨rfl, by decide, by decide, by decide⟩

end Parti.Static
