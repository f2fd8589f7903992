/-
# Static.Pattern — subject patterns with a partition and a key

A pattern is cut at its placeholders into segments, and the publisher's subject, the
consumer's filter and the prefix that locates the key are each written from the segments
by a loop of their own. Placeholders stand for whole tokens, which the parser checks by
looking at the byte on either side.

`Parsed` says what the parser accepts: one constructor for each order of the
placeholders, with the tokens around them. The tokens of what the loops write follow
(`tokens_buildSubject`, `tokens_buildFilterSubject`), and nothing later looks at the
loops.
-/
import Parti.Durable.Subjects
import Parti.Types.CanonicalID

namespace Parti.Static

open Lib Parti.Types Durable List Partition Option

/-- `{{partition}}`. -/
def partitionPlaceholder : GoString :=
  [123, 123, 112, 97, 114, 116, 105, 116, 105, 111, 110, 125, 125]

/-- `{{key}}`. -/
def keyPlaceholder : GoString := [123, 123, 107, 101, 121, 125, 125]

inductive PatternError where
  /-- Text: "invalid subject pattern". -/
  | invalidPattern
  /-- Text: "pattern produces empty subject token". -/
  | emptyToken
deriving DecidableEq

/-- An index that is not set, `-1` in the source, is `none`. -/
structure PatternParts where
  segments : List GoString
  hasKey : Bool
  keyIndex : Option Nat
  partitionIndex : Option Nat
deriving DecidableEq

/-! ## Parsing -/

/-- Of the byte before a placeholder, if there is one. -/
def isPlaceholderTokenBoundary : Option (Fin 256) → Bool
  | none => true
  | some c => c = 46

/-- Of what follows a placeholder. -/
def isPlaceholderTokenBoundaryEnd : GoString → Bool
  | [] => true
  | c :: _ => c = 46

/-- The loop, byte by byte. The counter runs over the rest of a placeholder, `segment` is
what was read since the last one. -/
def parseFrom (parts : PatternParts) (skip : Nat) (previous : Option (Fin 256))
    (segment : GoString) : GoString → Except PatternError PatternParts
  | [] => .ok { parts with segments := parts.segments ++ [segment] }
  | c :: rest =>
    match skip with
    | skip + 1 => parseFrom parts skip (some c) segment rest
    | 0 =>
      if leftDelim.isPrefixOf (c :: rest) then
        if !isPlaceholderTokenBoundary previous then .error .invalidPattern
        else if partitionPlaceholder.isPrefixOf (c :: rest) then
          if !isPlaceholderTokenBoundaryEnd ((c :: rest).drop partitionPlaceholder.length) then
            .error .invalidPattern
          else if parts.partitionIndex.isSome then .error .invalidPattern
          else
            parseFrom
              { parts with
                segments := parts.segments ++ [segment]
                partitionIndex := some parts.segments.length }
              (partitionPlaceholder.length - 1) (some c) [] rest
        else if keyPlaceholder.isPrefixOf (c :: rest) then
          if !isPlaceholderTokenBoundaryEnd ((c :: rest).drop keyPlaceholder.length) then
            .error .invalidPattern
          else if parts.keyIndex.isSome then .error .invalidPattern
          else
            parseFrom
              { parts with
                segments := parts.segments ++ [segment]
                hasKey := true
                keyIndex := some parts.segments.length }
              (keyPlaceholder.length - 1) (some c) [] rest
        else .error .invalidPattern
      else parseFrom parts 0 (some c) (segment ++ [c]) rest

def parsePattern (pattern : GoString) : Except PatternError PatternParts :=
  if pattern = [] then .error .invalidPattern
  else
    match parseFrom ⟨[], false, none, none⟩ 0 none [] pattern with
    | .error cause => .error cause
    | .ok parts => if parts.partitionIndex = none then .error .invalidPattern else .ok parts

/-! ## Writing -/

/-- The loop over the segments after the first, with what is written before each. -/
def writeFrom (gap : Nat → GoString) (i : Nat) : List GoString → GoString
  | [] => []
  | segment :: rest => gap i ++ (segment ++ writeFrom gap (i + 1) rest)

def write (gap : Nat → GoString) : List GoString → GoString
  | [] => []
  | first :: rest => first ++ writeFrom gap 0 rest

namespace PatternParts

variable (p : PatternParts)

def buildSubjectNoKey (partition : Int) : GoString :=
  write (fun i => if p.partitionIndex = some i then decimalInt partition else []) p.segments

def buildSubject (key : GoString) (partition : Int) : GoString :=
  if !p.hasKey then p.buildSubjectNoKey partition
  else
    write (fun i =>
      (if p.keyIndex = some i then key else []) ++
        if p.partitionIndex = some i then decimalInt partition else []) p.segments

/-- The key is replaced by `*`. -/
def buildFilterSubject (partition : Int) : GoString :=
  if !p.hasKey then p.buildSubjectNoKey partition
  else
    write (fun i =>
      (if p.keyIndex = some i then [42] else []) ++
        if p.partitionIndex = some i then decimalInt partition else []) p.segments

/-- The segments before index `k`, the partition written as `0`. -/
def prefixFrom (i : Nat) : Nat → List GoString → GoString
  | 0, _ => []
  | _, [] => []
  | k + 1, segment :: rest =>
    segment ++ ((if p.partitionIndex = some i then [48] else []) ++ prefixFrom (i + 1) k rest)

/-- `none` is `-1`. -/
def keyTokenIndex : Option Nat :=
  if !p.hasKey then none
  else
    p.keyIndex.map fun k => (p.prefixFrom 0 k p.segments ++ p.segments.getD k []).count 46

def extractKey (subject : GoString) : GoString :=
  match p.keyTokenIndex with
  | none => []
  | some i => (tokens subject).getD i []

def keyExtractorFunc : Option (GoString → GoString) :=
  p.keyTokenIndex.map fun i subject => (tokens subject).getD i []

end PatternParts

/-! ## Subjects -/

def validateTokens (allowWildcard : Bool) : List GoString → Except PatternError Unit
  | [] => .ok ()
  | token :: rest =>
    if token = [] then .error .emptyToken
    else if containsSpace token then .error .invalidPattern
    else if !allowWildcard then
      if token = [42] ∨ token = [62] then .error .invalidPattern
      else validateTokens allowWildcard rest
    else if token = [62] ∧ rest ≠ [] then .error .invalidPattern
    else validateTokens allowWildcard rest

def validateSubjectTokens (subject : GoString) (allowWildcard : Bool) : Except PatternError Unit :=
  if subject = [] then .error .invalidPattern
  else validateTokens allowWildcard (tokens subject)

/-! ## What the parser accepts -/

section Parse

variable {segment rest : GoString} {previous : Option (Fin 256)} {parts result : PatternParts}

/-- The segments of an accepted pattern, by their tokens. Placeholders are whole tokens,
so what stands before one ends in an empty token, and what stands after one starts so. -/
inductive Parsed : PatternParts → Prop
  | partition {first last : GoString} {a d : List GoString} (before : tokens first = a ++ [[]])
      (after : tokens last = [] :: d) : Parsed ⟨[first, last], false, none, some 0⟩
  | partitionKey {first mid last : GoString} {a b d : List GoString}
      (before : tokens first = a ++ [[]]) (between : tokens mid = [] :: (b ++ [[]]))
      (after : tokens last = [] :: d) : Parsed ⟨[first, mid, last], true, some 1, some 0⟩
  | keyPartition {first mid last : GoString} {a b d : List GoString}
      (before : tokens first = a ++ [[]]) (between : tokens mid = [] :: (b ++ [[]]))
      (after : tokens last = [] :: d) : Parsed ⟨[first, mid, last], true, some 0, some 1⟩

/-- The segments that are closed by a placeholder. -/
inductive Closed : PatternParts → Prop
  | start : Closed ⟨[], false, none, none⟩
  | partition {first : GoString} {a : List GoString} (before : tokens first = a ++ [[]]) :
      Closed ⟨[first], false, none, some 0⟩
  | key {first : GoString} {a : List GoString} (before : tokens first = a ++ [[]]) :
      Closed ⟨[first], true, some 0, none⟩
  | partitionKey {first mid : GoString} {a b : List GoString} (before : tokens first = a ++ [[]])
      (between : tokens mid = [] :: (b ++ [[]])) : Closed ⟨[first, mid], true, some 1, some 0⟩
  | keyPartition {first mid : GoString} {a b : List GoString} (before : tokens first = a ++ [[]])
      (between : tokens mid = [] :: (b ++ [[]])) : Closed ⟨[first, mid], true, some 0, some 1⟩

/-- The segment being read: it starts at a dot if a placeholder comes before it, or it is
still empty and a dot is next. -/
inductive Reads (parts : PatternParts) : Option (Fin 256) → GoString → GoString → Prop
  | within {previous : Option (Fin 256)} {segment rest : GoString}
      (last : previous = segment.getLast?)
      (starts : parts.segments ≠ [] → segment.head? = some 46) : Reads parts previous segment rest
  | placed {rest : GoString} (later : parts.segments ≠ [])
      (next : isPlaceholderTokenBoundaryEnd rest = true) : Reads parts (some 125) [] rest

theorem tokens_of_head (starts : segment.head? = some 46) : ∃ d, tokens segment = [] :: d := by
  cases segment with
  | nil => cases starts
  | cons c segment =>
    obtain rfl := some.inj starts
    exact ⟨tokens segment, splitOn_append_cons_self [] segment⟩

theorem tokens_of_getLast (ends : segment.getLast? = some 46) :
    ∃ a, tokens segment = a ++ [[]] := by
  obtain ⟨front, rfl⟩ := getLast?_eq_some_iff.mp ends
  exact ⟨tokens front, splitOn_append_cons_self front []⟩

theorem tokens_of_head_getLast (starts : segment.head? = some 46)
    (ends : segment.getLast? = some 46) : ∃ b, tokens segment = [] :: (b ++ [[]]) := by
  cases segment with
  | nil => cases starts
  | cons c segment =>
    obtain rfl := some.inj starts
    have first : tokens (46 :: segment) = [] :: tokens segment :=
      splitOn_append_cons_self [] segment
    cases segment with
    | nil => exact ⟨[], rfl⟩
    | cons c segment =>
      rw [getLast?_cons_cons] at ends
      obtain ⟨b, rest⟩ := tokens_of_getLast ends
      exact ⟨b, by rw [first, rest]⟩

theorem Reads.first_closes (reads : Reads parts previous segment rest) (first : parts.segments = [])
    (boundary : isPlaceholderTokenBoundary previous = true) :
    ∃ a, tokens segment = a ++ [[]] := by
  cases reads with
  | placed later next => exact absurd first later
  | within last starts =>
    subst last
    cases ends : segment.getLast? with
    | none =>
      rw [getLast?_eq_none_iff.mp ends]
      exact ⟨[], rfl⟩
    | some c =>
      rw [ends] at boundary
      rw [of_decide_eq_true boundary] at ends
      exact tokens_of_getLast ends

theorem Reads.later_closes (reads : Reads parts previous segment rest)
    (later : parts.segments ≠ []) (boundary : isPlaceholderTokenBoundary previous = true) :
    ∃ b, tokens segment = [] :: (b ++ [[]]) := by
  cases reads with
  | placed _ next => exact absurd boundary (by decide)
  | within last starts =>
    subst last
    have starts := starts later
    cases ends : segment.getLast? with
    | none =>
      rw [getLast?_eq_none_iff.mp ends] at starts
      cases starts
    | some c =>
      rw [ends] at boundary
      rw [of_decide_eq_true boundary] at ends
      exact tokens_of_head_getLast starts ends

theorem Reads.starts (reads : Reads parts previous segment []) (later : parts.segments ≠ []) :
    ∃ d, tokens segment = [] :: d := by
  cases reads with
  | placed _ next => exact ⟨[], rfl⟩
  | within last starts => exact tokens_of_head (starts later)

theorem Reads.push {c} (reads : Reads parts previous segment (c :: rest)) :
    Reads parts (some c) (segment ++ [c]) rest := by
  refine .within (by simp) fun later => ?_
  cases reads with
  | placed _ next =>
    rw [of_decide_eq_true next]
    rfl
  | within last starts =>
    rw [head?_append, starts later]
    rfl

theorem parseFrom_placeholder {placeholder} {c} (found : placeholder.isPrefixOf (c :: rest) = true)
    (which : placeholder = partitionPlaceholder ∨ placeholder = keyPlaceholder) :
    parseFrom parts (placeholder.length - 1) (some c) [] rest =
      parseFrom parts 0 (some 125) [] ((c :: rest).drop placeholder.length) := by
  obtain ⟨tail, whole⟩ := isPrefixOf_iff_prefix.mp found
  rw [← whole, drop_left]
  rcases which with rfl | rfl <;>
    · obtain ⟨rfl, rfl⟩ := List.cons.inj whole
      rfl

theorem Closed.putPartition (closed : Closed parts) (reads : Reads parts previous segment rest)
    (boundary : isPlaceholderTokenBoundary previous = true)
    (once : parts.partitionIndex.isSome ≠ true) :
    Closed { parts with
      segments := parts.segments ++ [segment]
      partitionIndex := some parts.segments.length } := by
  cases closed with
  | start =>
    obtain ⟨a, before⟩ := reads.first_closes rfl boundary
    exact .partition before
  | key before =>
    obtain ⟨b, between⟩ := reads.later_closes (by simp) boundary
    exact .keyPartition before between
  | partition | partitionKey | keyPartition => exact absurd rfl once

theorem Closed.putKey (closed : Closed parts) (reads : Reads parts previous segment rest)
    (boundary : isPlaceholderTokenBoundary previous = true) (once : parts.keyIndex.isSome ≠ true) :
    Closed { parts with
      segments := parts.segments ++ [segment]
      hasKey := true
      keyIndex := some parts.segments.length } := by
  cases closed with
  | start =>
    obtain ⟨a, before⟩ := reads.first_closes rfl boundary
    exact .key before
  | partition before =>
    obtain ⟨b, between⟩ := reads.later_closes (by simp) boundary
    exact .partitionKey before between
  | key | partitionKey | keyPartition => exact absurd rfl once

theorem Closed.finish (closed : Closed parts) (reads : Reads parts previous segment [])
    (placed : parts.partitionIndex ≠ none) :
    Parsed { parts with segments := parts.segments ++ [segment] } := by
  cases closed with
  | start | key => exact absurd rfl placed
  | partition before =>
    obtain ⟨d, after⟩ := reads.starts (by simp)
    exact .partition before after
  | partitionKey before between =>
    obtain ⟨d, after⟩ := reads.starts (by simp)
    exact .partitionKey before between after
  | keyPartition before between =>
    obtain ⟨d, after⟩ := reads.starts (by simp)
    exact .keyPartition before between after

-- By the number of bytes left, since a placeholder is passed in one go.
theorem parsed_of_parseFrom (n : Nat) : ∀ {parts : PatternParts} {previous : Option (Fin 256)}
    {segment rest : GoString}, rest.length ≤ n → Closed parts → Reads parts previous segment rest →
      parseFrom parts 0 previous segment rest = .ok result → result.partitionIndex ≠ none →
      Parsed result := by
  induction n with
  | zero =>
    intro parts previous segment rest short closed reads done placed
    obtain rfl := eq_nil_of_length_eq_zero (Nat.le_zero.mp short)
    obtain rfl := Except.ok.inj done
    exact closed.finish reads placed
  | succ n ih =>
    intro parts previous segment rest short closed reads done placed
    cases rest with
    | nil =>
      obtain rfl := Except.ok.inj done
      exact closed.finish reads placed
    | cons c rest =>
      have shorter : rest.length ≤ n := Nat.succ_le_succ_iff.mp short
      rw [parseFrom] at done
      simp only [Bool.not_eq_eq_eq_not, Bool.not_true] at done
      split_ifs at done with delim before found after once key after once
      · rw [parseFrom_placeholder found (.inl rfl)] at done
        simp only [Bool.not_eq_false] at before after
        refine ih ?_ (closed.putPartition reads before once) (.placed (by simp) after) done placed
        rw [length_drop, length_cons]
        simp only [partitionPlaceholder, length_cons]
        omega
      · rw [parseFrom_placeholder key (.inr rfl)] at done
        simp only [Bool.not_eq_false] at before after
        refine ih ?_ (closed.putKey reads before once) (.placed (by simp) after) done placed
        rw [length_drop, length_cons]
        simp only [keyPlaceholder, length_cons]
        omega
      · exact ih shorter closed reads.push done placed

theorem parsed_of_parsePattern {pattern} (accepted : parsePattern pattern = .ok parts) :
    Parsed parts := by
  rw [parsePattern] at accepted
  split_ifs at accepted
  cases done : parseFrom ⟨[], false, none, none⟩ 0 none [] pattern with
  | error cause =>
    rw [done] at accepted
    cases accepted
  | ok result =>
    simp only [done] at accepted
    split_ifs at accepted with placed
    obtain rfl := Except.ok.inj accepted
    have reads : Reads ⟨[], false, none, none⟩ none [] pattern :=
      .within rfl fun later => absurd rfl later
    exact parsed_of_parseFrom _ (le_refl _) .start reads done placed

end Parse

/-! ## The tokens of what is written -/

section Tokens

theorem tokens_append (x y : GoString) : tokens (x ++ y) = glue (tokens x) (tokens y) :=
  splitOn_append 46 x y

theorem tokens_ne_nil (x : GoString) : tokens x ≠ [] := splitOn_ne_nil 46 x

variable {first mid last x y : GoString} {a b d : List GoString}

theorem tokens_around (before : tokens first = a ++ [[]]) (after : tokens last = [] :: d) :
    tokens (first ++ (x ++ last)) = a ++ (tokens x ++ d) := by
  rw [tokens_append, tokens_append, before, after, glue_nil_cons (tokens_ne_nil x),
    glue_open a (by simp [tokens_ne_nil])]

theorem tokens_around_two (before : tokens first = a ++ [[]])
    (between : tokens mid = [] :: (b ++ [[]])) (after : tokens last = [] :: d) :
    tokens (first ++ (x ++ (mid ++ (y ++ last)))) = a ++ (tokens x ++ (b ++ (tokens y ++ d))) := by
  have rest : tokens (mid ++ (y ++ last)) = [] :: (b ++ (tokens y ++ d)) :=
    tokens_around (a := [] :: b) between after
  exact tokens_around before rest

theorem count_of_tokens {n : Nat} (parts : (tokens x).length = n + 1) : x.count 46 = n := by
  rw [tokens, length_splitOn] at parts
  exact Nat.succ_inj.mp parts

end Tokens

/-! ## Patterns as lists of tokens -/

inductive Item where
  | text (token : GoString)
  | partition
  | key
deriving DecidableEq

def Item.fill (key : List GoString) (partition : Int) : Item → List GoString
  | .text token => [token]
  | .partition => [decimalInt partition]
  | .key => key

/-- The parts of a pattern write and locate what its items are. -/
structure Layout (p : PatternParts) (items : List Item) : Prop where
  subject : ∀ key partition,
    tokens (p.buildSubject key partition) = items.flatMap (Item.fill (tokens key) partition)
  placed : Item.partition ∈ items
  keyed : p.hasKey = true ↔ Item.key ∈ items
  located : ∀ k, p.keyTokenIndex = some k → items[k]? = some .key
  extracts : p.keyTokenIndex.isSome = p.hasKey

theorem mem_decimalInt {c} {n : Int} (mem : c ∈ decimalInt n) :
    45 = c.val ∨ 48 ≤ c.val ∧ c.val ≤ 57 := by
  rw [decimalInt] at mem
  split_ifs at mem
  · rcases mem_cons.mp mem with rfl | mem
    · exact .inl rfl
    · exact .inr (mem_decimal mem)
  · exact .inr (mem_decimal mem)

theorem tokens_decimalInt (n : Int) :
    tokens (decimalInt n) = [decimalInt n] := by
  refine splitOn_eq_singleton fun mem => ?_
  have range := mem_decimalInt mem
  omega

variable {p : PatternParts}

theorem flatMap_text (key : List GoString) (partition : Int) (a : List GoString) :
    (a.map Item.text).flatMap (Item.fill key partition) = a := by
  induction a with
  | nil => rfl
  | cons token a ih => rw [map_cons, flatMap_cons, ih, Item.fill, singleton_append]

theorem Layout.filter {items} (layout : Layout p items) (partition : Int) :
    tokens (p.buildFilterSubject partition) = items.flatMap (Item.fill [[42]] partition) :=
  layout.subject [42] partition

theorem Parsed.layout (parsed : Parsed p) : ∃ items, Layout p items := by
  cases parsed with
  | @partition first last a d before after =>
    refine ⟨a.map .text ++ .partition :: d.map .text,
      { subject := fun key n => ?_
        placed := by simp
        keyed := by simp
        located := fun k found => absurd found (by simp [PatternParts.keyTokenIndex])
        extracts := rfl }⟩
    simp only [PatternParts.buildSubject, PatternParts.buildSubjectNoKey, write, writeFrom,
      Bool.not_false, if_true, append_nil]
    rw [tokens_around before after, tokens_decimalInt]
    simp [flatMap_text, Item.fill]
  | @partitionKey first mid last a b d before between after =>
    refine ⟨a.map .text ++ .partition :: (b.map .text ++ .key :: d.map .text),
      { subject := fun key n => ?_
        placed := by simp
        keyed := by simp
        located := fun k found => ?_
        extracts := rfl }⟩
    · simp only [PatternParts.buildSubject, write, writeFrom, Bool.not_true, Bool.false_eq_true,
        if_false, if_true, some.injEq, Nat.zero_ne_one, Nat.one_ne_zero,
        Nat.zero_add, nil_append, append_nil]
      rw [tokens_around_two before between after, tokens_decimalInt]
      simp [flatMap_text, Item.fill]
    · have index : (first ++ ([48] ++ mid)).count 46 = a.length + (1 + b.length) := by
        have zero : tokens [48] = [[48]] := by decide
        apply count_of_tokens
        rw [tokens_around before between, zero]
        simp only [length_append, length_cons, length_nil]
        omega
      have here : k = a.length + (1 + b.length) := by
        rw [← index, ← some.inj found]
        simp [PatternParts.prefixFrom]
      rw [here, getElem?_append_right (by simp)]
      simp [getElem?_cons]
  | @keyPartition first mid last a b d before between after =>
    refine ⟨a.map .text ++ .key :: (b.map .text ++ .partition :: d.map .text),
      { subject := fun key n => ?_
        placed := by simp
        keyed := by simp
        located := fun k found => ?_
        extracts := rfl }⟩
    · simp only [PatternParts.buildSubject, write, writeFrom, Bool.not_true, Bool.false_eq_true,
        if_false, if_true, some.injEq, Nat.zero_ne_one, Nat.one_ne_zero,
        Nat.zero_add, nil_append, append_nil]
      rw [tokens_around_two before between after, tokens_decimalInt]
      simp [flatMap_text, Item.fill]
    · have index : first.count 46 = a.length := by
        apply count_of_tokens
        rw [before, length_append]
        rfl
      have here : k = a.length := by
        rw [← index, ← some.inj found]
        simp [PatternParts.prefixFrom]
      rw [here, getElem?_append_right (by simp)]
      simp

end Parti.Static
