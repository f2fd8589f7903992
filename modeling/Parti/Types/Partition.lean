/-
# Types.Partition — partitions, their identifiers, and what is published of them

The records of `types/` that the assignment protocol reads and writes. A Go
string whose bytes matter is a `GoString`, the list of its bytes, ordered as Go
orders strings; worker ids and lifecycle names are plain strings. A Go map is an
association list without repeated keys, so that a statement for every map is a
statement for every iteration order.

Versions are `Int`: the source's `int64` counters are taken not to overflow.
-/
import Mathlib.Data.List.Lex
import Mathlib.Data.List.AList
import Mathlib.Data.String.Basic
import Mathlib.Order.Fin.Basic

namespace Parti.Types

/-- A Go string, byte by byte. -/
abbrev GoString := List (Fin 256)

/-- Byte literals and comparisons of strings go through these two instances. -/
instance byteNeZero : @NeZero Nat Zero.ofOfNat0 256 := ⟨by decide⟩

instance goStringLawfulBEq : LawfulBEq GoString := inferInstance

/-- A Go map keyed by strings. -/
abbrev GoMap (α : Type) := AList fun _ : String => α

/-- A logical work partition. `label` is a routing hint and no part of its
identity. -/
structure Partition where
  keys : List GoString
  weight : Int
  label : GoString
deriving DecidableEq

namespace Partition

/-- Decimal digits of a length, as `%d` prints it. -/
def decimal (n : Nat) : GoString :=
  (Nat.toDigits 10 n).map fun c => Fin.ofNat 256 c.toNat

def decimalInt (n : Int) : GoString :=
  if n < 0 then 45 :: decimal n.natAbs else decimal n.natAbs

/-- `"<len>:<key bytes>"` of one key. -/
def canonicalKey (key : GoString) : GoString :=
  decimal key.length ++ 58 :: key

/-- Length-prefixed keys joined by `/`. -/
def canonicalID (p : Partition) : GoString :=
  [47].intercalate (p.keys.map canonicalKey)

/-- Keys joined by `.`. -/
def subjectKey (p : Partition) : GoString :=
  [46].intercalate p.keys

end Partition

example : (Partition.mk [[97, 45, 98], [99]] 0 []).canonicalID =
    [51, 58, 97, 45, 98, 47, 49, 58, 99] := by decide

/-- A worker's assignment as legacy workers read it from their alias key. -/
structure Assignment where
  version : Int
  lifecycle : String
  partitions : List Partition
  leaderRevision : Nat
  totalWorkers : Nat
  workerLabels : List GoString
  workerLabelsKnown : Bool
deriving DecidableEq

structure AssignmentPayload where
  schemaVersion : Nat
  partitions : List Partition
  workerLabels : List GoString
  workerLabelsKnown : Bool
deriving DecidableEq

def assignmentSchemaVersion : Nat := 1

/-- The keys of the assignment bucket. Protocol keys start with `_` and cannot
collide with a worker's alias. -/
inductive Key where
  | commit
  | commitLog (version : Int)
  | payload (hash : GoString)
  | alias (worker : String)
deriving DecidableEq

structure AssignmentPayloadRef where
  key : Key
  payloadHash : GoString
  setDigest : UInt64
  revision : Nat
deriving DecidableEq

/-- The value of `_commit`: the cluster's authoritative batch. -/
structure AssignmentCommit where
  version : Int
  leaderRevision : Nat
  sourceRevision : Nat
  sourceRevisionKnown : Bool
  publishedAt : Int
  workers : List String
  payloads : GoMap AssignmentPayloadRef
  batchDigest : UInt64
  parkedCount : Nat
  parkedDigest : UInt64
  prevCommitRev : Nat
  lifecycle : String
deriving DecidableEq

/-- What the collector reads to keep the payloads of recent commits. -/
structure AssignmentCommitLog where
  version : Int
  leaderRevision : Nat
  publishedAt : Int
  payloadKeys : List Key
deriving DecidableEq

def AssignmentCommit.refKeys (c : AssignmentCommit) : List Key :=
  c.payloads.entries.map fun entry => entry.2.key

end Parti.Types
