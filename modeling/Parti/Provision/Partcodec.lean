/-
# Provision.Partcodec — the wire format of a partition table

A table is written as gzipped JSON and read as either. What is read is checked like what is
written, so whatever `Decode` accepts is valid. JSON texts are UTF-8, and so are the texts
read from them; keys and labels need not be. A valid table comes back as it was exactly if
they are (`partcodec_round_trip`); a byte that is no UTF-8 comes back as another text
(`partcodec_changes_key`).

gzip and JSON are a `Wire` of their own, known by what they promise.
-/
import Parti.Provision.Partitions

namespace Parti.Provision

open Parti.Types Source List

def asTexts (text : GoString → GoString) (partitions : List Partition) : List Partition :=
  partitions.map fun p => { p with keys := p.keys.map text, label := text p.label }

variable {partitions : List Partition}

theorem asTexts_utf8 {text}
    (keeps : ∀ s, (goBytes s).IsValidUTF8 → text s = s) (utf8 : Utf8Table partitions) :
    asTexts text partitions = partitions := by
  refine (map_congr_left fun p mem => ?_).trans (map_id _)
  obtain ⟨keys, label⟩ := utf8 p mem
  have same : p.keys.map text = p.keys :=
    (map_congr_left fun key mem => keeps key (keys key mem)).trans (map_id _)
  simp [same, keeps _ label]

theorem utf8_asTexts {text} (utf8 : ∀ s, (goBytes (text s)).IsValidUTF8) :
    Utf8Table (asTexts text partitions) := by
  intro p mem
  obtain ⟨q, -, rfl⟩ := mem_map.mp mem
  refine ⟨fun key mem => ?_, utf8 _⟩
  obtain ⟨before, -, rfl⟩ := mem_map.mp mem
  exact utf8 before

structure Wire (D : Type) where
  isEmpty : D → Bool
  /-- More than two bytes, and the magic ones first. -/
  isGzip : D → Bool
  compress : D → D
  /-- No reader for the header; or what the reader gives, unless it fails. -/
  newReader : D → Option (Option D)
  marshal : List Partition → D
  unmarshal : D → Option (List Partition)

inductive DecodeError where
  | decompress
  | unmarshal
  /-- An invalid or a duplicate partition "in KV data". -/
  | record (cause : PartitionsError)
deriving DecidableEq

variable {D : Type}

def Wire.encode (W : Wire D) (partitions : List Partition) : D :=
  W.compress (W.marshal partitions)

def Wire.jsonData (W : Wire D) (data : D) : Except DecodeError D :=
  if W.isGzip data then
    match W.newReader data with
    | none => .ok data
    | some none => .error .decompress
    | some (some decompressed) => .ok decompressed
  else .ok data

def Wire.decode (W : Wire D) (data : D) : Except DecodeError (List Partition) :=
  if W.isEmpty data then .ok []
  else
    match W.jsonData data with
    | .error err => .error err
    | .ok jsonData =>
      match W.unmarshal jsonData with
      | none => .error .unmarshal
      | some raw =>
        match validatePartitions raw with
        | .error cause => .error (.record cause)
        | .ok () => .ok raw

/-- gzip gives back what it was given; JSON gives back texts that are UTF-8, and those that
were as they were. -/
structure Wire.Lawful (W : Wire D) (text : GoString → GoString) : Prop where
  gzip : ∀ d, W.isEmpty (W.compress d) = false ∧ W.isGzip (W.compress d) = true ∧
    W.newReader (W.compress d) = some (some d)
  utf8 : ∀ s, (goBytes (text s)).IsValidUTF8
  keeps : ∀ s, (goBytes s).IsValidUTF8 → text s = s
  json : ∀ partitions, W.unmarshal (W.marshal partitions) = some (asTexts text partitions)

variable {W : Wire D} {text : GoString → GoString}

theorem Wire.decode_checked {data : D} (decoded : W.decode data = .ok partitions) :
    validatePartitions partitions = .ok () := by
  unfold Wire.decode at decoded
  split at decoded
  next => cases decoded; rfl
  next =>
    split at decoded
    next => cases decoded
    next =>
      split at decoded
      next => cases decoded
      next =>
        split at decoded
        next => cases decoded
        next passed => cases decoded; exact passed

theorem Wire.Lawful.decode_encode (law : W.Lawful text) (partitions : List Partition) :
    W.decode (W.encode partitions) =
      match validatePartitions (asTexts text partitions) with
      | .error cause => .error (.record cause)
      | .ok () => .ok (asTexts text partitions) := by
  obtain ⟨full, gzip, reads⟩ := law.gzip (W.marshal partitions)
  simp [Wire.decode, Wire.encode, Wire.jsonData, full, gzip, reads, law.json]

theorem Wire.Lawful.decode_utf8 (law : W.Lawful text)
    (valid : validatePartitions partitions = .ok ()) (utf8 : Utf8Table partitions) :
    W.decode (W.encode partitions) = .ok partitions := by
  rw [law.decode_encode, asTexts_utf8 law.keeps utf8, valid]

theorem Wire.Lawful.utf8_of_decode (law : W.Lawful text)
    (back : W.decode (W.encode partitions) = .ok partitions) : Utf8Table partitions := by
  rw [law.decode_encode] at back
  split at back
  next => cases back
  next => exact Except.ok.inj back ▸ utf8_asTexts law.utf8

theorem partcodec_round_trip (law : W.Lawful text) (partitions : List Partition)
    (valid : validatePartitions partitions = .ok ()) :
    (W.decode (W.encode partitions) = .ok partitions ↔ Utf8Table partitions) ∧
      ∀ data read, W.decode data = .ok read →
        validatePartitions read = .ok () ∧ (read.map Partition.canonicalID).Nodup := by
  refine ⟨⟨law.utf8_of_decode, law.decode_utf8 valid⟩, fun data read decoded => ?_⟩
  have passed := Wire.decode_checked decoded
  exact ⟨passed, (validateFrom_nodup passed).1⟩

/-- The provisioner's and the source's codec is this one. -/
def Wire.codec (W : Wire D) : Codec D where
  encode partitions := some (W.encode partitions)
  decode data := (W.decode data).toOption

theorem Wire.Lawful.table (law : W.Lawful text) : TableCodec W.codec where
  checked data partitions decoded := by
    cases read : W.decode data with
    | error err => simp [Wire.codec, read, Except.toOption] at decoded
    | ok found =>
      simp only [Wire.codec, read, Except.toOption, Option.some.injEq] at decoded
      exact decoded ▸ Wire.decode_checked read
  faithful partitions data valid utf8 encoded := by
    cases encoded
    simp [Wire.codec, law.decode_utf8 valid utf8, Except.toOption]

/-- `U+FFFD` in place of what is no UTF-8. -/
def replaced (s : GoString) : GoString := if (goBytes s).IsValidUTF8 then s else [239, 191, 189]

def layers : Wire (Nat × List Partition) where
  isEmpty _ := false
  isGzip d := d.1 ≠ 0
  compress d := (d.1 + 1, d.2)
  newReader d := if d.1 = 0 then none else some (some (d.1 - 1, d.2))
  marshal partitions := (0, asTexts replaced partitions)
  unmarshal d := some d.2

theorem replaced_utf8 (s : GoString) : (goBytes (replaced s)).IsValidUTF8 := by
  unfold replaced
  split
  next valid => exact valid
  next => decide

theorem layers_lawful : layers.Lawful replaced where
  gzip d := by simp [layers]
  utf8 := replaced_utf8
  keeps s valid := by simp [replaced, valid]
  json _ := rfl

theorem partcodec_round_trip_ascii :
    layers.decode (layers.encode [⟨[[97]], 1, []⟩]) = .ok [⟨[[97]], 1, []⟩] :=
  (partcodec_round_trip layers_lawful [⟨[[97]], 1, []⟩] (by decide)).1.mpr
    (by unfold Utf8Table; decide)

theorem partcodec_changes_key :
    validatePartitions [⟨[[255]], 0, []⟩] = .ok () ∧
      layers.decode (layers.encode [⟨[[255]], 0, []⟩]) = .ok [⟨[[239, 191, 189]], 0, []⟩] := by
  decide

end Parti.Provision
