/-
# Types.CanonicalID — an id names one tuple of keys

`CanonicalID` writes every key behind its length, so that no key can be mistaken for two, or for
a part of the next. Two partitions with one id have the same keys: `canonicalID_injective`.
-/
import Mathlib.Data.Nat.Digits.Lemmas
import Parti.Lib.Sorted
import Parti.Lib.Split
import Parti.Types.Partition

namespace Parti.Types

open Lib List Sorted

namespace Partition

theorem mem_decimal {c} {n : Nat} (mem : c ∈ decimal n) :
    48 ≤ c.val ∧ c.val ≤ 57 := by
  obtain ⟨digit, here, rfl⟩ := mem_map.mp mem
  have isDigit := Nat.isDigit_of_mem_toDigits (by decide) (by decide) here
  simp only [Char.isDigit, Bool.and_eq_true, decide_eq_true_eq, UInt32.le_iff_toNat_le] at isDigit
  have low : 48 ≤ digit.toNat := isDigit.1
  have high : digit.toNat ≤ 57 := isDigit.2
  simp only [Fin.ofNat]
  omega

theorem decimal_injective {m n : Nat} (same : decimal m = decimal n) :
    m = n := by
  have back (k : Nat) :
      (decimal k).map (fun c => Char.ofNat c.val) = Nat.toDigits 10 k := by
    rw [decimal, map_map]
    refine (map_congr_left fun c mem => ?_).trans (map_id _)
    have digit := Nat.isDigit_of_mem_toDigits (by decide) (by decide) mem
    simp only [Char.isDigit, Bool.and_eq_true, decide_eq_true_eq, UInt32.le_iff_toNat_le] at digit
    have small : c.toNat < 256 := lt_of_le_of_lt digit.2 (by decide)
    simp only [Function.comp_apply, Fin.ofNat, Nat.mod_eq_of_lt small, Char.ofNat_toNat, id]
  have digits := congrArg (List.map fun c => Char.ofNat c.val) same
  rw [back, back] at digits
  rw [← Nat.ofDigitChars_ten_toDigits (n := m), digits, Nat.ofDigitChars_ten_toDigits]

theorem canonicalKey_append {key key' rest rest'}
    (same : canonicalKey key ++ rest = canonicalKey key' ++ rest') : key = key' ∧ rest = rest' := by
  have colon (n : Nat) : ∀ c ∈ decimal n, (c != 58) = true := by
    intro c mem
    have range := mem_decimal mem
    simp only [bne_iff_ne, ne_eq]
    omega
  simp only [canonicalKey, append_assoc, cons_append] at same
  have digits := congrArg (List.takeWhile (· != 58)) same
  rw [takeWhile_append_of_pos (colon _), takeWhile_append_of_pos (colon _),
    takeWhile_cons_of_neg (by simp), takeWhile_cons_of_neg (by simp), append_nil,
    append_nil] at digits
  have length : key.length = key'.length := decimal_injective digits
  rw [digits] at same
  exact append_inj (List.cons.inj (append_cancel_left same)).2 length

theorem canonicalKey_readable :
    Readable (fun x => ∃ key, canonicalKey key = x) fun _ : GoString => True := by
  rintro _ _ rest rest' ⟨key, rfl⟩ ⟨key', rfl⟩ - - same
  obtain ⟨rfl, rfl⟩ := canonicalKey_append same
  exact ⟨rfl, rfl⟩

theorem canonicalKey_injective : Function.Injective canonicalKey := by
  intro key key' same
  exact (canonicalKey_append (congrArg (· ++ []) same)).1

theorem canonicalID_injective {p q : Partition} (same : p.canonicalID = q.canonicalID) :
    p.keys = q.keys := by
  refine map_injective_iff.mpr canonicalKey_injective ?_
  exact canonicalKey_readable.intercalate_inj (fun _ => trivial) trivial (by simp [canonicalKey])
    (by simp) (by simp) same

theorem canonicalID_readable : Readable (fun x => ∃ p : Partition, p.keys ≠ [] ∧ p.canonicalID = x)
    fun rest => rest.head? ≠ some 47 := by
  rintro _ _ rest rest' ⟨p, keyed, rfl⟩ ⟨q, keyed', rfl⟩ stops stops' same
  have texts := congrArg (List.cons 47) same
  rw [← cons_append, ← cons_append, canonicalID, canonicalID, cons_intercalate _ (by simpa),
    cons_intercalate _ (by simpa)] at texts
  have keys := canonicalKey_readable.flatMap (fun _ => trivial) (fun stops => ⟨trivial, stops⟩)
    stops stops' (by simp) (by simp) texts
  have ids : p.canonicalID = q.canonicalID := congrArg [47].intercalate keys
  rw [ids] at same
  exact ⟨ids, append_cancel_left same⟩

end Partition

/-- The bytes that `PartitionSetDigest` hashes: the sorted ids, each once, a line each. -/
def digestStream (parts : List Partition) : GoString :=
  [10].intercalate (ofList (parts.map Partition.canonicalID))

open Parti.Types.Partition

variable {ps qs : List Partition}

theorem ids_of_digestStream (keyed : ∀ p ∈ ps, p.keys ≠ []) (keyed' : ∀ q ∈ qs, q.keys ≠ [])
    (same : digestStream ps = digestStream qs) :
    ofList (ps.map canonicalID) = ofList (qs.map canonicalID) := by
  have words {ps : List Partition} (keyed : ∀ p ∈ ps, p.keys ≠ []) :
      ∀ x ∈ ofList (ps.map canonicalID), ∃ p : Partition, p.keys ≠ [] ∧ p.canonicalID = x := by
    intro x mem
    obtain ⟨p, here, rfl⟩ := mem_map.mp (mem_ofList.mp mem)
    exact ⟨p, keyed p here, rfl⟩
  refine canonicalID_readable.intercalate_inj (by simp) (by simp) ?_ (words keyed) (words keyed')
    same
  rintro ⟨p, keyed, none_⟩
  exact keyed (canonicalID_injective (q := ⟨[], 0, []⟩) none_)

theorem mem_keys_iff (keys : List GoString) (ps : List Partition) :
    keys ∈ ps.map Partition.keys ↔
      (Partition.mk keys 0 []).canonicalID ∈ ofList (ps.map canonicalID) := by
  rw [mem_ofList, mem_map, mem_map]
  constructor
  · rintro ⟨p, mem, rfl⟩
    exact ⟨p, mem, rfl⟩
  · rintro ⟨p, mem, same⟩
    exact ⟨p, mem, canonicalID_injective same⟩

theorem partition_identity :
    (∀ p q : Partition, p.keys ≠ [] → q.keys ≠ [] → p.canonicalID = q.canonicalID →
      p.keys = q.keys) ∧
    ∀ ps qs : List Partition, (∀ p ∈ ps, p.keys ≠ []) → (∀ q ∈ qs, q.keys ≠ []) →
      (digestStream ps = digestStream qs ↔
        ∀ keys, keys ∈ ps.map Partition.keys ↔ keys ∈ qs.map Partition.keys) := by
  refine ⟨fun p q _ _ => canonicalID_injective, fun ps qs keyed keyed' => ⟨fun same keys => ?_,
    fun same => congrArg [10].intercalate ?_⟩⟩
  · rw [mem_keys_iff, mem_keys_iff, ids_of_digestStream keyed keyed' same]
  · have ids (ps : List Partition) : ps.map canonicalID =
        (ps.map Partition.keys).map fun keys => [47].intercalate (keys.map canonicalKey) := by
      rw [map_map]
      rfl
    refine eq_of_mem_iff (ofList_lt _) (ofList_lt _) fun id => ?_
    simp only [mem_ofList, ids, mem_map (b := id), same]

end Parti.Types
