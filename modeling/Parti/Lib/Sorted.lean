/-
# Lib.Sorted — sets kept as strictly increasing lists

A set over a linear order, represented as the strictly increasing list of its
members: how to make one from any list (`ofList`: sort, then drop equal
neighbours), and the two-pointer intersection and union of two of them. Each
operation is computable, and each has one membership lemma and, where its
result is again a set, one order lemma.

`ofList_length` ties the length of the set to the number of distinct members,
so that comparing lengths detects repetition (`nodup_of_length`).
-/
import Mathlib.Data.List.Sort
import Mathlib.Data.Finset.Card
import Mathlib.Data.Finset.Dedup

namespace Parti.Lib.Sorted

open List

variable {α : Type*} [LinearOrder α]

/-- Drop the elements equal to their successor. -/
def compact : List α → List α
  | [] => []
  | [a] => [a]
  | a :: b :: rest => if a = b then compact (b :: rest) else a :: compact (b :: rest)

/-- The members of a list, increasing. -/
def ofList (xs : List α) : List α := compact (xs.insertionSort (· ≤ ·))

/-- One row of `intersect`: the head `a` against the other list, with `rest`
the intersection of everything after `a`. -/
def intersectHead (a : α) (rest : List α → List α) : List α → List α
  | [] => []
  | b :: bs =>
    if a = b then a :: rest bs
    else if a < b then rest (b :: bs)
    else intersectHead a rest bs

def intersect : List α → List α → List α
  | [], _ => []
  | a :: as, bs => intersectHead a (intersect as) bs

/-- One row of `merge`. -/
def mergeHead (a : α) (as : List α) (rest : List α → List α) : List α → List α
  | [] => a :: as
  | b :: bs =>
    if a = b then a :: rest bs
    else if a < b then a :: rest (b :: bs)
    else b :: mergeHead a as rest bs

def merge : List α → List α → List α
  | [], bs => bs
  | a :: as, bs => mergeHead a as (merge as) bs

@[simp] theorem mem_compact {x : α} : ∀ {xs : List α}, x ∈ compact xs ↔ x ∈ xs
  | [] => Iff.rfl
  | [_] => Iff.rfl
  | a :: b :: rest => by
      have ih : x ∈ compact (b :: rest) ↔ x ∈ b :: rest := mem_compact
      rw [compact]
      split
      next same =>
        rw [ih, mem_cons (b := a)]
        exact ⟨.inr, fun member => member.elim (fun here => here ▸ same ▸ .head _) id⟩
      next => rw [mem_cons, ih, mem_cons (b := a)]

theorem compact_lt : ∀ {xs : List α}, xs.Pairwise (· ≤ ·) → (compact xs).Pairwise (· < ·)
  | [], _ => .nil
  | [_], _ => pairwise_singleton _ _
  | a :: b :: rest, sorted => by
      have tail := pairwise_cons.mp sorted
      have ih := compact_lt tail.2
      rw [compact]
      split
      next => exact ih
      next differ =>
        refine pairwise_cons.mpr ⟨fun x member => ?_, ih⟩
        have first : a < b := lt_of_le_of_ne (tail.1 b mem_cons_self) differ
        rcases mem_cons.mp (mem_compact.mp member) with rfl | later
        · exact first
        · exact lt_of_lt_of_le first ((pairwise_cons.mp tail.2).1 x later)

@[simp] theorem mem_ofList {x : α} {xs : List α} : x ∈ ofList xs ↔ x ∈ xs := by
  rw [ofList, mem_compact, (perm_insertionSort _ xs).mem_iff]

theorem ofList_lt (xs : List α) : (ofList xs).Pairwise (· < ·) :=
  compact_lt (pairwise_insertionSort (· ≤ ·) xs)

theorem eq_of_mem_iff {xs ys : List α} (increasing : xs.Pairwise (· < ·))
    (increasing' : ys.Pairwise (· < ·)) (same : ∀ x, x ∈ xs ↔ x ∈ ys) : xs = ys := by
  have perm : xs.Perm ys :=
    (perm_ext_iff_of_nodup (increasing.imp ne_of_lt) (increasing'.imp ne_of_lt)).mpr same
  exact perm.eq_of_pairwise (fun _ _ _ _ lt gt => absurd gt (lt_asymm lt)) increasing increasing'

theorem ofList_length (xs : List α) : (ofList xs).length = xs.toFinset.card := by
  have nodup : (ofList xs).Nodup := (ofList_lt xs).imp ne_of_lt
  rw [← toFinset_card_of_nodup nodup]
  congr 1
  ext x
  simp

theorem nodup_of_length {xs : List α} (full : xs.length = (ofList xs).length) : xs.Nodup := by
  rw [ofList_length, card_toFinset] at full
  exact dedup_eq_self.mp ((dedup_sublist xs).eq_of_length_le full.le)

theorem length_of_nodup {xs : List α} (nodup : xs.Nodup) : xs.length = (ofList xs).length := by
  rw [ofList_length, toFinset_card_of_nodup nodup]

theorem mem_merge {x : α} (xs ys : List α) : x ∈ merge xs ys ↔ x ∈ xs ∨ x ∈ ys := by
  induction xs generalizing ys with
  | nil => simp [merge]
  | cons a as rest =>
    rw [merge]
    induction ys with
    | nil => simp [mergeHead]
    | cons b bs row =>
      rw [mergeHead]
      split
      next same => simp only [mem_cons, rest, same]; tauto
      next =>
        split
        · simp only [mem_cons, rest]; tauto
        · simp only [mem_cons, row]; tauto

theorem merge_lt (xs ys : List α) (increasing : xs.Pairwise (· < ·))
    (increasing' : ys.Pairwise (· < ·)) : (merge xs ys).Pairwise (· < ·) := by
  induction xs generalizing ys with
  | nil => exact increasing'
  | cons a as rest =>
    have left := pairwise_cons.mp increasing
    induction ys with
    | nil => exact increasing
    | cons b bs row =>
      have right := pairwise_cons.mp increasing'
      rw [merge, mergeHead]
      split
      next same =>
        refine pairwise_cons.mpr ⟨fun x member => ?_, rest bs left.2 right.2⟩
        rcases (mem_merge as bs).mp member with here | there
        · exact left.1 x here
        · exact same ▸ right.1 x there
      next differ =>
        split
        next below =>
          refine pairwise_cons.mpr ⟨fun x member => ?_, rest _ left.2 increasing'⟩
          rcases (mem_merge as (b :: bs)).mp member with here | there
          · exact left.1 x here
          · rcases mem_cons.mp there with rfl | later
            · exact below
            · exact below.trans (right.1 x later)
        next notBelow =>
          have above : b < a := lt_of_le_of_ne (not_lt.mp notBelow) (Ne.symm differ)
          refine pairwise_cons.mpr ⟨fun x member => ?_, row right.2⟩
          rcases (mem_merge (a :: as) bs).mp member with here | there
          · rcases mem_cons.mp here with rfl | later
            · exact above
            · exact above.trans (left.1 x later)
          · exact right.1 x there

theorem head_notMem {a b : α} {bs} (below : a < b)
    (increasing : (b :: bs).Pairwise (· < ·)) : a ∉ b :: bs := by
  intro member
  rcases mem_cons.mp member with rfl | later
  · exact lt_irrefl _ below
  · exact lt_asymm below ((pairwise_cons.mp increasing).1 a later)

theorem mem_intersect {x : α} (xs ys : List α) (increasing : xs.Pairwise (· < ·))
    (increasing' : ys.Pairwise (· < ·)) : x ∈ intersect xs ys ↔ x ∈ xs ∧ x ∈ ys := by
  induction xs generalizing ys with
  | nil => simp [intersect]
  | cons a as rest =>
    rw [intersect]
    induction ys with
    | nil => simp [intersectHead]
    | cons b bs row =>
      rw [intersectHead]
      split
      next same =>
        subst same
        rw [mem_cons, rest bs increasing.of_cons increasing'.of_cons, mem_cons,
          mem_cons]
        tauto
      next differ =>
        split
        next below =>
          have absent := head_notMem below increasing'
          rw [rest _ increasing.of_cons increasing', mem_cons (b := a)]
          refine ⟨fun both => ⟨.inr both.1, both.2⟩,
            fun both => ⟨both.1.resolve_left ?_, both.2⟩⟩
          rintro rfl
          exact absent both.2
        next notBelow =>
          have above : b < a := lt_of_le_of_ne (not_lt.mp notBelow) (Ne.symm differ)
          have absent := head_notMem above increasing
          rw [row increasing'.of_cons, mem_cons (b := b)]
          refine ⟨fun both => ⟨both.1, .inr both.2⟩,
            fun both => ⟨both.1, both.2.resolve_left ?_⟩⟩
          rintro rfl
          exact absent both.1

end Parti.Lib.Sorted
