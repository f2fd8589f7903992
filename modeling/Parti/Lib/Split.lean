/-
# Lib.Split — a list cut at a separator, and lists put together

`splitOn` cuts a list at every occurrence of a separator. Putting two lists together
joins the last part of the first with the first part of the second: `glue`. So whatever
is known of the parts of the pieces is known of the parts of the whole, for any relation
that `++` respects (`glue_forall₂`), and the number of parts is the number of separators
and one more.
-/
import Mathlib.Data.List.Forall2

namespace Parti.Lib

open List

universe u

section Glue

variable {α : Type u} {xs ys : List (List α)}

/-- The parts of two lists put together: the last part runs on into the first. -/
def glue : List (List α) → List (List α) → List (List α)
  | [], ys => ys
  | [x], [] => [x]
  | [x], y :: ys => (x ++ y) :: ys
  | x :: x' :: xs, ys => x :: glue (x' :: xs) ys

theorem glue_cons {x} (more : xs ≠ []) : glue (x :: xs) ys = x :: glue xs ys := by
  cases xs with
  | nil => exact absurd rfl more
  | cons x' xs => rw [glue]

theorem glue_modifyHead {c : α} (nonempty : xs ≠ []) :
    glue (xs.modifyHead (List.cons c)) ys = (glue xs ys).modifyHead (List.cons c) := by
  cases xs with
  | nil => exact absurd rfl nonempty
  | cons x xs =>
    cases xs with
    | cons x' xs => simp [glue]
    | nil => cases ys <;> simp [glue]

theorem glue_open (xs : List (List α)) (nonempty : ys ≠ []) : glue (xs ++ [[]]) ys = xs ++ ys := by
  induction xs with
  | nil =>
    cases ys with
    | nil => exact absurd rfl nonempty
    | cons y ys => rfl
  | cons x xs ih => rw [cons_append, glue_cons (by simp), ih, cons_append]

theorem glue_nil_cons (nonempty : xs ≠ []) (ys : List (List α)) :
    glue xs ([] :: ys) = xs ++ ys := by
  induction xs with
  | nil => exact absurd rfl nonempty
  | cons x xs ih =>
    cases xs with
    | nil => simp [glue]
    | cons x' xs => rw [glue, ih (by simp), ← cons_append]

theorem glue_forall₂ {R}
    (respects : ∀ {x x' y y'}, R x x' → R y y' → R (x ++ y) (x' ++ y')) {xs' ys' : List (List α)}
    (left : List.Forall₂ R xs xs') (right : List.Forall₂ R ys ys') :
    List.Forall₂ R (glue xs ys) (glue xs' ys') := by
  induction left with
  | nil => exact right
  | cons first rest ih =>
    cases rest with
    | cons second more =>
      rw [glue, glue]
      exact .cons first ih
    | nil =>
      cases right with
      | nil => exact .cons first .nil
      | cons next more => exact .cons (respects first next) more

variable [BEq α]

theorem splitOn_append (a : α) (xs ys : List α) :
    (xs ++ ys).splitOn a = glue (xs.splitOn a) (ys.splitOn a) := by
  induction xs with
  | nil =>
    rw [splitOn_nil, nil_append]
    cases h : ys.splitOn a with
    | nil => exact absurd h (splitOn_ne_nil a ys)
    | cons first rest => rfl
  | cons c xs ih =>
    rw [cons_append, splitOn_cons_eq_if_modifyHead,
      splitOn_cons_eq_if_modifyHead, ih]
    split_ifs
    · rw [glue_cons (splitOn_ne_nil a xs)]
    · rw [glue_modifyHead (splitOn_ne_nil a xs)]

theorem length_splitOn (a : α) (xs : List α) : (xs.splitOn a).length = xs.count a + 1 := by
  induction xs with
  | nil => rfl
  | cons c xs ih =>
    rw [splitOn_cons_eq_if_modifyHead, count_cons]
    split_ifs
    · rw [length_cons, ih]
    · rw [length_modifyHead, ih, Nat.add_zero]

theorem not_mem_of_mem_splitOn [LawfulBEq α] {a : α} {xs part : List α}
    (mem : part ∈ xs.splitOn a) : a ∉ part := by
  induction xs generalizing part with
  | nil =>
    rw [mem_singleton.mp mem]
    exact not_mem_nil
  | cons c xs ih =>
    rw [splitOn_cons_eq_if_modifyHead] at mem
    cases later : xs.splitOn a with
    | nil => exact absurd later (splitOn_ne_nil a xs)
    | cons first rest =>
      rw [later] at mem ih
      split_ifs at mem with here
      · rcases mem_cons.mp mem with rfl | mem
        · exact not_mem_nil
        · exact ih mem
      · rw [modifyHead_cons] at mem
        rcases mem_cons.mp mem with rfl | mem
        · have other : a ≠ c := fun same => here (by simp [same])
          exact not_mem_cons_of_ne_of_not_mem other (ih mem_cons_self)
        · exact ih (.tail _ mem)

end Glue

/-! ## A text put between others -/

section Between

variable {α : Type u} {sep x : List α} {xs : List (List α)}

theorem intercalate_cons_cons (sep x y : List α) (rest : List (List α)) :
    sep.intercalate (x :: y :: rest) = x ++ (sep ++ sep.intercalate (y :: rest)) := by
  simp [List.intercalate]

theorem length_intercalate (sep x : List α) (rest : List (List α)) :
    (sep.intercalate (x :: rest)).length =
      (x :: rest).flatten.length + rest.length * sep.length := by
  induction rest generalizing x with
  | nil => simp only [List.intercalate, List.intersperse, length_nil, Nat.zero_mul, Nat.add_zero]
  | cons y rest ih =>
    have whole : (x :: y :: rest).flatten = x ++ (y :: rest).flatten := flatten_cons
    rw [intercalate_cons_cons, length_append, length_append, ih, whole,
      length_append, length_cons, Nat.succ_mul]
    omega

theorem count_intercalate [BEq α] (a : α) (sep x : List α) (rest : List (List α)) :
    (sep.intercalate (x :: rest)).count a =
      (x :: rest).flatten.count a + rest.length * sep.count a := by
  induction rest generalizing x with
  | nil => simp only [List.intercalate, List.intersperse, length_nil, Nat.zero_mul, Nat.add_zero]
  | cons y rest ih =>
    have whole : (x :: y :: rest).flatten = x ++ (y :: rest).flatten := flatten_cons
    rw [intercalate_cons_cons, count_append, count_append, ih, whole,
      count_append, length_cons, Nat.succ_mul]
    omega

theorem intercalate_inj {sep' y} {rest}
    (same : sep.intercalate (x :: y :: rest) = sep'.intercalate (x :: y :: rest)) : sep = sep' := by
  have lengths : sep.length = sep'.length := by
    have total := congrArg List.length same
    rw [length_intercalate, length_intercalate, length_cons] at total
    exact Nat.eq_of_mul_eq_mul_left (Nat.succ_pos rest.length) (Nat.add_left_cancel total)
  rw [intercalate_cons_cons, intercalate_cons_cons] at same
  exact (append_inj (append_cancel_left same) lengths).1

theorem mem_intercalate {a : α} (here : a ∈ sep.intercalate xs) : a ∈ sep ∨ ∃ x ∈ xs, a ∈ x := by
  induction xs with
  | nil => simp [List.intercalate] at here
  | cons x xs ih =>
    cases xs with
    | nil =>
      refine .inr ⟨x, .head _, ?_⟩
      simpa [List.intercalate] using here
    | cons y rest =>
      rw [intercalate_cons_cons, mem_append, mem_append] at here
      rcases here with here | here | here
      · exact .inr ⟨x, .head _, here⟩
      · exact .inl here
      · rcases ih here with here | ⟨z, mem, here⟩
        · exact .inl here
        · exact .inr ⟨z, .tail _ mem, here⟩

theorem mem_intercalate_of_mem {a : α} (mem : x ∈ xs) (here : a ∈ x) : a ∈ sep.intercalate xs := by
  induction xs with
  | nil => exact absurd mem not_mem_nil
  | cons y xs ih =>
    cases xs with
    | nil =>
      rw [mem_singleton.mp mem] at here
      simpa [List.intercalate] using here
    | cons z rest =>
      rw [intercalate_cons_cons, mem_append, mem_append]
      rcases mem_cons.mp mem with rfl | mem
      · exact .inl here
      · exact .inr (.inr (ih mem))

end Between

/-! ## Words that can be read off -/

variable {α : Type u} {P S E : List α → Prop} {sep : α}

/-- The first word of a text that goes on as `S` allows is determined by the text. -/
def Readable (P S : List α → Prop) : Prop :=
  ∀ {x x' rest rest'}, P x → P x' → S rest → S rest' → x ++ rest = x' ++ rest' →
    x = x' ∧ rest = rest'

theorem cons_intercalate (sep : α) {xs} (nonempty : xs ≠ []) :
    sep :: [sep].intercalate xs = xs.flatMap (List.cons sep) := by
  induction xs with
  | nil => exact absurd rfl nonempty
  | cons x xs ih =>
    cases xs with
    | nil => simp
    | cons y ys =>
      rw [intercalate_cons_cons, flatMap_cons, ← ih (cons_ne_nil y ys)]
      rfl

theorem Readable.flatMap (readable : Readable P S) (next : ∀ rest, S (sep :: rest))
    (ends : ∀ {rest}, E rest → S rest ∧ rest.head? ≠ some sep) {rest rest'}
    (stops : E rest) (stops' : E rest') : ∀ {xs xs' : List (List α)},
      (∀ x ∈ xs, P x) → (∀ x ∈ xs', P x) →
      xs.flatMap (List.cons sep) ++ rest = xs'.flatMap (List.cons sep) ++ rest' → xs = xs'
  | [], [], _, _, _ => rfl
  | [], x' :: xs', _, _, same => by
    have first : rest = sep :: _ := same
    exact absurd (congrArg List.head? first) (ends stops).2
  | x :: xs, [], _, _, same => by
    have first : sep :: _ = rest' := same
    exact absurd (congrArg List.head? first.symm) (ends stops').2
  | x :: xs, x' :: xs', words, words', same => by
    have goes : ∀ {xs : List (List α)} {rest}, E rest →
        S (xs.flatMap (List.cons sep) ++ rest)
      | [], _, stops => (ends stops).1
      | _ :: _, _, _ => next _
    simp only [flatMap_cons, cons_append, append_assoc, cons.injEq, true_and] at same
    obtain ⟨rfl, more⟩ := readable (words x mem_cons_self) (words' x' mem_cons_self) (goes stops)
      (goes stops') same
    rw [readable.flatMap next ends stops stops' (forall_mem_cons.mp words).2
      (forall_mem_cons.mp words').2 more]

theorem Readable.intercalate_inj (readable : Readable P S) (next : ∀ rest, S (sep :: rest))
    (ends : S []) (nonempty : ¬P []) {xs xs'} (words : ∀ x ∈ xs, P x)
    (words' : ∀ x ∈ xs', P x) (same : [sep].intercalate xs = [sep].intercalate xs') : xs = xs' := by
  have empty {xs : List (List α)} (words : ∀ x ∈ xs, P x) (none_ : [sep].intercalate xs = []) :
      xs = [] := by
    by_contra some_
    obtain ⟨x, mem⟩ := exists_mem_of_ne_nil xs some_
    have word := words x mem
    cases x with
    | nil => exact nonempty word
    | cons c x => exact ne_nil_of_mem (mem_intercalate_of_mem mem mem_cons_self) none_
  by_cases none_ : xs = []
  · subst none_
    exact (empty words' same.symm).symm
  · have some_ : xs' ≠ [] := by
      rintro rfl
      exact none_ (empty words same)
    have texts := congrArg (sep :: · ++ []) same
    simp only [cons_intercalate _ none_, cons_intercalate _ some_] at texts
    refine readable.flatMap (E := (· = [])) next ?_ rfl rfl words words' texts
    rintro _ rfl
    exact ⟨ends, nofun⟩

end Parti.Lib
