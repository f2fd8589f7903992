/-
# Durable.Filters — the filters of two partitions, and the subjects they share

What a template renders for a partition puts the partition's keys between the template's
texts; a token of it is a token of the texts, or holds a key (`Solid`). Two partitions with
the same number of keys give filters that agree at every token of the first kind (`Alike`),
so the keys can be read off a subject under both.

The keys decide nothing when a key is itself a wildcard, which `Partition.Validate`
accepts (`wildcard_key_filters_overlap`), and when the template ends in `>`, which swallows
the keys that one partition has more than the other. There the filters decide (`meets`).
-/
import Parti.Durable.Subjects
import Parti.Types.Validate

namespace Parti.Durable

open Lib Parti.Types Option

/-! ## Tokens that are no wildcard, whatever is put around them -/

def Solid (token : GoString) : Prop :=
  token ≠ [] ∧ token ≠ [42] ∧ token ≠ [62]

instance (token : GoString) : Decidable (Solid token) :=
  inferInstanceAs (Decidable (_ ∧ _ ∧ _))

/-- The same token of the template in two filters, or a key in both. -/
def Alike (x y : GoString) : Prop := x = y ∨ Solid x ∧ Solid y

theorem solid_of_long {token} (long : 2 ≤ token.length) : Solid token := by
  refine ⟨?_, ?_, ?_⟩ <;>
    · rintro rfl
      simp at long

theorem Solid.append_right {x} (solid : Solid x) (y : GoString) : Solid (x ++ y) := by
  cases y with
  | nil => rwa [List.append_nil]
  | cons c y =>
    have some : 0 < x.length := List.length_pos_of_ne_nil solid.1
    apply solid_of_long
    rw [List.length_append, List.length_cons]
    omega

theorem Solid.append_left {y} (solid : Solid y) (x : GoString) : Solid (x ++ y) := by
  cases x with
  | nil => exact solid
  | cons c x =>
    have some : 0 < y.length := List.length_pos_of_ne_nil solid.1
    apply solid_of_long
    rw [List.length_append, List.length_cons]
    omega

theorem Alike.append {x x' y y'} (left : Alike x x') (right : Alike y y') :
    Alike (x ++ y) (x' ++ y') := by
  rcases left with rfl | ⟨solid, solid'⟩
  · rcases right with rfl | ⟨solid, solid'⟩
    · exact .inl rfl
    · exact .inr ⟨solid.append_left x, solid'.append_left x⟩
  · exact .inr ⟨solid.append_right y, solid'.append_right y'⟩

theorem alike_refl (xs : List GoString) : List.Forall₂ Alike xs xs :=
  List.forall₂_same.mpr fun _ _ => .inl rfl

theorem tail_mem_of_alike {xs ys} (alike : List.Forall₂ Alike xs ys)
    (tail : [62] ∈ xs) : [62] ∈ ys := by
  induction alike with
  | nil => exact tail
  | cons first rest ih =>
    rcases List.mem_cons.mp tail with rfl | tail
    · rcases first with rfl | ⟨solid, _⟩
      · exact .head _
      · exact absurd rfl solid.2.2
    · exact .tail _ (ih tail)

/-! ## Matching -/

theorem eq_of_matchTokens_alike {filter filter'}
    (alike : List.Forall₂ Alike filter filter') {subject}
    (matched : matchTokens filter subject = true)
    (matched' : matchTokens filter' subject = true) : filter = filter' := by
  induction alike generalizing subject with
  | nil => rfl
  | @cons want want' filter filter' first rest ih =>
    cases subject with
    | nil => simp [matchTokens] at matched
    | cons token subject =>
      by_cases tail : want = [62] ∧ filter = []
      · -- The final wildcard is a token of the template, so it is in both.
        obtain ⟨rfl, rfl⟩ := tail
        cases rest
        rcases first with rfl | ⟨solid, _⟩
        · rfl
        · exact absurd rfl solid.2.2
      · have tail' : ¬(want' = [62] ∧ filter' = []) := by
          rintro ⟨rfl, rfl⟩
          cases rest
          rcases first with rfl | ⟨_, solid'⟩
          · exact tail ⟨rfl, rfl⟩
          · exact solid'.2.2 rfl
        rw [matchTokens_cons fun h h' => tail ⟨h, h'⟩, Bool.and_eq_true] at matched
        rw [matchTokens_cons fun h h' => tail' ⟨h, h'⟩, Bool.and_eq_true] at matched'
        rw [ih matched.2 matched'.2]
        rcases first with rfl | ⟨solid, solid'⟩
        · rfl
        · simp only [solid.2.1, solid'.2.1, decide_false, Bool.false_or,
            decide_eq_true_eq] at matched matched'
          rw [matched.1, matched'.1]

/-- A common subject, if both filters are well formed. -/
def meets : List GoString → List GoString → Bool
  | [], [] => true
  | [[62]], _ :: _ => true
  | _ :: _, [[62]] => true
  | want :: filter, want' :: filter' =>
    (want = [42] || want' = [42] || want = want') && meets filter filter'
  | _, _ => false

section Meets

variable {want want' : GoString} {filter filter' subject : List GoString}

theorem meets_cons (no_tail : ¬(want = [62] ∧ filter = []))
    (no_tail' : ¬(want' = [62] ∧ filter' = [])) :
    meets (want :: filter) (want' :: filter') =
      ((want = [42] || want' = [42] || want = want') && meets filter filter') := by
  rw [meets]
  · exact fun h h' => no_tail ⟨h, h'⟩
  · exact fun h h' => no_tail' ⟨h, h'⟩

theorem meets_of_matchTokens (matched : matchTokens filter subject = true)
    (matched' : matchTokens filter' subject = true) : meets filter filter' = true := by
  induction subject generalizing filter filter' with
  | nil =>
    cases filter with
    | cons => simp [matchTokens] at matched
    | nil =>
      cases filter' with
      | cons => simp [matchTokens] at matched'
      | nil => rfl
  | cons token subject ih =>
    cases filter with
    | nil => simp [matchTokens] at matched
    | cons want filter =>
      cases filter' with
      | nil => simp [matchTokens] at matched'
      | cons want' filter' =>
        by_cases tail : want = [62] ∧ filter = []
        · obtain ⟨rfl, rfl⟩ := tail
          rfl
        · by_cases tail' : want' = [62] ∧ filter' = []
          · obtain ⟨rfl, rfl⟩ := tail'
            rw [meets]
            exact fun h h' => tail ⟨h, h'⟩
          · rw [matchTokens_cons fun h h' => tail ⟨h, h'⟩] at matched
            rw [matchTokens_cons fun h h' => tail' ⟨h, h'⟩] at matched'
            simp only [Bool.and_eq_true, Bool.or_eq_true, decide_eq_true_eq] at matched matched'
            rw [meets_cons tail tail', ih matched.2 matched'.2]
            rcases matched.1 with star | rfl
            · simp [star]
            · rcases matched'.1 with star | rfl <;> simp [*]

theorem exists_plain (valid : Plain want ∨ want = [42]) (valid' : Plain want' ∨ want' = [42])
    (met : (want = [42] ∨ want' = [42]) ∨ want = want') (dotless : 46 ∉ want)
    (dotless' : 46 ∉ want') :
    ∃ token, Plain token ∧ (want = [42] ∨ want = token) ∧ (want' = [42] ∨ want' = token) ∧
      46 ∉ token := by
  rcases valid with plain | rfl
  · refine ⟨want, plain, .inr rfl, ?_, dotless⟩
    rcases met with (star | star) | same
    · exact absurd star plain.literal.1
    · exact .inl star
    · exact .inr same.symm
  · rcases valid' with plain | rfl
    · exact ⟨want', plain, .inl rfl, .inr rfl, dotless'⟩
    · exact ⟨[97], by decide, .inl rfl, .inl rfl, by decide⟩

/-- The subject is read off the filters token by token; where a `>` ends the one, the other
says how it goes on. -/
theorem exists_matchTokens (valid : validateTokens true filter = .ok ())
    (valid' : validateTokens true filter' = .ok ()) (met : meets filter filter' = true)
    (dotless : ∀ token ∈ filter ++ filter', 46 ∉ token) :
    ∃ subject, validateTokens false subject = .ok () ∧ matchTokens filter subject = true ∧
      matchTokens filter' subject = true ∧ ∀ token ∈ subject, 46 ∉ token := by
  induction filter generalizing filter' with
  | nil =>
    cases filter' with
    | nil => exact ⟨[], rfl, rfl, rfl, fun _ mem => absurd mem List.not_mem_nil⟩
    | cons => cases met
  | cons want filter ih =>
    cases filter' with
    | nil => simp [meets] at met
    | cons want' filter' =>
      by_cases tail : want = [62] ∧ filter = []
      · obtain ⟨rfl, rfl⟩ := tail
        exact ⟨_, validateTokens_fillToken (c := 97) (by decide) valid', rfl,
          matchTokens_fillToken 97 valid',
          dotless_fillToken (by decide) fun token mem => dotless token (.tail _ mem)⟩
      · by_cases tail' : want' = [62] ∧ filter' = []
        · obtain ⟨rfl, rfl⟩ := tail'
          exact ⟨_, validateTokens_fillToken (c := 97) (by decide) valid,
            matchTokens_fillToken 97 valid, rfl,
            dotless_fillToken (by decide) fun token mem => dotless token (List.mem_append_left _ mem)⟩
        · rw [meets_cons tail tail'] at met
          simp only [Bool.and_eq_true, Bool.or_eq_true, decide_eq_true_eq] at met
          rw [validateTokens_wild] at valid valid'
          obtain ⟨subject, plain, matched, matched', subjectDotless⟩ := ih valid.2 valid'.2 met.2
            fun token mem => dotless token (by
              rcases List.mem_append.mp mem with mem | mem <;> simp [mem])
          obtain ⟨token, first, selects, selects', firstDotless⟩ := exists_plain
            (valid.1.imp_right fun wild => wild.resolve_right tail)
            (valid'.1.imp_right fun wild => wild.resolve_right tail') met.1
            (dotless want (by simp)) (dotless want' (by simp))
          refine ⟨token :: subject, validateTokens_plain.mpr ⟨first, plain⟩, ?_, ?_,
            List.forall_mem_cons.mpr ⟨firstDotless, subjectDotless⟩⟩
          · rw [matchTokens_cons fun h h' => tail ⟨h, h'⟩, matched]
            simpa using selects
          · rw [matchTokens_cons fun h h' => tail' ⟨h, h'⟩, matched']
            simpa using selects'

/-- **A common subject.** Some message is under both filters exactly if they are well formed and
agree token by token. -/
theorem exists_common_iff {filter filter' : GoString} :
    (∃ subject, validateSubjectTokens subject false = .ok () ∧
        subjectMatches filter subject = true ∧ subjectMatches filter' subject = true) ↔
      validateSubjectTokens filter true = .ok () ∧ validateSubjectTokens filter' true = .ok () ∧
        meets (tokens filter) (tokens filter') = true := by
  simp only [validateSubjectTokens_ok, subjectMatches]
  constructor
  · rintro ⟨subject, plain, matched, matched'⟩
    exact ⟨validateTokens_of_matchTokens matched plain, validateTokens_of_matchTokens matched' plain,
      meets_of_matchTokens matched matched'⟩
  · rintro ⟨valid, valid', met⟩
    obtain ⟨parts, plain, matched, matched', dotless⟩ := exists_matchTokens valid valid' met
      (List.forall_mem_append.mpr ⟨dotless_tokens _, dotless_tokens _⟩)
    have some : parts ≠ [] := by
      rintro rfl
      cases whole : tokens filter with
      | nil => exact absurd whole (List.splitOn_ne_nil 46 filter)
      | cons want rest => simp [whole, matchTokens] at matched
    obtain ⟨subject, rfl⟩ := exists_tokens some dotless
    exact ⟨subject, plain, matched, matched'⟩

end Meets

/-! ## What a template renders -/

section Render

variable {between : List GoString} {pid pid' : GoString}

theorem tokens_intercalate_alike (alike : List.Forall₂ Alike (tokens pid) (tokens pid')) :
    List.Forall₂ Alike (tokens (pid.intercalate between)) (tokens (pid'.intercalate between)) := by
  induction between with
  | nil => exact alike_refl _
  | cons first rest ih =>
    cases rest with
    | nil =>
      simp only [List.intercalate, List.intersperse_singleton, List.flatten_cons]
      exact alike_refl _
    | cons second rest =>
      rw [intercalate_cons_cons, intercalate_cons_cons]
      unfold tokens at alike ih ⊢
      rw [splitOn_append, splitOn_append, splitOn_append, splitOn_append]
      exact glue_forall₂ Alike.append (alike_refl _) (glue_forall₂ Alike.append alike ih)

theorem length_tokens (subject : GoString) : (tokens subject).length = subject.count 46 + 1 :=
  length_splitOn 46 subject

theorem length_tokens_of_intercalate {first second} {rest}
    (same : (tokens (pid.intercalate (first :: second :: rest))).length =
      (tokens (pid'.intercalate (first :: second :: rest))).length) :
    (tokens pid).length = (tokens pid').length := by
  rw [length_tokens, length_tokens, count_intercalate, count_intercalate, List.length_cons] at same
  have dots : pid.count 46 = pid'.count 46 := by
    refine Nat.eq_of_mul_eq_mul_left (Nat.succ_pos rest.length) ?_
    exact Nat.add_left_cancel (Nat.succ_inj.mp same)
  rw [length_tokens, length_tokens, dots]

theorem mem_of_mem_tokens {subject token} {c} (mem : token ∈ tokens subject)
    (here : c ∈ token) : c ∈ subject := by
  have whole : [46].intercalate (tokens subject) = subject := List.intercalate_splitOn 46
  rw [← whole]
  exact mem_intercalate_of_mem mem here

theorem texts_of_cut : ∀ {s : GoString} {between : List GoString}, texts 0 s = some between →
    (cut partitionPlaceholder s).isSome = true → ∃ first second rest,
      between = first :: second :: rest
  | [], _, _, found => by simp [cut, partitionPlaceholder] at found
  | c :: s, between, read, found => by
      simp only [texts] at read
      rw [cut] at found
      split_ifs at read found
      · obtain ⟨later, after, rfl⟩ := map_eq_some_iff.mp read
        cases later with
        | nil => exact absurd rfl (texts_ne_nil after)
        | cons second rest => exact ⟨[], second, rest, rfl⟩
      · obtain ⟨later, after, rfl⟩ := map_eq_some_iff.mp read
        rw [isSome_map] at found
        obtain ⟨first, second, rest, rfl⟩ := texts_of_cut after found
        exact ⟨c :: first, second, rest, rfl⟩

theorem mem_of_mem_texts : ∀ {skip : Nat} {s : GoString} {between : List GoString},
    texts skip s = some between → ∀ text ∈ between, ∀ c ∈ text, c ∈ s
  | _, [], _, read, text, mem, c, here => by
      cases read
      rw [List.mem_singleton.mp mem] at here
      exact absurd here List.not_mem_nil
  | skip + 1, _ :: s, between, read, text, mem, c, here => by
      have later : texts skip s = some between := read
      exact .tail _ (mem_of_mem_texts later text mem c here)
  | 0, d :: s, between, read, text, mem, c, here => by
      simp only [texts] at read
      split_ifs at read
      · obtain ⟨later, after, rfl⟩ := map_eq_some_iff.mp read
        rcases List.mem_cons.mp mem with rfl | mem
        · exact absurd here List.not_mem_nil
        · exact .tail _ (mem_of_mem_texts after text mem c here)
      · obtain ⟨later, after, rfl⟩ := map_eq_some_iff.mp read
        cases later with
        | nil => exact absurd rfl (texts_ne_nil after)
        | cons first rest =>
          rcases List.mem_cons.mp mem with rfl | mem
          · rcases List.mem_cons.mp here with rfl | here
            · exact .head _
            · exact List.mem_cons_of_mem _
                (mem_of_mem_texts after first List.mem_cons_self c here)
          · exact List.mem_cons_of_mem _
              (mem_of_mem_texts after text (.tail _ mem) c here)

end Render

/-! ## Keys -/

section Keys

theorem validateKeys_ok : ∀ {i : Nat} {keys : List GoString}, validateKeys i keys = .ok () →
    ∀ key ∈ keys, key ≠ [] ∧ 46 ∉ key
  | _, [], _, key, mem => absurd mem List.not_mem_nil
  | i, first :: rest, accepted, key, mem => by
      rw [validateKeys] at accepted
      split_ifs at accepted with empty dot space
      rcases List.mem_cons.mp mem with rfl | mem
      · exact ⟨empty, by simpa [containsDot] using dot⟩
      · exact validateKeys_ok accepted key mem

theorem Partition.validate_ok {p : Partition} (accepted : p.validate = .ok ()) :
    p.keys ≠ [] ∧ ∀ key ∈ p.keys, key ≠ [] ∧ 46 ∉ key := by
  rw [Partition.validate] at accepted
  split_ifs at accepted with none
  cases keys : validateKeys 0 p.keys with
  | error cause =>
    rw [keys] at accepted
    cases accepted
  | ok => exact ⟨none, validateKeys_ok keys⟩

theorem tokens_subjectKey {p : Partition} (accepted : p.validate = .ok ()) :
    tokens p.subjectKey = p.keys := by
  obtain ⟨some, sound⟩ := Partition.validate_ok accepted
  exact List.splitOn_intercalate 46 (fun key mem => (sound key mem).2) some

theorem keys_alike {keys keys'} (same : keys.length = keys'.length)
    (solid : ∀ key ∈ keys, Solid key) (solid' : ∀ key ∈ keys', Solid key) :
    List.Forall₂ Alike keys keys' :=
  List.forall₂_iff_zip.mpr ⟨same, fun pair =>
    .inr ⟨solid _ (List.of_mem_zip pair).1, solid' _ (List.of_mem_zip pair).2⟩⟩

end Keys

/-! ## Two partitions -/

variable {engine : Engine} {tmpl filter filter' subject : GoString} {between : List GoString}
  {p q : Partition}

theorem generateSubject_of_texts (read : texts 0 tmpl = some between)
    (rendered : generateSubject engine tmpl p = .ok filter) :
    filter = p.subjectKey.intercalate between := by
  simp only [generateSubject, parseTemplate, read, renderSubject] at rendered
  split_ifs at rendered
  exact (Except.ok.inj rendered).symm

theorem texts_of_validateSubjectTemplate (read : texts 0 tmpl = some between)
    (accepted : validateSubjectTemplate engine tmpl true = .ok ()) :
    ∃ first second rest, between = first :: second :: rest := by
  apply texts_of_cut read
  rw [validateSubjectTemplate, parseSubjectTemplateParts] at accepted
  cases found : cut partitionPlaceholder tmpl with
  | none =>
    rw [found] at accepted
    cases accepted
  | some parts => rfl

theorem no_tail_token (read : texts 0 tmpl = some between) (absent : 62 ∉ tmpl)
    (accepted : p.validate = .ok ()) (solid : ∀ key ∈ p.keys, Solid key) :
    [62] ∉ tokens (p.subjectKey.intercalate between) := by
  -- The same template with keys `p` instead has no such byte.
  intro tail
  obtain ⟨some, sound⟩ := Partition.validate_ok accepted
  let plain : GoString := [46].intercalate (p.keys.map fun _ => [112])
  have parts : tokens plain = p.keys.map fun _ => [112] := by
    refine List.splitOn_intercalate 46 ?_ (by simpa using some)
    intro key mem
    obtain ⟨_, _, rfl⟩ := List.mem_map.mp mem
    decide
  have alike : List.Forall₂ Alike (tokens p.subjectKey) (tokens plain) := by
    rw [tokens_subjectKey accepted, parts]
    refine keys_alike (by simp) solid fun key mem => ?_
    obtain ⟨_, _, rfl⟩ := List.mem_map.mp mem
    decide
  have there : 62 ∈ plain.intercalate between :=
    mem_of_mem_tokens (tail_mem_of_alike (tokens_intercalate_alike alike) tail) (by decide)
  rcases mem_intercalate there with here | ⟨text, mem, here⟩
  · rcases mem_intercalate here with here | ⟨key, mem, here⟩
    · exact absurd here (by decide)
    · obtain ⟨_, _, rfl⟩ := List.mem_map.mp mem
      exact absurd here (by decide)
  · exact absent (mem_of_mem_texts read text mem 62 here)

/-- The filters `t.*` and `t.a.b` of the keys `*` and `a`, `b` share nothing either. -/
example : meets (tokens [116, 46, 42]) (tokens [116, 46, 97, 46, 98]) = false := by decide

/-- The template `t.{{.PartitionID}}.>` puts `t.a.b.c` under the keys `a` and `a`, `b`. -/
example : subjectMatches [116, 46, 97, 46, 62] [116, 46, 97, 46, 98, 46, 99] = true ∧
    subjectMatches [116, 46, 97, 46, 98, 46, 62] [116, 46, 97, 46, 98, 46, 99] = true := by
  decide

end Parti.Durable
