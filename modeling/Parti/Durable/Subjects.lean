/-
# Durable.Subjects — subject templates, the subjects built from them, and filters

A subject template is a `text/template` over one field, the partition id. One in which
every action is the literal placeholder is the list of the texts between its placeholders,
and rendering joins them with the id. Any other template is left to the engine.

`ParseSubjectTemplateParts` does not parse: it cuts the string at the first placeholder.
`cut_of_texts` is where the two readings agree, a template with one placeholder and no
other action.

A filter subject selects messages token by token, `*` standing for one token and a final
`>` for the rest. `eq_of_subjectMatches`: without wildcards it selects itself only.
-/
import Mathlib.Data.List.Dedup
import Mathlib.Data.List.Sort
import Parti.Lib.Split
import Parti.Types.Partition

namespace Parti.Durable

open Parti.Types Option List

/-! ## Templates -/

/-- The text of the action for the partition id. -/
def partitionPlaceholder : GoString :=
  [123, 123, 46, 80, 97, 114, 116, 105, 116, 105, 111, 110, 73, 68, 125, 125]

def leftDelim : GoString := [123, 123]

abbrev Template := GoString → Option GoString

/-- The template engine, for templates with an action other than the placeholder. -/
abbrev Engine := GoString → Option Template

def consFirst (c : Fin 256) : List GoString → List GoString
  | [] => [[c]]
  | text :: rest => (c :: text) :: rest

/-- The texts around the placeholders, if there is no other action. The counter runs over
the rest of a placeholder that was found. -/
def texts : Nat → GoString → Option (List GoString)
  | _, [] => some [[]]
  | skip + 1, _ :: rest => texts skip rest
  | 0, c :: rest =>
    if partitionPlaceholder.isPrefixOf (c :: rest) then
      (texts (partitionPlaceholder.length - 1) rest).map ([] :: ·)
    else if leftDelim.isPrefixOf (c :: rest) then none
    else (texts 0 rest).map (consFirst c)

/-- `template.New("subject").Parse`. -/
def parseTemplate (engine : Engine) (tmpl : GoString) : Option Template :=
  match texts 0 tmpl with
  | some between => some fun pid => some (pid.intercalate between)
  | none => engine tmpl

/-- `strings.Cut`. -/
def cut (sep : GoString) : GoString → Option (GoString × GoString)
  | [] => if sep = [] then some ([], []) else none
  | c :: rest =>
    if sep.isPrefixOf (c :: rest) then some ([], (c :: rest).drop sep.length)
    else (cut sep rest).map fun found => (c :: found.1, found.2)

def parseSubjectTemplateParts (tmpl : GoString) : Option (GoString × GoString) :=
  cut partitionPlaceholder tmpl

/-! ## Subjects -/

inductive SubjectError where
  /-- Text: "invalid subject template: %q (must contain %s)". -/
  | missingPlaceholder (tmpl : GoString)
  /-- Text: "parse subject template: %w". -/
  | parse
  /-- Text: "partition has no keys". -/
  | noKeys
  /-- Text: "failed to execute subject template: %w". -/
  | execute
  | invalidSubject
deriving DecidableEq

/-- `strings.Split(subject, ".")`. -/
def tokens (subject : GoString) : List GoString := subject.splitOn 46

/-- The encodings of the runes for which `unicode.IsSpace` holds. -/
def spaces : List GoString :=
  [[9], [10], [11], [12], [13], [32], [194, 133], [194, 160], [225, 154, 128]] ++
    (List.range 11).map (fun i => [226, 128, Fin.ofNat 256 (128 + i)]) ++
    [[226, 128, 168], [226, 128, 169], [226, 128, 175], [226, 129, 159], [227, 128, 128]]

/-- `strings.IndexFunc(token, unicode.IsSpace) >= 0`. -/
def containsSpace (token : GoString) : Bool :=
  spaces.any fun space => token.tails.any space.isPrefixOf

def validateTokens (allowWildcard : Bool) : List GoString → Except SubjectError Unit
  | [] => .ok ()
  | token :: rest =>
    if token = [] then .error .invalidSubject
    else if containsSpace token then .error .invalidSubject
    else if token.any ([42, 62].contains ·) then
      if !allowWildcard then .error .invalidSubject
      else if token = [62] then
        if rest ≠ [] then .error .invalidSubject else validateTokens allowWildcard rest
      else if token = [42] then validateTokens allowWildcard rest
      else .error .invalidSubject
    else validateTokens allowWildcard rest

def validateSubjectTokens (subject : GoString) (allowWildcard : Bool) : Except SubjectError Unit :=
  if subject = [] then .error .invalidSubject
  else validateTokens allowWildcard (tokens subject)

/-- The template is tried with the partition id `p1`. -/
def validateSubjectTemplate (engine : Engine) (tmpl : GoString) (allowWildcard : Bool) :
    Except SubjectError Unit :=
  match parseSubjectTemplateParts tmpl with
  | none => .error (.missingPlaceholder tmpl)
  | some _ =>
    match parseTemplate engine tmpl with
    | none => .error .parse
    | some parsed =>
      match parsed [112, 49] with
      | none => .error .execute
      | some subject => validateSubjectTokens subject allowWildcard

def renderSubject (tmpl : Template) (p : Partition) : Except SubjectError GoString :=
  if p.keys = [] then .error .noKeys
  else
    match tmpl p.subjectKey with
    | none => .error .execute
    | some subject => .ok subject

def generateSubject (engine : Engine) (tmpl : GoString) (p : Partition) :
    Except SubjectError GoString :=
  match parseTemplate engine tmpl with
  | none => .error .parse
  | some parsed => renderSubject parsed p

def buildSubjects (engine : Engine) (tmpl : GoString) (partitions : List Partition) :
    Except SubjectError (List GoString) :=
  if partitions = [] then .ok []
  else
    match parseTemplate engine tmpl with
    | none => .error .parse
    | some parsed => do
        let subjects ← partitions.mapM (renderSubject parsed)
        return subjects.dedup.insertionSort (· ≤ ·)

/-! ## Filters -/

def matchTokens : List GoString → List GoString → Bool
  | [], [] => true
  | [[62]], _ :: _ => true
  | want :: filter, token :: rest => (want = [42] || want = token) && matchTokens filter rest
  | _, _ => false

/-- The server delivers messages of that subject under that filter. -/
def subjectMatches (filter subject : GoString) : Bool :=
  matchTokens (tokens filter) (tokens subject)

def Literal (filter : GoString) : Prop :=
  ∀ token ∈ tokens filter, token ≠ [42] ∧ token ≠ [62]

theorem matchTokens_cons {want token} {filter rest} (no_tail : want = [62] → filter ≠ []) :
    matchTokens (want :: filter) (token :: rest) =
      ((want = [42] || want = token) && matchTokens filter rest) := by
  rw [matchTokens]
  rintro rfl rfl
  exact no_tail rfl rfl

theorem length_of_matchTokens {filter subject} (no_tail : [62] ∉ filter)
    (matched : matchTokens filter subject = true) : filter.length = subject.length := by
  induction filter generalizing subject with
  | nil =>
    cases subject with
    | nil => rfl
    | cons token subject => simp [matchTokens] at matched
  | cons want filter ih =>
    obtain ⟨other, no_tail⟩ := ne_and_not_mem_of_not_mem_cons no_tail
    cases subject with
    | nil => simp [matchTokens] at matched
    | cons token subject =>
      rw [matchTokens_cons fun h => absurd h.symm other, Bool.and_eq_true] at matched
      rw [length_cons, length_cons, ih no_tail matched.2]

theorem matchTokens_literal : ∀ {filter subject : List GoString},
    (∀ token ∈ filter, token ≠ [42] ∧ token ≠ [62]) → matchTokens filter subject = true →
      filter = subject
  | [], [], _, _ => rfl
  | [], _ :: _, _, matched => by simp [matchTokens] at matched
  | want :: filter, [], _, matched => by simp [matchTokens] at matched
  | want :: filter, token :: rest, literal, matched => by
      obtain ⟨noStar, noTail⟩ := literal want mem_cons_self
      rw [matchTokens_cons fun tail => absurd tail noTail] at matched
      simp only [noStar, decide_false, Bool.false_or, Bool.and_eq_true, decide_eq_true_eq] at matched
      obtain ⟨rfl, matched⟩ := matched
      rw [matchTokens_literal (fun token mem => literal token (.tail _ mem)) matched]

theorem eq_of_tokens_eq {subject subject'} (same : tokens subject = tokens subject') :
    subject = subject' := by
  calc subject = [46].intercalate (tokens subject) := (intercalate_splitOn 46).symm
    _ = [46].intercalate (tokens subject') := by rw [same]
    _ = subject' := intercalate_splitOn 46

theorem eq_of_subjectMatches {filter subject} (literal : Literal filter)
    (matched : subjectMatches filter subject = true) : subject = filter :=
  eq_of_tokens_eq (matchTokens_literal literal matched).symm

/-! ## The subjects that a filter selects -/

def Plain (token : GoString) : Prop :=
  token ≠ [] ∧ containsSpace token = false ∧ token.any ([42, 62].contains ·) = false

instance (token : GoString) : Decidable (Plain token) :=
  inferInstanceAs (Decidable (_ ∧ _ ∧ _))

theorem Plain.literal {token} (plain : Plain token) : token ≠ [42] ∧ token ≠ [62] := by
  constructor <;>
    · rintro rfl
      exact absurd plain (by decide)

theorem validateTokens_plain {token} {rest} :
    validateTokens false (token :: rest) = .ok () ↔
      Plain token ∧ validateTokens false rest = .ok () := by
  rw [validateTokens, Plain]
  generalize containsSpace token = space
  generalize token.any ([42, 62].contains ·) = wild
  cases space <;> cases wild <;> by_cases empty : token = [] <;> simp [empty]

theorem validateTokens_wild {token} {rest} :
    validateTokens true (token :: rest) = .ok () ↔
      (Plain token ∨ token = [42] ∨ token = [62] ∧ rest = []) ∧
        validateTokens true rest = .ok () := by
  by_cases star : token = [42]
  · subst star
    simp [validateTokens, show containsSpace [42] = false by decide]
  · by_cases tail : token = [62]
    · subst tail
      by_cases last : rest = [] <;>
        simp [validateTokens, show containsSpace [62] = false by decide, last,
          show ¬Plain [62] by decide]
    · rw [validateTokens, Plain]
      generalize containsSpace token = space
      generalize token.any ([42, 62].contains ·) = wild
      cases space <;> cases wild <;> by_cases empty : token = [] <;> simp [empty, star, tail]

/-- A message of this filter: `c` in the place of its wildcards. -/
def fillToken (c : Fin 256) (token : GoString) : GoString :=
  if token = [42] ∨ token = [62] then [c] else token

theorem validateTokens_fillToken {c} (plain : Plain [c]) : ∀ {filter : List GoString},
    validateTokens true filter = .ok () → validateTokens false (filter.map (fillToken c)) = .ok ()
  | [], _ => rfl
  | token :: rest, valid => by
      obtain ⟨here, later⟩ := validateTokens_wild.mp valid
      refine validateTokens_plain.mpr ⟨?_, validateTokens_fillToken plain later⟩
      unfold fillToken
      split_ifs with wild
      · exact plain
      · rw [not_or] at wild
        rcases here with here | star | ⟨tail, -⟩
        · exact here
        · exact absurd star wild.1
        · exact absurd tail wild.2

theorem matchTokens_fillToken (c : Fin 256) : ∀ {filter : List GoString},
    validateTokens true filter = .ok () → matchTokens filter (filter.map (fillToken c)) = true
  | [], _ => rfl
  | token :: rest, valid => by
      obtain ⟨here, later⟩ := validateTokens_wild.mp valid
      by_cases tail : token = [62]
      · obtain rfl : rest = [] := by
          rcases here with here | star | ⟨-, last⟩
          · exact absurd tail here.literal.2
          · rw [tail] at star
            cases star
          · exact last
        subst tail
        rfl
      · rw [map_cons, matchTokens_cons fun h => absurd h tail, matchTokens_fillToken c later]
        by_cases star : token = [42] <;> simp [fillToken, star, tail]

theorem validateTokens_of_matchTokens : ∀ {filter subject : List GoString},
    matchTokens filter subject = true → validateTokens false subject = .ok () →
      validateTokens true filter = .ok ()
  | [], _, _, _ => rfl
  | want :: filter, [], matched, _ => by simp [matchTokens] at matched
  | want :: filter, token :: rest, matched, valid => by
      obtain ⟨plain, later⟩ := validateTokens_plain.mp valid
      by_cases tail : want = [62] ∧ filter = []
      · obtain ⟨rfl, rfl⟩ := tail
        decide
      · rw [matchTokens_cons fun h h' => tail ⟨h, h'⟩] at matched
        simp only [Bool.and_eq_true, Bool.or_eq_true, decide_eq_true_eq] at matched
        refine validateTokens_wild.mpr
          ⟨?_, validateTokens_of_matchTokens matched.2 later⟩
        rcases matched.1 with star | rfl
        · exact .inr (.inl star)
        · exact .inl plain

theorem validateSubjectTokens_ok {subject} {allow : Bool} :
    validateSubjectTokens subject allow = .ok () ↔ validateTokens allow (tokens subject) = .ok () := by
  rw [validateSubjectTokens]
  split_ifs with empty
  · subst empty
    simp [tokens, validateTokens]
  · exact Iff.rfl

theorem exists_tokens {parts : List GoString} (some : parts ≠ [])
    (dotless : ∀ token ∈ parts, 46 ∉ token) : ∃ subject, tokens subject = parts :=
  ⟨[46].intercalate parts, splitOn_intercalate 46 dotless some⟩

theorem dotless_tokens (subject : GoString) : ∀ token ∈ tokens subject, 46 ∉ token :=
  fun _ => Lib.not_mem_of_mem_splitOn

theorem dotless_fillToken {c} {parts : List GoString} (apart : 46 ≠ c)
    (dotless : ∀ token ∈ parts, 46 ∉ token) : ∀ token ∈ parts.map (fillToken c), 46 ∉ token := by
  intro token mem
  obtain ⟨before, part, rfl⟩ := mem_map.mp mem
  unfold fillToken
  split_ifs
  · simpa using apart
  · exact dotless before part

theorem selects_one_iff {filter only} (valid : validateSubjectTokens filter true = .ok ()) :
    (∀ subject, validateSubjectTokens subject false = .ok () →
        subjectMatches filter subject = true → subject = only) ↔
      Literal filter ∧ filter = only := by
  rw [validateSubjectTokens_ok] at valid
  constructor
  · intro one
    -- the wildcards stand for `a` as well as for `b`
    have filled : ∀ c, 46 ≠ c → Plain [c] → (tokens filter).map (fillToken c) = tokens only := by
      intro c apart plain
      obtain ⟨subject, parts⟩ := exists_tokens (by simp [tokens])
        (dotless_fillToken apart (dotless_tokens filter))
      rw [← parts, one subject]
      · rw [validateSubjectTokens_ok, parts]
        exact validateTokens_fillToken plain valid
      · rw [subjectMatches, parts]
        exact matchTokens_fillToken c valid
    have same := (filled 97 (by decide) (by decide)).trans (filled 98 (by decide) (by decide)).symm
    have literal : Literal filter := by
      intro token mem
      rw [← not_or]
      intro wild
      have here := map_inj_left.mp same token mem
      simp [fillToken, wild] at here
    refine ⟨literal, eq_of_tokens_eq ?_⟩
    rw [← filled 97 (by decide) (by decide)]
    refine ((map_congr_left fun token mem => ?_).trans (map_id _)).symm
    exact if_neg (not_or.mpr (literal token mem))
  · rintro ⟨literal, rfl⟩ subject - matched
    exact eq_of_subjectMatches literal matched

/-! ## The two readings of a template -/

theorem texts_ne_nil : ∀ {skip : Nat} {s : GoString} {between : List GoString},
    texts skip s = some between → between ≠ []
  | _, [], _, found => by
      cases found
      simp
  | skip + 1, _ :: rest, between, found => by
      have later : texts skip rest = some between := found
      exact texts_ne_nil later
  | 0, c :: rest, between, found => by
      simp only [texts] at found
      split_ifs at found
      · obtain ⟨_, _, rfl⟩ := map_eq_some_iff.mp found
        simp
      · obtain ⟨later, _, rfl⟩ := map_eq_some_iff.mp found
        cases later <;> simp [consFirst]

theorem texts_skip : ∀ (skip : Nat) (s : GoString), texts skip s = texts 0 (s.drop skip)
  | 0, _ => by simp
  | _ + 1, [] => by simp [texts]
  | skip + 1, _ :: rest => by
      rw [texts, drop_succ_cons]
      exact texts_skip skip rest

theorem eq_of_texts_singleton : ∀ {s text : GoString}, texts 0 s = some [text] → text = s
  | [], text, found => by
      cases found
      rfl
  | c :: rest, text, found => by
      simp only [texts] at found
      split_ifs at found
      · obtain ⟨later, after, same⟩ := map_eq_some_iff.mp found
        obtain ⟨_, rfl⟩ := List.cons.inj same
        exact absurd rfl (texts_ne_nil after)
      · obtain ⟨later, after, same⟩ := map_eq_some_iff.mp found
        cases later with
        | nil => exact absurd rfl (texts_ne_nil after)
        | cons first more =>
          obtain ⟨rfl, rfl⟩ := List.cons.inj same
          rw [eq_of_texts_singleton after]

theorem cut_of_texts : ∀ {s pre suf : GoString}, texts 0 s = some [pre, suf] →
    cut partitionPlaceholder s = some (pre, suf)
  | [], _, _, found => by cases found
  | c :: rest, pre, suf, found => by
      simp only [texts] at found
      rw [cut]
      split_ifs at found ⊢
      · obtain ⟨later, after, same⟩ := map_eq_some_iff.mp found
        obtain ⟨rfl, rfl⟩ := List.cons.inj same
        rw [texts_skip] at after
        rw [eq_of_texts_singleton after]
        rfl
      · obtain ⟨later, after, same⟩ := map_eq_some_iff.mp found
        cases later with
        | nil => exact absurd rfl (texts_ne_nil after)
        | cons first more =>
          obtain ⟨rfl, rfl⟩ := List.cons.inj same
          rw [cut_of_texts after]
          rfl

end Parti.Durable
