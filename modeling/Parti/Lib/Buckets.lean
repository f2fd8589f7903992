/-
# Lib.Buckets — items placed in numbered buckets

A list of buckets, and the one operation that fills them: append an item to a
bucket. Whatever order items are placed in and whichever buckets they go to, the
buckets together hold what they held and the item, once.

A map to lists is such a set of buckets under names. `addTo` appends to one of them,
`mergeInto` appends the lists of another map, `collect` sorts pairs into a map; each has
its lemma on what the map holds and on what it has under a name.

`overlay` writes a map of changes into a map, each change by a rule of its own; what is
under a name afterwards depends on what was under it and on its change only. `eraseAll`
takes names out.
-/
import Mathlib.Data.List.Perm.Basic
import Mathlib.Data.List.AList

namespace Parti.Lib

open AList

section Place

variable {α : Type}

/-- Append `item` to bucket `index`. -/
def place (buckets : List (List α)) (index : Nat) (item : α) : List (List α) :=
  buckets.modify index (· ++ [item])

@[simp] theorem place_length (buckets : List (List α)) (index : Nat) (item : α) :
    (place buckets index item).length = buckets.length := by
  simp [place]

theorem place_cons_succ (bucket : List α) (rest : List (List α)) (index : Nat) (item : α) :
    place (bucket :: rest) (index + 1) item = bucket :: place rest index item := by
  simp [place]

theorem place_perm {buckets} {index : Nat} (item : α) (valid : index < buckets.length) :
    (place buckets index item).flatten.Perm (item :: buckets.flatten) := by
  induction buckets generalizing index with
  | nil => simp at valid
  | cons bucket rest ih =>
    cases index with
    | zero =>
      have first : place (bucket :: rest) 0 item = (bucket ++ [item]) :: rest := by
        simp [place]
      rw [first, List.flatten_cons, List.append_assoc, List.singleton_append]
      exact List.perm_middle
    | succ index =>
      have later := ih (Nat.lt_of_succ_lt_succ valid)
      rw [place_cons_succ, List.flatten_cons]
      exact (later.append_left bucket).trans List.perm_middle

end Place

/-! ## Buckets by name -/

section Named

variable {κ α : Type} [DecidableEq κ]

/-- Assign each name its bucket, in order. -/
def named (names : List κ) (buckets : List α) : AList fun _ : κ => α :=
  (names.zip buckets).foldl (fun map entry => map.insert entry.1 entry.2) ∅

theorem foldl_insert_perm (entries : List (κ × α)) (map : AList fun _ : κ => α)
    (distinct : (entries.map Prod.fst).Nodup) (fresh : ∀ entry ∈ entries, entry.1 ∉ map) :
    (entries.foldl (fun map entry => map.insert entry.1 entry.2) map).entries.Perm
      (entries.map (fun entry => ⟨entry.1, entry.2⟩) ++ map.entries) := by
  induction entries generalizing map with
  | nil => simp
  | cons entry rest ih =>
    obtain ⟨new, distinct⟩ := List.nodup_cons.mp distinct
    have absent : entry.1 ∉ map := fresh entry List.mem_cons_self
    have later : ∀ other ∈ rest, other.1 ∉ map.insert entry.1 entry.2 := by
      intro other member inserted
      obtain same | old := (mem_insert map).mp inserted
      · exact new (same ▸ List.mem_map_of_mem member)
      · exact fresh other (List.mem_cons_of_mem entry member) old
    have step := ih (map.insert entry.1 entry.2) distinct later
    rw [entries_insert_of_notMem absent] at step
    simp only [List.foldl_cons, List.map_cons, List.cons_append]
    exact step.trans List.perm_middle

variable {names : List κ} {buckets : List α}

theorem named_perm (distinct : names.Nodup) (long : names.length = buckets.length) :
    (named names buckets).entries.Perm
      ((names.zip buckets).map fun entry => ⟨entry.1, entry.2⟩) := by
  have fsts : (names.zip buckets).map Prod.fst = names := List.map_fst_zip (by omega)
  have folded := foldl_insert_perm (names.zip buckets) ∅ (by rw [fsts]; exact distinct)
    (fun entry _ => notMem_empty entry.1)
  simpa [named] using folded

theorem mem_named (distinct : names.Nodup) (long : names.length = buckets.length) (name : κ) :
    name ∈ named names buckets ↔ name ∈ names := by
  have keys := (named_perm distinct long).map Sigma.fst
  have fsts : ((names.zip buckets).map fun entry =>
      (⟨entry.1, entry.2⟩ : Sigma fun _ : κ => α)).map Sigma.fst = names := by
    rw [List.map_map]
    exact List.map_fst_zip (by omega)
  rw [fsts] at keys
  exact keys.mem_iff

theorem named_values (distinct : names.Nodup) (long : names.length = buckets.length) :
    ((named names buckets).entries.map Sigma.snd).Perm buckets := by
  have values := (named_perm distinct long).map Sigma.snd
  have snds : ((names.zip buckets).map fun entry =>
      (⟨entry.1, entry.2⟩ : Sigma fun _ : κ => α)).map Sigma.snd = buckets := by
    rw [List.map_map]
    exact List.map_snd_zip (by omega)
  rw [snds] at values
  exact values

end Named

/-! ## Maps to lists -/

section Maps

variable {κ α : Type} [DecidableEq κ] {map out : AList fun _ : κ => List α} {key other : κ}
  {item : α}

/-- What is under a name; a name that is absent has nothing. -/
def listAt (map : AList fun _ : κ => List α) (key : κ) : List α :=
  (map.lookup key).getD []

/-- All that is in the map. -/
def held (map : AList fun _ : κ => List α) : List α :=
  map.entries.flatMap Sigma.snd

@[simp] theorem listAt_empty (key : κ) : listAt (∅ : AList fun _ : κ => List α) key = [] := by
  simp [listAt]

omit [DecidableEq κ] in
@[simp] theorem held_empty : held (∅ : AList fun _ : κ => List α) = [] := rfl

@[simp] theorem listAt_insert (map : AList fun _ : κ => List α) (key : κ) (items : List α) :
    listAt (map.insert key items) key = items := by
  simp [listAt]

theorem listAt_insert_of_ne {items} (ne : other ≠ key) :
    listAt (map.insert key items) other = listAt map other := by
  simp [listAt, lookup_insert_ne ne]

theorem listAt_of_entry {entry} (mem : entry ∈ map.entries) :
    listAt map entry.1 = entry.2 := by
  have found : map.lookup entry.1 = some entry.2 := mem_lookup_iff.mpr mem
  simp [listAt, found]

theorem mem_held : item ∈ held map ↔ ∃ key, item ∈ listAt map key := by
  simp only [held, List.mem_flatMap]
  constructor
  · rintro ⟨entry, mem, here⟩
    exact ⟨entry.1, by rwa [listAt_of_entry mem]⟩
  · rintro ⟨key, here⟩
    unfold listAt at here
    cases found : map.lookup key with
    | none => simp [found] at here
    | some items =>
      rw [found] at here
      exact ⟨⟨key, items⟩, mem_lookup_iff.mp found, here⟩

theorem held_eq_flatMap_keys (map : AList fun _ : κ => List α) :
    held map = map.keys.flatMap (listAt map) := by
  have same : ∀ entry ∈ map.entries, entry.2 = listAt map entry.1 :=
    fun entry mem => (listAt_of_entry mem).symm
  rw [held, keys, List.keys, List.flatMap_map, List.flatMap_congr same]

theorem held_perm_keys (map : AList fun _ : κ => List α) (key : κ) :
    (held map).Perm (listAt map key ++ (map.keys.filter (· ≠ key)).flatMap (listAt map)) := by
  rw [held_eq_flatMap_keys]
  by_cases mem : key ∈ map.keys
  · have others : map.keys.erase key = map.keys.filter (· ≠ key) := by
      rw [map.keys_nodup.erase_eq_filter]
      exact List.filter_congr fun name _ => by simp [bne, beq_eq_decide]
    rw [← others]
    exact (List.perm_cons_erase mem).flatMap_right (listAt map)
  · have others : map.keys.filter (· ≠ key) = map.keys := by
      refine List.filter_eq_self.mpr fun name there => ?_
      simpa using ne_of_mem_of_not_mem there mem
    have absent : listAt map key = [] := by
      simp [listAt, lookup_eq_none.mpr mem]
    rw [others, absent, List.nil_append]

theorem held_split (map : AList fun _ : κ => List α) (key : κ) :
    (held map).Perm (listAt map key ++ (List.kerase key map.entries).flatMap Sigma.snd) := by
  by_cases mem : key ∈ map
  · obtain ⟨items, before, after, _, entries, rest⟩ := List.exists_of_kerase (mem_keys.mp mem)
    have here : listAt map key = items := by
      have entry : (⟨key, items⟩ : Sigma fun _ : κ => List α) ∈ map.entries := by
        rw [entries]
        simp
      exact listAt_of_entry entry
    rw [held, rest, here, entries]
    simp only [List.flatMap_append, List.flatMap_cons]
    exact List.perm_append_comm_assoc _ _ _
  · have absent : listAt map key = [] := by
      simp [listAt, lookup_eq_none.mpr mem]
    rw [held, absent, List.kerase_of_notMem_keys mem, List.nil_append]

theorem held_insert_split (map : AList fun _ : κ => List α) (key : κ) (items : List α) :
    held (map.insert key items) = items ++ (List.kerase key map.entries).flatMap Sigma.snd := by
  simp [held, entries_insert]

theorem held_insert_nil (none_ : listAt map key = []) :
    (held (map.insert key [])).Perm (held map) := by
  have split := held_split map key
  rw [none_] at split
  rw [held_insert_split]
  exact split.symm

theorem listAt_insert_nil (none_ : listAt map key = []) :
    listAt (map.insert key []) other = listAt map other := by
  by_cases same : other = key
  · rw [same, listAt_insert, none_]
  · exact listAt_insert_of_ne same

/-- Append to the list under a name. -/
def addTo (map : AList fun _ : κ => List α) (key : κ) (items : List α) :
    AList fun _ : κ => List α :=
  map.insert key (listAt map key ++ items)

theorem held_addTo (map : AList fun _ : κ => List α) (key : κ) (items : List α) :
    (held (addTo map key items)).Perm (held map ++ items) := by
  rw [addTo, held_insert_split, List.append_assoc]
  refine List.Perm.trans ?_ ((held_split map key).symm.append_right items)
  rw [List.append_assoc]
  exact List.Perm.append_left _ List.perm_append_comm

theorem listAt_addTo (map : AList fun _ : κ => List α) (key other : κ) (items : List α) :
    listAt (addTo map key items) other =
      listAt map other ++ if other = key then items else [] := by
  by_cases same : other = key
  · rw [same, addTo, listAt_insert, if_pos rfl]
  · rw [addTo, listAt_insert_of_ne same, if_neg same, List.append_nil]

/-- Append every list of `out` to the list of its name. -/
def mergeInto (map out : AList fun _ : κ => List α) : AList fun _ : κ => List α :=
  out.entries.foldl (fun map entry => addTo map entry.1 entry.2) map

theorem held_mergeInto (map out : AList fun _ : κ => List α) :
    (held (mergeInto map out)).Perm (held map ++ held out) := by
  unfold mergeInto held
  generalize out.entries = entries
  induction entries generalizing map with
  | nil => simp
  | cons entry rest ih =>
    refine (ih (addTo map entry.1 entry.2)).trans ?_
    rw [List.flatMap_cons, ← List.append_assoc]
    exact (held_addTo map entry.1 entry.2).append_right _

theorem mem_listAt_mergeInto (mem : item ∈ listAt (mergeInto map out) key) :
    item ∈ listAt map key ∨ item ∈ listAt out key := by
  have general : ∀ (entries : List (Sigma fun _ : κ => List α)) (map : AList fun _ : κ => List α),
      (∀ entry ∈ entries, entry ∈ out.entries) →
      item ∈ listAt (entries.foldl (fun map entry => addTo map entry.1 entry.2) map) key →
      item ∈ listAt map key ∨ item ∈ listAt out key := by
    intro entries
    induction entries with
    | nil => exact fun map _ mem => .inl mem
    | cons entry rest ih =>
      intro map sub mem
      obtain here | there := ih (addTo map entry.1 entry.2)
        (fun entry mem => sub entry (.tail _ mem)) mem
      · rw [listAt_addTo] at here
        obtain old | new := List.mem_append.mp here
        · exact .inl old
        · split_ifs at new with same
          · refine .inr ?_
            rw [same, listAt_of_entry (sub entry List.mem_cons_self)]
            exact new
          · cases new
      · exact .inr there
  exact general out.entries map (fun _ => id) mem

/-- Sort pairs by their first component. -/
def collect (pairs : List (κ × α)) : AList fun _ : κ => List α :=
  pairs.foldl (fun map pair => addTo map pair.1 [pair.2]) ∅

theorem listAt_foldl_addTo (pairs : List (κ × α)) (map : AList fun _ : κ => List α) (key : κ) :
    listAt (pairs.foldl (fun map pair => addTo map pair.1 [pair.2]) map) key =
      listAt map key ++ (pairs.filter (fun pair => key = pair.1)).map Prod.snd := by
  induction pairs generalizing map with
  | nil => simp
  | cons pair rest ih =>
    rw [List.foldl_cons, ih, listAt_addTo, List.append_assoc]
    by_cases same : key = pair.1 <;> simp [same]

theorem held_foldl_addTo (pairs : List (κ × α)) (map : AList fun _ : κ => List α) :
    (held (pairs.foldl (fun map pair => addTo map pair.1 [pair.2]) map)).Perm
      (held map ++ pairs.map Prod.snd) := by
  induction pairs generalizing map with
  | nil => simp
  | cons pair rest ih =>
    refine (ih (addTo map pair.1 [pair.2])).trans ?_
    refine ((held_addTo map pair.1 [pair.2]).append_right _).trans ?_
    simp

theorem listAt_collect (pairs : List (κ × α)) (key : κ) :
    listAt (collect pairs) key = (pairs.filter (fun pair => key = pair.1)).map Prod.snd :=
  listAt_foldl_addTo pairs ∅ key

theorem held_collect (pairs : List (κ × α)) : (held (collect pairs)).Perm (pairs.map Prod.snd) :=
  held_foldl_addTo pairs ∅

end Maps

/-! ## A batch of changes -/

variable {κ α β : Type} [DecidableEq κ]

/-- One change: what the rule makes of the old value, if it makes anything. -/
def overlayOne (rule : κ → β → Option α → Option α) (map : AList fun _ : κ => α)
    (change : Sigma fun _ : κ => β) : AList fun _ : κ => α :=
  match rule change.1 change.2 (map.lookup change.1) with
  | some value => map.insert change.1 value
  | none => map

/-- Write all changes into the map. -/
def overlay (rule : κ → β → Option α → Option α) (map : AList fun _ : κ => α)
    (changes : AList fun _ : κ => β) : AList fun _ : κ => α :=
  changes.entries.foldl (overlayOne rule) map

variable {rule : κ → β → Option α → Option α}

theorem lookup_overlayOne_self (map : AList fun _ : κ => α) (key : κ) (change : β) :
    (overlayOne rule map ⟨key, change⟩).lookup key =
      (rule key change (map.lookup key)).or (map.lookup key) := by
  unfold overlayOne
  split
  next value made => simp [made]
  next made => simp [made]

variable {key : κ} {changes : AList fun _ : κ => β} {map : AList fun _ : κ => α} {names : List κ}

theorem lookup_overlayOne_ne (map : AList fun _ : κ => α) {change} (ne : key ≠ change.1) :
    (overlayOne rule map change).lookup key = map.lookup key := by
  unfold overlayOne
  split
  · exact lookup_insert_ne ne
  · rfl

theorem lookup_foldl_overlay {changes : List (Sigma fun _ : κ => β)} (absent : key ∉ changes.keys)
    (map : AList fun _ : κ => α) :
    (changes.foldl (overlayOne rule) map).lookup key = map.lookup key := by
  induction changes generalizing map with
  | nil => rfl
  | cons change rest ih =>
    simp only [List.keys_cons, List.mem_cons, not_or] at absent
    rw [List.foldl_cons, ih absent.2, lookup_overlayOne_ne map absent.1]

theorem lookup_overlay_of_change {change : β} (found : changes.lookup key = some change) :
    (overlay rule map changes).lookup key =
      (rule key change (map.lookup key)).or (map.lookup key) := by
  -- the entries before the change and those after it have other names
  obtain ⟨before, later, cut⟩ := List.append_of_mem (mem_lookup_iff.mp found)
  have distinct := changes.nodupKeys
  rw [cut, List.NodupKeys, List.keys, List.map_append, List.map_cons] at distinct
  obtain ⟨-, nodup, apart⟩ := List.nodup_append.mp distinct
  have first : key ∉ before.keys := fun mem => apart key mem key List.mem_cons_self rfl
  have last : key ∉ later.keys := (List.nodup_cons.mp nodup).1
  rw [overlay, cut, List.foldl_append, List.foldl_cons, lookup_foldl_overlay last,
    lookup_overlayOne_self, lookup_foldl_overlay first]

theorem lookup_overlay_of_none (absent : changes.lookup key = none) :
    (overlay rule map changes).lookup key = map.lookup key :=
  lookup_foldl_overlay (lookup_eq_none.mp absent) map

/-- Take names out of the map. -/
def eraseAll (map : AList fun _ : κ => α) (names : List κ) : AList fun _ : κ => α :=
  names.foldl (fun map name => map.erase name) map

theorem lookup_eraseAll_of_notMem (map : AList fun _ : κ => α) (kept : key ∉ names) :
    (eraseAll map names).lookup key = map.lookup key := by
  induction names generalizing map with
  | nil => rfl
  | cons name rest ih =>
    simp only [List.mem_cons, not_or] at kept
    exact (ih (map.erase name) kept.2).trans (lookup_erase_ne kept.1)

theorem lookup_eraseAll_of_mem (map : AList fun _ : κ => α) (erased : key ∈ names) :
    (eraseAll map names).lookup key = none := by
  induction names generalizing map with
  | nil => cases erased
  | cons name rest ih =>
    by_cases later : key ∈ rest
    · exact ih (map.erase name) later
    · have here : key = name := (List.mem_cons.mp erased).resolve_right later
      subst here
      exact (lookup_eraseAll_of_notMem (map.erase key) later).trans (lookup_erase _ _)

end Parti.Lib
