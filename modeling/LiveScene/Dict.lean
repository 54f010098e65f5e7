/-!
# LiveScene.Dict

A finite map from names to values, kept as the list of its entries in ascending order of
their names.

* The order is the order of strings by code point. It is the order in which every answer
  lists cells, nodes, records' fields and timers, so it belongs to the type.
* A name occurs once. The order makes two maps with the same look-ups equal
  (`Dict.ext_get?`), so statements about maps are statements about `get?`.
* The list functions (`lookupEntry`, `insertEntry`, `eraseEntry`) are used alone where a map
  is nested in the type of its own values, as in the free-form objects of a document.
-/

namespace LiveScene

universe u v

/-! ### Entry lists -/

section Entries

variable {α : Type u} {β : Type v}

/-- The names of a list of entries, in their order. -/
def names (entries : List (String × α)) : List String := entries.map Prod.fst

@[simp] theorem names_nil : names ([] : List (String × α)) = [] := rfl

@[simp] theorem names_cons (e : String × α) (r : List (String × α)) :
    names (e :: r) = e.1 :: names r := rfl

/-- The value of the first entry of a name. -/
def lookupEntry (name : String) : List (String × α) → Option α
  | [] => none
  | e :: r => if name = e.1 then some e.2 else lookupEntry name r

/-- Puts an entry at its place in an ascending list; an entry of that name is replaced. -/
def insertEntry (name : String) (value : α) : List (String × α) → List (String × α)
  | [] => [(name, value)]
  | e :: r =>
    if name < e.1 then (name, value) :: e :: r
    else if name = e.1 then (name, value) :: r
    else e :: insertEntry name value r

/-- Removes every entry of a name. -/
def eraseEntry (name : String) (entries : List (String × α)) : List (String × α) :=
  entries.filter fun e => !decide (e.1 = name)

/-- The entries in ascending order of their names; of two with one name the later stays. -/
def sortEntries (entries : List (String × α)) : List (String × α) :=
  entries.foldl (fun sorted e => insertEntry e.1 e.2 sorted) []

/-- What a function makes of the values, without those for which it has no answer. -/
def filterMapEntries (f : String → α → Option β) : List (String × α) → List (String × β)
  | [] => []
  | e :: r =>
    match f e.1 e.2 with
    | some b => (e.1, b) :: filterMapEntries f r
    | none => filterMapEntries f r

theorem names_filterMapEntries_sublist (f : String → α → Option β)
    (entries : List (String × α)) :
    (names (filterMapEntries f entries)).Sublist (names entries) := by
  induction entries with
  | nil => exact List.Sublist.slnil
  | cons e r ih =>
    simp only [filterMapEntries, names_cons]
    split
    · exact ih.cons_cons _
    · exact ih.cons _

theorem lt_of_not_lt_of_ne {a b : String} (h : ¬ a < b) (hne : a ≠ b) : b < a :=
  Std.lt_of_le_of_ne (String.not_lt.mp h) (Ne.symm hne)

theorem mem_names_insertEntry {name other : String} {value : α}
    {entries : List (String × α)} :
    other ∈ names (insertEntry name value entries) ↔ other = name ∨ other ∈ names entries := by
  induction entries with
  | nil => simp [insertEntry]
  | cons e r ih =>
    simp only [insertEntry]
    split
    · simp
    · split
      · next h => simp [h]
      · simp only [names_cons, List.mem_cons, ih]
        exact or_left_comm

theorem ascending_insertEntry {name : String} {value : α} {entries : List (String × α)}
    (h : (names entries).Pairwise (· < ·)) :
    (names (insertEntry name value entries)).Pairwise (· < ·) := by
  induction entries with
  | nil => simp [insertEntry]
  | cons e r ih =>
    rw [names_cons, List.pairwise_cons] at h
    simp only [insertEntry]
    split
    · next hlt =>
      simp only [names_cons, List.pairwise_cons, List.mem_cons, forall_eq_or_imp]
      exact ⟨⟨hlt, fun b hb => String.lt_trans hlt (h.1 b hb)⟩, h⟩
    · next hlt =>
      split
      · next heq => simpa only [names_cons, List.pairwise_cons, heq] using h
      · next hne =>
        simp only [names_cons, List.pairwise_cons, mem_names_insertEntry]
        refine ⟨?_, ih h.2⟩
        rintro b (rfl | hb)
        · exact lt_of_not_lt_of_ne hlt hne
        · exact h.1 b hb

theorem ascending_eraseEntry {name : String} {entries : List (String × α)}
    (h : (names entries).Pairwise (· < ·)) :
    (names (eraseEntry name entries)).Pairwise (· < ·) :=
  h.sublist (List.filter_sublist.map _)

theorem ascending_sortEntries (entries : List (String × α)) :
    (names (sortEntries entries)).Pairwise (· < ·) := by
  suffices h : ∀ sorted : List (String × α), (names sorted).Pairwise (· < ·) →
      (names (entries.foldl (fun sorted e => insertEntry e.1 e.2 sorted) sorted)).Pairwise
        (· < ·) from h [] List.Pairwise.nil
  induction entries with
  | nil => exact fun _ h => h
  | cons e r ih => exact fun _ h => ih _ (ascending_insertEntry h)

theorem lookupEntry_eq_none_of_not_mem {name : String} {entries : List (String × α)}
    (h : name ∉ names entries) : lookupEntry name entries = none := by
  induction entries with
  | nil => rfl
  | cons e r ih =>
    rw [names_cons, List.mem_cons, not_or] at h
    rw [lookupEntry, if_neg h.1, ih h.2]

theorem lookupEntry_insertEntry (name other : String) (value : α)
    (entries : List (String × α)) :
    lookupEntry other (insertEntry name value entries) =
      if other = name then some value else lookupEntry other entries := by
  induction entries with
  | nil => rfl
  | cons e r ih =>
    simp only [insertEntry]
    split
    · rfl
    · split
      · next heq => by_cases h : other = name <;> simp [lookupEntry, h, ← heq]
      · next hne =>
        by_cases h : other = e.1
        · simp [lookupEntry, h, Ne.symm hne]
        · simp [lookupEntry, h, ih]

theorem lookupEntry_eraseEntry (name other : String) (entries : List (String × α)) :
    lookupEntry other (eraseEntry name entries) =
      if other = name then none else lookupEntry other entries := by
  induction entries with
  | nil => simp [eraseEntry, lookupEntry]
  | cons e r ih =>
    simp only [eraseEntry, List.filter_cons] at ih ⊢
    by_cases h : e.1 = name
    · by_cases ho : other = name
      · subst ho; simpa [h] using ih
      · simp [lookupEntry, h, ho, ih]
    · by_cases ho : other = e.1
      · simp [lookupEntry, h, ho]
      · simp [lookupEntry, h, ho, ih]

/-- A name below all names of a list has no value in it. -/
theorem lookupEntry_eq_none_of_lt {name : String} {entries : List (String × α)}
    (h : ∀ other ∈ names entries, name < other) : lookupEntry name entries = none :=
  lookupEntry_eq_none_of_not_mem fun hmem => String.lt_irrefl _ (h _ hmem)

/-- In an ascending list a name has one entry at most, which is the one that is looked up. -/
theorem mem_iff_lookupEntry {entries : List (String × α)}
    (h : (names entries).Pairwise (· < ·)) {e : String × α} :
    e ∈ entries ↔ lookupEntry e.1 entries = some e.2 := by
  induction entries with
  | nil => simp [lookupEntry]
  | cons first r ih =>
    rw [names_cons, List.pairwise_cons] at h
    by_cases hname : e.1 = first.1
    · have hrest : e ∉ r := fun hmem =>
        String.lt_irrefl _ (hname ▸ h.1 e.1 (List.mem_map_of_mem hmem))
      simp [lookupEntry, hname, hrest, Prod.ext_iff, eq_comm]
    · have hfirst : e ≠ first := fun heq => hname (congrArg Prod.fst heq)
      simp [lookupEntry, hname, hfirst, ih h.2]

/-- What is looked up where a function has left entries out. -/
theorem lookupEntry_filterMapEntries (f : String → α → Option β) {entries : List (String × α)}
    (h : (names entries).Pairwise (· < ·)) (name : String) :
    lookupEntry name (filterMapEntries f entries) =
      (lookupEntry name entries).bind (f name) := by
  induction entries with
  | nil => rfl
  | cons e r ih =>
    rw [names_cons, List.pairwise_cons] at h
    by_cases hname : name = e.1
    · -- The names behind it are greater, so nothing of the rest is found under its name.
      have hrest : lookupEntry name r = none := lookupEntry_eq_none_of_lt (hname ▸ h.1)
      rw [filterMapEntries, lookupEntry, if_pos hname, Option.bind_some, hname]
      split
      · next b hb => rw [lookupEntry, if_pos rfl, hb]
      · next hb => rw [hname] at ih hrest; rw [ih h.2, hrest, hb, Option.bind_none]
    · rw [filterMapEntries, lookupEntry, if_neg hname, ← ih h.2]
      split
      · rw [lookupEntry, if_neg hname]
      · rfl

/-- Two ascending lists with the same look-ups are the same list. -/
theorem eq_of_lookupEntry_eq {xs ys : List (String × α)} (hx : (names xs).Pairwise (· < ·))
    (hy : (names ys).Pairwise (· < ·))
    (h : ∀ name, lookupEntry name xs = lookupEntry name ys) : xs = ys := by
  induction xs generalizing ys with
  | nil =>
    cases ys with
    | nil => rfl
    | cons e r => simpa [lookupEntry] using h e.1
  | cons e r ih =>
    cases ys with
    | nil => simpa [lookupEntry] using h e.1
    | cons e' r' =>
      rw [names_cons, List.pairwise_cons] at hx hy
      have key : e.1 = e'.1 := by
        by_cases hlt : e.1 < e'.1
        · have hk := h e.1
          rw [@lookupEntry_eq_none_of_lt _ _ (e' :: r') (by
            simp only [names_cons, List.mem_cons, forall_eq_or_imp]
            exact ⟨hlt, fun b hb => String.lt_trans hlt (hy.1 b hb)⟩)] at hk
          simp [lookupEntry] at hk
        · by_cases heq : e.1 = e'.1
          · exact heq
          · have hgt : e'.1 < e.1 := lt_of_not_lt_of_ne hlt heq
            have hk := h e'.1
            rw [@lookupEntry_eq_none_of_lt _ _ (e :: r) (by
              simp only [names_cons, List.mem_cons, forall_eq_or_imp]
              exact ⟨hgt, fun b hb => String.lt_trans hgt (hx.1 b hb)⟩)] at hk
            simp [lookupEntry] at hk
      have value : e.2 = e'.2 := by simpa [lookupEntry, key] using h e.1
      rw [show e = e' from Prod.ext key value, ih hx.2 hy.2 fun name => ?_]
      by_cases hn : name = e.1
      · rw [hn, lookupEntry_eq_none_of_lt hx.1, key, lookupEntry_eq_none_of_lt hy.1]
      · simpa [lookupEntry, hn, ← key] using h name

end Entries

/-! ### Maps -/

/-- A finite map from names to values, its entries in ascending order. -/
structure Dict (α : Type u) where
  /-- The entries, a name at most once. -/
  entries : List (String × α)
  /-- The names ascend. -/
  ascending : (names entries).Pairwise (· < ·)
deriving DecidableEq

namespace Dict

variable {α : Type u} {β : Type v}

/-- The map without entries. -/
def empty : Dict α := ⟨[], List.Pairwise.nil⟩

instance : EmptyCollection (Dict α) := ⟨empty⟩
instance : Inhabited (Dict α) := ⟨empty⟩

/-- The value of a name. -/
def get? (d : Dict α) (name : String) : Option α := lookupEntry name d.entries

/-- Whether a name has a value. -/
def contains (d : Dict α) (name : String) : Bool := (d.get? name).isSome

/-- Gives a name a value, in place of the one it has. -/
def insert (d : Dict α) (name : String) (value : α) : Dict α :=
  ⟨insertEntry name value d.entries, ascending_insertEntry d.ascending⟩

/-- Takes a name out. -/
def erase (d : Dict α) (name : String) : Dict α :=
  ⟨eraseEntry name d.entries, ascending_eraseEntry d.ascending⟩

/-- Changes the value of a name that has one, and nothing else. -/
def modify (d : Dict α) (name : String) (f : α → α) : Dict α :=
  match d.get? name with
  | some value => d.insert name (f value)
  | none => d

/-- The map of a list of entries; of two with one name the later counts. -/
def ofList (entries : List (String × α)) : Dict α :=
  ⟨sortEntries entries, ascending_sortEntries entries⟩

/-- The values of `patch` where it has any, else those of `d`. -/
def merge (d patch : Dict α) : Dict α :=
  patch.entries.foldl (fun merged e => merged.insert e.1 e.2) d

/-- The same names with changed values. -/
def mapValues (f : String → α → β) (d : Dict α) : Dict β where
  entries := d.entries.map fun e => (e.1, f e.1 e.2)
  ascending := by simpa [names, List.map_map, Function.comp_def] using d.ascending

/-- What a function makes of the entries, without those for which it has no answer. -/
def filterMap (f : String → α → Option β) (d : Dict α) : Dict β where
  entries := filterMapEntries f d.entries
  ascending := d.ascending.sublist (names_filterMapEntries_sublist f d.entries)

/-- The number of entries. -/
def size (d : Dict α) : Nat := d.entries.length

/-- Whether there is no entry. -/
def isEmpty (d : Dict α) : Bool := d.entries.isEmpty

/-- The names, ascending. -/
def keys (d : Dict α) : List String := names d.entries

/-- The values, in the order of their names. -/
def values (d : Dict α) : List α := d.entries.map Prod.snd

/-! ### Look-ups -/

@[simp] theorem get?_empty (name : String) : (∅ : Dict α).get? name = none := rfl

@[simp] theorem get?_insert (d : Dict α) (name other : String) (value : α) :
    (d.insert name value).get? other = if other = name then some value else d.get? other :=
  lookupEntry_insertEntry name other value d.entries

@[simp] theorem get?_erase (d : Dict α) (name other : String) :
    (d.erase name).get? other = if other = name then none else d.get? other :=
  lookupEntry_eraseEntry name other d.entries

theorem get?_modify (d : Dict α) (name other : String) (f : α → α) :
    (d.modify name f).get? other =
      if other = name then (d.get? other).map f else d.get? other := by
  unfold modify
  by_cases h : other = name
  · subst h; cases hg : d.get? other <;> simp [hg]
  · cases hg : d.get? name <;> simp [h]

/-- Maps with the same look-ups are equal. -/
@[ext] theorem ext_get? {d e : Dict α} (h : ∀ name, d.get? name = e.get? name) : d = e := by
  obtain ⟨xs, hx⟩ := d
  obtain ⟨ys, hy⟩ := e
  have : xs = ys := eq_of_lookupEntry_eq hx hy h
  subst this
  rfl

theorem get?_filterMap (f : String → α → Option β) (d : Dict α) (name : String) :
    (d.filterMap f).get? name = (d.get? name).bind (f name) :=
  lookupEntry_filterMapEntries f d.ascending name

theorem mem_entries_iff {d : Dict α} {e : String × α} :
    e ∈ d.entries ↔ d.get? e.1 = some e.2 :=
  mem_iff_lookupEntry d.ascending

theorem size_eq_zero_iff {d : Dict α} : d.size = 0 ↔ ∀ name, d.get? name = none := by
  rw [size, List.length_eq_zero_iff, List.eq_nil_iff_forall_not_mem]
  constructor
  · intro h name
    cases hget : d.get? name with
    | none => rfl
    | some value => exact absurd (mem_entries_iff.mpr hget) (h (name, value))
  · intro h e he
    rw [mem_entries_iff, h e.1] at he
    cases he

theorem contains_eq_true_iff {d : Dict α} {name : String} :
    d.contains name = true ↔ ∃ value, d.get? name = some value :=
  Option.isSome_iff_exists

end Dict

end LiveScene
