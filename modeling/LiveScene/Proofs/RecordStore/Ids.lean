import LiveScene.Proofs.Dict
import LiveScene.Proofs.Text
import LiveScene.RecordStore

/-!
# LiveScene.Proofs.RecordStore.Ids

The ids of the records in a collection.

* Every operation is described by what it does to the list of ids: creation appends one, deletion
  takes one out, and an update changes none (`ids_create`, `ids_update`, `ids_delete`).
* `supplied` tells from the operations alone which ids of a collection callers have given to its
  records. All others are made of a count that no creation leaves as it was (`Counted`).
* An id that a creation makes is therefore new, except where a caller has supplied the very same
  (`id_fresh_iff`).
-/

namespace LiveScene.RecordStore

open Json (Record)

variable {s : RecordStore} {collection other id : String} {record : Record}

/-- What is asked of a store. -/
inductive Operation where
  | create (collection : String) (record : Record)
  | update (collection id : String) (patch : Record)
  | delete (collection id : String)

/-- The store after an operation. -/
def step (s : RecordStore) : Operation → RecordStore
  | .create collection record => (s.create collection record).1
  | .update collection id patch => s.update collection id patch
  | .delete collection id => s.delete collection id

/-- The store after operations, one after the other. -/
def run (s : RecordStore) (ops : List Operation) : RecordStore := ops.foldl step s

/-! ### The id of a record -/

/-- The id that a count makes in a collection. -/
def countedId (collection : String) (count : Nat) : String :=
  collection ++ "-" ++ toString count

theorem countedId_inj {m n : Nat} (h : countedId collection m = countedId collection n) :
    m = n :=
  Text.repr_inj ((String.append_right_inj _).mp h)

theorem idOf?_insert_idField (record : Record) (id : String) :
    idOf? (record.insert idField (.str id)) = some id := by
  rw [idOf?, Dict.get?_insert, if_pos rfl]

/-- A patch does not change the id. -/
theorem idOf?_patched (record patch : Record) : idOf? (patched record patch) = idOf? record := by
  rw [idOf?, patched, Dict.get?_merge, Dict.get?_erase, if_pos rfl, Option.none_or, idOf?]

theorem map_idOf?_patchFirst (id : String) (patch : Record) (records : List Record) :
    (patchFirst id patch records).map idOf? = records.map idOf? := by
  induction records with
  | nil => rfl
  | cons record r ih =>
      rw [patchFirst]
      split
      · rw [List.map_cons, idOf?_patched, List.map_cons]
      · rw [List.map_cons, ih, List.map_cons]

/-! ### The ids of a collection -/

/-- The ids of the records in a collection, in their order. -/
def ids (s : RecordStore) (collection : String) : List (Option String) :=
  (s.all collection).map idOf?

/-- A created record is appended to its collection, under the id that is answered. -/
theorem exists_all_create (s : RecordStore) (collection : String) (record : Record) :
    ∃ stored, idOf? stored = some (s.create collection record).2 ∧
      ∀ other, (s.create collection record).1.all other =
        if other = collection then s.all collection ++ [stored] else s.all other := by
  rw [create]
  cases h : idOf? record with
  | some id => exact ⟨record, h, fun other => all_setAll s collection other _⟩
  | none =>
      exact ⟨_, idOf?_insert_idField record _, fun other =>
        all_setAll { s with given := s.given + 1 } collection other _⟩

theorem ids_create (s : RecordStore) (collection other : String) (record : Record) :
    (s.create collection record).1.ids other =
      if other = collection then s.ids collection ++ [some (s.create collection record).2]
      else s.ids other := by
  obtain ⟨stored, hid, hall⟩ := exists_all_create s collection record
  rw [ids, hall]
  split
  · rw [List.map_append, List.map_singleton, hid, ids]
  · rw [ids]

@[simp] theorem ids_update (s : RecordStore) (collection id : String) (patch : Record)
    (other : String) : (s.update collection id patch).ids other = s.ids other := by
  rw [ids, update, all_setAll]
  split
  · next h => rw [map_idOf?_patchFirst, h, ids]
  · rw [ids]

theorem ids_delete (s : RecordStore) (collection id other : String) :
    (s.delete collection id).ids other =
      if other = collection then (s.ids collection).filter (· ≠ some id) else s.ids other := by
  rw [ids, delete, all_setAll]
  split
  · rw [ids, List.filter_map]
    rfl
  · rw [ids]

/-! ### The count -/

theorem create_of_id (h : idOf? record = some id) (s : RecordStore) (collection : String) :
    (s.create collection record).2 = id ∧ (s.create collection record).1.given = s.given := by
  rw [create, h]
  exact ⟨rfl, rfl⟩

theorem create_of_no_id (h : idOf? record = none) (s : RecordStore) (collection : String) :
    (s.create collection record).2 = countedId collection (s.given + 1) ∧
      (s.create collection record).1.given = s.given + 1 := by
  rw [create, h]
  exact ⟨rfl, rfl⟩

/-! ### Supplied ids -/

/-- The ids that callers have supplied, after one operation more. -/
def supply (collection : String) (ids : List String) : Operation → List String
  | .create other record =>
    if other = collection then ids ++ (idOf? record).toList else ids
  | .update .. => ids
  | .delete other id => if other = collection then ids.filter (· ≠ id) else ids

/-- The ids that callers have supplied for records of a collection, without those that were deleted
since. -/
def supplied (collection : String) (ops : List Operation) : List String :=
  ops.foldl (supply collection) []

/-- The ids of a collection are those that were supplied and others that are made of a count, up to
the present one. -/
structure Counted (collection : String) (ids : List (Option String)) (given : Nat)
    (supplied : List String) : Prop where
  id_of_mem : ∀ x ∈ ids, ∃ id, x = some id ∧
    (id ∈ supplied ∨ ∃ n ≤ given, id = countedId collection n)
  mem_of_supplied : ∀ id ∈ supplied, some id ∈ ids

namespace Counted

variable {ids : List (Option String)} {given : Nat} {supplied : List String}

theorem nil (collection : String) (given : Nat) : Counted collection [] given [] where
  id_of_mem _ hx := nomatch hx
  mem_of_supplied _ hid := nomatch hid

theorem mono (h : Counted collection ids given supplied) {count : Nat} (hle : given ≤ count) :
    Counted collection ids count supplied where
  id_of_mem x hx := by
    obtain ⟨i, rfl, hi | ⟨n, hn, rfl⟩⟩ := h.id_of_mem x hx
    · exact ⟨i, rfl, .inl hi⟩
    · exact ⟨_, rfl, .inr ⟨n, Nat.le_trans hn hle, rfl⟩⟩
  mem_of_supplied := h.mem_of_supplied

/-- An id is supplied. -/
theorem concat (h : Counted collection ids given supplied) (id : String) :
    Counted collection (ids ++ [some id]) given (supplied ++ [id]) where
  id_of_mem x hx := by
    rw [List.mem_append, List.mem_singleton] at hx
    obtain hx | rfl := hx
    · obtain ⟨i, rfl, hi | hi⟩ := h.id_of_mem x hx
      · exact ⟨i, rfl, .inl (List.mem_append_left [id] hi)⟩
      · exact ⟨i, rfl, .inr hi⟩
    · exact ⟨id, rfl, .inl (List.mem_append_right supplied (List.mem_singleton_self id))⟩
  mem_of_supplied i hi := by
    rw [List.mem_append, List.mem_singleton] at hi
    obtain hi | rfl := hi
    · exact List.mem_append_left _ (h.mem_of_supplied i hi)
    · exact List.mem_append_right _ (List.mem_singleton_self _)

/-- An id is made of the next count. -/
theorem concat_next (h : Counted collection ids given supplied) :
    Counted collection (ids ++ [some (countedId collection (given + 1))]) (given + 1) supplied where
  id_of_mem x hx := by
    rw [List.mem_append, List.mem_singleton] at hx
    obtain hx | rfl := hx
    · exact (h.mono (Nat.le_succ given)).id_of_mem x hx
    · exact ⟨_, rfl, .inr ⟨given + 1, Nat.le_refl _, rfl⟩⟩
  mem_of_supplied i hi := List.mem_append_left _ (h.mem_of_supplied i hi)

/-- An id is taken out. -/
theorem filter_ne (h : Counted collection ids given supplied) (id : String) :
    Counted collection (ids.filter (· ≠ some id)) given (supplied.filter (· ≠ id)) where
  id_of_mem x hx := by
    rw [List.mem_filter, decide_eq_true_eq] at hx
    obtain ⟨i, rfl, hi | hi⟩ := h.id_of_mem x hx.1
    · have hne : i ≠ id := fun heq => hx.2 (congrArg some heq)
      exact ⟨i, rfl, .inl (List.mem_filter.mpr ⟨hi, decide_eq_true hne⟩)⟩
    · exact ⟨i, rfl, .inr hi⟩
  mem_of_supplied i hi := by
    rw [List.mem_filter, decide_eq_true_eq] at hi ⊢
    exact ⟨h.mem_of_supplied i hi.1, fun heq => hi.2 (Option.some.inj heq)⟩

/-- The next count makes an id that is there only if it was supplied. -/
theorem mem_next_iff (h : Counted collection ids given supplied) :
    some (countedId collection (given + 1)) ∈ ids ↔
      countedId collection (given + 1) ∈ supplied := by
  refine ⟨fun hmem => ?_, h.mem_of_supplied _⟩
  obtain ⟨i, hi, hsupplied | ⟨n, hn, rfl⟩⟩ := h.id_of_mem _ hmem
  · exact Option.some.inj hi ▸ hsupplied
  · -- A count that was used before is not the next one.
    have heq := countedId_inj (Option.some.inj hi)
    omega

end Counted

/-- Every operation keeps the ids of a collection counted. -/
theorem counted_step {supplied : List String}
    (h : Counted collection (s.ids collection) s.given supplied) (op : Operation) :
    Counted collection ((s.step op).ids collection) (s.step op).given
      (supply collection supplied op) := by
  cases op with
  | create other record =>
      rw [step, supply, ids_create]
      cases hid : idOf? record with
      | some id =>
          obtain ⟨hanswer, hgiven⟩ := create_of_id hid s other
          rw [hanswer, hgiven]
          split
          · next hother =>
              subst hother
              rw [if_pos rfl]
              exact h.concat id
          · next hother => rwa [if_neg (Ne.symm hother)]
      | none =>
          obtain ⟨hanswer, hgiven⟩ := create_of_no_id hid s other
          rw [hanswer, hgiven]
          split
          · next hother =>
              subst hother
              rw [if_pos rfl, Option.toList_none, List.append_nil]
              exact h.concat_next
          · next hother =>
              rw [if_neg (Ne.symm hother)]
              exact h.mono (Nat.le_succ _)
  | update other id patch =>
      rw [step, supply, ids_update]
      exact h
  | delete other id =>
      rw [step, supply, ids_delete]
      split
      · next hother =>
          subst hother
          rw [if_pos rfl]
          exact h.filter_ne id
      · next hother => rwa [if_neg (Ne.symm hother)]

theorem counted_run {supplied : List String}
    (h : Counted collection (s.ids collection) s.given supplied) (ops : List Operation) :
    Counted collection ((s.run ops).ids collection) (s.run ops).given
      (ops.foldl (supply collection) supplied) := by
  induction ops generalizing s supplied with
  | nil => exact h
  | cons op r ih => exact ih (counted_step h op)

/-! ### New ids -/

/-- A record that comes without an id is stored under the one that is answered, which is made of the
next count. In its collection this is a new id exactly if no caller has supplied the same one for a
record that is still there. -/
theorem id_fresh_iff (ops : List Operation) (collection : String) {record : Record}
    (h : idOf? record = none) :
    ((empty.run ops).create collection record).2 =
        countedId collection ((empty.run ops).given + 1) ∧
      (∃ stored, idOf? stored = some ((empty.run ops).create collection record).2 ∧
        ((empty.run ops).create collection record).1.all collection =
          (empty.run ops).all collection ++ [stored]) ∧
      ((∀ r ∈ (empty.run ops).all collection,
          idOf? r ≠ some ((empty.run ops).create collection record).2) ↔
        ((empty.run ops).create collection record).2 ∉ supplied collection ops) := by
  obtain ⟨hanswer, -⟩ := create_of_no_id h (empty.run ops) collection
  obtain ⟨stored, hid, hall⟩ := exists_all_create (empty.run ops) collection record
  have hempty : Counted collection (empty.ids collection) empty.given [] :=
    Counted.nil collection 0
  have hcounted := counted_run hempty ops
  refine ⟨hanswer, ⟨stored, hid, by rw [hall, if_pos rfl]⟩, ?_⟩
  rw [hanswer, supplied, ← hcounted.mem_next_iff, ids, List.mem_map, not_exists]
  simp only [not_and, ne_eq]

/-- A record without an id. -/
def untitled : Record := ∅

/-- A record that comes with an id. -/
def named (id : String) : Record := Dict.ofList [(idField, .str id)]

/-- Records with and without ids in two collections, and an id that was supplied and deleted. -/
def chores : List Operation :=
  [.create "todos" untitled, .create "todos" (named "todos-3"), .create "notes" untitled,
    .create "notes" (named "todos-3"), .delete "todos" "todos-3"]

theorem id_fresh_iff_chores :
    idOf? untitled = none ∧ ((empty.run chores).create "todos" untitled).2 = "todos-3" ∧
      ∀ r ∈ (empty.run chores).all "todos",
        idOf? r ≠ some ((empty.run chores).create "todos" untitled).2 := by
  have hid : idOf? untitled = none := rfl
  have hnew : ((empty.run chores).create "todos" untitled).2 ∉ supplied "todos" chores := by
    decide +kernel
  obtain ⟨hanswer, -, hfresh⟩ := id_fresh_iff chores "todos" hid
  exact ⟨hid, hanswer.trans (by decide +kernel), hfresh.mpr hnew⟩

/-- If a caller supplies the id that the next count makes, two records have it. -/
theorem ids_supplied_next :
    idOf? untitled = none ∧
      ((empty.run [.create "todos" (named "todos-1")]).create "todos" untitled).2 = "todos-1" ∧
      some "todos-1" ∈ (empty.run [.create "todos" (named "todos-1")]).ids "todos" ∧
      ((empty.run [.create "todos" (named "todos-1")]).create "todos" untitled).1.ids "todos" =
        [some "todos-1", some "todos-1"] := by
  decide +kernel

end LiveScene.RecordStore
