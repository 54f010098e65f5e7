import LiveScene.Proofs.RecordStore.Ids
import Mathlib.Data.List.Forall2
import Mathlib.Data.List.Induction

/-!
# LiveScene.Proofs.RecordStore.History

What a collection shows, told from the operations alone.

* A record is known by the position of the operation that created it. It is *there* as long as no
  deletion of its id has followed (`IsThere`), and an update *finds* the first record of its id that
  is there (`Finds`). Neither looks at a store.
* A collection lists the records that are there, in the order of their positions. Each has the id
  that it was created with, and every other field from the last update that found it and had the
  field, or else from its creation (`Shows`).
* The induction is on the history, from its end: `isThere_concat_iff` and `finds_concat_iff` say
  what one operation more changes.
-/

namespace LiveScene.RecordStore

open Json (Record)

/-- The collection that an operation is about. -/
def Operation.collection : Operation → String
  | .create collection _ => collection
  | .update collection _ _ => collection
  | .delete collection _ => collection

/-- Whether an operation creates a record that comes without an id. -/
def Operation.asksForId : Operation → Bool
  | .create _ record => (idOf? record).isNone
  | _ => false

variable {s : RecordStore} {ops : List Operation} {op : Operation} {collection other id : String}
  {record patch : Record} {i j : Nat}

/-! ### What one operation does to the records -/

/-- A record as it is stored: one that comes without an id is given the next one. -/
def titled (collection : String) (given : Nat) (record : Record) : Record :=
  match idOf? record with
  | some _ => record
  | none => record.insert idField (.str (countedId collection (given + 1)))

theorem isSome_idOf?_titled (collection : String) (given : Nat) (record : Record) :
    ∃ id, idOf? (titled collection given record) = some id := by
  rw [titled]
  cases h : idOf? record with
  | some id => exact ⟨id, h⟩
  | none => exact ⟨_, idOf?_insert_idField record _⟩

theorem all_create (s : RecordStore) (collection other : String) (record : Record) :
    (s.create collection record).1.all other =
      if other = collection then s.all collection ++ [titled collection s.given record]
      else s.all other := by
  rw [create, titled]
  cases idOf? record with
  | some id => exact all_setAll s collection other _
  | none => exact all_setAll { s with given := s.given + 1 } collection other _

theorem all_update (s : RecordStore) (collection id : String) (patch : Record) (other : String) :
    (s.update collection id patch).all other =
      if other = collection then patchFirst id patch (s.all collection) else s.all other :=
  all_setAll s collection other _

theorem all_delete (s : RecordStore) (collection id other : String) :
    (s.delete collection id).all other =
      if other = collection then (s.all collection).filter (fun r => idOf? r ≠ some id)
      else s.all other :=
  all_setAll s collection other _

/-- An operation on one collection leaves all others alone. -/
theorem all_step_of_ne (h : op.collection ≠ collection) (s : RecordStore) :
    (s.step op).all collection = s.all collection := by
  have hne : ¬ collection = op.collection := Ne.symm h
  cases op with
  | create other record => exact (all_create s other collection record).trans (if_neg hne)
  | update other id patch => exact (all_update s other id patch collection).trans (if_neg hne)
  | delete other id => exact (all_delete s other id collection).trans (if_neg hne)

/-- What a patch has counts, but for the id. -/
theorem get?_patched (record patch : Record) (name : String) :
    (patched record patch).get? name =
      if name = idField then record.get? name else (patch.get? name).or (record.get? name) := by
  rw [patched, Dict.get?_merge, Dict.get?_erase]
  split
  · exact Option.none_or
  · rfl

theorem run_concat (s : RecordStore) (ops : List Operation) (op : Operation) :
    s.run (ops ++ [op]) = (s.run ops).step op :=
  List.foldl_concat step s op ops

theorem getElem?_concat_eq_some_iff {found : Operation} :
    (ops ++ [op])[j]? = some found ↔ ops[j]? = some found ∨ j = ops.length ∧ op = found := by
  rw [List.getElem?_append]
  split
  · next h => exact (or_iff_left fun hlast => Nat.ne_of_lt h hlast.1).symm
  · next h =>
      rw [List.getElem?_eq_none (Nat.not_lt.mp h), List.getElem?_singleton,
        Option.ite_none_right_eq_some, Option.some_inj]
      have hj : j - ops.length = 0 ↔ j = ops.length := by omega
      rw [hj, or_iff_right nofun]

/-! ### Positions of a history -/

theorem given_run (ops : List Operation) :
    (empty.run ops).given = ops.countP Operation.asksForId := by
  induction ops using List.reverseRecOn with
  | nil => rfl
  | append_singleton ops op ih =>
      rw [run_concat, List.countP_append, List.countP_singleton, ← ih]
      cases op with
      | create collection record =>
          rw [step, Operation.asksForId]
          cases h : idOf? record with
          | some id => exact (create_of_id h _ collection).2
          | none => exact (create_of_no_id h _ collection).2
      | _ => rfl

/-- The record that the operation at a position stores in a collection. -/
def born? (ops : List Operation) (collection : String) (i : Nat) : Option Record :=
  match ops[i]? with
  | some (.create other record) =>
    if other = collection then
      some (titled collection ((ops.take i).countP Operation.asksForId) record)
    else none
  | _ => none

/-- The record that was created at a position is in its collection: its id was not deleted since. -/
def IsThere (ops : List Operation) (collection : String) (i : Nat) : Prop :=
  ∃ record, born? ops collection i = some record ∧
    ∀ j, i < j → ∀ id, idOf? record = some id → ops[j]? ≠ some (.delete collection id)

/-- The record that was created at a position is the first of its id in the collection. -/
structure IsFirst (ops : List Operation) (collection id : String) (i : Nat) : Prop where
  isThere : IsThere ops collection i
  id_eq : (born? ops collection i).bind idOf? = some id
  first : ∀ k < i, IsThere ops collection k → (born? ops collection k).bind idOf? ≠ some id

/-- The operation at a position updates the record that was created at another: the first of its id
at that time. -/
def Finds (ops : List Operation) (collection : String) (j : Nat) (patch : Record) (i : Nat) :
    Prop :=
  ∃ id, ops[j]? = some (.update collection id patch) ∧ IsFirst (ops.take j) collection id i

/-- What a collection shows of the record that was created at a position. -/
structure Shows (ops : List Operation) (collection : String) (i : Nat) (record : Record) :
    Prop where
  /-- The id is the one that it was created with, a text or a number. -/
  id_eq : ∃ born id, born? ops collection i = some born ∧ idOf? born = some id ∧
    record.get? idField = born.get? idField
  /-- A field has the value of the last update that found the record and had the field. -/
  last : ∀ name ≠ idField, ∀ j patch value, Finds ops collection j patch i →
    patch.get? name = some value →
    (∀ k > j, ∀ later, Finds ops collection k later i → later.get? name = none) →
    record.get? name = some value
  /-- A field that no such update had is as it was created. -/
  created : ∀ name ≠ idField,
    (∀ j patch, Finds ops collection j patch i → patch.get? name = none) →
    record.get? name = (born? ops collection i).bind (·.get? name)

theorem Shows.idOf?_eq (h : Shows ops collection i record) :
    (born? ops collection i).bind idOf? = idOf? record := by
  obtain ⟨born, id, hborn, -, hid⟩ := h.id_eq
  rw [hborn, Option.bind_some, idOf?, idOf?, hid]

/-! ### One operation more -/

theorem born?_concat_of_lt (h : i < ops.length) (op : Operation) (collection : String) :
    born? (ops ++ [op]) collection i = born? ops collection i := by
  rw [born?, List.getElem?_append_left h, List.take_append_of_le_length (Nat.le_of_lt h), born?]

theorem born?_concat_length (ops : List Operation) (op : Operation) (collection : String) :
    born? (ops ++ [op]) collection ops.length =
      match op with
      | .create other record =>
        if other = collection then some (titled collection (empty.run ops).given record) else none
      | _ => none := by
  rw [born?, List.getElem?_concat_length, List.take_left', given_run]
  · cases op <;> rfl
  · rfl

theorem lt_length_of_born? (h : born? ops collection i = some record) : i < ops.length := by
  rw [← Nat.not_le]
  intro hle
  rw [born?, List.getElem?_eq_none hle] at h
  cases h

theorem IsThere.lt_length (h : IsThere ops collection i) : i < ops.length := by
  obtain ⟨record, hborn, -⟩ := h
  exact lt_length_of_born? hborn

/-- What was created before is still there unless its id is deleted. -/
theorem isThere_concat_iff (h : i < ops.length) :
    IsThere (ops ++ [op]) collection i ↔ IsThere ops collection i ∧
      ∀ id, (born? ops collection i).bind idOf? = some id → op ≠ .delete collection id := by
  rw [IsThere, born?_concat_of_lt h]
  constructor
  · rintro ⟨record, hborn, hkept⟩
    refine ⟨⟨record, hborn, fun j hj id hid hdelete => hkept j hj id hid ?_⟩, ?_⟩
    · rw [List.getElem?_append_left (List.getElem?_eq_some_iff.mp hdelete).1, hdelete]
    · intro id hid hop
      rw [hborn, Option.bind_some] at hid
      exact hkept ops.length h id hid (by rw [List.getElem?_concat_length, hop])
  · rintro ⟨⟨record, hborn, hkept⟩, hop⟩
    refine ⟨record, hborn, fun j hj id hid hdelete => ?_⟩
    rcases getElem?_concat_eq_some_iff.mp hdelete with hbefore | ⟨-, hlast⟩
    · exact hkept j hj id hid hbefore
    · exact hop id (by rw [hborn, Option.bind_some, hid]) hlast

theorem isThere_concat_length_iff :
    IsThere (ops ++ [op]) collection ops.length ↔ ∃ record, op = .create collection record := by
  rw [IsThere, born?_concat_length]
  constructor
  · rintro ⟨record, hborn, -⟩
    cases op with
    | create other record =>
        rw [Option.ite_none_right_eq_some] at hborn
        exact ⟨record, by rw [hborn.1]⟩
    | _ => cases hborn
  · rintro ⟨record, rfl⟩
    refine ⟨_, if_pos rfl, fun j hj id _ hdelete => ?_⟩
    rcases getElem?_concat_eq_some_iff.mp hdelete with hbefore | ⟨rfl, -⟩
    · exact absurd (List.getElem?_eq_some_iff.mp hbefore).1 (Nat.lt_asymm hj)
    · exact Nat.lt_irrefl _ hj

/-- What was found before stays found; one update more finds the first record of its id. -/
theorem finds_concat_iff :
    Finds (ops ++ [op]) collection j patch i ↔ Finds ops collection j patch i ∨
      j = ops.length ∧ ∃ id, op = .update collection id patch ∧ IsFirst ops collection id i := by
  constructor
  · rintro ⟨id, hop, hfirst⟩
    rcases getElem?_concat_eq_some_iff.mp hop with hbefore | ⟨rfl, hlast⟩
    · have hj := (List.getElem?_eq_some_iff.mp hbefore).1
      rw [List.take_append_of_le_length (Nat.le_of_lt hj)] at hfirst
      exact .inl ⟨id, hbefore, hfirst⟩
    · rw [List.take_left' rfl] at hfirst
      exact .inr ⟨rfl, id, hlast, hfirst⟩
  · rintro (⟨id, hop, hfirst⟩ | ⟨rfl, id, rfl, hfirst⟩)
    · have hj := (List.getElem?_eq_some_iff.mp hop).1
      refine ⟨id, getElem?_concat_eq_some_iff.mpr (.inl hop), ?_⟩
      rwa [List.take_append_of_le_length (Nat.le_of_lt hj)]
    · exact ⟨id, List.getElem?_concat_length, by rwa [List.take_left' rfl]⟩

theorem Finds.lt_length (h : Finds ops collection j patch i) : j < ops.length := by
  obtain ⟨id, hop, -⟩ := h
  exact (List.getElem?_eq_some_iff.mp hop).1

/-- A record is shown as before after an operation that does not find it. -/
theorem Shows.concat_of_not_found (h : Shows ops collection i record) (hi : i < ops.length)
    (hno : ∀ id patch, op = .update collection id patch → ¬ IsFirst ops collection id i) :
    Shows (ops ++ [op]) collection i record := by
  have hfinds : ∀ j patch, Finds (ops ++ [op]) collection j patch i ↔
      Finds ops collection j patch i := by
    intro j patch
    rw [finds_concat_iff, or_iff_left]
    rintro ⟨-, id, hop, hfirst⟩
    exact hno id patch hop hfirst
  constructor
  · rw [born?_concat_of_lt hi]
    exact h.id_eq
  · simp only [hfinds]
    exact h.last
  · simp only [hfinds, born?_concat_of_lt hi]
    exact h.created

/-- An update shows the patch in the record that it finds. -/
theorem Shows.concat_of_found (h : Shows ops collection i record) (hi : i < ops.length)
    (hfirst : IsFirst ops collection id i) :
    Shows (ops ++ [.update collection id patch]) collection i (patched record patch) := by
  have hfound : Finds (ops ++ [.update collection id patch]) collection ops.length patch i :=
    finds_concat_iff.mpr (.inr ⟨rfl, id, rfl, hfirst⟩)
  constructor
  · obtain ⟨born, bornId, hborn, hid, heq⟩ := h.id_eq
    refine ⟨born, bornId, by rw [born?_concat_of_lt hi, hborn], hid, ?_⟩
    rw [get?_patched, if_pos rfl, heq]
  · intro name hname k found value hfinds hvalue hlast
    rw [get?_patched, if_neg hname]
    rcases finds_concat_iff.mp hfinds with hbefore | ⟨rfl, other, hop, -⟩
    · -- An earlier update counts only if the new one does not have the field.
      rw [hlast ops.length hbefore.lt_length patch hfound, Option.none_or]
      exact h.last name hname k found value hbefore hvalue fun l hl later hlater =>
        hlast l hl later (finds_concat_iff.mpr (.inl hlater))
    · obtain rfl : patch = found := by injection hop
      rw [hvalue, Option.some_or]
  · intro name hname hnone
    rw [get?_patched, if_neg hname, hnone _ _ hfound, Option.none_or, born?_concat_of_lt hi]
    exact h.created name hname fun k found hfinds =>
      hnone k found (finds_concat_iff.mpr (.inl hfinds))

/-- A record is shown as it was created. -/
theorem shows_created (ops : List Operation) (collection : String) (record : Record) :
    Shows (ops ++ [.create collection record]) collection ops.length
      (titled collection (empty.run ops).given record) := by
  have hborn : born? (ops ++ [.create collection record]) collection ops.length =
      some (titled collection (empty.run ops).given record) := by
    rw [born?_concat_length]
    exact if_pos rfl
  obtain ⟨id, hid⟩ := isSome_idOf?_titled collection (empty.run ops).given record
  constructor
  · exact ⟨_, id, hborn, hid, rfl⟩
  · intro name _ j patch value hfinds
    -- An update that finds it would have to follow.
    rcases finds_concat_iff.mp hfinds with ⟨id, hop, hfirst⟩ | ⟨-, id, hop, -⟩
    · have hlt := hfirst.isThere.lt_length
      rw [List.length_take] at hlt
      omega
    · cases hop
  · intro name _ _
    rw [hborn, Option.bind_some]

/-- What is there after one operation more was there before, or was created by it. -/
theorem isThere_concat_cases (h : IsThere (ops ++ [op]) collection i) :
    i < ops.length ∨ i = ops.length := by
  have hlt := h.lt_length
  rw [List.length_append, List.length_singleton] at hlt
  exact Nat.lt_succ_iff_lt_or_eq.mp hlt

/-! ### The whole history -/

/-- The records of a collection, one for each position whose record is there. -/
structure Lists (ops : List Operation) (collection : String) (births : List Nat)
    (records : List Record) : Prop where
  ascending : births.Pairwise (· < ·)
  mem_iff : ∀ i, i ∈ births ↔ IsThere ops collection i
  shows : List.Forall₂ (Shows ops collection) births records

namespace Lists

variable {births : List Nat} {records : List Record}

theorem nil (collection : String) : Lists [] collection [] [] where
  ascending := List.Pairwise.nil
  mem_iff i := by
    refine iff_of_false List.not_mem_nil fun h => ?_
    exact absurd h.lt_length (Nat.not_lt_zero i)
  shows := List.Forall₂.nil

theorem lt_length (h : Lists ops collection births records) {i : Nat} (hi : i ∈ births) :
    i < ops.length :=
  ((h.mem_iff i).mp hi).lt_length

theorem exists_shows (h : Lists ops collection births records) (hmem : record ∈ records) :
    ∃ i ∈ births, Shows ops collection i record := by
  obtain ⟨n, hn, rfl⟩ := List.mem_iff_getElem.mp hmem
  have hlength := h.shows.length_eq
  exact ⟨births[n], List.getElem_mem _, h.shows.get (hlength ▸ hn) hn⟩

theorem exists_idOf? (h : Lists ops collection births records) (hmem : record ∈ records) :
    ∃ id, idOf? record = some id := by
  obtain ⟨i, -, hshows⟩ := h.exists_shows hmem
  obtain ⟨born, id, -, hid, heq⟩ := hshows.id_eq
  exact ⟨id, by rw [idOf?, heq, ← idOf?, hid]⟩

/-- The record that was created at a position is listed as long as it is there, so what is listed
before an operation that takes nothing out is listed after it. -/
theorem mem_iff_concat (h : Lists ops collection births records)
    (hkeeps : ∀ id, op ≠ .delete collection id) (hmakes : ∀ record, op ≠ .create collection record)
    (i : Nat) : i ∈ births ↔ IsThere (ops ++ [op]) collection i := by
  rw [h.mem_iff]
  constructor
  · intro hthere
    exact (isThere_concat_iff hthere.lt_length).mpr ⟨hthere, fun id _ => hkeeps id⟩
  · intro hthere
    rcases isThere_concat_cases hthere with hi | rfl
    · exact ((isThere_concat_iff hi).mp hthere).1
    · obtain ⟨record, hop⟩ := isThere_concat_length_iff.mp hthere
      exact absurd hop (hmakes record)

/-- The records are shown as before after an operation that finds none of them. -/
theorem shows_concat (h : Lists ops collection births records)
    (hno : ∀ i ∈ births, ∀ id patch, op = .update collection id patch →
      ¬ IsFirst ops collection id i) :
    List.Forall₂ (Shows (ops ++ [op]) collection) births records := by
  refine ((List.forall₂_and_left births records).mpr ⟨fun i hi => hi, h.shows⟩).imp ?_
  rintro i record ⟨hi, hshows⟩
  exact hshows.concat_of_not_found (h.lt_length hi) (hno i hi)

/-- An operation on another collection. -/
theorem concat_of_ne (h : Lists ops collection births records) (hne : op.collection ≠ collection) :
    Lists (ops ++ [op]) collection births records where
  ascending := h.ascending
  mem_iff := by
    refine h.mem_iff_concat (fun id hop => hne ?_) fun record hop => hne ?_
    · rw [hop, Operation.collection]
    · rw [hop, Operation.collection]
  shows := by
    refine h.shows_concat fun i _ id patch hop _ => hne ?_
    rw [hop, Operation.collection]

/-- A creation lists its record at the end. -/
theorem concat_create (h : Lists ops collection births records) (record : Record) :
    Lists (ops ++ [.create collection record]) collection (births ++ [ops.length])
      (records ++ [titled collection (empty.run ops).given record]) where
  ascending := by
    rw [List.pairwise_append]
    refine ⟨h.ascending, List.pairwise_singleton _ _, fun i hi j hj => ?_⟩
    rw [List.mem_singleton.mp hj]
    exact h.lt_length hi
  mem_iff i := by
    rw [List.mem_append, List.mem_singleton, h.mem_iff]
    constructor
    · rintro (hthere | rfl)
      · exact (isThere_concat_iff hthere.lt_length).mpr ⟨hthere, fun _ _ => nofun⟩
      · exact isThere_concat_length_iff.mpr ⟨record, rfl⟩
    · intro hthere
      refine (isThere_concat_cases hthere).imp (fun hi => ?_) id
      exact ((isThere_concat_iff hi).mp hthere).1
  shows := by
    refine List.rel_append (h.shows_concat fun _ _ _ _ => ?_) ?_
    · exact nofun
    · exact .cons (shows_created ops collection record) .nil

/-- A deletion takes all records of its id out. -/
theorem concat_delete (h : Lists ops collection births records) (id : String) :
    Lists (ops ++ [.delete collection id]) collection
      (births.filter fun i => (born? ops collection i).bind idOf? ≠ some id)
      (records.filter fun record => idOf? record ≠ some id) where
  ascending := h.ascending.filter _
  mem_iff i := by
    rw [List.mem_filter, h.mem_iff, decide_eq_true_iff]
    constructor
    · rintro ⟨hthere, hid⟩
      refine (isThere_concat_iff hthere.lt_length).mpr ⟨hthere, fun other hother hop => hid ?_⟩
      obtain rfl : id = other := by injection hop
      exact hother
    · intro hthere
      rcases isThere_concat_cases hthere with hi | rfl
      · obtain ⟨hbefore, hdeleted⟩ := (isThere_concat_iff hi).mp hthere
        exact ⟨hbefore, fun hid => hdeleted id hid rfl⟩
      · obtain ⟨record, hop⟩ := isThere_concat_length_iff.mp hthere
        cases hop
  shows := by
    have hshows : List.Forall₂ (Shows (ops ++ [.delete collection id]) collection) births records :=
      h.shows_concat fun _ _ _ _ hop => nomatch hop
    refine (List.rel_filter ?_ ((List.forall₂_and_left births records).mpr
      ⟨fun i hi => h.lt_length hi, hshows⟩)).imp fun i record hboth => hboth.2
    rintro i record ⟨hi, hshown⟩
    have hid := hshown.idOf?_eq
    rw [born?_concat_of_lt hi] at hid
    beta_reduce
    rw [hid]

/-- An update patches the first record of its id. -/
theorem concat_update (h : Lists ops collection births records) (id : String) (patch : Record) :
    Lists (ops ++ [.update collection id patch]) collection births
      (patchFirst id patch records) where
  ascending := h.ascending
  mem_iff := h.mem_iff_concat nofun nofun
  shows := by
    obtain ⟨ascending, mem_iff, shows⟩ := h
    have hthere : ∀ i ∈ births, IsThere ops collection i := fun i => (mem_iff i).mp
    have hrest : ∀ k, IsThere ops collection k → (born? ops collection k).bind idOf? = some id →
        k ∈ births := fun k hk _ => (mem_iff k).mpr hk
    clear mem_iff
    -- The records that were passed over are not of this id, so one that is there and of this id
    -- is among the rest.
    induction shows with
    | nil => exact .nil
    | @cons i record births records hshows hrecords ih =>
        rw [List.pairwise_cons] at ascending
        rw [List.forall_mem_cons] at hthere
        have hi := hthere.1.lt_length
        rw [patchFirst]
        split
        · next hid =>
            have hborn : (born? ops collection i).bind idOf? = some id :=
              hshows.idOf?_eq.trans hid
            have hfirst : IsFirst ops collection id i := by
              refine ⟨hthere.1, hborn, fun k hk hkthere hkid => ?_⟩
              rcases List.mem_cons.mp (hrest k hkthere hkid) with rfl | hmem
              · exact Nat.lt_irrefl k hk
              · exact Nat.lt_asymm hk (ascending.1 k hmem)
            refine .cons (hshows.concat_of_found hi hfirst) ?_
            refine ((List.forall₂_and_left births records).mpr ⟨fun k hk => hk, hrecords⟩).imp ?_
            rintro k record ⟨hk, hshown⟩
            have hlt := (hthere.2 k hk).lt_length
            refine hshown.concat_of_not_found hlt fun other _ hop hkfirst => ?_
            obtain rfl : id = other := by injection hop
            exact hkfirst.first i (ascending.1 k hk) hthere.1 hborn
        · next hid =>
            have hborn : (born? ops collection i).bind idOf? ≠ some id := by
              rwa [hshows.idOf?_eq]
            refine .cons (hshows.concat_of_not_found hi fun other _ hop hfirst => ?_) ?_
            · obtain rfl : id = other := by injection hop
              exact hborn hfirst.id_eq
            · refine ih ascending.2 hthere.2 fun k hkthere hkid => ?_
              refine (List.mem_cons.mp (hrest k hkthere hkid)).resolve_left ?_
              rintro rfl
              exact hborn hkid

/-- One operation more. -/
theorem concat (h : Lists ops collection births ((empty.run ops).all collection))
    (op : Operation) :
    ∃ later, Lists (ops ++ [op]) collection later ((empty.run (ops ++ [op])).all collection) := by
  rw [run_concat]
  by_cases hne : op.collection = collection
  · cases op with
    | create other record =>
        obtain rfl : other = collection := hne
        rw [step, all_create, if_pos rfl]
        exact ⟨_, h.concat_create record⟩
    | update other id patch =>
        obtain rfl : other = collection := hne
        rw [step, all_update, if_pos rfl]
        exact ⟨_, h.concat_update id patch⟩
    | delete other id =>
        obtain rfl : other = collection := hne
        rw [step, all_delete, if_pos rfl]
        exact ⟨_, h.concat_delete id⟩
  · rw [all_step_of_ne hne]
    exact ⟨births, h.concat_of_ne hne⟩

end Lists

theorem exists_lists (ops : List Operation) (collection : String) :
    ∃ births, Lists ops collection births ((empty.run ops).all collection) := by
  induction ops using List.reverseRecOn with
  | nil => exact ⟨[], Lists.nil collection⟩
  | append_singleton ops op ih =>
      obtain ⟨births, h⟩ := ih
      exact h.concat op

/-- An update of an id that no record has patches none. -/
theorem patchFirst_of_unknown {records : List Record} (h : ∀ r ∈ records, idOf? r ≠ some id)
    (patch : Record) : patchFirst id patch records = records := by
  induction records with
  | nil => rfl
  | cons record r ih =>
      rw [List.forall_mem_cons] at h
      rw [patchFirst, if_neg h.1, ih h.2]

/-- After any operations a collection lists the records that were created in it and whose ids were
not deleted since, in the order of their creation and each with the fields that it was created with
and then updated. One operation more changes no other collection; a deletion takes out exactly the
records of its id, and nothing is changed where no record has the id. -/
theorem all_run (ops : List Operation) (collection : String) :
    (∃ births, Lists ops collection births ((empty.run ops).all collection)) ∧
      (∀ record ∈ (empty.run ops).all collection, ∃ id, idOf? record = some id) ∧
      (∀ id, (empty.run (ops ++ [.delete collection id])).all collection =
        ((empty.run ops).all collection).filter fun record => idOf? record ≠ some id) ∧
      (∀ id patch, (∀ record ∈ (empty.run ops).all collection, idOf? record ≠ some id) →
        (empty.run (ops ++ [.update collection id patch])).all collection =
          (empty.run ops).all collection) ∧
      ∀ op, op.collection ≠ collection →
        (empty.run (ops ++ [op])).all collection = (empty.run ops).all collection := by
  obtain ⟨births, h⟩ := exists_lists ops collection
  refine ⟨⟨births, h⟩, fun record => h.exists_idOf?, fun id => ?_, fun id patch hunknown => ?_,
    fun op hne => ?_⟩
  · rw [run_concat, step, all_delete, if_pos rfl]
  · rw [run_concat, step, all_update, if_pos rfl, patchFirst_of_unknown hunknown]
  · rw [run_concat, all_step_of_ne hne]

end LiveScene.RecordStore
