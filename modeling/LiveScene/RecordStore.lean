import LiveScene.Json.Printer

/-!
# LiveScene.RecordStore

Collections of records, each in the order of creation.

A record is known by its field `id`, a text or a number; numbers are known by their texts.
One that comes without such a field is given one: the name of its collection and a count that
all collections share.
-/

namespace LiveScene

open Json (Record)

/-- The collections by their names. -/
structure RecordStore where
  collections : Dict (List Record)
  /-- How many records were given an id. It has no bound, where a word of sixty-four bits would do
  for any run. -/
  given : Nat

namespace RecordStore

/-- The field that a record is known by. -/
def idField : String := "id"

/-- The id of a record. -/
def idOf? (record : Record) : Option String :=
  match record.get? idField with
  | some (.str s) => some s
  | some (.num n) => some n.text
  | _ => none

/-- A store without records. -/
def empty : RecordStore := ⟨∅, 0⟩

instance : Inhabited RecordStore := ⟨empty⟩

/-- The records of a collection. -/
def all (s : RecordStore) (collection : String) : List Record :=
  (s.collections.get? collection).getD []

/-- Puts the records of a collection in place of those it has. -/
def setAll (s : RecordStore) (collection : String) (records : List Record) : RecordStore :=
  { s with collections := s.collections.insert collection records }

/-- Appends a record to its collection, and answers its id. -/
def create (s : RecordStore) (collection : String) (record : Record) : RecordStore × String :=
  match idOf? record with
  | some id => (s.setAll collection (s.all collection ++ [record]), id)
  | none =>
    let count := s.given + 1
    let id := collection ++ "-" ++ toString count
    let record := record.insert idField (.str id)
    ({ s with given := count }.setAll collection (s.all collection ++ [record]), id)

/-- A record with the fields of a patch in place of its own, all but the id. -/
def patched (record patch : Record) : Record := record.merge (patch.erase idField)

/-- The records with the first of an id patched. -/
def patchFirst (id : String) (patch : Record) : List Record → List Record
  | [] => []
  | record :: r =>
    if idOf? record = some id then patched record patch :: r
    else record :: patchFirst id patch r

/-- Patches the first record of an id. -/
def update (s : RecordStore) (collection id : String) (patch : Record) : RecordStore :=
  s.setAll collection (patchFirst id patch (s.all collection))

/-- Removes all records of an id. -/
def delete (s : RecordStore) (collection id : String) : RecordStore :=
  s.setAll collection ((s.all collection).filter fun record => idOf? record ≠ some id)

/-! ### What the operations do to the records of a collection -/

@[simp] theorem all_setAll (s : RecordStore) (collection other : String)
    (records : List Record) :
    (s.setAll collection records).all other =
      if other = collection then records else s.all other := by
  unfold setAll all
  by_cases h : other = collection <;> simp [h]

end RecordStore

end LiveScene
