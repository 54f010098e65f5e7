import LiveScene.Value

/-!
# LiveScene.CellStore

Cells: named values that change. A cell is created once and then only assigned. Every
assignment raises the version of its cell by one, so that a writer who must not overwrite
another's value can make its write depend on the version it has seen (`compareAndWrite`).
-/

namespace LiveScene

/-- A value and the number of its assignments. -/
structure Cell where
  value : Value
  /-- Counted without a bound, where a word of sixty-four bits would do for any run. -/
  version : Nat
deriving DecidableEq

/-- The cells of one running instance. -/
structure CellStore where
  /-- The name of the instance. -/
  owner : String
  cells : Dict Cell
deriving DecidableEq

/-- What a conditional write did. -/
inductive CasOutcome where
  /-- It was done, and the cell has a new version. -/
  | written (version : Nat)
  /-- The cell had another version than expected. -/
  | stale (current : Nat)
  /-- There is no such cell. -/
  | missing
deriving Repr, DecidableEq

namespace CellStore

/-- A store without cells. -/
def new (owner : String) : CellStore := ⟨owner, ∅⟩

/-- A cell. -/
def cell? (s : CellStore) (id : String) : Option Cell := s.cells.get? id

/-- The value of a cell. -/
def read? (s : CellStore) (id : String) : Option Value := (s.cell? id).map Cell.value

/-- The number that a cell reads as; zero if there is none. -/
def readNumber (s : CellStore) (id : String) : Float :=
  ((s.read? id).map Value.toNumber).getD 0

/-- The version of a cell. -/
def version? (s : CellStore) (id : String) : Option Nat := (s.cell? id).map Cell.version

/-- Whether there is a cell. -/
def contains (s : CellStore) (id : String) : Bool := s.cells.contains id

/-- The number of cells. -/
def size (s : CellStore) : Nat := s.cells.size

/-- The value of every cell. -/
def snapshot (s : CellStore) : Dict Value := s.cells.mapValues fun _ cell => cell.value

/-- Creates a cell, and tells whether it did: a name that is taken keeps its cell. -/
def create (s : CellStore) (id : String) (initial : Value) : CellStore × Bool :=
  if s.contains id then (s, false)
  else ({ s with cells := s.cells.insert id ⟨initial, 0⟩ }, true)

/-- Assigns what a function makes of the value of a cell, and answers the new version. -/
def update (s : CellStore) (id : String) (f : Value → Value) : CellStore × Option Nat :=
  match s.cell? id with
  | some cell =>
    let next := cell.version + 1
    ({ s with cells := s.cells.insert id ⟨f cell.value, next⟩ }, some next)
  | none => (s, none)

/-- Assigns a value to a cell. -/
def write (s : CellStore) (id : String) (value : Value) : CellStore × Option Nat :=
  s.update id fun _ => value

/-- Assigns a value to a cell that still has an expected version. -/
def compareAndWrite (s : CellStore) (id : String) (expected : Nat) (value : Value) :
    CellStore × CasOutcome :=
  match s.cell? id with
  | none => (s, .missing)
  | some cell =>
    if cell.version = expected then
      let next := cell.version + 1
      ({ s with cells := s.cells.insert id ⟨value, next⟩ }, .written next)
    else (s, .stale cell.version)

/-- A store with the given cells; of two with one name the first stays. -/
def ofList (owner : String) (cells : List (String × Value)) : CellStore :=
  cells.foldl (fun s cell => (s.create cell.1 cell.2).1) (new owner)

@[simp] theorem owner_create (s : CellStore) (id : String) (initial : Value) :
    (s.create id initial).1.owner = s.owner := by
  unfold create; split <;> rfl

@[simp] theorem owner_update (s : CellStore) (id : String) (f : Value → Value) :
    (s.update id f).1.owner = s.owner := by
  unfold update; split <;> rfl

/-! ### What the operations do to a cell -/

theorem cell?_create (s : CellStore) (id other : String) (initial : Value) :
    (s.create id initial).1.cell? other =
      if other = id then some ((s.cell? id).getD ⟨initial, 0⟩) else s.cell? other := by
  unfold create contains cell? Dict.contains
  by_cases h : other = id
  · subst h; cases hg : s.cells.get? other <;> simp [hg]
  · split <;> simp [h]

theorem cell?_update (s : CellStore) (id other : String) (f : Value → Value) :
    (s.update id f).1.cell? other =
      if other = id then (s.cell? id).map fun cell => ⟨f cell.value, cell.version + 1⟩
      else s.cell? other := by
  unfold update
  by_cases h : other = id
  · subst h
    cases hg : s.cell? other with
    | none => simpa using hg
    | some cell => simp [cell?]
  · cases hg : s.cell? id <;> simp [cell?, h]

end CellStore

end LiveScene
