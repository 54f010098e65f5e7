import LiveScene.Proofs.Animation.Frame
import LiveScene.Proofs.Scene.Operation

/-!
# LiveScene.Proofs.Scene.Cells

Cells stay, keep their types, and count their changes.

`CellStore.Evolves` relates what the cells are at one time of a run to what they are later. It is
a preorder, and each way to write a cell moves along it: creation keeps a name that is taken,
assignments coerce to the type that the cell has, and animations write numbers to number cells
only.
-/

namespace LiveScene

/-- What may become of a cell. -/
structure Cell.Evolves (c d : Cell) : Prop where
  type_eq : d.value.type = c.value.type
  version_le : c.version ≤ d.version
  version_lt : d.value ≠ c.value → c.version < d.version

namespace Cell.Evolves

theorem refl (c : Cell) : c.Evolves c := ⟨rfl, Nat.le_refl _, fun h => absurd rfl h⟩

theorem trans {c d e : Cell} (h₁ : c.Evolves d) (h₂ : d.Evolves e) : c.Evolves e where
  type_eq := h₂.type_eq.trans h₁.type_eq
  version_le := Nat.le_trans h₁.version_le h₂.version_le
  version_lt hne := by
    -- The value changed on the first way, or it did on the second.
    by_cases hd : d.value = c.value
    · exact Nat.lt_of_le_of_lt h₁.version_le (h₂.version_lt fun he => hne (he.trans hd))
    · exact Nat.lt_of_lt_of_le (h₁.version_lt hd) h₂.version_le

/-- An assignment that keeps the type. -/
theorem assigned (c : Cell) {value : Value} (h : value.type = c.value.type) :
    c.Evolves ⟨value, c.version + 1⟩ :=
  ⟨h, Nat.le_succ _, fun _ => Nat.lt_succ_self _⟩

end Cell.Evolves

namespace CellStore

/-- What may become of cells: each stays, and evolves. Others may appear. -/
def Evolves (s t : CellStore) : Prop :=
  ∀ id c, s.cell? id = some c → ∃ d, t.cell? id = some d ∧ c.Evolves d

namespace Evolves

theorem refl (s : CellStore) : s.Evolves s := fun _ c h => ⟨c, h, Cell.Evolves.refl c⟩

theorem trans {s t u : CellStore} (h₁ : s.Evolves t) (h₂ : t.Evolves u) : s.Evolves u := by
  intro id c hc
  obtain ⟨d, hd, hcd⟩ := h₁ id c hc
  obtain ⟨e, he, hde⟩ := h₂ id d hd
  exact ⟨e, he, hcd.trans hde⟩

end Evolves

/-- A name that is taken keeps its cell. -/
theorem evolves_create (s : CellStore) (id : String) (initial : Value) :
    s.Evolves (s.create id initial).1 := by
  intro other c hc
  refine ⟨c, ?_, Cell.Evolves.refl c⟩
  rw [cell?_create]
  split
  · next h => rw [← h, hc, Option.getD_some]
  · exact hc

/-- An assignment that keeps the type of the value it finds. -/
theorem evolves_update (s : CellStore) (id : String) {f : Value → Value}
    (hf : ∀ c, s.cell? id = some c → (f c.value).type = c.value.type) :
    s.Evolves (s.update id f).1 := by
  intro other c hc
  by_cases h : other = id
  · subst h
    refine ⟨⟨f c.value, c.version + 1⟩, ?_, Cell.Evolves.assigned c (hf c hc)⟩
    rw [cell?_update, if_pos rfl, hc, Option.map_some]
  · exact ⟨c, by rw [cell?_update, if_neg h]; exact hc, Cell.Evolves.refl c⟩

end CellStore

/-! ### Edits and frames -/

namespace Stage

theorem Edited.evolves {ok : Float → Prop} {s t : Stage} (h : Edited ok s t) :
    s.cells.Evolves t.cells := by
  induction h with
  | refl => exact CellStore.Evolves.refl s.cells
  | create h id type initial ih => exact ih.trans (CellStore.evolves_create _ id _)
  | @assign t h cell op operand ih =>
      refine ih.trans ?_
      unfold Stage.assign
      split
      · exact CellStore.Evolves.refl t.cells
      · exact t.cells.evolves_update cell fun c _ => AssignOp.type_apply op operand c.value
  | animate h cell hok durationMs curve ih => exact ih

end Stage

namespace Animator

/-- A tween writes to its cell only if that holds a number, and writes a number. -/
theorem evolves_frameCell (now : Duration) (cells : CellStore) (cell : String) (tween : Tween) :
    cells.Evolves (frameCell now cells cell tween).1 := by
  unfold frameCell
  split
  · next x hread =>
      refine cells.evolves_update cell fun c hc => ?_
      rw [CellStore.read?, hc, Option.map_some, Option.some.injEq] at hread
      rw [hread]
      rfl
  · exact CellStore.Evolves.refl cells

theorem evolves_frameEntries (now : Duration) (cells : CellStore)
    (entries : List (String × Tween)) :
    cells.Evolves (frameEntries now cells entries).1 := by
  induction entries generalizing cells with
  | nil => exact CellStore.Evolves.refl cells
  | cons e r ih =>
      rw [cells_frameEntries_cons]
      exact (evolves_frameCell now cells e.1 e.2).trans (ih (frameCell now cells e.1 e.2).1)

end Animator

theorem Stage.evolves_frame (s : Stage) (now : Duration) :
    s.cells.Evolves (s.frame now).cells := by
  cases h : s.renderer with
  | animator a =>
      rw [Stage.frame, h]
      exact Animator.evolves_frameEntries now s.cells a.tweens.entries
  | recorder requests =>
      rw [Stage.frame, h]
      exact CellStore.Evolves.refl s.cells
  | idle =>
      rw [Stage.frame, h]
      exact CellStore.Evolves.refl s.cells

/-! ### Runs -/

namespace Scene

theorem evolves_step (s : Scene) (op : Operation) : s.cells.Evolves (s.step op).1.cells := by
  have hmoved : s.cells.Evolves (s.moved op).cells := by
    cases op with
    | frame now =>
        by_cases htorn : s.tornDown = true
        · rw [moved, if_pos htorn]
          exact CellStore.Evolves.refl s.cells
        · rw [moved, if_neg htorn]
          exact s.stage.evolves_frame now
    | _ => exact CellStore.Evolves.refl s.cells
  have hedited : Stage.Edited (fun _ => True) (s.moved op) (s.step op).1.stage :=
    edited_step (fun _ => trivial) s op fun _ _ => trivial
  exact hmoved.trans hedited.evolves

theorem evolves_run (s : Scene) (ops : List Operation) : s.cells.Evolves (s.run ops).1.cells := by
  induction ops generalizing s with
  | nil => exact CellStore.Evolves.refl s.cells
  | cons op r ih => exact (evolves_step s op).trans (ih (s.step op).1)

/-- Between any two times of a run every cell stays, with the type that it has, and with a version
that does not fall and that has grown if the value is another. -/
theorem cells_evolve (s : Scene) (before after : List Operation) :
    (s.run before).1.cells.Evolves (s.run (before ++ after)).1.cells := by
  rw [run_append]
  exact evolves_run (s.run before).1 after

end Scene

end LiveScene
