import LiveScene.Proofs.Decimal.RoundTrip
import LiveScene.Scene

/-!
# LiveScene.Proofs.Scene.TextCell

Numbers that are kept in text cells.

A cell keeps its type, so a number that is assigned to a text cell is kept as its text, and whoever
asks for the number of the cell reads this text. Events and actions assign in the same way
(`Stage.evalNumber_assign`), and neither animates a text cell. So a number comes back as it was,
with its sign also where it is zero, and where it is infinite
(`Scene.evalNumber_cell_of_number`).
-/

namespace LiveScene

open Performer

/-! ### Readings of a text cell -/

/-- An assignment changes the value of a cell that there is. -/
theorem CellStore.read?_update (s : CellStore) (id : String) (f : Value → Value) :
    (s.update id f).1.read? id = (s.read? id).map f := by
  rw [read?, cell?_update, if_pos rfl, read?, Option.map_map, Option.map_map]
  rfl

/-- The number of a text cell is what is read from its text. -/
theorem Expr.evalNumber_cell {cells : CellStore} {id : String} {v : Value}
    (h : cells.read? id = some v) (params : Params) :
    (cell id).evalNumber cells params = v.toNumber := by
  rw [evalNumber, eval, h, Option.getD_some]

variable {id t : String}

/-- What is assigned to a text cell is read from its text. -/
theorem Stage.evalNumber_assign {s : Stage} (hcell : s.cells.read? id = some (.text t))
    (v : Value) (params : Params) :
    (Expr.cell id).evalNumber (s.assign id .set v).cells params =
      (Value.text v.display).toNumber := by
  refine Expr.evalNumber_cell ?_ params
  show (s.cells.update id (AssignOp.set.apply v)).1.read? id = _
  rw [CellStore.read?_update, hcell]
  rfl

/-- A request for an animation does not count for a text cell. -/
theorem Assembly.stage_updateCell {a : Assembly} (hcell : a.stage.cells.read? id = some (.text t))
    (v : Value) (animated : Bool) (durationMs : Option UInt64) :
    (a.updateCell id v animated durationMs).stage = a.stage.assign id .set v := by
  have hholds : a.holdsNumber id = false := by rw [holdsNumber, hcell]
  unfold updateCell
  split
  · rw [hholds, Bool.and_false]
    rfl
  · rfl

/-! ### Numbers come back -/

namespace Scene

variable {s : Scene}

theorem evalNumber_apply_updateCell (hcell : s.cells.read? id = some (.text t)) (v : Value)
    (animated : Bool) (durationMs : Option UInt64) (params : Params) :
    (Expr.cell id).evalNumber (s.apply (.updateCell id v animated durationMs)).cells params =
      (Value.text v.display).toNumber := by
  have hstage : (s.apply (.updateCell id v animated durationMs)).cells =
      (s.performer.stage.assign id .set v).cells := by
    rw [apply, Assembly.apply, Event.apply]
    exact congrArg Stage.cells
      (Assembly.stage_updateCell (a := s.assembly) hcell v animated durationMs)
  rw [hstage]
  exact Stage.evalNumber_assign hcell v params

theorem evalNumber_execute_assignCell {i : Invocation} {e : Expr} {declared : Option Context}
    (hcell : s.cells.read? id = some (.text t))
    (hbar : isBarred i.context (.mk (.assignCell id .set e) declared) = false) (params : Params) :
    (Expr.cell id).evalNumber
        (s.execute [.mk (.assignCell id .set e) declared] i).1.cells params =
      (Value.text (s.performer.eval i e).display).toNumber := by
  have hstage : (s.execute [.mk (.assignCell id .set e) declared] i).1.cells =
      (s.performer.stage.assign id .set (s.performer.eval i e)).cells := by
    simp only [execute, Scene.perform, performAll, Performer.perform, hbar, performTask]
    rfl
  rw [hstage]
  exact Stage.evalNumber_assign hcell _ params

/-- A number is kept by texts: by its own, which is read back as the number, and by text cells,
whether an event or an action assigns it. -/
theorem evalNumber_cell_of_number {x : Float} (hx : x.isNaN = false) :
    (∃ text, (Value.number x).coerce .string = .text text ∧ (Value.text text).toNumber = x) ∧
      ((Value.number x).coerce .string).coerce .number = .number x ∧
      (∀ (s : Scene) (id t : String) (animated : Bool) (durationMs : Option UInt64)
        (params : Params), s.cells.read? id = some (.text t) →
        (Expr.cell id).evalNumber (s.apply (.updateCell id (.number x) animated durationMs)).cells
          params = x) ∧
      ∀ (s : Scene) (id t : String) (i : Invocation) (e : Expr) (declared : Option Context)
        (params : Params), s.cells.read? id = some (.text t) →
        isBarred i.context (.mk (.assignCell id .set e) declared) = false →
        s.performer.eval i e = .number x →
        (Expr.cell id).evalNumber
          (s.execute [.mk (.assignCell id .set e) declared] i).1.cells params = x := by
  have hread := Value.toNumber_text_plainText hx
  refine ⟨⟨_, rfl, hread⟩, congrArg Value.number hread, ?_, ?_⟩
  · intro s id t animated durationMs params hcell
    rw [evalNumber_apply_updateCell hcell]
    exact hread
  · intro s id t i e declared params hcell hbar heval
    rw [evalNumber_execute_assignCell hcell hbar, heval]
    exact hread

/-- A scene with a text cell. -/
def labelled : Scene :=
  (Scene.new "scene" {} (.animator {}) default).apply (.createCell "label" .string (.text "none"))

/-- The negative double that is closest to zero. -/
def least : Float := Binary64.signed true 1

theorem evalNumber_cell_of_least :
    least.isNaN = false ∧ labelled.cells.read? "label" = some (.text "none") ∧
      ((Value.number least).coerce .string).coerce .number = .number least ∧
      (Expr.cell "label").evalNumber
        (labelled.apply (.updateCell "label" (.number least) true none)).cells ∅ = least ∧
      (Expr.cell "label").evalNumber
        (labelled.execute [.mk (.assignCell "label" .set (.literal (.number least))) none]
          ⟨.lowLatency, ∅, none, .zero⟩).1.cells ∅ = least := by
  have hnumber : least.isNaN = false := by decide +kernel
  have hcell : labelled.cells.read? "label" = some (.text "none") := by rfl
  obtain ⟨-, hcoerce, hevent, haction⟩ := evalNumber_cell_of_number hnumber
  refine ⟨hnumber, hcell, hcoerce, hevent _ _ _ _ _ _ hcell, haction _ _ _ _ _ _ _ hcell ?_ ?_⟩
  · rfl
  · rfl

end Scene

end LiveScene
