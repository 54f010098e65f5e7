import LiveScene.CellStore
import LiveScene.Expr.Piecewise

/-!
# LiveScene.Expr.Eval

The value of an expression. Evaluation reads cells and parameters and changes nothing; it has
an answer for every expression: cells and parameters that do not exist are zero, and no
operator yields what is no number.
-/

namespace LiveScene.Expr

mutual

/-- The value of an expression. -/
def eval (cells : CellStore) (params : Params) : Expr → Value
  | literal value => value
  | cell id => (cells.read? id).getD (.number 0)
  | param name => .number ((params.get? name).getD 0)
  | op operator args =>
    .number (Binary64.orZero (operator.apply (evalNumbers cells params args)))
  | interpolate input breakpoints outputs =>
    .number (Binary64.orZero
      (LiveScene.interpolate (eval cells params input).toNumber breakpoints outputs))
  | interpolateColor input breakpoints outputs =>
    .text (LiveScene.interpolateColor (eval cells params input).toNumber breakpoints
      outputs).display
  | conditional left test right yes no =>
    if test.holds (eval cells params left) (eval cells params right) then
      eval cells params yes
    else eval cells params no

/-- The numbers of a list of expressions. -/
def evalNumbers (cells : CellStore) (params : Params) : List Expr → List Float
  | [] => []
  | e :: r => (eval cells params e).toNumber :: evalNumbers cells params r

end

/-- The number of an expression. -/
def evalNumber (cells : CellStore) (params : Params) (e : Expr) : Float :=
  (e.eval cells params).toNumber

theorem evalNumbers_eq_map (cells : CellStore) (params : Params) (es : List Expr) :
    evalNumbers cells params es = es.map (evalNumber cells params) := by
  induction es with
  | nil => simp [evalNumbers]
  | cons e r ih => simp [evalNumbers, evalNumber, ih]

end LiveScene.Expr
