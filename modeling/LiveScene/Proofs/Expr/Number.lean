import LiveScene.Expr.Eval

/-!
# LiveScene.Proofs.Expr.Number

The number of an expression.

Every reading as a number puts zero for what is no number, so the number of an expression is one
(`isNaN_evalNumber`), and reading a guarded number once more changes nothing (`orZero_orZero`).
-/

namespace LiveScene

namespace Binary64

theorem isNaN_orZero (x : Float) : (orZero x).isNaN = false := by
  unfold orZero
  split
  · rfl
  · next h => exact Bool.eq_false_iff.mpr h

theorem orZero_of_isNaN {x : Float} (h : x.isNaN = false) : orZero x = x := by
  rw [orZero, h]
  rfl

theorem orZero_eq_zero {x : Float} (h : x.isNaN = true) : orZero x = 0 := by
  rw [orZero, if_pos h]

@[simp] theorem orZero_orZero (x : Float) : orZero (orZero x) = orZero x :=
  orZero_of_isNaN (isNaN_orZero x)

end Binary64

theorem Value.isNaN_toNumber (v : Value) : v.toNumber.isNaN = false := by
  cases v with
  | number x => exact Binary64.isNaN_orZero x
  | bool b => cases b <;> rfl
  | text s => exact Binary64.isNaN_orZero _

namespace Expr

variable (cells : CellStore) (params : Params)

theorem isNaN_evalNumber (e : Expr) : (e.evalNumber cells params).isNaN = false :=
  Value.isNaN_toNumber _

@[simp] theorem evalNumber_literal (x : Float) :
    (literal (.number x)).evalNumber cells params = Binary64.orZero x := by
  rw [evalNumber, eval, Value.toNumber]

@[simp] theorem evalNumber_op (operator : Operator) (args : List Expr) :
    (op operator args).evalNumber cells params =
      Binary64.orZero (operator.apply (args.map (evalNumber cells params))) := by
  rw [evalNumber, eval, Value.toNumber, evalNumbers_eq_map, Binary64.orZero_orZero]

@[simp] theorem evalNumber_interpolate (input : Expr) (breakpoints outputs : List Float) :
    (interpolate input breakpoints outputs).evalNumber cells params =
      Binary64.orZero
        (LiveScene.interpolate (input.evalNumber cells params) breakpoints outputs) := by
  rw [evalNumber, eval, Value.toNumber, Binary64.orZero_orZero, evalNumber]

end Expr

end LiveScene
