import LiveScene.Value

/-!
# LiveScene.Expr.Basic

Expressions over cells and parameters, and the six comparisons between values.
-/

namespace LiveScene

/-- The numbers that go with an interaction, by name: distances of a drag and the like. -/
abbrev Params := Dict Float

/-- The operators. -/
inductive Operator where
  | add
  | sub
  | mul
  | div
  | clamp
  | lerp
  | min
  | max
  | mod
deriving Repr, DecidableEq

/-- The comparisons. -/
inductive Comparison where
  | gt
  | ge
  | lt
  | le
  | eq
  | ne
deriving Repr, DecidableEq

/-- An expression. -/
inductive Expr where
  /-- A value. -/
  | literal (value : Value)
  /-- The value of a cell. -/
  | cell (id : String)
  /-- A number of the interaction. -/
  | param (name : String)
  /-- An operator on numbers. -/
  | op (op : Operator) (args : List Expr)
  /-- The piecewise linear map that takes each breakpoint to its output, constant outside. -/
  | interpolate (input : Expr) (breakpoints outputs : List Float)
  /-- The same map to colours, given by their texts. -/
  | interpolateColor (input : Expr) (breakpoints : List Float) (outputs : List String)
  /-- One of two expressions, by a comparison of two others. -/
  | conditional (left : Expr) (test : Comparison) (right yes no : Expr)

namespace Comparison

/-- The comparison of what is ordered. -/
def ofOrder {α : Type} [LT α] [LE α] [BEq α] [∀ l r : α, Decidable (l < r)]
    [∀ l r : α, Decidable (l ≤ r)] (test : Comparison) (l r : α) : Bool :=
  match test with
  | gt => decide (r < l)
  | ge => decide (r ≤ l)
  | lt => decide (l < r)
  | le => decide (l ≤ r)
  | eq => l == r
  | ne => !(l == r)

/-- Whether a comparison holds: between two texts by their order, else between numbers. -/
def holds (test : Comparison) (l r : Value) : Bool :=
  match l, r with
  | .text s, .text t => test.ofOrder s t
  | l, r => test.ofOrder l.toNumber r.toNumber

/-- The comparisons by their signs. -/
def choices : List (String × Comparison) :=
  [(">", gt), (">=", ge), ("<", lt), ("<=", le), ("==", eq), ("!=", ne)]

/-- The sign of a comparison. -/
def name : Comparison → String
  | gt => ">"
  | ge => ">="
  | lt => "<"
  | le => "<="
  | eq => "=="
  | ne => "!="

end Comparison

namespace Operator

/-- The operators by their names. -/
def choices : List (String × Operator) :=
  [("add", add), ("sub", sub), ("mul", mul), ("div", div), ("clamp", clamp), ("lerp", lerp),
   ("min", min), ("max", max), ("mod", mod)]

/-- The name of an operator. -/
def name : Operator → String
  | add => "add"
  | sub => "sub"
  | mul => "mul"
  | div => "div"
  | clamp => "clamp"
  | lerp => "lerp"
  | min => "min"
  | max => "max"
  | mod => "mod"

/-- An argument by its position; zero if it is not given. -/
def arg (args : List Float) (i : Nat) : Float := args[i]?.getD 0

/-- The point at `t` of the way from `a` to `b`. -/
def mix (a b t : Float) : Float := a + (b - a) * t

/-- What an operator makes of its arguments. A divisor that is zero counts as one, and so does
not change what it divides. The sum of nothing is minus zero, the value that changes no sum. -/
def apply (op : Operator) (args : List Float) : Float :=
  match op with
  | add => args.foldl (· + ·) (-0.0)
  | mul => args.foldl (· * ·) 1
  | sub =>
    match args with
    | [] => 0
    | first :: rest => rest.foldl (· - ·) first
  | div =>
    match args with
    | [] => 0
    | first :: rest => rest.foldl (fun x y => x / if y == 0 then 1 else y) first
  | clamp =>
    let low := args[1]?.getD (Binary64.signed true Binary64.infinity)
    let high := args[2]?.getD (Binary64.signed false Binary64.infinity)
    Binary64.smaller (Binary64.greater (arg args 0) low) high
  | lerp => mix (arg args 0) (arg args 1) (arg args 2)
  | min =>
    match args with
    | [] => 0
    | first :: rest => rest.foldl Binary64.smaller first
  | max =>
    match args with
    | [] => 0
    | first :: rest => rest.foldl Binary64.greater first
  | mod =>
    let a := arg args 0
    let b := arg args 1
    if b == 0 then a else Binary64.remainder (Binary64.remainder a b + b) b

end Operator

end LiveScene
