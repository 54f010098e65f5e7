import LiveScene.Proofs.Binary64.Rank
import LiveScene.Proofs.Expr.Number
import Mathlib.Data.String.Basic

/-!
# LiveScene.Proofs.Expr.Comparison

The six comparisons as one test of an order.

Two texts are ordered as texts, and any other two values as their numbers. No reading of a value is
what is no number, so every two values are ordered in one of three ways (`Value.order`), and each
comparison admits some of the three (`holds_eq_admits`). All that ties the comparisons to each other
is read off this table.
-/

namespace LiveScene

/-- How a value is ordered to another one. -/
def Value.order : Value → Value → Ordering
  | .text s, .text t => compare s t
  | l, r => compare (Binary64.rank l.toNumber) (Binary64.rank r.toNumber)

theorem Value.order_swap (l r : Value) : (l.order r).swap = r.order l := by
  cases l <;> cases r <;> exact Std.OrientedOrd.eq_swap.symm

namespace Comparison

/-- Whether a comparison holds of two sides that are ordered in a given way. -/
def admits : Comparison → Ordering → Bool
  | gt, o => o.isGT
  | ge, o => o.isGE
  | lt, o => o.isLT
  | le, o => o.isLE
  | eq, o => o.isEq
  | ne, o => o.isNe

/-- The comparison that holds exactly where this one does not. -/
def complement : Comparison → Comparison
  | gt => le
  | ge => lt
  | lt => ge
  | le => gt
  | eq => ne
  | ne => eq

/-- The comparison of the exchanged sides. -/
def converse : Comparison → Comparison
  | gt => lt
  | ge => le
  | lt => gt
  | le => ge
  | eq => eq
  | ne => ne

/-! ### The table -/

theorem admits_complement (test : Comparison) (o : Ordering) :
    test.complement.admits o = !test.admits o := by
  cases test <;> cases o <;> rfl

theorem admits_converse (test : Comparison) (o : Ordering) :
    test.converse.admits o.swap = test.admits o := by
  cases test <;> cases o <;> rfl

/-- Each way of being ordered is admitted by just one of the three strict comparisons. -/
theorem existsUnique_admits (o : Ordering) :
    ∃! test, test ∈ [lt, eq, gt] ∧ test.admits o = true := by
  have hone : ∀ found ∈ [lt, eq, gt], found.admits o = true →
      ∃! test, test ∈ [lt, eq, gt] ∧ test.admits o = true := by
    intro found hmem hfound
    refine ⟨found, ⟨hmem, hfound⟩, ?_⟩
    rintro other ⟨hother, hadmits⟩
    cases o <;> revert found other <;> decide
  cases o with
  | lt => exact hone lt (by decide) rfl
  | eq => exact hone eq (by decide) rfl
  | gt => exact hone gt (by decide) rfl

/-! ### The order of values -/

section

variable {α β : Type} [LT α] [LE α] [BEq α] [∀ l r : α, Decidable (l < r)]
  [∀ l r : α, Decidable (l ≤ r)] [LinearOrder β]

/-- The first of two sides is related to the second as its image is in a linear order. -/
structure OrderedAs (f : α → β) (l r : α) : Prop where
  lt_iff : l < r ↔ f l < f r
  le_iff : l ≤ r ↔ f l ≤ f r
  beq_iff : (l == r) = true ↔ f l = f r

theorem ofOrder_eq_admits {f : α → β} {l r : α} (h : OrderedAs f l r) (h' : OrderedAs f r l)
    (test : Comparison) : test.ofOrder l r = test.admits (compare (f l) (f r)) := by
  have heq : (l == r) = true ↔ compare (f l) (f r) = .eq := by rw [h.beq_iff, compare_eq_iff_eq]
  rw [Bool.eq_iff_iff]
  cases test with
  | gt =>
      rw [ofOrder, admits, decide_eq_true_iff, h'.lt_iff, Ordering.isGT_iff_eq_gt]
      exact compare_gt_iff_gt.symm
  | ge =>
      rw [ofOrder, admits, decide_eq_true_iff, h'.le_iff, Ordering.isGE_iff_ne_lt]
      exact compare_ge_iff_ge.symm
  | lt =>
      rw [ofOrder, admits, decide_eq_true_iff, h.lt_iff, Ordering.isLT_iff_eq_lt]
      exact compare_lt_iff_lt.symm
  | le =>
      rw [ofOrder, admits, decide_eq_true_iff, h.le_iff, Ordering.isLE_iff_ne_gt]
      exact compare_le_iff_le.symm
  | eq => rw [ofOrder, admits, heq, Ordering.isEq_iff_eq_eq]
  | ne =>
      rw [ofOrder, admits, Bool.not_eq_true', ← Bool.not_eq_true, heq, Ordering.isNe_iff_ne_eq]

end

theorem orderedAs_text (s t : String) : OrderedAs id s t where
  lt_iff := Iff.rfl
  le_iff := Iff.rfl
  beq_iff := beq_iff_eq

theorem orderedAs_toNumber (l r : Value) : OrderedAs Binary64.rank l.toNumber r.toNumber where
  lt_iff := Binary64.lt_iff_rank l.isNaN_toNumber r.isNaN_toNumber
  le_iff := Binary64.le_iff_rank l.isNaN_toNumber r.isNaN_toNumber
  beq_iff := Binary64.beq_iff_rank l.isNaN_toNumber r.isNaN_toNumber

/-- A comparison holds exactly if it admits the way its sides are ordered. -/
theorem holds_eq_admits (test : Comparison) (l r : Value) :
    test.holds l r = test.admits (l.order r) := by
  cases l <;> cases r
  case text.text s t => exact ofOrder_eq_admits (orderedAs_text s t) (orderedAs_text t s) test
  all_goals exact ofOrder_eq_admits (orderedAs_toNumber _ _) (orderedAs_toNumber _ _) test

/-! ### Comparisons against each other -/

theorem holds_complement (test : Comparison) (l r : Value) :
    test.complement.holds l r = !test.holds l r := by
  rw [holds_eq_admits, holds_eq_admits, admits_complement]

theorem holds_converse (test : Comparison) (l r : Value) :
    test.converse.holds r l = test.holds l r := by
  rw [holds_eq_admits, holds_eq_admits, ← Value.order_swap, admits_converse]

/-- The comparisons test one order. Of every two values just one is less than, equal to or greater
than the other; a comparison holds exactly where its complement does not, and exchanging the sides
turns it into its converse. So a conditional may test the complement and exchange its branches. -/
theorem holds_by_one_order :
    (∀ l r : Value,
      (∃! test, test ∈ [lt, eq, gt] ∧ test.holds l r = true) ∧
        (∀ test : Comparison, test.complement.holds l r = !test.holds l r) ∧
        ∀ test : Comparison, test.converse.holds r l = test.holds l r) ∧
      ∀ (cells : CellStore) (params : Params) (left right yes no : Expr) (test : Comparison),
        (Expr.conditional left test.complement right no yes).eval cells params =
          (Expr.conditional left test right yes no).eval cells params := by
  refine ⟨fun l r => ⟨?_, fun test => holds_complement test l r,
    fun test => holds_converse test l r⟩, fun cells params left right yes no test => ?_⟩
  · simp only [holds_eq_admits]
    exact existsUnique_admits (l.order r)
  · rw [Expr.eval, Expr.eval, holds_complement]
    cases test.holds (left.eval cells params) (right.eval cells params) <;> rfl

end Comparison

end LiveScene
