import LiveScene.Animation.Animator
import LiveScene.Proofs.Dict

/-!
# LiveScene.Proofs.Animation.Frame

One step of the animations, cell by cell.

A tween reads and writes its own cell only, and a cell has at most one tween. So what a step makes
of a cell and of its tween depends on these two and on the time, and not on the order in which the
tweens are visited: `cell?_frame` and `get?_frame` give both from `Tween.advance`.
-/

namespace LiveScene

/-! ### One tween -/

/-- What a step makes of a tween and its cell: it ends and leaves the cell alone, unless the cell
holds a number. -/
def Tween.advance (t : Tween) (now : Duration) : Option Cell → Option Cell × Option Tween
  | some ⟨.number x, version⟩ =>
    (some ⟨.number (t.frame now (Binary64.orZero x)).1, version + 1⟩,
      (t.frame now (Binary64.orZero x)).2)
  | cell => (cell, none)

namespace Animator

section Cell

variable (now : Duration) (cells : CellStore) (cell : String) (tween : Tween)

/-- A step of one tween on the store is its step on the cell. -/
theorem frameCell_spec :
    (∀ other, (frameCell now cells cell tween).1.cell? other =
      if other = cell then (tween.advance now (cells.cell? cell)).1 else cells.cell? other) ∧
    (frameCell now cells cell tween).2 = (tween.advance now (cells.cell? cell)).2 := by
  have hidle : ∀ other, cells.cell? other =
      if other = cell then cells.cell? cell else cells.cell? other := by
    intro other
    split
    · next h => rw [h]
    · rfl
  unfold frameCell CellStore.readNumber CellStore.read?
  cases hcell : cells.cell? cell with
  | none => exact ⟨fun other => (hidle other).trans (by rw [hcell]; rfl), rfl⟩
  | some c =>
      obtain ⟨value, version⟩ := c
      cases value with
      | number x =>
          refine ⟨fun other => ?_, rfl⟩
          refine (CellStore.cell?_update cells cell other _).trans ?_
          rw [hcell]
          rfl
      | _ => exact ⟨fun other => (hidle other).trans (by rw [hcell]; rfl), rfl⟩

theorem cell?_frameCell (other : String) :
    (frameCell now cells cell tween).1.cell? other =
      if other = cell then (tween.advance now (cells.cell? cell)).1 else cells.cell? other :=
  (frameCell_spec now cells cell tween).1 other

theorem rest_frameCell :
    (frameCell now cells cell tween).2 = (tween.advance now (cells.cell? cell)).2 :=
  (frameCell_spec now cells cell tween).2

end Cell

/-! ### All tweens -/

theorem cells_frameEntries_cons (now : Duration) (cells : CellStore) (e : String × Tween)
    (r : List (String × Tween)) :
    (frameEntries now cells (e :: r)).1 =
      (frameEntries now (frameCell now cells e.1 e.2).1 r).1 := by
  rw [frameEntries]
  generalize frameCell now cells e.1 e.2 = moved
  obtain ⟨next, rest⟩ := moved
  cases rest <;> rfl

theorem owner_frameCell (now : Duration) (cells : CellStore) (cell : String) (tween : Tween) :
    (frameCell now cells cell tween).1.owner = cells.owner := by
  unfold frameCell
  split
  · exact cells.owner_update cell _
  · rfl

theorem owner_frameEntries (now : Duration) (cells : CellStore)
    (entries : List (String × Tween)) :
    (frameEntries now cells entries).1.owner = cells.owner := by
  induction entries generalizing cells with
  | nil => rfl
  | cons e r ih =>
      rw [cells_frameEntries_cons, ih]
      exact owner_frameCell now cells e.1 e.2

theorem rest_frameEntries_cons (now : Duration) (cells : CellStore) (e : String × Tween)
    (r : List (String × Tween)) :
    (frameEntries now cells (e :: r)).2 =
      ((frameCell now cells e.1 e.2).2.map (Prod.mk e.1)).toList ++
        (frameEntries now (frameCell now cells e.1 e.2).1 r).2 := by
  rw [frameEntries]
  generalize frameCell now cells e.1 e.2 = moved
  obtain ⟨next, rest⟩ := moved
  cases rest <;> rfl

theorem cell?_frameEntries (now : Duration) (cells : CellStore) {entries : List (String × Tween)}
    (h : (names entries).Nodup) (id : String) :
    (frameEntries now cells entries).1.cell? id =
      match lookupEntry id entries with
      | some t => (t.advance now (cells.cell? id)).1
      | none => cells.cell? id := by
  induction entries generalizing cells with
  | nil => rfl
  | cons e r ih =>
      rw [names_cons, List.nodup_cons] at h
      rw [cells_frameEntries_cons, ih _ h.2, cell?_frameCell, lookupEntry]
      by_cases hid : id = e.1
      · rw [if_pos hid, if_pos hid, hid, lookupEntry_eq_none_of_not_mem h.1]
      · rw [if_neg hid, if_neg hid]

theorem names_rest_frameEntries_sublist (now : Duration) (cells : CellStore)
    (entries : List (String × Tween)) :
    (names (frameEntries now cells entries).2).Sublist (names entries) := by
  induction entries generalizing cells with
  | nil => exact List.Sublist.slnil
  | cons e r ih =>
      rw [rest_frameEntries_cons]
      cases (frameCell now cells e.1 e.2).2 with
      | none => exact (ih _).cons e.1
      | some t => exact (ih _).cons_cons e.1

theorem lookupEntry_frameEntries (now : Duration) (cells : CellStore)
    {entries : List (String × Tween)} (h : (names entries).Nodup) (id : String) :
    lookupEntry id (frameEntries now cells entries).2 =
      (lookupEntry id entries).bind fun t => (t.advance now (cells.cell? id)).2 := by
  induction entries generalizing cells with
  | nil => rfl
  | cons e r ih =>
      rw [names_cons, List.nodup_cons] at h
      rw [rest_frameEntries_cons, rest_frameCell, lookupEntry]
      -- The first tween has changed its own cell only, and has no entry further on.
      have hrest := ih (frameCell now cells e.1 e.2).1 h.2
      by_cases hid : id = e.1
      · subst hid
        rw [lookupEntry_eq_none_of_not_mem h.1] at hrest
        rw [if_pos rfl, Option.bind_some]
        cases (e.2.advance now (cells.cell? e.1)).2 with
        | none => exact hrest
        | some t => exact if_pos rfl
      · have hcell : (frameCell now cells e.1 e.2).1.cell? id = cells.cell? id := by
          rw [cell?_frameCell, if_neg hid]
        rw [if_neg hid]
        rw [hcell] at hrest
        cases (e.2.advance now (cells.cell? e.1)).2 with
        | none => exact hrest
        | some t => exact (if_neg hid).trans hrest

variable (a : Animator) (now : Duration) (cells : CellStore) (id : String)

/-- What a step makes of a cell. -/
theorem cell?_frame :
    (a.frame now cells).2.cell? id =
      match a.tweens.get? id with
      | some t => (t.advance now (cells.cell? id)).1
      | none => cells.cell? id :=
  cell?_frameEntries now cells (nodup_of_ascending a.tweens.ascending) id

/-- What a step makes of a tween. -/
theorem get?_frame :
    (a.frame now cells).1.tweens.get? id =
      (a.tweens.get? id).bind fun t => (t.advance now (cells.cell? id)).2 := by
  have hnodup := nodup_of_ascending a.tweens.ascending
  have hrest := hnodup.sublist (names_rest_frameEntries_sublist now cells a.tweens.entries)
  exact (Dict.get?_ofList hrest id).trans (lookupEntry_frameEntries now cells hnodup id)

end Animator

end LiveScene
