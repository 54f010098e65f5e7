import LiveScene.Proofs.Animation.Span
import LiveScene.Proofs.Expr.Number
import LiveScene.Proofs.Scene.Operation

/-!
# LiveScene.Proofs.Scene.Numbers

When a cell holds what is no number.

* Events and actions write what they have coerced, and a coercion yields a number
  (`Edited.bounded`).
* Animations write their sums as they are. `Stage.Bounded` is what makes a sum a number, and the
  frames at which a tween overruns are the only ones that break it.
* `nanFree_iff_of_new` puts the two together: along a run all cells hold numbers exactly as long as
  no tween overruns.
-/

namespace LiveScene

open Binary64

/-! ### Values and cells -/

/-- A value that is a number where its type is that of numbers. -/
def Value.NaNFree : Value → Prop
  | number x => x.isNaN = false
  | _ => True

/-- All number cells hold numbers. -/
def CellStore.NaNFree (s : CellStore) : Prop := ∀ id c, s.cell? id = some c → c.value.NaNFree

namespace Value

/-- A coercion yields a number, whatever it coerces. -/
theorem nanFree_coerce (type : ValueType) (v : Value) : (v.coerce type).NaNFree := by
  cases type with
  | number => exact v.isNaN_toNumber
  | boolean => trivial
  | string => trivial

end Value

theorem AssignOp.nanFree_apply (op : AssignOp) (operand current : Value) :
    (op.apply operand current).NaNFree := by
  cases op <;> exact Value.nanFree_coerce _ _

namespace CellStore.NaNFree

variable {s : CellStore}

theorem create (h : s.NaNFree) (id : String) {initial : Value} (hinitial : initial.NaNFree) :
    (s.create id initial).1.NaNFree := by
  intro other c hc
  rw [cell?_create] at hc
  split at hc
  · cases hcell : s.cell? id with
    | none =>
        rw [hcell] at hc
        cases hc
        exact hinitial
    | some d =>
        rw [hcell] at hc
        cases hc
        exact h id d hcell
  · exact h other c hc

theorem update (h : s.NaNFree) (id : String) {f : Value → Value} (hf : ∀ v, (f v).NaNFree) :
    (s.update id f).1.NaNFree := by
  intro other c hc
  rw [cell?_update] at hc
  split at hc
  · obtain ⟨d, -, rfl⟩ := Option.map_eq_some_iff.mp hc
    exact hf d.value
  · exact h other c hc

end CellStore.NaNFree

/-! ### The stage -/

namespace Stage

/-- All number cells hold numbers, and all tweens are bounded. -/
structure Bounded (s : Stage) : Prop where
  cells : s.cells.NaNFree
  tweens : ∀ a, s.renderer = .animator a → ∀ id t, a.tweens.get? id = some t → t.Bounded

/-- A tween overruns at the next frame. -/
def Overruns (s : Stage) : Prop :=
  ∃ a id t x, s.renderer = .animator a ∧ a.tweens.get? id = some t ∧
    s.cells.read? id = some (.number x) ∧ t.Overruns x

/-- Edits leave a stage bounded. -/
theorem Edited.bounded {s t : Stage} (h : Edited (fun x => x.isNaN = false) s t)
    (hs : s.Bounded) : t.Bounded := by
  induction h with
  | refl => exact hs
  | create h id type initial ih =>
      exact ⟨ih.cells.create id (Value.nanFree_coerce type initial), ih.tweens⟩
  | assign h cell op operand ih =>
      unfold Stage.assign
      split
      · exact ih
      · exact ⟨ih.cells.update cell fun v => AssignOp.nanFree_apply op operand v, ih.tweens⟩
  | @animate t h cell target hok durationMs curve ih =>
      refine ⟨ih.cells, fun a ha id u hu => ?_⟩
      cases hrenderer : t.renderer with
      | animator b =>
          rw [Stage.animate, hrenderer] at ha
          cases ha
          rw [Animator.animate, Dict.get?_insert] at hu
          split at hu
          · cases hu
            exact ⟨hok, fun _ _ hstart => absurd hstart (by simp)⟩
          · exact ih.tweens b hrenderer id u hu
      | recorder requests =>
          rw [Stage.animate, hrenderer] at ha
          cases ha
      | idle =>
          rw [Stage.animate, hrenderer] at ha
          cases ha

variable {s : Stage} {a : Animator}

theorem frame_animator (h : s.renderer = .animator a) (now : Duration) :
    s.frame now = { s with
      renderer := .animator (a.frame now s.cells).1, cells := (a.frame now s.cells).2 } := by
  rw [Stage.frame, h]
  rfl

theorem frame_eq_self (h : ∀ a, s.renderer ≠ .animator a) (now : Duration) :
    s.frame now = s := by
  obtain ⟨cells, renderer, animation⟩ := s
  cases renderer with
  | animator a => exact absurd rfl (h a)
  | _ => rfl

/-- A step of a bounded tween that does not overrun its cell. -/
theorem bounded_advance {t : Tween} (ht : t.Bounded) (now : Duration) {cell : Option Cell}
    (hcell : ∀ c, cell = some c → c.value.NaNFree)
    (hno : ∀ c x, cell = some c → c.value = .number x → ¬ t.Overruns x) :
    (∀ c, (t.advance now cell).1 = some c → c.value.NaNFree) ∧
      ∀ rest, (t.advance now cell).2 = some rest → rest.Bounded := by
  cases cell with
  | none => exact ⟨hcell, fun rest hrest => by cases hrest⟩
  | some c =>
      obtain ⟨value, version⟩ := c
      cases value with
      | number x =>
          -- A frame reads the cell as a number, which a number survives.
          have hx : orZero x = x := orZero_of_isNaN (hcell _ rfl)
          have hspan := hno _ x rfl rfl
          refine ⟨fun c hc => ?_, fun rest hrest => ?_⟩
          · cases hc
            rw [← hx] at hspan
            exact ht.isNaN_frame hspan
          · rw [← hx] at hspan
            exact ht.frame hspan hrest
      | _ => exact ⟨hcell, fun rest hrest => by cases hrest⟩

/-- A frame at which no tween overruns leaves a stage bounded. -/
theorem Bounded.frame (h : s.Bounded) (hno : ¬ s.Overruns) (now : Duration) :
    (s.frame now).Bounded := by
  cases hrenderer : s.renderer with
  | recorder requests =>
      rw [frame_eq_self (by simp [hrenderer])]
      exact h
  | idle =>
      rw [frame_eq_self (by simp [hrenderer])]
      exact h
  | animator a =>
      -- Each cell is written by its own tween at most, so that one step is looked at for each.
      have hstep : ∀ id t, a.tweens.get? id = some t → _ := fun id t ht =>
        bounded_advance (h.tweens a hrenderer id t ht) now (h.cells id) fun c x hc hx hover =>
          hno ⟨a, id, t, x, hrenderer, ht, by rw [CellStore.read?, hc, ← hx]; rfl, hover⟩
      rw [frame_animator hrenderer]
      refine ⟨fun id c hc => ?_, fun b hb id rest hrest => ?_⟩
      · rw [Animator.cell?_frame] at hc
        cases ht : a.tweens.get? id with
        | none =>
            rw [ht] at hc
            exact h.cells id c hc
        | some t =>
            rw [ht] at hc
            exact (hstep id t ht).1 c hc
      · cases hb
        rw [Animator.get?_frame] at hrest
        obtain ⟨t, ht, hadvance⟩ := Option.bind_eq_some_iff.mp hrest
        exact (hstep id t ht).2 rest hadvance

/-- A frame at which a tween overruns leaves what is no number in its cell. -/
theorem Overruns.not_nanFree_frame (h : s.Overruns) (hs : s.cells.NaNFree) (now : Duration) :
    ¬ (s.frame now).cells.NaNFree := by
  obtain ⟨a, id, t, x, hrenderer, ht, hread, hover⟩ := h
  obtain ⟨⟨value, version⟩, hcell, rfl⟩ := Option.map_eq_some_iff.mp hread
  have hx : orZero x = x := orZero_of_isNaN (hs id _ hcell)
  intro hfree
  rw [frame_animator hrenderer] at hfree
  have hwritten := hfree id ⟨.number (t.frame now (orZero x)).1, version + 1⟩ (by
    rw [Animator.cell?_frame, ht, hcell]
    rfl)
  rw [hx] at hwritten
  exact absurd (hover.isNaN_frame now) (by rw [hwritten]; decide)

end Stage

/-! ### Runs -/

/-- The targets of the animations that an operation asks for by its events are numbers. -/
def Operation.TargetsNumbers (op : Operation) : Prop :=
  ∀ x ∈ Event.animatedAll op.events, x.isNaN = false

namespace Scene

/-- A tween overruns at an operation, which is a frame. -/
def Overruns (s : Scene) : Operation → Prop
  | .frame _ => s.tornDown = false ∧ s.stage.Overruns
  | _ => False

/-- All number cells hold numbers, when an operation has moved the animations and when it is
done. -/
def NaNFree (s : Scene) (op : Operation) : Prop :=
  (s.moved op).cells.NaNFree ∧ (s.step op).1.cells.NaNFree

variable {s : Scene}

theorem bounded_moved (h : s.stage.Bounded) {op : Operation} (hno : ¬ s.Overruns op) :
    (s.moved op).Bounded := by
  cases op with
  | frame now =>
      cases htorn : s.tornDown with
      | true =>
          rw [moved, if_pos htorn]
          exact h
      | false =>
          rw [moved, if_neg (by simp [htorn])]
          exact h.frame (fun hover => hno ⟨htorn, hover⟩) now
  | _ => exact h

theorem bounded_step (h : s.stage.Bounded) {op : Operation} (hop : op.TargetsNumbers)
    (hno : ¬ s.Overruns op) : (s.step op).1.stage.Bounded :=
  (edited_step Value.isNaN_toNumber s op hop).bounded (bounded_moved h hno)

/-- An operation keeps all number cells free exactly if no tween overruns at it. -/
theorem nanFree_iff (h : s.stage.Bounded) {op : Operation} (hop : op.TargetsNumbers) :
    s.NaNFree op ↔ ¬ s.Overruns op := by
  constructor
  · intro hfree hover
    cases op with
    | frame now =>
        -- The edits after the step may hide what it has written, so we look before them.
        have hmoved := hfree.1
        rw [moved, if_neg (by simp [hover.1])] at hmoved
        exact hover.2.not_nanFree_frame h.cells now hmoved
    | _ => exact hover
  · intro hno
    exact ⟨(bounded_moved h hno).cells, (bounded_step h hop hno).cells⟩

theorem always_nanFree_iff (h : s.stage.Bounded) {ops : List Operation}
    (hops : ∀ op ∈ ops, op.TargetsNumbers) :
    Always NaNFree s ops ↔ Always (fun s op => ¬ s.Overruns op) s ops := by
  induction ops generalizing s with
  | nil => exact Iff.rfl
  | cons op r ih =>
      have hop := hops op List.mem_cons_self
      have hrest := fun o ho => hops o (List.mem_cons_of_mem op ho)
      constructor
      · rintro ⟨hfree, hr⟩
        have hno := (nanFree_iff h hop).mp hfree
        exact ⟨hno, (ih (bounded_step h hop hno) hrest).mp hr⟩
      · rintro ⟨hno, hr⟩
        exact ⟨(nanFree_iff h hop).mpr hno, (ih (bounded_step h hop hno) hrest).mpr hr⟩

/-- Along a run of a scene with animations, the number cells hold numbers exactly as long as no
tween overruns. -/
theorem nanFree_iff_of_new (owner : String) (settings : Settings) (chance : Chance)
    (ops : List Operation) (hops : ∀ op ∈ ops, op.TargetsNumbers) :
    Always NaNFree (Scene.new owner settings (.animator {}) chance) ops ↔
      Always (fun s op => ¬ s.Overruns op) (Scene.new owner settings (.animator {}) chance)
        ops := by
  refine always_nanFree_iff ⟨fun id c hc => ?_, fun a ha id t ht => ?_⟩ hops
  · cases hc
  · cases ha
    cases ht

/-- An animation from one end of the doubles to the other. Both ends are finite, and their distance
is not. -/
def endToEnd : List Operation :=
  [.apply (.createCell "x" .number (.number (-1.5e308))),
   .apply (.updateCell "x" (.number 1.5e308) true (some 100)),
   .frame Duration.zero]

theorem targetsNumbers_endToEnd : ∀ op ∈ endToEnd, op.TargetsNumbers := by
  intro op hop
  simp only [endToEnd, List.mem_cons, List.not_mem_nil, or_false] at hop
  rcases hop with rfl | rfl | rfl
  · exact fun x hx => absurd hx (by simp [Operation.events, Event.animatedAll, Event.animated])
  · intro x hx
    simp only [Operation.events, Event.animatedAll, Event.animated, List.append_nil,
      List.mem_singleton] at hx
    rw [hx]
    decide +kernel
  · exact fun x hx => absurd hx (by simp [Operation.events, Event.animatedAll])

theorem nanFree_iff_of_endToEnd :
    (∀ op ∈ endToEnd, op.TargetsNumbers) ∧
      (Always NaNFree (Scene.new "scene" {} (.animator {}) default) endToEnd ↔
        Always (fun s op => ¬ s.Overruns op)
          (Scene.new "scene" {} (.animator {}) default) endToEnd) :=
  ⟨targetsNumbers_endToEnd,
    nanFree_iff_of_new "scene" {} default endToEnd targetsNumbers_endToEnd⟩

/-- The cell is created with a finite number, its target is finite, and its first frame leaves what
is no number in it. -/
theorem isNaN_endToEnd :
    (-1.5e308 : Float).isFinite = true ∧ (1.5e308 : Float).isFinite = true ∧
      ∃ x, ((Scene.new "scene" {} (.animator {}) default).run endToEnd).1.cells.read? "x" =
        some (.number x) ∧ x.isNaN = true :=
  ⟨by decide +kernel, by decide +kernel, _, rfl, by decide +kernel⟩

end Scene

end LiveScene
