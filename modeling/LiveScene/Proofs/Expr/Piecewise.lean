import LiveScene.Proofs.Expr.Segment

/-!
# LiveScene.Proofs.Expr.Piecewise

What a piecewise map yields at a number.

The breakpoints and the outputs that count are as many as both lists have (`shared`). Whatever they
are, every output that the map uses is among them. Between breakpoints that are numbers the value is
that of the pieces (`FollowsPieces`): the first output up to the first breakpoint, the last one from
the last breakpoint on, and else the mixture of the two outputs around the number
(`follows_pieces`).
-/

namespace LiveScene

open Segment (Brackets locate scan?)

variable {α β : Type}

/-- The part of a list that another one is as long as. -/
def shared (xs : List α) (ys : List β) : List α := xs.take (min xs.length ys.length)

theorem shared_of_length_le {xs : List α} {ys : List β} (h : xs.length ≤ ys.length) :
    shared xs ys = xs := by
  rw [shared, min_eq_left h, List.take_length]

@[simp] theorem length_shared (xs : List α) (ys : List β) :
    (shared xs ys).length = min xs.length ys.length := by
  simp [shared]

/-- A value of the pieces between breakpoints, with an output for each. -/
structure FollowsPieces (mix : α → α → Float → α) (x : Float) (breakpoints : List Float)
    (outputs : List α) (y : α) : Prop where
  /-- Up to the first breakpoint, and beside a single one, it is the first output. -/
  first : ∀ b, breakpoints.head? = some b → breakpoints.length = 1 ∨ x ≤ b →
    outputs.head? = some y
  /-- Else from the last breakpoint on it is the last output. -/
  last : ∀ b c, breakpoints.head? = some b → breakpoints.getLast? = some c →
    ¬ (breakpoints.length = 1 ∨ x ≤ b) → c ≤ x → outputs.getLast? = some y
  /-- Else the number lies in a first pair of neighbours, the only one if they increase, and the
  value is mixed of their outputs by the part of their distance, which is not zero. The scan for
  the pair finds it. -/
  inner : ∀ b c, breakpoints.head? = some b → breakpoints.getLast? = some c →
    ¬ (breakpoints.length = 1 ∨ x ≤ b) → ¬ c ≤ x →
    ∃ i low high o p, Brackets breakpoints x i low high ∧
      (∀ j low' high', Brackets breakpoints x j low' high' → i ≤ j) ∧
      (breakpoints.IsChain (· ≤ ·) → ∀ j low' high', Brackets breakpoints x j low' high' → j = i) ∧
      outputs[i]? = some o ∧ outputs[i + 1]? = some p ∧ (high - low == 0) = false ∧
      scan? x 0 breakpoints = some (.between i ((x - low) / (high - low))) ∧
      y = mix o p ((x - low) / (high - low))

/-- What is read where a number is located is a value of the pieces. -/
theorem followsPieces_of_pick? {mix : α → α → Float → α} {x : Float} {breakpoints : List Float}
    {outputs : List α} {nothing y : α} (hnan : ∀ b ∈ breakpoints, b.isNaN = false)
    (hx : x.isNaN = false) (hlength : outputs.length = breakpoints.length)
    (h : (locate x breakpoints).pick? nothing mix outputs = some y) :
    FollowsPieces mix x breakpoints outputs y where
  first b hb hfirst := by
    rw [Segment.locate_of_first hb hfirst] at h
    rw [List.head?_eq_getElem?]
    exact h
  last b c hb hc hfirst hle := by
    rw [Segment.locate_of_not_first hb hc hfirst, if_pos hle] at h
    rw [List.getLast?_eq_getElem?, hlength]
    exact h
  inner b c hb hc hfirst hlast := by
    obtain ⟨i, low, high, hpair, hleast, hscan, hlocate⟩ :=
      Segment.locate_of_inner hnan hx hb hc hfirst hlast
    rw [hlocate] at h
    obtain ⟨o, ho, hrest⟩ := Option.bind_eq_some_iff.mp h
    obtain ⟨p, hp, hy⟩ := Option.bind_eq_some_iff.mp hrest
    exact ⟨i, low, high, o, p, hpair, hleast, fun hsorted j _ _ hj => hj.unique hsorted hpair, ho,
      hp, hpair.distance_ne, hscan, (Option.some.inj hy).symm⟩

/-! ### Numbers and colours -/

/-- The colour of an output; transparent if it writes none. -/
def Color.ofOutput (s : String) : Color := (Color.ofText? s).getD .transparent

variable {x : Float} {breakpoints : List Float}

/-- What is picked at a number is picked among the outputs that count. -/
theorem pick?_shared {nothing : α} {mix : α → α → Float → α} {items : List β} {read : β → α}
    {output : Nat → α} (houtput : ∀ k item, items[k]? = some item → output k = read item) :
    (locate x (shared breakpoints items)).pick? nothing mix
        ((shared items breakpoints).map read) =
      some ((locate x (shared breakpoints items)).pick nothing mix output) := by
  refine Segment.pick?_eq_some fun k hk => ?_
  have hlt := Segment.lt_of_mem_positions_locate k hk
  rw [length_shared] at hlt
  have hitem := List.getElem?_eq_getElem (l := items) (i := k) (by omega)
  have hshared : (shared items breakpoints)[k]? = items[k]? :=
    List.getElem?_take_of_lt (by omega)
  rw [List.getElem?_map, hshared, hitem, Option.map_some, houtput k _ hitem]

theorem interpolate_eq_pick (outputs : List Float) :
    interpolate x breakpoints outputs =
      (locate x (shared breakpoints outputs)).pick 0 Operator.mix fun i => outputs[i]?.getD 0 := by
  rfl

theorem interpolateColor_eq_pick (texts : List String) :
    interpolateColor x breakpoints texts =
      (locate x (shared breakpoints texts)).pick .transparent Color.mix
        fun i => (texts[i]?.bind Color.ofText?).getD .transparent := by
  rfl

theorem pick?_interpolate (x : Float) (breakpoints outputs : List Float) :
    (locate x (shared breakpoints outputs)).pick? 0 Operator.mix (shared outputs breakpoints) =
      some (interpolate x breakpoints outputs) := by
  rw [interpolate_eq_pick, ← List.map_id (shared outputs breakpoints)]
  exact pick?_shared fun k item h => by rw [h, Option.getD_some, id]

theorem pick?_interpolateColor (x : Float) (breakpoints : List Float) (texts : List String) :
    (locate x (shared breakpoints texts)).pick? .transparent Color.mix
        ((shared texts breakpoints).map Color.ofOutput) =
      some (interpolateColor x breakpoints texts) := by
  rw [interpolateColor_eq_pick]
  exact pick?_shared fun k item h => by rw [h, Option.bind_some, Color.ofOutput]

theorem followsPieces_interpolate {outputs : List Float}
    (hnan : ∀ b ∈ shared breakpoints outputs, b.isNaN = false) (hx : x.isNaN = false) :
    FollowsPieces Operator.mix x (shared breakpoints outputs) (shared outputs breakpoints)
      (interpolate x breakpoints outputs) :=
  followsPieces_of_pick? hnan hx (by simp [min_comm]) (pick?_interpolate x breakpoints outputs)

/-- Breakpoints with a step between the second and the third. -/
def stairs : List Float := [0, 10, 10, 20, 30]

/-- Outputs for all of these but the last. -/
def heights : List Float := [1, 2, 3, 4]

/-- The scan passes the repeated breakpoint. -/
example : interpolate 15 stairs heights = 3 + (4 - 3) * ((15 - 10) / (20 - 10)) := by decide +kernel

end LiveScene
