import LiveScene.Proofs.Animation.Elapsed
import LiveScene.Proofs.Animation.Frame

/-!
# LiveScene.Proofs.Animation.Step

Steps of the animations, one by one and over whole runs.

* A step is described cell by cell (`StepsExactly`). Cells without tween are left alone; a tween
  whose cell is gone or holds no number ends and leaves it alone; every other tween writes its cell
  once, and lands on its target as soon as its time is over. In what order the tweens are visited
  does not matter.
* In a run (`Turn`) others may do to the cells what they want. A tween that is alive is that of the
  newest request for its cell, and it goes on from the time and the value of its first step
  (`alive_run`).
-/

namespace LiveScene

/-- A tween steps by the start that it has, and takes one if it has none. -/
theorem Tween.frame_eq (t : Tween) (now : Duration) (x : Float) :
    t.frame now x =
      if 1 ≤ progress t.length (now - (t.start.getD (now, x)).1) then (t.target, none)
      else ((t.start.getD (now, x)).2 + (t.target - (t.start.getD (now, x)).2) *
          t.curve.apply (progress t.length (now - (t.start.getD (now, x)).1)),
        some { t with start := some (t.start.getD (now, x)) }) := rfl

/-- A tween whose time is over lands on its target. -/
theorem Tween.frame_of_over (t : Tween) (now : Duration) (x : Float)
    (h : (t.start.getD (now, x)).1.nanos + t.length.nanos ≤ now.nanos ∨ t.length.nanos = 0) :
    t.frame now x = (t.target, none) := by
  rw [frame_eq, if_pos]
  refine one_le_progress_of_le ?_
  rw [Duration.le_def, Duration.nanos_sub]
  omega

namespace Animator

variable {a : Animator} {now : Duration} {cells : CellStore} {id : String}

/-! ### One step -/

/-- What a step does to the tweens and the cells. -/
structure StepsExactly (a : Animator) (now : Duration) (cells : CellStore) : Prop where
  /-- The tweens may be visited in any order. -/
  order_free : ∀ entries, entries.Perm a.tweens.entries →
    (frameEntries now cells entries).1 = (a.frame now cells).2 ∧
      (⟨Dict.ofList (frameEntries now cells entries).2⟩ : Animator) = (a.frame now cells).1
  /-- A cell without tween is left alone. -/
  idle : ∀ id, a.tweens.get? id = none →
    (a.frame now cells).2.cell? id = cells.cell? id ∧
      (a.frame now cells).1.tweens.get? id = none
  /-- A tween whose cell is gone or holds no number ends. -/
  dropped : ∀ id, (∀ x version, cells.cell? id ≠ some ⟨.number x, version⟩) →
    (a.frame now cells).2.cell? id = cells.cell? id ∧
      (a.frame now cells).1.tweens.get? id = none
  /-- Every other tween writes its cell once. -/
  writes : ∀ id t x version, a.tweens.get? id = some t →
    cells.cell? id = some ⟨.number x, version⟩ →
    ∃ y, (a.frame now cells).2.cell? id = some ⟨.number y, version + 1⟩
  /-- It lands as soon as its time is over, -/
  lands : ∀ id t x version, a.tweens.get? id = some t →
    cells.cell? id = some ⟨.number x, version⟩ →
    (t.start.getD (now, cells.readNumber id)).1.nanos + t.length.nanos ≤ now.nanos ∨
      t.length.nanos = 0 →
    (a.frame now cells).1.tweens.get? id = none
  /-- and where it lands is its target. -/
  landed : ∀ id t x version, a.tweens.get? id = some t →
    cells.cell? id = some ⟨.number x, version⟩ →
    (a.frame now cells).1.tweens.get? id = none →
    (a.frame now cells).2.cell? id = some ⟨.number t.target, version + 1⟩
  /-- A tween that goes on has its first start, and writes the part of the way from there. -/
  goes_on : ∀ id rest, (a.frame now cells).1.tweens.get? id = some rest →
    ∃ t begin y version, a.tweens.get? id = some t ∧
      t.start.getD (now, cells.readNumber id) = (begin, y) ∧
      rest = { t with start := some (begin, y) } ∧
      (a.frame now cells).2.cell? id = some ⟨.number
        (y + (t.target - y) * t.curve.apply (Tween.progress t.length (now - begin))), version⟩

theorem readNumber_of_cell? {x : Float} {version : Nat}
    (h : cells.cell? id = some ⟨.number x, version⟩) :
    cells.readNumber id = Binary64.orZero x := by
  rw [CellStore.readNumber, CellStore.read?, h]
  rfl

/-- A step of a tween on a number cell. -/
theorem frame_of_number (now : Duration) {t : Tween} {x : Float} {version : Nat}
    (ht : a.tweens.get? id = some t) (hcell : cells.cell? id = some ⟨.number x, version⟩) :
    (a.frame now cells).2.cell? id =
        some ⟨.number (t.frame now (cells.readNumber id)).1, version + 1⟩ ∧
      (a.frame now cells).1.tweens.get? id = (t.frame now (cells.readNumber id)).2 := by
  rw [cell?_frame, get?_frame, ht, hcell, readNumber_of_cell? hcell]
  exact ⟨rfl, rfl⟩

/-- A step of a tween on a cell that holds no number. -/
theorem advance_of_no_number (t : Tween) (now : Duration) {c : Option Cell}
    (h : ∀ x version, c ≠ some ⟨.number x, version⟩) : t.advance now c = (c, none) := by
  unfold Tween.advance
  split
  · next x version => exact absurd rfl (h x version)
  · rfl

theorem owner_frame (a : Animator) (now : Duration) (cells : CellStore) :
    (a.frame now cells).2.owner = cells.owner :=
  owner_frameEntries now cells a.tweens.entries

theorem CellStore.ext_cell? {s t : CellStore} (howner : s.owner = t.owner)
    (hcells : ∀ id, s.cell? id = t.cell? id) : s = t := by
  obtain ⟨owner, cells⟩ := s
  obtain ⟨owner', cells'⟩ := t
  obtain rfl : owner = owner' := howner
  obtain rfl : cells = cells' := Dict.ext_get? hcells
  rfl

theorem stepsExactly (a : Animator) (now : Duration) (cells : CellStore) :
    a.StepsExactly now cells where
  order_free entries hperm := by
    have hnodup := nodup_of_ascending a.tweens.ascending
    have hnodup' : (names entries).Nodup := (hperm.map Prod.fst).nodup_iff.mpr hnodup
    have hlookup := lookupEntry_perm hperm hnodup'
    have hrest := hnodup'.sublist (names_rest_frameEntries_sublist now cells entries)
    constructor
    · refine CellStore.ext_cell? ?_ fun id => ?_
      · rw [owner_frameEntries, owner_frame]
      · rw [cell?_frameEntries now cells hnodup', cell?_frame, hlookup]
        rfl
    · refine congrArg Animator.mk (Dict.ext_get? fun id => ?_)
      calc (Dict.ofList (frameEntries now cells entries).2).get? id
          = lookupEntry id (frameEntries now cells entries).2 := Dict.get?_ofList hrest id
        _ = (a.tweens.get? id).bind fun t => (t.advance now (cells.cell? id)).2 := by
            rw [lookupEntry_frameEntries now cells hnodup', hlookup]
            rfl
        _ = (a.frame now cells).1.tweens.get? id := (get?_frame a now cells id).symm
  idle id hnone := by
    rw [cell?_frame, get?_frame, hnone]
    exact ⟨rfl, rfl⟩
  dropped id hcell := by
    rw [cell?_frame, get?_frame]
    cases a.tweens.get? id with
    | none => exact ⟨rfl, rfl⟩
    | some t =>
        rw [Option.bind_some]
        simp only [advance_of_no_number t now hcell, and_self]
  writes id t x version ht hcell := ⟨_, (frame_of_number now ht hcell).1⟩
  lands id t x version ht hcell hover := by
    rw [(frame_of_number now ht hcell).2, t.frame_of_over now _ hover]
  landed id t x version ht hcell hnone := by
    obtain ⟨hwritten, hrest⟩ := frame_of_number now ht hcell
    rw [hrest, t.frame_eq] at hnone
    rw [hwritten, t.frame_eq]
    split at hnone
    · next hpart => rw [if_pos hpart]
    · cases hnone
  goes_on id rest hrest := by
    obtain ⟨t, ht⟩ : ∃ t, a.tweens.get? id = some t := by
      rw [get?_frame, Option.bind_eq_some_iff] at hrest
      obtain ⟨t, ht, -⟩ := hrest
      exact ⟨t, ht⟩
    obtain ⟨x, version, hcell⟩ : ∃ x version, cells.cell? id = some ⟨.number x, version⟩ := by
      by_contra hno
      push Not at hno
      rw [get?_frame, ht, Option.bind_some, advance_of_no_number t now hno] at hrest
      cases hrest
    obtain ⟨hwritten, hnext⟩ := frame_of_number now ht hcell
    rw [hnext, t.frame_eq] at hrest
    rw [t.frame_eq] at hwritten
    split at hrest
    · cases hrest
    · next hpart =>
        rw [if_neg hpart] at hwritten
        exact ⟨t, _, _, _, ht, rfl, (Option.some.inj hrest).symm, hwritten⟩

/-! ### A run of steps -/

/-- What happens while animations are under way. -/
inductive Turn where
  | animate (r : AnimationRequest)
  | frame (now : Duration)
  /-- Others do something to the cells. -/
  | edit (change : CellStore → CellStore)

/-- The animations and the cells after a turn. -/
def turn (s : Animator × CellStore) : Turn → Animator × CellStore
  | .animate r => (s.1.animate r, s.2)
  | .frame now => s.1.frame now s.2
  | .edit change => (s.1, change s.2)

/-- The animations and the cells after turns, one after the other. -/
def run (s : Animator × CellStore) (turns : List Turn) : Animator × CellStore :=
  turns.foldl turn s

/-- A turn that asks for an animation of a cell. -/
def Turn.Asks (id : String) (t : Turn) : Prop := ∃ r, t = .animate r ∧ r.cell = id

/-- The time of the first step among turns, and the number that a cell reads as at that time. -/
def firstStep? (id : String) : Animator × CellStore → List Turn → Option (Duration × Float)
  | _, [] => none
  | s, .frame now :: _ => some (now, s.2.readNumber id)
  | s, t :: r => firstStep? id (turn s t) r

/-- The tween that a request makes. -/
def tweenOf (r : AnimationRequest) : Tween := ⟨r.target, r.length, r.curve, none⟩

variable {s : Animator × CellStore} {turns : List Turn} {t : Tween}

theorem get?_animate (a : Animator) (r : AnimationRequest) (id : String) :
    (a.animate r).tweens.get? id = if id = r.cell then some (tweenOf r) else a.tweens.get? id := by
  rw [animate, Dict.get?_insert]
  rfl

/-- A tween goes on from its first step, as long as no other is asked for. -/
theorem alive_of_not_asked (hno : ∀ u ∈ turns, ¬ u.Asks id)
    (h : (run s turns).1.tweens.get? id = some t) :
    ∃ first, s.1.tweens.get? id = some first ∧
      t = { first with start := first.start.or (firstStep? id s turns) } := by
  induction turns generalizing s with
  | nil => exact ⟨t, h, by rw [firstStep?, Option.or_none]⟩
  | cons u r ih =>
      rw [List.forall_mem_cons] at hno
      obtain ⟨next, hnext, rfl⟩ := ih hno.2 h
      cases u with
      | animate request =>
          have hne : ¬ id = request.cell := fun heq => hno.1 ⟨request, rfl, heq.symm⟩
          rw [turn, get?_animate, if_neg hne] at hnext
          exact ⟨next, hnext, rfl⟩
      | frame now =>
          obtain ⟨first, begin, y, version, hfirst, hstart, rfl, -⟩ :=
            (stepsExactly s.1 now s.2).goes_on id next hnext
          refine ⟨first, hfirst, ?_⟩
          rw [firstStep?, Option.some_or, ← hstart]
          cases first.start <;> rfl
      | edit change => exact ⟨next, hnext, rfl⟩

/-- The newest request for a cell, if there is any. -/
theorem newest_cases (id : String) (turns : List Turn) :
    (∀ u ∈ turns, ¬ u.Asks id) ∨
      ∃ before r after, turns = before ++ .animate r :: after ∧ r.cell = id ∧
        ∀ u ∈ after, ¬ u.Asks id := by
  induction turns with
  | nil => exact .inl nofun
  | cons u rest ih =>
      rcases ih with hno | ⟨before, r, after, rfl, hcell, hno⟩
      · by_cases hu : u.Asks id
        · obtain ⟨r, rfl, hcell⟩ := hu
          exact .inr ⟨[], r, rest, rfl, hcell, hno⟩
        · exact .inl (List.forall_mem_cons.mpr ⟨hu, hno⟩)
      · exact .inr ⟨u :: before, r, after, rfl, hcell, hno⟩

/-- What is alive after a run: the tween of the newest request for the cell, or else the one that
the cell had before. In both cases it goes on from its first step. -/
theorem alive_run (h : (run s turns).1.tweens.get? id = some t) :
    (∃ before r after, turns = before ++ .animate r :: after ∧ r.cell = id ∧
        (∀ u ∈ after, ¬ u.Asks id) ∧
        t = { tweenOf r with
          start := firstStep? id (run s (before ++ [.animate r])) after }) ∨
      (∀ u ∈ turns, ¬ u.Asks id) ∧ ∃ first, s.1.tweens.get? id = some first ∧
        t = { first with start := first.start.or (firstStep? id s turns) } := by
  rcases newest_cases id turns with hno | ⟨before, r, after, rfl, hcell, hno⟩
  · exact .inr ⟨hno, alive_of_not_asked hno h⟩
  · refine .inl ⟨before, r, after, rfl, hcell, hno, ?_⟩
    rw [run, List.append_cons, List.foldl_append] at h
    obtain ⟨first, hfirst, rfl⟩ := alive_of_not_asked hno h
    rw [List.foldl_concat, turn, get?_animate, if_pos hcell.symm] at hfirst
    obtain rfl := Option.some.inj hfirst
    rfl

end Animator

end LiveScene
