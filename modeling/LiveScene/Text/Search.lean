/-!
# LiveScene.Text.Search

Splitting texts at a character and at the first occurrence of a marker.
-/

namespace LiveScene.Text

/-- The parts between the occurrences of a character, always at least one. -/
def splitAt (separator : Char) : List Char → List (List Char)
  | [] => [[]]
  | c :: r =>
    if c = separator then [] :: splitAt separator r
    else
      match splitAt separator r with
      | [] => [[c]]
      | part :: parts => (c :: part) :: parts

/-- What follows a marker at the start of a text. -/
def after? : (marker cs : List Char) → Option (List Char)
  | [], cs => some cs
  | _ :: _, [] => none
  | m :: ms, c :: cs => if m = c then after? ms cs else none

/-- What stands in front of a marker at the end of a text. -/
def before? (marker cs : List Char) : Option (List Char) :=
  (after? marker.reverse cs.reverse).map List.reverse

/-- What stands before the first occurrence of a marker, and what follows it. -/
def breakAt? (marker : List Char) (cs : List Char) : Option (List Char × List Char) :=
  match after? marker cs with
  | some rest => some ([], rest)
  | none =>
    match cs with
    | [] => none
    | c :: r => (breakAt? marker r).map fun parts => (c :: parts.1, parts.2)

/-- Whether a marker occurs. -/
def occurs (marker cs : List Char) : Bool := (breakAt? marker cs).isSome

theorem after?_eq_some_iff {marker cs rest : List Char} :
    after? marker cs = some rest ↔ cs = marker ++ rest := by
  induction marker generalizing cs with
  | nil => simp [after?]
  | cons m ms ih =>
    cases cs with
    | nil => simp [after?]
    | cons c r =>
      by_cases h : m = c
      · subst h; simp [after?, ih]
      · have : c ≠ m := fun e => h e.symm
        simp [after?, h, this]

/-- Breaking a text takes the first occurrence of the marker out of it and nothing else. -/
theorem eq_of_breakAt?_eq_some {marker cs before rest : List Char}
    (h : breakAt? marker cs = some (before, rest)) : cs = before ++ marker ++ rest := by
  induction cs generalizing before with
  | nil =>
    unfold breakAt? at h
    split at h
    · next found =>
      simp only [Option.some.injEq, Prod.mk.injEq] at h
      simp [← h.1, ← h.2, after?_eq_some_iff.1 found]
    · simp at h
  | cons c r ih =>
    unfold breakAt? at h
    split at h
    · next found =>
      simp only [Option.some.injEq, Prod.mk.injEq] at h
      simp [← h.1, ← h.2, after?_eq_some_iff.1 found]
    · obtain ⟨⟨b, t⟩, hb, heq⟩ := Option.map_eq_some_iff.1 h
      simp only [Prod.mk.injEq] at heq
      rw [← heq.1, ih (heq.2 ▸ hb)]
      simp

theorem length_breakAt? {marker cs before rest : List Char}
    (h : breakAt? marker cs = some (before, rest)) :
    cs.length = before.length + marker.length + rest.length := by
  rw [eq_of_breakAt?_eq_some h, List.length_append, List.length_append]

end LiveScene.Text
