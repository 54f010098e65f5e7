import LiveScene.Proofs.Trace

/-!
# LiveScene.Proofs.Assembly.Flat

A log without its batches.

* `Event.flattenAll` puts the events of each batch in its place, those of the batches inside it too.
  It builds the same (`Event.applyAll_flattenAll`), so that a statement about all events of a log,
  wherever they are, is one about the members of a list.
* `Event.stepsAll` follows a log into its batches and notes what each event is applied to. This is
  what the events in front of it in the list without batches have built
  (`Event.getElem?_stepsAll`): those of a batch see each other's effects as if there were no batch.
-/

namespace LiveScene

namespace Event

mutual

/-- The events that an event stands for. -/
def flatten : Event → List Event
  | batch events => flattenAll events
  | e => [e]

/-- The events that those of a list stand for, in order. -/
def flattenAll : List Event → List Event
  | [] => []
  | e :: r => flatten e ++ flattenAll r

end

mutual

theorem isBatch_of_mem_flatten (e : Event) : ∀ d ∈ flatten e, d.isBatch = false := by
  cases e with
  | batch events =>
      rw [flatten]
      exact isBatch_of_mem_flattenAll events
  | _ => simp [flatten, isBatch]

/-- No batch is left. -/
theorem isBatch_of_mem_flattenAll (events : List Event) :
    ∀ d ∈ flattenAll events, d.isBatch = false := by
  cases events with
  | nil => simp [flattenAll]
  | cons e r =>
      intro d hd
      rw [flattenAll, List.mem_append] at hd
      rcases hd with hd | hd
      · exact isBatch_of_mem_flatten e d hd
      · exact isBatch_of_mem_flattenAll r d hd

end

mutual

theorem applyAll_flatten (e : Event) (a : Assembly) : applyAll (flatten e) a = e.apply a := by
  cases e with
  | batch events =>
      rw [flatten, apply]
      exact applyAll_flattenAll events a
  | _ => simp [flatten, applyAll]

/-- The events that a list stands for build what the list builds. -/
theorem applyAll_flattenAll (events : List Event) (a : Assembly) :
    applyAll (flattenAll events) a = applyAll events a := by
  cases events with
  | nil => rw [flattenAll]
  | cons e r =>
      rw [flattenAll, applyAll_append, applyAll_flatten e a, applyAll_flattenAll r, applyAll]

end

/-! ### What each event is applied to -/

mutual

/-- The events but batches that an event stands for, each with the assembly that it is applied
to. -/
def steps : Event → Assembly → List (Event × Assembly)
  | batch events, a => stepsAll events a
  | e, a => [(e, a)]

/-- Those of the events of a list, in the order in which they are applied. -/
def stepsAll : List Event → Assembly → List (Event × Assembly)
  | [], _ => []
  | e :: r, a => steps e a ++ stepsAll r (e.apply a)

end

theorem stepsAll_append (xs ys : List Event) (a : Assembly) :
    stepsAll (xs ++ ys) a = stepsAll xs a ++ stepsAll ys (applyAll xs a) := by
  induction xs generalizing a with
  | nil => simp [stepsAll, applyAll]
  | cons e r ih => simp [stepsAll, applyAll, ih]

mutual

theorem stepsAll_flatten (e : Event) (a : Assembly) : stepsAll (flatten e) a = steps e a := by
  cases e with
  | batch events =>
      rw [flatten, steps]
      exact stepsAll_flattenAll events a
  | _ => simp [flatten, stepsAll, steps]

/-- The events that a list stands for are applied to what those of the list are applied to. -/
theorem stepsAll_flattenAll (events : List Event) (a : Assembly) :
    stepsAll (flattenAll events) a = stepsAll events a := by
  cases events with
  | nil => rw [flattenAll]
  | cons e r =>
      rw [flattenAll, stepsAll_append, stepsAll_flatten e a, applyAll_flatten e a,
        stepsAll_flattenAll r, stepsAll]

end

theorem getElem?_stepsAll_of_isBatch {flat : List Event} (h : ∀ e ∈ flat, e.isBatch = false)
    (a : Assembly) (k : Nat) :
    (stepsAll flat a)[k]? = flat[k]?.map fun e => (e, applyAll (flat.take k) a) := by
  induction flat generalizing a k with
  | nil => simp [stepsAll]
  | cons e r ih =>
      have hsteps : steps e a = [(e, a)] := by
        cases e with
        | batch events => exact absurd (h _ List.mem_cons_self) (by simp [isBatch])
        | _ => simp [steps]
      rw [stepsAll, hsteps]
      cases k with
      | zero => simp [applyAll]
      | succ k => simpa [applyAll] using ih (fun d hd => h d (List.mem_cons_of_mem e hd)) _ k

/-- Each event is applied to what those in front of it have built, in batches too. -/
theorem getElem?_stepsAll (events : List Event) (a : Assembly) (k : Nat) :
    (stepsAll events a)[k]? =
      (flattenAll events)[k]?.map fun e => (e, applyAll ((flattenAll events).take k) a) := by
  rw [← stepsAll_flattenAll]
  exact getElem?_stepsAll_of_isBatch (isBatch_of_mem_flattenAll events) a k

end Event

/-- A list of events, with batches of any depth among them, builds what its events without the
batches build one after the other: the same graph, the same cells with their versions and the same
requests for animations. On the way, each of these events is applied to what those in front of it
have built. A batch of no events does nothing. -/
theorem Assembly.builds_without_batches (events : List Event) (a : Assembly) :
    Event.applyAll events a = (Event.flattenAll events).foldl apply a ∧
      (∀ e ∈ Event.flattenAll events, e.isBatch = false) ∧
      (∀ k, (Event.stepsAll events a)[k]? = (Event.flattenAll events)[k]?.map fun e =>
        (e, ((Event.flattenAll events).take k).foldl apply a)) ∧
      a.apply (.batch []) = a := by
  have hfold : ∀ flat : List Event, flat.foldl apply a = Event.applyAll flat a := by
    intro flat
    exact (Event.applyAll_eq_foldl flat a).symm
  refine ⟨?_, Event.isBatch_of_mem_flattenAll events, ?_, ?_⟩
  · rw [hfold, Event.applyAll_flattenAll]
  · intro k
    rw [hfold]
    exact Event.getElem?_stepsAll events a k
  · rw [apply, Event.apply, Event.applyAll]

end LiveScene
