import LiveScene.Assembly
import Mathlib.Algebra.Ring.Nat

/-!
# LiveScene.Proofs.Assembly.Following

A log that is followed as it grows.

Whoever builds a scene hands over the log again and again, as far as it has come. The assembly
counts the events that it has applied, and `sync` passes over as many.

* Events neither read nor change the count (`Event.apply_counting`), so that it may be told apart
  from what they build.
* `Assembly.following` has applied the first events of a log, each of them once. A beginning of the
  log takes it to the longer of the two beginnings, whichever that is (`sync_following`).
* `syncAll_eq_following`: in the end, only the longest beginning that was handed over counts.
-/

namespace LiveScene

/-! ### The count -/

/-- The assembly with another count of applied events. -/
def Assembly.counting (a : Assembly) (count : Nat) : Assembly := { a with applied := count }

/-- Assigning a number changes the stage only. -/
theorem Assembly.updateCell_number (a : Assembly) (id : String) (target : Float)
    (animated : Bool) (durationMs : Option UInt64) :
    a.updateCell id (.number target) animated durationMs =
      { a with
        stage :=
          if animated && a.holdsNumber id then a.stage.animate id target durationMs none
          else a.stage.assign id .set (.number target) } := by
  simp only [updateCell]
  split <;> rfl

theorem Assembly.updateCell_counting (a : Assembly) (id : String) (value : Value)
    (animated : Bool) (durationMs : Option UInt64) (count : Nat) :
    (a.counting count).updateCell id value animated durationMs =
      (a.updateCell id value animated durationMs).counting count := by
  cases value with
  | number target =>
      rw [updateCell_number, updateCell_number]
      rfl
  | _ => rfl

namespace Event

mutual

/-- What an event makes of an assembly does not depend on the count, and leaves it as it is. -/
theorem apply_counting (e : Event) (a : Assembly) (count : Nat) :
    e.apply (a.counting count) = (e.apply a).counting count := by
  cases e with
  | batch events =>
      simp only [apply]
      exact applyAll_counting events a count
  | updateCell id value animated durationMs =>
      simp only [apply]
      exact a.updateCell_counting id value animated durationMs count
  | _ => simp only [apply, Assembly.counting, Assembly.modifyAttributes]

theorem applyAll_counting (events : List Event) (a : Assembly) (count : Nat) :
    applyAll events (a.counting count) = (applyAll events a).counting count := by
  cases events with
  | nil => simp only [applyAll]
  | cons e r =>
      simp only [applyAll]
      rw [apply_counting e a count]
      exact applyAll_counting r (e.apply a) count

end

end Event

namespace Assembly

/-! ### One call -/

theorem sync_of_le {a : Assembly} {given : List Event} (h : a.applied ≤ given.length) :
    a.sync given =
      ((Event.applyAll (given.drop a.applied) a).counting given.length,
        given.length - a.applied) :=
  if_pos h

/-- A log that has shrunk is not followed. -/
theorem sync_of_lt {a : Assembly} {given : List Event} (h : given.length < a.applied) :
    a.sync given = (a, 0) :=
  if_neg (Nat.not_le_of_lt h)

/-- What a log has built when its first events were applied, each once and in order. -/
def following (stage : Stage) (log : List Event) (count : Nat) : Assembly :=
  (Event.applyAll (log.take count) (new stage)).counting count

variable (stage : Stage) {log : List Event}

@[simp] theorem applied_following (stage : Stage) (log : List Event) (count : Nat) :
    (following stage log count).applied = count := rfl

theorem following_zero : following stage log 0 = new stage := by
  simp only [following, List.take_zero, Event.applyAll]
  rfl

/-- What is passed over and what is applied make up the beginning that is handed over. -/
theorem take_append_drop_of_prefix {given : List Event} (h : given <+: log) {count : Nat}
    (hle : count ≤ given.length) :
    log.take count ++ given.drop count = log.take given.length := by
  have hgiven : given = log.take given.length := List.prefix_iff_eq_take.mp h
  have hsame : log.take count = given.take count := by
    rw [hgiven, List.take_take, Nat.min_eq_left hle]
  rw [hsame, List.take_append_drop, ← hgiven]

/-- An assembly that follows a log is handed over a beginning of it. Then it follows the log as far
as the longer of the two beginnings reaches, and answers by how much it went on. -/
theorem sync_following {given : List Event} (h : given <+: log) (count : Nat) :
    (following stage log count).sync given =
      (following stage log (max count given.length), max count given.length - count) := by
  by_cases hle : count ≤ given.length
  · have hbuilt : Event.applyAll (given.drop count) (following stage log count) =
        (Event.applyAll (log.take given.length) (new stage)).counting count := by
      rw [following, Event.applyAll_counting, ← Event.applyAll_append,
        take_append_drop_of_prefix h hle]
    rw [sync_of_le (a := following stage log count) hle, applied_following, hbuilt,
      Nat.max_eq_right hle]
    rfl
  · rw [sync_of_lt (a := following stage log count) (Nat.lt_of_not_le hle),
      Nat.max_eq_left (Nat.le_of_not_le hle), Nat.sub_self]

/-! ### All calls -/

/-- Hands over logs, one after the other, and answers how many events each call applied. -/
def syncAll (a : Assembly) : List (List Event) → Assembly × List Nat
  | [] => (a, [])
  | given :: r =>
    (((a.sync given).1.syncAll r).1, (a.sync given).2 :: ((a.sync given).1.syncAll r).2)

/-- The length of the longest of several logs. -/
def longest (logs : List (List Event)) : Nat := (logs.map List.length).foldr max 0

@[simp] theorem longest_nil : longest [] = 0 := rfl

@[simp] theorem longest_cons (given : List Event) (r : List (List Event)) :
    longest (given :: r) = max given.length (longest r) := rfl

theorem syncAll_following {logs : List (List Event)} (h : ∀ given ∈ logs, given <+: log)
    (count : Nat) :
    ((following stage log count).syncAll logs).1 =
        following stage log (max count (longest logs)) ∧
      count + ((following stage log count).syncAll logs).2.sum = max count (longest logs) := by
  induction logs generalizing count with
  | nil => simp [syncAll]
  | cons given r ih =>
      have hfirst := sync_following stage (h given List.mem_cons_self) count
      have hrest := ih (fun l hl => h l (List.mem_cons_of_mem given hl)) (max count given.length)
      simp only [syncAll, hfirst, longest_cons, List.sum_cons]
      rw [Nat.max_assoc] at hrest
      refine ⟨hrest.1, ?_⟩
      have := hrest.2
      omega

/-- Beginnings of a log are handed over to a new assembly, growing, shrinking or the same again.
What they build, its graph, its cells with their versions and the requests for animations, is what
as many events of the log build as the longest of them has, each applied once and in order. The
answers add up to that number. -/
theorem syncAll_eq_following (stage : Stage) {log : List Event} {logs : List (List Event)}
    (h : ∀ given ∈ logs, given <+: log) :
    ((new stage).syncAll logs).1 =
        { Event.applyAll (log.take (longest logs)) (new stage) with applied := longest logs } ∧
      ((new stage).syncAll logs).2.sum = longest logs := by
  have hall := syncAll_following stage h 0
  rw [following_zero, Nat.zero_max, Nat.zero_add] at hall
  exact hall

/-- A cell is created, assigned and assigned again. -/
def threeEvents : List Event :=
  [.createCell "x" .string (.text "a"), .updateCell "x" (.text "b") false none,
    .updateCell "x" (.text "c") false none]

/-- A stage that lists the requests for animations. -/
def recording : Stage := ⟨.new "scene", .recorder [], {}⟩

/-- The log is handed over up to its second event, up to its first, and twice as a whole. -/
theorem syncAll_eq_following_threeEvents :
    (∀ given ∈ [threeEvents.take 2, threeEvents.take 1, threeEvents, threeEvents],
        given <+: threeEvents) ∧
      ((new recording).syncAll
        [threeEvents.take 2, threeEvents.take 1, threeEvents, threeEvents]).1 =
        { Event.applyAll threeEvents (new recording) with applied := 3 } ∧
      ((new recording).syncAll
        [threeEvents.take 2, threeEvents.take 1, threeEvents, threeEvents]).2.sum = 3 := by
  have h : ∀ given ∈ [threeEvents.take 2, threeEvents.take 1, threeEvents, threeEvents],
      given <+: threeEvents := by
    simp only [List.mem_cons, List.not_mem_nil, or_false]
    rintro given (rfl | rfl | rfl | rfl)
    · exact List.take_prefix 2 threeEvents
    · exact List.take_prefix 1 threeEvents
    · exact List.prefix_refl threeEvents
    · exact List.prefix_refl threeEvents
  exact ⟨h, syncAll_eq_following recording h⟩

end Assembly

end LiveScene
