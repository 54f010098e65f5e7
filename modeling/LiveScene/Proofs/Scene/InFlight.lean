import LiveScene.Proofs.Scene.Deeds

/-!
# LiveScene.Proofs.Scene.InFlight

Timers that are stopped between their collection and their turn.

A frame or a poll collects all timers whose time has come, and then takes their bodies in turn. What
is done meanwhile may stop a timer whose turn is still to come. `stop_reaches_repeating` says
which timers it reaches: those that repeat, and no others. A timer that fires once has left the
registry with its collection, and runs.
-/

namespace LiveScene

open Performer
open Deed (replay requests)

namespace Scene

/-- The deeds of a timer that was collected, when its turn comes after those of others: none, if it
repeats and they have ended it. -/
def turnDeeds (context : Context) (now : Duration) (f : FiredTimer) (done : List Deed)
    (p : Performer) : List Deed :=
  if !f.repeats || !Scheduler.isEndedBy f (requests done p) then
    .fire context now f :: bodyDeeds context now f (replay done p)
  else []

/-- A batch around the turn of one of its timers. -/
theorem batchDeeds_turn {p q : Performer} (hs : p.scheduler.Numbered) (context : Context)
    {family : TimerFamily} {now : Duration} {before after : List FiredTimer} {f : FiredTimer}
    (hcollect : p.collect family now = (q, before ++ f :: after)) :
    ∃ rest, batchDeeds context now (before ++ f :: after) q =
      batchDeeds context now before q ++
        turnDeeds context now f (batchDeeds context now before q) q ++ rest := by
  have hmem : f ∈ (p.collect family now).2 := by simp [hcollect]
  have hlive := Deed.isLive_replay hs hmem
    (along_apart_batchDeeds context now before q (p.collect family now).1)
  rw [hcollect] at hlive
  obtain ⟨rest, hbatch⟩ := batchDeeds_split context now before after f q
  refine ⟨rest, ?_⟩
  rw [hbatch, firedDeeds, hlive, turnDeeds]

/-- After a timer was collected, whatever is asked of the timers: it is live if it fires once, and
if it repeats, until a request ends it and not afterwards. So in the batch of a frame or a poll,
the body of a timer begins in its turn if it fires once, and if it repeats, unless the bodies before
it have ended it. -/
theorem stop_reaches_repeating {s : Scene} (hs : s.performer.scheduler.Reachable) :
    (∀ owner family now cells, ∀ f ∈ (s.performer.scheduler.due owner family now cells).2,
      ∀ rs, ((s.performer.scheduler.due owner family now cells).1.serveAll rs).isLive f =
        (!f.repeats || !Scheduler.isEndedBy f rs)) ∧
    ∀ op a family now c, s.deeds op = a ++ .collect family now :: c →
      ∀ p before f after,
        (replay a s.performer).collect family now = (p, before ++ f :: after) →
        ∃ done rest, done = batchDeeds family.context now before p ∧
          c = done ++ turnDeeds family.context now f done p ++ rest := by
  refine ⟨fun owner family now cells f hf => Scheduler.isLive_serveAll hs.numbered hf, ?_⟩
  intro op a family now c hdeeds p before f after hcollect
  obtain ⟨⟨-, rfl⟩, rfl⟩ := deeds_collect hdeeds
  have hapart : s.Apart (.tick family now) := by cases family <;> trivial
  have halong := along_apart_deeds hapart
  rw [hdeeds] at halong
  have hnumbered := Deed.numbered_replay hs.numbered (Deed.along_append.mp halong).1
  obtain ⟨rest, hbatch⟩ := batchDeeds_turn hnumbered family.context hcollect
  rw [hcollect]
  exact ⟨_, rest, rfl, hbatch⟩

/-- A timer that runs actions every ten milliseconds. -/
def everyTen (actions : List Action) : TimerSpec :=
  ⟨.fixed (.ofMillis 10), .actions actions, .wallClock, true, ∅⟩

/-- Two timers that are due at the same time. The first stops the second. -/
def twoTimers : Scene :=
  (blank.run [.startTimer "a" (everyTen [.mk (.stopTimer "b") none]) .zero,
    .startTimer "b" (everyTen [chime]) .zero]).1

/-- Both are collected, and when the first has run, the second is not live. -/
theorem stop_reaches_twoTimers :
    twoTimers.performer.scheduler.Reachable ∧
      ((twoTimers.performer.scheduler.due "scene" .wallClock (.ofMillis 10)
        twoTimers.cells).1.serveAll [.stop "scene" "b"]).isLive
          ⟨"scene", "b", .actions [chime], ∅, 1, true⟩ = false := by
  have hreachable : twoTimers.performer.scheduler.Reachable :=
    ⟨_, [.start "scene" "a" (everyTen [.mk (.stopTimer "b") none]) .zero blank.cells,
      .start "scene" "b" (everyTen [chime]) .zero blank.cells], rfl⟩
  refine ⟨hreachable, ?_⟩
  exact (stop_reaches_repeating hreachable).1 "scene" .wallClock (.ofMillis 10) twoTimers.cells
    ⟨"scene", "b", .actions [chime], ∅, 1, true⟩ (List.mem_cons_of_mem _ List.mem_cons_self)
    [.stop "scene" "b"]

/-- Two delays that are over at the same time. The first stops the timer of the second. -/
def twoDelays : Scene :=
  (blank.execute [.mk (.delay 10 [.mk (.stopTimer "delay#1") none]) none,
    .mk (.delay 10 [chime]) none] (atStart none)).1

/-- The timer of the second is live when it has been stopped, and at the poll its body begins,
though the one before it has stopped its timer. -/
theorem isLive_twoDelays :
    ((twoDelays.performer.scheduler.due "scene" .wallClock (.ofMillis 10)
        twoDelays.cells).1.stop "scene" "delay#1").1.isLive
          ⟨"scene", "delay#1", .actions [chime], ∅, 1, false⟩ = true ∧
      twoDelays.deeds (.poll (.ofMillis 10)) =
        [.playEffects, .takeForwarded, .collect .wallClock (.ofMillis 10),
          .fire .fullCapability (.ofMillis 10)
            ⟨"scene", "delay#0", .actions [.mk (.stopTimer "delay#1") none], ∅, 0, false⟩,
          .act ⟨.fullCapability, ∅, none, .ofMillis 10⟩ (.mk (.stopTimer "delay#1") none),
          .fire .fullCapability (.ofMillis 10)
            ⟨"scene", "delay#1", .actions [chime], ∅, 1, false⟩,
          .act ⟨.fullCapability, ∅, none, .ofMillis 10⟩ chime] :=
  ⟨rfl, rfl⟩

end Scene

end LiveScene
