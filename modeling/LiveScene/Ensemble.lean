import LiveScene.Scene

/-!
# LiveScene.Ensemble

Scenes side by side. They may share one registry of timers and one store of records; all else
each has for itself.

A scene that acts is given what is shared and hands it back afterwards, so that a scene alone
and a scene among others are one and the same definition.
-/

namespace LiveScene

/-- A scene among others. -/
structure Member where
  scene : Scene
  /-- Whether its timers are in the shared registry. -/
  sharesTimers : Bool
  /-- Whether its records are in the shared store. -/
  sharesRecords : Bool
  /-- Whether it was given up. -/
  gone : Bool := false

/-- Scenes, and what they share. -/
structure Ensemble where
  members : List Member
  scheduler : Scheduler
  records : RecordStore
  /-- How often the host was called, by the names of the calls. -/
  calls : Dict Nat := ∅

/-- Counts names. -/
def tally (counts : Dict Nat) (names : List String) : Dict Nat :=
  names.foldl (fun counts name => counts.insert name ((counts.get? name).getD 0 + 1)) counts

namespace Ensemble

/-- The scene of a member with what is shared. -/
def lend (e : Ensemble) (m : Member) : Scene :=
  let p := m.scene.performer
  { m.scene with
    performer :=
      { p with
        scheduler := if m.sharesTimers then e.scheduler else p.scheduler
        records := if m.sharesRecords then e.records else p.records } }

/-- Takes back the scene of a member, and what is shared. -/
def takeBack (e : Ensemble) (i : Nat) (m : Member) (s : Scene) : Ensemble :=
  { e with
    members := e.members.set i { m with scene := s }
    scheduler := if m.sharesTimers then s.performer.scheduler else e.scheduler
    records := if m.sharesRecords then s.performer.records else e.records }

/-- A scene with what is shared, whether it was given up or not. -/
def scene? (e : Ensemble) (i : Nat) : Option Scene := e.members[i]?.map e.lend

/-- Lets a scene act, if it was not given up. -/
def act {α : Type} (e : Ensemble) (i : Nat) (f : Scene → Scene × α) : Ensemble × Option α :=
  match e.members[i]? with
  | none => (e, none)
  | some m =>
    if m.gone then (e, none)
    else
      let (s, a) := f (e.lend m)
      (e.takeBack i m s, some a)

/-- Counts the calls of a run. -/
def noteCalls (e : Ensemble) (report : Report) : Ensemble :=
  { e with calls := tally e.calls report.called }

/-- Gives a scene up, which ends it. -/
def drop (e : Ensemble) (i : Nat) : Ensemble :=
  let e := (e.act i fun s => (s.teardown, ())).1
  { e with members := e.members.modify i fun m => { m with gone := true } }

end Ensemble

end LiveScene
