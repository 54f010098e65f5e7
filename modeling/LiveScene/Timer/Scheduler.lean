import LiveScene.Timer.Interval

/-!
# LiveScene.Timer.Scheduler

Timers of several running instances in one registry.

* There are two families. *Frame* timers are asked for with each frame; their interval is
  rounded up to whole frames and may change from frame to frame. *Wall-clock* timers keep the
  interval that they have at their start.
* The registry holds, for each instance, its timers by their ids. Operations name the instance
  whose timers they touch.
* The scheduler does not run timers. `due` answers those whose time has come, each at most once
  a call; who runs them asks `isLive` first, because what runs before may have stopped them. A
  timer that fell behind goes on from now and does not make up for what it missed.
* Each start has a number of its own, so that a timer that was stopped and started again is
  told apart from the one that was collected before.
* An interval in frames that is longer than any duration has no due time. Then `overflowed` is
  set, and the registry is of no more use.
-/

namespace LiveScene

/-- When a timer is asked for. -/
inductive TimerFamily where
  /-- With each frame. -/
  | frame
  /-- By the clock. -/
  | wallClock
deriving Repr, DecidableEq

/-- What a timer does. -/
inductive TimerBody where
  /-- Runs actions. -/
  | actions (list : List Action)
  /-- Calls the host, by a name that it has given. -/
  | callback (name : String)

/-- A timer as it is started. -/
structure TimerSpec where
  interval : Interval
  body : TimerBody
  family : TimerFamily
  /-- Whether it fires more than once. -/
  repeats : Bool
  /-- The parameters of its actions. -/
  params : Params

/-- A timer in the registry. -/
structure Timer where
  spec : TimerSpec
  /-- The interval at its start. -/
  resolved : Duration
  /-- The time when it fired last, or its start. -/
  lastFired : Duration
  /-- The time when it is due by the clock. -/
  nextDue : Duration
  /-- The number of its start. -/
  serial : Nat

/-- A timer whose time has come. -/
structure FiredTimer where
  owner : String
  id : String
  body : TimerBody
  params : Params
  /-- The number of its start. -/
  serial : Nat
  /-- Whether it stays in the registry to fire again. -/
  repeats : Bool

/-- The timers of all instances. -/
structure Scheduler where
  /-- The time between frames. -/
  frame : Duration
  /-- Frames are at least a millisecond apart. -/
  millisecond_le_frame : Duration.ofMillis 1 ≤ frame
  /-- The timers of each instance by their ids. -/
  timers : Dict (Dict Timer)
  /-- The number of the next start. It only tells starts apart, and has no bound. -/
  nextSerial : Nat
  /-- Whether an interval did not fit. -/
  overflowed : Bool

/-- The name of a timer among those of all instances. -/
def FiredTimer.key (f : FiredTimer) : String := f.owner ++ ":" ++ f.id

namespace Timer

/-- The time when a timer is due, if there is one, and the timer with its interval read. -/
def dueAt? (t : Timer) (frame : Duration) (cells : CellStore) : Option Duration × Timer :=
  match t.spec.family with
  | .frame =>
    let (length, interval) := t.spec.interval.resolve cells
    ((length.quantize? frame).map (t.lastFired + ·),
      { t with spec := { t.spec with interval := interval } })
  | .wallClock => (some t.nextDue, t)

/-- The timer after firing. By the clock it is due an interval later than it was, or than now if
that has passed as well. -/
def advance (t : Timer) (now : Duration) : Timer :=
  let next := t.nextDue + t.resolved
  { t with lastFired := now, nextDue := if next ≤ now then now + t.resolved else next }

/-- What a question to a timer yields. -/
structure Outcome where
  /-- The timer that stays in the registry. -/
  kept : Option Timer
  /-- Whether its time has come. -/
  fired : Bool
  /-- Whether it has no due time. -/
  overflowed : Bool

/-- Asks a timer of a family whether its time has come. -/
def ask (family : TimerFamily) (frame now : Duration) (cells : CellStore) (t : Timer) : Outcome :=
  if t.spec.family = family then
    match t.dueAt? frame cells with
    | (none, t) => ⟨some t, false, true⟩
    | (some time, t) =>
      if now < time then ⟨some t, false, false⟩
      else if t.spec.repeats then ⟨some (t.advance now), true, false⟩
      else ⟨none, true, false⟩
  else ⟨some t, false, false⟩

/-- The timer as one whose time has come. -/
def toFired (owner id : String) (t : Timer) : FiredTimer :=
  ⟨owner, id, t.spec.body, t.spec.params, t.serial, t.spec.repeats⟩

end Timer

namespace Scheduler

/-- A registry without timers. Frames are at least a millisecond apart. -/
def new (frame : Duration) : Scheduler where
  frame := frame.longer (.ofMillis 1)
  millisecond_le_frame := Duration.le_longer_right _ _
  timers := ∅
  nextSerial := 0
  overflowed := false

/-- The registry with frames every sixteen milliseconds. -/
def default : Scheduler := new (.ofMillis 16)

instance : Inhabited Scheduler := ⟨default⟩

/-- The timers of an instance. -/
def timersOf (s : Scheduler) (owner : String) : Dict Timer := (s.timers.get? owner).getD ∅

/-- A timer. -/
def timer? (s : Scheduler) (owner id : String) : Option Timer := (s.timersOf owner).get? id

/-- Whether a timer is in the registry. -/
def isActive (s : Scheduler) (owner id : String) : Bool := (s.timersOf owner).contains id

/-- The number of timers of an instance. -/
def activeCount (s : Scheduler) (owner : String) : Nat := (s.timersOf owner).size

/-- Puts timers of an instance in place of those it has. -/
def setTimers (s : Scheduler) (owner : String) (timers : Dict Timer) : Scheduler :=
  { s with timers := s.timers.insert owner timers }

/-- Stops a timer, and tells whether there was one. -/
def stop (s : Scheduler) (owner id : String) : Scheduler × Bool :=
  if s.isActive owner id then (s.setTimers owner ((s.timersOf owner).erase id), true)
  else (s, false)

/-- Stops all timers of an instance, and answers their number. -/
def stopAll (s : Scheduler) (owner : String) : Scheduler × Nat :=
  ({ s with timers := s.timers.erase owner }, s.activeCount owner)

/-- The interval that a timer has at its start: in whole frames, or at least a millisecond. -/
def effective? (s : Scheduler) (family : TimerFamily) (length : Duration) : Option Duration :=
  match family with
  | .frame => length.quantize? s.frame
  | .wallClock => some (length.longer (.ofMillis 1))

/-- Starts a timer in place of one with its id. -/
def start (s : Scheduler) (owner id : String) (spec : TimerSpec) (now : Duration)
    (cells : CellStore) : Scheduler :=
  let s := (s.stop owner id).1
  let (length, interval) := spec.interval.resolve cells
  match s.effective? spec.family length with
  | none => { s with overflowed := true }
  | some resolved =>
    let timer : Timer :=
      { spec := { spec with interval := interval }, resolved := resolved, lastFired := now,
        nextDue := now + resolved, serial := s.nextSerial }
    { s.setTimers owner ((s.timersOf owner).insert id timer) with
      nextSerial := s.nextSerial + 1 }

/-- The timers of a family and instance whose time has come, in the order of their ids. Those
that fire once leave the registry. -/
def due (s : Scheduler) (owner : String) (family : TimerFamily) (now : Duration)
    (cells : CellStore) : Scheduler × List FiredTimer :=
  match s.timers.get? owner with
  | none => (s, [])
  | some timers =>
    let ask := Timer.ask family s.frame now cells
    let fired := timers.entries.filterMap fun e =>
      if (ask e.2).fired then some (e.2.toFired owner e.1) else none
    ({ s.setTimers owner (timers.filterMap fun _ t => (ask t).kept) with
      overflowed := s.overflowed || timers.entries.any fun e => (ask e.2).overflowed }, fired)

/-- Whether a timer that was collected may still run. One that repeats must be in the registry
since the same start; one that fires once has left it and cannot be stopped. -/
def isLive (s : Scheduler) (f : FiredTimer) : Bool :=
  !f.repeats || (s.timer? f.owner f.id).any fun t => t.serial == f.serial

theorem activeCount_eq_zero_iff {s : Scheduler} {owner : String} :
    s.activeCount owner = 0 ↔ ∀ id, s.timer? owner id = none :=
  Dict.size_eq_zero_iff

/-! ### What the operations do to a timer -/

@[simp] theorem timer?_setTimers (s : Scheduler) (owner other id : String)
    (timers : Dict Timer) :
    (s.setTimers owner timers).timer? other id =
      if other = owner then timers.get? id else s.timer? other id := by
  unfold timer? timersOf setTimers
  by_cases h : other = owner <;> simp [h]

theorem timer?_stop (s : Scheduler) (owner id other name : String) :
    (s.stop owner id).1.timer? other name =
      if other = owner ∧ name = id then none else s.timer? other name := by
  unfold stop
  split
  · rw [timer?_setTimers]
    by_cases ho : other = owner
    · subst ho; by_cases hn : name = id <;> simp [hn, timer?]
    · simp [ho]
  · next h =>
    split
    · next hkey =>
      rw [hkey.1, hkey.2]
      simpa [isActive, Dict.contains, timer?] using h
    · rfl

theorem timer?_stopAll (s : Scheduler) (owner other name : String) :
    (s.stopAll owner).1.timer? other name =
      if other = owner then none else s.timer? other name := by
  unfold stopAll timer? timersOf
  by_cases h : other = owner <;> simp [h]

/-- The interval at a start depends on the length of a frame only. -/
theorem effective?_congr {s t : Scheduler} (h : s.frame = t.frame) :
    s.effective? = t.effective? := by
  unfold effective?
  rw [h]

/-- The timer that a start puts into the registry, if its interval fits. -/
def started? (s : Scheduler) (spec : TimerSpec) (now : Duration) (cells : CellStore) :
    Option Timer :=
  (s.effective? spec.family (spec.interval.resolve cells).1).map fun resolved =>
    { spec := { spec with interval := (spec.interval.resolve cells).2 }, resolved := resolved,
      lastFired := now, nextDue := now + resolved, serial := s.nextSerial }

@[simp] theorem frame_stop (s : Scheduler) (owner id : String) :
    (s.stop owner id).1.frame = s.frame := by
  unfold stop; split <;> rfl

@[simp] theorem nextSerial_stop (s : Scheduler) (owner id : String) :
    (s.stop owner id).1.nextSerial = s.nextSerial := by
  unfold stop; split <;> rfl

/-- A start stops the timer of the name and puts the new one there, if its interval fits. -/
theorem start_eq (s : Scheduler) (owner id : String) (spec : TimerSpec) (now : Duration)
    (cells : CellStore) :
    s.start owner id spec now cells =
      match s.started? spec now cells with
      | none => { (s.stop owner id).1 with overflowed := true }
      | some t =>
        { (s.stop owner id).1.setTimers owner (((s.stop owner id).1.timersOf owner).insert id t)
          with nextSerial := s.nextSerial + 1 } := by
  have heffective := effective?_congr (s.frame_stop owner id)
  have hserial := s.nextSerial_stop owner id
  unfold start started?
  generalize (s.stop owner id).1 = stopped at *
  rw [← heffective, ← hserial]
  dsimp only
  cases stopped.effective? spec.family (spec.interval.resolve cells).1 <;> rfl

theorem timer?_start (s : Scheduler) (owner id : String) (spec : TimerSpec) (now : Duration)
    (cells : CellStore) (other name : String) :
    (s.start owner id spec now cells).timer? other name =
      if other = owner ∧ name = id then s.started? spec now cells else s.timer? other name := by
  have hstop := s.timer?_stop owner id other name
  rw [start_eq]
  generalize (s.stop owner id).1 = stopped at *
  cases s.started? spec now cells with
  | none => exact hstop
  | some t =>
    show (stopped.setTimers owner _).timer? other name = _
    rw [timer?_setTimers]
    by_cases ho : other = owner
    · subst ho
      by_cases hn : name = id
      · simp [hn]
      · simpa [hn, timer?] using hstop
    · simpa [ho] using hstop

theorem nextSerial_start (s : Scheduler) (owner id : String) (spec : TimerSpec) (now : Duration)
    (cells : CellStore) :
    (s.start owner id spec now cells).nextSerial =
      if (s.started? spec now cells).isSome then s.nextSerial + 1 else s.nextSerial := by
  rw [start_eq]
  cases s.started? spec now cells with
  | none => exact s.nextSerial_stop owner id
  | some t => rfl

@[simp] theorem frame_start (s : Scheduler) (owner id : String) (spec : TimerSpec)
    (now : Duration) (cells : CellStore) : (s.start owner id spec now cells).frame = s.frame := by
  rw [start_eq]
  cases s.started? spec now cells with
  | none => exact s.frame_stop owner id
  | some t => exact s.frame_stop owner id

theorem timer?_due (s : Scheduler) (owner : String) (family : TimerFamily) (now : Duration)
    (cells : CellStore) (other name : String) :
    (s.due owner family now cells).1.timer? other name =
      if other = owner then
        (s.timer? other name).bind fun t => (Timer.ask family s.frame now cells t).kept
      else s.timer? other name := by
  by_cases ho : other = owner
  · subst ho
    rw [if_pos rfl, due]
    cases htimers : s.timers.get? other with
    | none => simp [timer?, timersOf, htimers]
    | some timers => simp [timer?, timersOf, setTimers, htimers, Dict.get?_filterMap]
  · rw [if_neg ho, due]
    split
    · rfl
    · exact (s.timer?_setTimers owner other name _).trans (if_neg ho)

@[simp] theorem frame_due (s : Scheduler) (owner : String) (family : TimerFamily)
    (now : Duration) (cells : CellStore) : (s.due owner family now cells).1.frame = s.frame := by
  unfold due; split <;> rfl

@[simp] theorem nextSerial_due (s : Scheduler) (owner : String) (family : TimerFamily)
    (now : Duration) (cells : CellStore) :
    (s.due owner family now cells).1.nextSerial = s.nextSerial := by
  unfold due; split <;> rfl

/-- The timers that are collected: those of the instance whose time has come. -/
theorem mem_due {s : Scheduler} {owner : String} {family : TimerFamily} {now : Duration}
    {cells : CellStore} {f : FiredTimer} :
    f ∈ (s.due owner family now cells).2 ↔
      ∃ t, s.timer? owner f.id = some t ∧
        (Timer.ask family s.frame now cells t).fired = true ∧ t.toFired owner f.id = f := by
  rw [due]
  cases htimers : s.timers.get? owner with
  | none => simp [timer?, timersOf, htimers]
  | some timers =>
    simp only [timer?, timersOf, htimers, Option.getD_some, List.mem_filterMap]
    constructor
    · rintro ⟨⟨id, t⟩, hmem, hfired⟩
      split at hfired
      · next h =>
        cases hfired
        exact ⟨t, Dict.mem_entries_iff.mp hmem, h, rfl⟩
      · cases hfired
    · rintro ⟨t, hget, hfired, hf⟩
      exact ⟨(f.id, t), Dict.mem_entries_iff.mpr hget, by simp [hfired, hf]⟩

/-- A timer is collected once. -/
theorem nodup_due (s : Scheduler) (owner : String) (family : TimerFamily) (now : Duration)
    (cells : CellStore) : (s.due owner family now cells).2.Nodup := by
  rw [due]
  cases s.timers.get? owner with
  | none => exact List.nodup_nil
  | some timers =>
    have hids := timers.ascending
    rw [names, List.pairwise_map] at hids
    refine List.Pairwise.filterMap _ ?_ hids
    intro d e hlt f hf g hg heq
    split at hf <;> cases hf
    split at hg <;> cases hg
    have hid : d.1 = e.1 := congrArg FiredTimer.id heq
    exact String.lt_irrefl _ (hid ▸ hlt)

end Scheduler

end LiveScene
