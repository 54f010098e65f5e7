import LiveScene.Proofs.Timer.Overflow

/-!
# LiveScene.Proofs.Timer.Due

What a question to a registry of timers collects, and what it leaves.

* `Timer.IsDue` says when the time of a timer has come. It adds times without an end; the sums of
  the registry stop at the longest duration, which makes no difference before it.
* `Scheduler.Collects` is one question in full: who is collected and in which order, who leaves and
  what stays as it is.
* A timer that was collected rests (`Timer.RestsThrough`): up to the time of that question it is not
  due again, whatever its interval is read to be. The first collection makes it so, because every
  interval has a length (`Reachable.resolved_pos`), and questions keep it so.
-/

namespace LiveScene

namespace Duration

variable {length frame d : Duration}

/-- The length of a day. -/
def day : Duration := .ofMillis 86400000

/-- As many days as can be counted are a duration. -/
theorem greatestFrames_le_wholeFrames (hpos : 0 < frame.nanos) (hframe : frame ≤ day) :
    greatestFrames ≤ frame.wholeFrames := by
  have hday : frame.nanos ≤ 86400000000000 := hframe
  have hgreatest : greatestFrames = 4294967295 := rfl
  have hlongest : longestNanos = 18446744073709551615999999999 := rfl
  rw [wholeFrames, Nat.le_div_iff_mul_le hpos, hgreatest, hlongest]
  omega

/-- What is rounded up is a frame at least. -/
theorem frame_le_of_quantize? (h : length.quantize? frame = some d) : frame ≤ d := by
  have hcount := Nat.mul_le_mul_left frame.nanos (one_le_frameCount length frame)
  rw [le_def, quantize?_eq_some h]
  omega

end Duration

/-! ### One timer -/

namespace Timer

variable {t u : Timer} {family : TimerFamily} {frame now time : Duration} {cells : CellStore}

/-- The time of a timer has come: by the clock it is due, and by frames as many have passed since it
began to count as its interval, read now, is rounded to. -/
def IsDue (t : Timer) (frame now : Duration) (cells : CellStore) : Prop :=
  match t.spec.family with
  | .frame => ∃ d, (t.reading cells).quantize? frame = some d ∧
      t.lastFired.nanos + d.nanos ≤ now.nanos
  | .wallClock => t.nextDue ≤ now

/-- Before the longest duration, a question finds the timers of its family due whose time has
come. -/
theorem fired_ask_iff (hnow : now < .longest) :
    (ask family frame now cells t).fired = true ↔
      t.spec.family = family ∧ t.IsDue frame now cells := by
  by_cases hfamily : t.spec.family = family
  · cases family with
    | frame =>
        have hsum : ∀ d : Duration, t.lastFired + d ≤ now ↔
            t.lastFired.nanos + d.nanos ≤ now.nanos := by
          intro d
          have hend : now.nanos < longestNanos := hnow
          rw [Duration.le_def, Duration.nanos_add]
          omega
        simp [fired_ask_of_frame hfamily, IsDue, hfamily, hsum]
    | wallClock =>
        rw [ask_of_wallClock hfamily]
        by_cases hdue : t.nextDue ≤ now <;> simp [IsDue, hfamily, hdue]
  · simp [ask_of_ne hfamily, hfamily]

/-- A question changes no more of a timer that it leaves than the readings of its interval. -/
theorem asked_cases (t : Timer) (family : TimerFamily) (cells : CellStore) :
    t.asked family cells = t ∨
      t.asked family cells = t.reread cells ∧ family = .frame ∧ t.spec.family = .frame ∧
        ∃ lengths, t.spec.interval = .readings lengths := by
  unfold asked
  split
  · next hasked =>
      obtain ⟨⟨interval, body, own, repeats, params⟩, resolved, lastFired, nextDue, serial⟩ := t
      cases interval with
      | fixed length => exact Or.inl rfl
      | expr e => exact Or.inl rfl
      | readings lengths =>
          exact Or.inr ⟨rfl, hasked.2, hasked.1.trans hasked.2, lengths, rfl⟩
  · exact Or.inl rfl

/-- A question leaves the interval that a timer had at its start. -/
theorem resolved_ask (h : (ask family frame now cells t).kept = some u) :
    u.resolved = t.resolved := by
  rw [kept_ask] at h
  split at h
  · simp only [Option.ite_none_right_eq_some, Option.some.injEq] at h
    rw [← h.2, resolved_advance, resolved_asked]
  · rw [← Option.some.inj h, resolved_asked]

/-! ### A timer that rests -/

/-- A timer cannot be due up to a time, whatever its interval is read to be. -/
def RestsThrough (t : Timer) (time : Duration) : Prop :=
  match t.spec.family with
  | .frame => time ≤ t.lastFired
  | .wallClock => time < t.nextDue

/-- It is not found due. -/
theorem RestsThrough.not_fired (h : t.RestsThrough time) (hframe : 0 < frame.nanos)
    (hle : now ≤ time) (hnow : now < .longest) :
    ¬ (ask family frame now cells t).fired = true := by
  rw [fired_ask_iff hnow]
  rintro ⟨-, hdue⟩
  rw [Duration.le_def] at hle
  unfold RestsThrough at h
  unfold IsDue at hdue
  cases hfamily : t.spec.family with
  | frame =>
      rw [hfamily] at h hdue
      obtain ⟨d, hrounded, hsum⟩ := hdue
      have hlong := Duration.frame_le_of_quantize? hrounded
      simp only [Duration.le_def] at h hlong
      omega
  | wallClock =>
      rw [hfamily] at h hdue
      simp only [Duration.le_def, Duration.lt_def] at h hdue
      omega

/-- Firing takes the due time past now, -/
theorem lt_nextDue_advance (hpos : 0 < t.resolved.nanos) (hnow : now < .longest) :
    now < (t.advance now).nextDue := by
  have hend : now.nanos < longestNanos := hnow
  rw [nextDue_advance]
  split
  · rw [Duration.lt_def, Duration.nanos_add]
    omega
  · next hlater =>
      rw [Duration.le_def] at hlater
      rw [Duration.lt_def]
      omega

/-- and never back. -/
theorem nextDue_le_advance (t : Timer) (now : Duration) : t.nextDue ≤ (t.advance now).nextDue := by
  have hend := t.nextDue.le_longest
  rw [nextDue_advance]
  split
  · next hlate =>
      rw [Duration.le_def, Duration.nanos_add] at hlate ⊢
      omega
  · rw [Duration.le_def, Duration.nanos_add]
    omega

/-- A timer that was found due rests through that time. -/
theorem restsThrough_of_fired (hpos : 0 < t.resolved.nanos) (hnow : now < .longest)
    (hfired : (ask family frame now cells t).fired = true)
    (hkept : (ask family frame now cells t).kept = some u) : u.RestsThrough now := by
  rw [kept_ask, if_pos hfired, Option.ite_none_right_eq_some, Option.some.injEq] at hkept
  obtain ⟨-, rfl⟩ := hkept
  have hpos' : 0 < (t.asked family cells).resolved.nanos := by
    rw [resolved_asked]
    exact hpos
  unfold RestsThrough
  split
  · exact Nat.le_refl _
  · exact lt_nextDue_advance hpos' hnow

/-- Further questions let it rest. -/
theorem RestsThrough.ask (h : t.RestsThrough time)
    (hkept : (ask family frame now cells t).kept = some u) : u.RestsThrough time := by
  have hfamily : u.spec.family = t.spec.family := (continues_ask hkept).family
  rw [kept_ask] at hkept
  unfold RestsThrough at h ⊢
  rw [hfamily]
  split at hkept
  · next hfired =>
      rw [Option.ite_none_right_eq_some, Option.some.injEq] at hkept
      obtain ⟨-, rfl⟩ := hkept
      cases hown : t.spec.family with
      | frame =>
          rw [hown] at h
          show time ≤ now
          by_cases hasked : t.spec.family = family
          · rw [← hasked, hown] at hfired
            obtain ⟨d, -, hdue⟩ := (fired_ask_of_frame hown).mp hfired
            have hend := t.lastFired.le_longest
            simp only [Duration.le_def, Duration.nanos_add] at h hdue ⊢
            omega
          · simp [ask_of_ne hasked] at hfired
      | wallClock =>
          rw [hown] at h
          have hlater := (t.asked family cells).nextDue_le_advance now
          rw [nextDue_asked] at hlater
          exact Nat.lt_of_lt_of_le h hlater
  · cases Option.some.inj hkept
    simpa using h

end Timer

/-! ### The registry -/

namespace Scheduler

variable {s : Scheduler} {owner id : String} {t : Timer} {time : Duration}

theorem effective?_pos {family : TimerFamily} {length resolved : Duration}
    (h : s.effective? family length = some resolved) : 0 < resolved.nanos := by
  cases family with
  | frame =>
      have hlong : s.frame.nanos ≤ resolved.nanos := Duration.frame_le_of_quantize? h
      have hframe := s.frame_pos
      omega
  | wallClock =>
      cases h
      exact Nat.lt_of_lt_of_le (by decide) (Duration.le_longer_right length (.ofMillis 1))

/-- The interval of every timer has a length. -/
def Paced (s : Scheduler) : Prop :=
  ∀ owner id t, s.timer? owner id = some t → 0 < t.resolved.nanos

theorem paced_new (frame : Duration) : (new frame).Paced := by
  intro owner id t ht
  cases ht

theorem Paced.serve (h : s.Paced) (r : TimerRequest) : (s.serve r).Paced := by
  intro owner id u hu
  cases hends : r.ends owner id with
  | true =>
      obtain ⟨spec, now, cells, -, hstarted⟩ := timer?_serve_of_ends hends hu
      obtain ⟨resolved, hresolved, rfl⟩ := Option.map_eq_some_iff.mp hstarted
      exact effective?_pos hresolved
  | false =>
      rcases timer?_serve_of_not_ends hends with hsame | ⟨family, now, cells, -, hasked⟩
      · exact h owner id u (hsame ▸ hu)
      · obtain ⟨t, ht, hkept⟩ := Option.bind_eq_some_iff.mp (hasked ▸ hu)
        rw [Timer.resolved_ask hkept]
        exact h owner id t ht

theorem Paced.serveAll (h : s.Paced) (rs : List TimerRequest) : (s.serveAll rs).Paced := by
  induction rs generalizing s with
  | nil => exact h
  | cons r rest ih => exact ih (h.serve r)

theorem Reachable.paced (hs : s.Reachable) : s.Paced := by
  obtain ⟨frame, rs, rfl⟩ := hs
  exact (paced_new frame).serveAll rs

/-- The timer of a name, if there is one, rests through a time. -/
def RestsThrough (s : Scheduler) (owner id : String) (time : Duration) : Prop :=
  ∀ t, s.timer? owner id = some t → t.RestsThrough time

/-- It does so until a request ends it. -/
theorem RestsThrough.serve (h : s.RestsThrough owner id time) {r : TimerRequest}
    (hr : r.ends owner id = false) : (s.serve r).RestsThrough owner id time := by
  intro u hu
  rcases timer?_serve_of_not_ends hr with hsame | ⟨family, now, cells, -, hasked⟩
  · exact h u (hsame ▸ hu)
  · obtain ⟨t, ht, hkept⟩ := Option.bind_eq_some_iff.mp (hasked ▸ hu)
    exact (h t ht).ask hkept

theorem RestsThrough.serveAll (h : s.RestsThrough owner id time) {rs : List TimerRequest}
    (hrs : ∀ r ∈ rs, r.ends owner id = false) : (s.serveAll rs).RestsThrough owner id time := by
  induction rs generalizing s with
  | nil => exact h
  | cons r rest ih =>
      have hr := hrs r List.mem_cons_self
      exact ih (h.serve hr) fun q hq => hrs q (List.mem_cons_of_mem r hq)

variable {family : TimerFamily} {now : Duration} {cells : CellStore}

/-- A timer that rests is not collected. -/
theorem RestsThrough.ne_of_mem_due (h : s.RestsThrough owner id time) (hle : now ≤ time)
    (hnow : now < .longest) {f : FiredTimer} (hf : f ∈ (s.due owner family now cells).2) :
    f.id ≠ id := by
  rintro rfl
  obtain ⟨t, ht, hfired, -⟩ := mem_due.mp hf
  exact (h t ht).not_fired s.frame_pos hle hnow hfired

/-- A timer that is collected rests through the time of the question. -/
theorem restsThrough_due (hs : s.Paced) (hnow : now < .longest) {f : FiredTimer}
    (hf : f ∈ (s.due owner family now cells).2) :
    (s.due owner family now cells).1.RestsThrough owner f.id now := by
  intro u hu
  obtain ⟨t, ht, hfired, -⟩ := mem_due.mp hf
  rw [timer?_due, if_pos rfl, ht, Option.bind_some] at hu
  exact Timer.restsThrough_of_fired (hs owner f.id t ht) hnow hfired hu

/-- Timers are collected in ascending order of their ids. -/
theorem ascending_due (s : Scheduler) (owner : String) (family : TimerFamily) (now : Duration)
    (cells : CellStore) :
    ((s.due owner family now cells).2.map FiredTimer.id).Pairwise (· < ·) := by
  rw [due]
  cases s.timers.get? owner with
  | none => exact List.Pairwise.nil
  | some timers =>
      have hids := timers.ascending
      rw [names, List.pairwise_map] at hids
      rw [List.pairwise_map]
      refine List.Pairwise.filterMap _ ?_ hids
      intro d e hlt f hf g hg
      split at hf <;> cases hf
      split at hg <;> cases hg
      exact hlt

/-- With frames of up to a day no request comes upon a time that is longer than any duration. -/
theorem Reachable.overflowed_eq_false (hs : s.Reachable) (hframe : s.frame ≤ .day) :
    s.overflowed = false := by
  obtain ⟨frame, rs, rfl⟩ := hs
  rw [← Bool.not_eq_true, overflowed_serveAll_iff]
  rintro (hnew | ⟨before, r, after, -, hr⟩)
  · cases hnew
  · have hfew := wholeFrames_lt_of_overruns hr
    have hmany := Duration.greatestFrames_le_wholeFrames (frame_pos _) hframe
    rw [frame_serveAll] at hfew hmany
    omega

theorem Reachable.due (hs : s.Reachable) (owner : String) (family : TimerFamily) (now : Duration)
    (cells : CellStore) : (s.due owner family now cells).1.Reachable := by
  obtain ⟨frame, rs, rfl⟩ := hs
  refine ⟨frame, rs ++ [.due owner family now cells], ?_⟩
  rw [serveAll_append]
  rfl

/-- What a question at a time, to the timers of an instance and a family, collects from a registry,
and what it leaves. -/
structure Collects (s : Scheduler) (owner : String) (family : TimerFamily) (now : Duration)
    (cells : CellStore) (after : Scheduler) (fired : List FiredTimer) : Prop where
  /-- The timers of the instance and the family whose time has come are collected, -/
  mem_iff : ∀ f, f ∈ fired ↔ ∃ id t, s.timer? owner id = some t ∧ t.spec.family = family ∧
    t.IsDue s.frame now cells ∧ t.toFired owner id = f
  /-- in ascending order of their ids, so each of them once. -/
  ascending : (fired.map FiredTimer.id).Pairwise (· < ·)
  /-- Of all timers those leave the registry that are collected and fire once. -/
  leaves_iff : ∀ other id t, s.timer? other id = some t →
    (after.timer? other id = none ↔ t.toFired other id ∈ fired ∧ t.spec.repeats = false)
  /-- Those that are not collected stay as they are. If the interval of one is given by readings and
  it was asked, it goes on with the readings that follow. -/
  stays : ∀ other id t, s.timer? other id = some t → t.toFired other id ∉ fired →
    after.timer? other id = some t ∨
      after.timer? other id = some (t.reread cells) ∧ other = owner ∧ family = .frame ∧
        t.spec.family = .frame ∧ ∃ lengths, t.spec.interval = .readings lengths
  /-- No timer comes in. -/
  none_enters : ∀ other id, s.timer? other id = none → after.timer? other id = none
  /-- No time was longer than any duration. -/
  not_overflowed : after.overflowed = false

/-- A timer that is collected stays if it repeats. -/
theorem timer?_due_of_mem {other : String} (ht : s.timer? other id = some t)
    (hmem : t.toFired other id ∈ (s.due owner family now cells).2) :
    (s.due owner family now cells).1.timer? other id =
      if t.spec.repeats then some ((t.asked family cells).advance now) else none := by
  have ho : owner = other := by
    obtain ⟨u, -, -, huf⟩ := mem_due.mp hmem
    exact congrArg FiredTimer.owner huf
  subst ho
  rw [timer?_due, if_pos rfl, ht, Option.bind_some, Timer.kept_ask,
    if_pos ((toFired_mem_due ht).mp hmem)]

/-- A timer that is not collected stays. -/
theorem timer?_due_of_notMem {other : String} (ht : s.timer? other id = some t)
    (hmem : t.toFired other id ∉ (s.due owner family now cells).2) :
    (s.due owner family now cells).1.timer? other id =
      if other = owner then some (t.asked family cells) else some t := by
  rw [timer?_due, ht]
  split
  · next ho =>
      subst ho
      rw [toFired_mem_due ht] at hmem
      rw [Option.bind_some, Timer.kept_ask, if_neg hmem]
  · rfl

theorem collects_due (hs : s.Reachable) (hframe : s.frame ≤ .day) (hnow : now < .longest) :
    s.Collects owner family now cells (s.due owner family now cells).1
      (s.due owner family now cells).2 where
  mem_iff f := by
    rw [mem_due]
    simp only [Timer.fired_ask_iff hnow]
    constructor
    · rintro ⟨t, ht, ⟨hfamily, hdue⟩, hf⟩
      exact ⟨f.id, t, ht, hfamily, hdue, hf⟩
    · rintro ⟨id, t, ht, hfamily, hdue, rfl⟩
      exact ⟨t, ht, ⟨hfamily, hdue⟩, rfl⟩
  ascending := s.ascending_due owner family now cells
  leaves_iff other id t ht := by
    by_cases hmem : t.toFired other id ∈ (s.due owner family now cells).2
    · rw [timer?_due_of_mem ht hmem]
      simp [hmem]
    · rw [timer?_due_of_notMem ht hmem]
      split <;> simp [hmem]
  stays other id t ht hmem := by
    rw [timer?_due_of_notMem ht hmem]
    split
    · next ho =>
        rcases t.asked_cases family cells with hsame | ⟨hread, hasked⟩
        · exact Or.inl (congrArg some hsame)
        · exact Or.inr ⟨congrArg some hread, ho, hasked⟩
    · exact Or.inl rfl
  none_enters other id hnone := by
    rw [timer?_due, hnone]
    simp
  not_overflowed := by
    refine (hs.due owner family now cells).overflowed_eq_false ?_
    rw [frame_due]
    exact hframe

/-- Frames are no longer than a day. A question before the longest duration collects the timers of
an instance and family whose time has come, in order and each once; those that fire once leave, and
all others stay as they are. What was collected is not collected again by a later question whose
time is not later, unless it was started anew; whatever else is asked in between, with whatever
cells. -/
theorem due_collects {s : Scheduler} (hs : s.Reachable) (hframe : s.frame ≤ .day) (owner : String)
    (family : TimerFamily) {now : Duration} (hnow : now < .longest) (cells : CellStore) :
    s.Collects owner family now cells (s.due owner family now cells).1
        (s.due owner family now cells).2 ∧
      ∀ f ∈ (s.due owner family now cells).2, ∀ rs : List TimerRequest,
        (∀ r ∈ rs, r.ends owner f.id = false) → ∀ family' now' cells', now' ≤ now →
          ∀ g ∈ (((s.due owner family now cells).1.serveAll rs).due owner family' now' cells').2,
            g.id ≠ f.id := by
  refine ⟨collects_due hs hframe hnow, ?_⟩
  intro f hf rs hrs family' now' cells' hle g hg
  have hrests := (restsThrough_due hs.paced hnow hf).serveAll hrs
  have hnow' : now' < .longest := Nat.lt_of_le_of_lt hle hnow
  exact hrests.ne_of_mem_due hle hnow' hg

/-- A timer by frames that fires once. -/
def flash : TimerSpec := ⟨.fixed (.ofMillis 16), .actions [], .frame, false, ∅⟩

/-- Timers of two instances and both families, started together. -/
def chord : Scheduler :=
  (new (.ofMillis 16)).serveAll
    [.start "scene" "pulse" pulse .zero (period 32),
     .start "scene" "flash" flash .zero (period 32),
     .start "scene" "beat" metronome .zero (period 32),
     .start "other" "flash" flash .zero (period 32)]

theorem due_collects_chord :
    chord.Reachable ∧ chord.frame ≤ .day ∧ Duration.ofMillis 32 < .longest ∧
      (chord.due "scene" .frame (.ofMillis 32) (period 32)).2.map FiredTimer.id =
        ["flash", "pulse"] ∧
      (chord.due "scene" .frame (.ofMillis 32) (period 32)).1.timer? "scene" "flash" = none ∧
      ∀ now ≤ Duration.ofMillis 32,
        ∀ g ∈ ((chord.due "scene" .frame (.ofMillis 32) (period 32)).1.due "scene" .frame now
          (period 0)).2, g.id ≠ "pulse" := by
  have hreachable : chord.Reachable := ⟨_, _, rfl⟩
  have hframe : chord.frame ≤ .day := by
    rw [chord, frame_serveAll]
    decide
  have hnow : Duration.ofMillis 32 < .longest := by decide
  have hids : (chord.due "scene" .frame (.ofMillis 32) (period 32)).2.map FiredTimer.id =
      ["flash", "pulse"] := by decide +kernel
  have honce : (chord.timer? "scene" "flash").any (fun t => !t.spec.repeats) = true := by
    decide +kernel
  have hfound : ∀ id ∈ ["flash", "pulse"],
      ∃ f ∈ (chord.due "scene" .frame (.ofMillis 32) (period 32)).2, f.id = id := by
    intro id hid
    rw [← hids] at hid
    exact List.mem_map.mp hid
  obtain ⟨hcollects, hrests⟩ := due_collects hreachable hframe "scene" .frame hnow (period 32)
  refine ⟨hreachable, hframe, hnow, hids, ?_, ?_⟩
  · obtain ⟨f, hf, hid⟩ := hfound "flash" (by decide)
    obtain ⟨id, t, ht, -, -, rfl⟩ := (hcollects.mem_iff f).mp hf
    cases hid
    rw [ht] at honce
    exact (hcollects.leaves_iff "scene" "flash" t ht).mpr ⟨hf, by simpa using honce⟩
  · intro now hle g hg
    obtain ⟨f, hf, hid⟩ := hfound "pulse" (by decide)
    rw [← hid]
    exact hrests f hf [] (fun r hr => absurd hr List.not_mem_nil) .frame now (period 0) hle g hg

end Scheduler

end LiveScene
