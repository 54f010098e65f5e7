import LiveScene.Proofs.Performer.Batch
import LiveScene.Proofs.Text
import LiveScene.Proofs.Timer.Waiting

/-!
# LiveScene.Proofs.Performer.Delay

Actions that are put off.

* Each time, a timer is started under an id that counts these times. No other delay takes that id
  (`delayId_inj`), so that only what names it in full reaches the timer (`Deed.names`).
* `Waiting` is kept by all deeds that do not, until the timers by the clock are asked for when its
  time has come. It is collected then, and a number is collected no second time:
  `Waiting.filter_collectedAll`.
-/

namespace LiveScene

open Performer

theorem Performer.delayId_inj {m n : Nat} (h : delayId m = delayId n) : m = n :=
  Text.repr_inj ((String.append_right_inj _).mp h)

/-! ### Names -/

/-- Whether a task names a timer, to start it or to stop it. -/
def Task.names (id : String) : Task → Bool
  | .startTimer other .. => decide (id = other)
  | .stopTimer other => decide (id = other)
  | _ => false

/-- A task ends the timer of an earlier delay if and only if it names it. -/
theorem Task.ends_of_request? {i : Invocation} {p : Performer} {task : Task} {r : TimerRequest}
    (h : task.request? i p = some r) {count : Nat} (hcount : count < p.delays) :
    r.ends p.owner (delayId count) = task.names (delayId count) := by
  cases task with
  | delay ms actions =>
      have hne : delayId count ≠ delayId p.delays := fun heq =>
        Nat.ne_of_lt hcount (delayId_inj heq)
      cases h
      exact decide_eq_false fun hkey => hne hkey.2
  | startTimer id interval actions lowLatency =>
      cases h
      simp [TimerRequest.ends, names]
  | stopTimer id =>
      cases h
      simp [TimerRequest.ends, names]
  | _ => cases h

/-- What names a timer asks for something. -/
theorem Task.exists_request?_of_names {task : Task} {id : String} (h : task.names id = true)
    (i : Invocation) (p : Performer) : ∃ r, task.request? i p = some r := by
  cases task with
  | startTimer | stopTimer => exact ⟨_, rfl⟩
  | _ => cases h

namespace Deed

/-- Whether a deed names a timer, to start it or to stop it, or stops all. -/
def names (id : String) : Deed → Bool
  | act i a => !isBarred i.context a && a.task.names id
  | startTimer other .. => decide (id = other)
  | stopTimer other => decide (id = other)
  | close => true
  | _ => false

variable {p : Performer} {d : Deed} {count : Nat}

theorem ends_of_request? {r : TimerRequest} (h : d.request? p = some r)
    (hcount : count < p.delays) :
    r.ends p.owner (delayId count) = d.names (delayId count) := by
  cases d with
  | act i a =>
      rw [request?] at h
      rw [names]
      cases hbar : isBarred i.context a with
      | true =>
          rw [hbar] at h
          cases h
      | false =>
          rw [hbar] at h
          rw [Bool.not_false, Bool.true_and]
          exact Task.ends_of_request? h hcount
  | startTimer id spec now =>
      cases h
      simp [TimerRequest.ends, names]
  | stopTimer id =>
      cases h
      simp [TimerRequest.ends, names]
  | collect | close =>
      cases h
      simp [TimerRequest.ends, names]
  | _ => cases h

theorem exists_request?_of_names {id : String} (h : d.names id = true) (p : Performer) :
    ∃ r, d.request? p = some r := by
  cases d with
  | act i a =>
      rw [names, Bool.and_eq_true, Bool.not_eq_true'] at h
      rw [request?, h.1]
      exact Task.exists_request?_of_names h.2 i p
  | startTimer | stopTimer | close => exact ⟨_, rfl⟩
  | _ => cases h

/-- A request is all that its deed does to the timers. -/
theorem scheduler_run_of_request? {r : TimerRequest} (h : d.request? p = some r) :
    (d.run p).1.scheduler = p.scheduler.serve r := by
  cases d with
  | act i a =>
      have hact := (scheduler_act i a p).1
      rw [h] at hact
      exact hact
  | collect | startTimer | stopTimer | close => cases h; rfl
  | _ => cases h

/-! ### Numbers through deeds -/

variable {ds : List Deed} {serial : Nat}

theorem ended_run (hend : p.scheduler.Ended serial) (h : d.Apart p) :
    (d.run p).1.scheduler.Ended serial := by
  obtain ⟨rs, hrun, -⟩ := scheduler_run h
  exact hrun ▸ hend.serveAll rs

/-- A number that is used up is not collected any more. -/
theorem filter_collectedAll_of_ended (hend : p.scheduler.Ended serial)
    (h : Along Apart ds p) :
    (collectedAll ds p).filter (fun f => f.serial = serial) = [] := by
  induction ds generalizing p with
  | nil => rfl
  | cons d r ih =>
      rw [collectedAll, List.filter_append, ih (ended_run hend h.1) h.2, List.append_nil]
      cases d with
      | collect family now => exact hend.filter_due p.owner family now p.stage.cells
      | _ => rfl

/-- What is collected has a number that was given by the time. -/
theorem serial_lt_of_mem_collectedAll (hs : p.scheduler.Numbered) (h : Along Apart ds p)
    {f : FiredTimer} (hf : f ∈ collectedAll ds p) :
    f.serial < (replay ds p).scheduler.nextSerial := by
  induction ds generalizing p with
  | nil => cases hf
  | cons d r ih =>
      rw [collectedAll, List.mem_append] at hf
      rcases hf with hf | hf
      · obtain ⟨rs, hreplay, -⟩ := scheduler_replay h
        have hgiven : f.serial < p.scheduler.nextSerial := by
          cases d with
          | collect family now => exact hs.serial_lt_of_mem_due hf
          | _ => cases hf
        rw [hreplay]
        exact Nat.lt_of_lt_of_le hgiven (p.scheduler.nextSerial_le_serveAll rs)
      · exact ih (numbered_run hs h.1) h.2 hf

end Deed

open Deed (Along Apart)

/-! ### The timer of a delay -/

namespace Performer

/-- The timer of actions that are put off. -/
def delayedTimer (i : Invocation) (ms : UInt64) (actions : List Action) (serial : Nat) :
    Timer where
  spec := delayedSpec i ms actions
  resolved := (Duration.ofMillis ms).longer (.ofMillis 1)
  lastFired := i.now
  nextDue := i.now + (Duration.ofMillis ms).longer (.ofMillis 1)
  serial := serial

/-- Actions that were put off wait for their timer. -/
structure Waiting (p : Performer) (count : Nat) (t : Timer) : Prop where
  numbered : p.scheduler.Numbered
  counted : count < p.delays
  waits : p.scheduler.Waits p.owner (delayId count) t

/-- A delay that is reached in its context waits. -/
theorem waiting_delay {p : Performer} (hs : p.scheduler.Numbered) {i : Invocation}
    (hfull : i.context = .fullCapability) {delay : Action} {ms : UInt64} {actions : List Action}
    (htask : delay.task = .delay ms actions) :
    Waiting ((Deed.act i delay).run p).1 p.delays
      (delayedTimer i ms actions p.scheduler.nextSerial) := by
  have hrun : ((Deed.act i delay).run p).1 =
      { p with delays := p.delays + 1 }.startTimer (delayId p.delays) (delayedSpec i ms actions)
        i.now := by
    have hcontext : delay.task.context = .fullCapability := by rw [htask]; rfl
    rw [Deed.run, act_of_context (isBarred_of_fullCapability hfull delay) hcontext, htask]
    rfl
  rw [hrun]
  refine ⟨hs.serve (.start p.owner (delayId p.delays) (delayedSpec i ms actions) i.now
    p.stage.cells), Nat.lt_succ_self _, ?_, rfl, rfl⟩
  exact (Scheduler.timer?_start _ _ _ _ _ _ _ _).trans (if_pos ⟨rfl, rfl⟩)

variable {p : Performer} {d : Deed} {count : Nat} {t : Timer}

/-- A deed that does not name the timer, and does not ask for it when its time has come, leaves it
waiting. -/
theorem Waiting.run (h : Waiting p count t) (hapart : d.Apart p)
    (hnames : d.names (delayId count) = false)
    (hearly : ∀ now, d = .collect .wallClock now → ¬ t.nextDue ≤ now) :
    Waiting (d.run p).1 count t := by
  obtain ⟨rs, hrun, hasked⟩ := Deed.scheduler_run hapart
  have hspares : ∀ r ∈ rs, r.Spares p.owner (delayId count) t := by
    intro r hr
    by_cases howner : r.owner = p.owner
    · have hmem : r ∈ rs.filter fun r => r.owner = p.owner :=
        List.mem_filter.mpr ⟨hr, decide_eq_true howner⟩
      rw [hasked] at hmem
      have hrequest : d.request? p = some r := Option.mem_toList.mp hmem
      refine ⟨(Deed.ends_of_request? hrequest h.counted).trans hnames, ?_⟩
      rintro now cells rfl
      exact hearly now (Deed.eq_collect_of_request? hrequest)
    · refine ⟨TimerRequest.ends_of_owner_ne howner _, ?_⟩
      rintro now cells rfl
      exact absurd rfl howner
  refine ⟨Deed.numbered_run h.numbered hapart, Nat.lt_of_lt_of_le h.counted (d.delays_le_run p), ?_⟩
  rw [Deed.owner_run hapart, hrun]
  exact h.waits.serveAll hspares

/-- A deed that names the timer ends it. -/
theorem Waiting.ended_run (h : Waiting p count t) (hnames : d.names (delayId count) = true) :
    (d.run p).1.scheduler.Ended t.serial := by
  obtain ⟨r, hrequest⟩ := Deed.exists_request?_of_names hnames p
  rw [Deed.scheduler_run_of_request? hrequest]
  exact Scheduler.ended_serve_of_ends h.numbered h.waits.found
    ((Deed.ends_of_request? hrequest h.counted).trans hnames)

/-- The timer is still waiting after deeds that do not name it, if it was not asked for when its
time had come. -/
theorem Waiting.replay {ds : List Deed} (h : Waiting p count t) (hapart : Along Apart ds p)
    (hnames : ds.any (Deed.names (delayId count)) = false)
    (hearly : ∀ now, Deed.collect .wallClock now ∈ ds → ¬ t.nextDue ≤ now) :
    Waiting (Deed.replay ds p) count t := by
  induction ds generalizing p with
  | nil => exact h
  | cons d r ih =>
      rw [List.any_cons, Bool.or_eq_false_iff] at hnames
      refine ih (h.run hapart.1 hnames.1 fun now hd => ?_) hapart.2 hnames.2 fun now hmem => ?_
      · exact hearly now (hd ▸ List.mem_cons_self)
      · exact hearly now (List.mem_cons_of_mem d hmem)

/-- What is collected under the number of the timer before its time and at the first question after
it: the timer, once, if it was not named before. -/
theorem Waiting.filter_collectedAll {b c : List Deed} {now : Duration} (h : Waiting p count t)
    (hapart : Along Apart (b ++ .collect .wallClock now :: c) p)
    (hearly : ∀ time, Deed.collect .wallClock time ∈ b → ¬ t.nextDue ≤ time)
    (hdue : t.nextDue ≤ now) :
    (Deed.collectedAll (b ++ .collect .wallClock now :: c) p).filter
        (fun f => f.serial = t.serial) =
      if b.any (Deed.names (delayId count)) then [] else [t.toFired p.owner (delayId count)] := by
  induction b generalizing p with
  | nil =>
      have hended := h.waits.ended_due h.numbered hdue p.stage.cells
      rw [List.nil_append, Deed.collectedAll, List.filter_append,
        Deed.filter_collectedAll_of_ended hended hapart.2, List.append_nil]
      exact (h.waits.filter_due h.numbered .wallClock now p.stage.cells).trans
        (if_pos ⟨rfl, hdue⟩)
  | cons d r ih =>
      have hnow : (d.collected p).filter (fun f => f.serial = t.serial) = [] := by
        cases d with
        | collect family time =>
            refine (h.waits.filter_due h.numbered family time p.stage.cells).trans (if_neg ?_)
            rintro ⟨rfl, hle⟩
            exact hearly time List.mem_cons_self hle
        | _ => rfl
      rw [List.cons_append] at hapart ⊢
      rw [Deed.collectedAll, List.filter_append, hnow, List.nil_append]
      cases hnames : d.names (delayId count) with
      | true =>
          rw [Deed.filter_collectedAll_of_ended (h.ended_run hnames) hapart.2, List.any_cons,
            hnames]
          rfl
      | false =>
          have hrun := h.run hapart.1 hnames fun time hd =>
            hearly time (hd ▸ List.mem_cons_self)
          rw [ih hrun hapart.2 fun time hmem => hearly time (List.mem_cons_of_mem d hmem),
            List.any_cons, hnames, Deed.owner_run hapart.1, Bool.false_or]

end Performer

end LiveScene
