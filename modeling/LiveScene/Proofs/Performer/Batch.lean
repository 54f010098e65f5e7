import LiveScene.Proofs.Performer.Requests
import LiveScene.Proofs.Timer.Liveness

/-!
# LiveScene.Proofs.Performer.Batch

The timers that are collected at one time, and their bodies.

* `Deed.collectedAll` lists the timers that deeds collect, and `Deed.fires` those whose bodies
  begin. In a batch no more begin than were collected, each once, and all that fire once do
  (`Deed.Accounted`).
* `Deed.isLive_replay` says when a timer that was collected is still live, whatever was done since.
* `batchDeeds_split` takes a batch apart at the turn of one timer.
-/

namespace LiveScene

open Performer

namespace Deed

/-- The timers that a deed collects. -/
def collected (p : Performer) : Deed → List FiredTimer
  | collect family now => (p.collect family now).2
  | _ => []

/-- The timers that deeds collect, in order. -/
def collectedAll : List Deed → Performer → List FiredTimer
  | [], _ => []
  | d :: ds, p => d.collected p ++ collectedAll ds (d.run p).1

/-- The timer whose body a deed begins. -/
def fired? : Deed → Option FiredTimer
  | fire _ _ f => some f
  | _ => none

/-- The timers whose bodies begin, in order. -/
def fires (ds : List Deed) : List FiredTimer := ds.filterMap fired?

/-- Whether a deed asks for the timers whose time has come. -/
def isCollect : Deed → Bool
  | collect .. => true
  | _ => false

/-- A deed that is an action by itself. -/
def IsAct (d : Deed) : Prop := ∃ i a, d = act i a

/-- A deed that neither collects timers nor begins the body of one. -/
structure IsQuiet (d : Deed) : Prop where
  isCollect : d.isCollect = false
  fired? : d.fired? = none

theorem collected_of_not_isCollect {d : Deed} (h : d.isCollect = false) (p : Performer) :
    d.collected p = [] := by
  cases d with
  | collect => cases h
  | _ => rfl

theorem collectedAll_append (xs ys : List Deed) (p : Performer) :
    collectedAll (xs ++ ys) p = collectedAll xs p ++ collectedAll ys (replay xs p) := by
  induction xs generalizing p with
  | nil => rfl
  | cons d r ih => simp [collectedAll, ih]

theorem collectedAll_eq_nil {ds : List Deed} (h : ∀ d ∈ ds, d.isCollect = false)
    (p : Performer) : collectedAll ds p = [] := by
  induction ds generalizing p with
  | nil => rfl
  | cons d r ih =>
      rw [collectedAll, collected_of_not_isCollect (h d List.mem_cons_self)]
      exact ih (fun e he => h e (List.mem_cons_of_mem d he)) _

theorem fires_append (xs ys : List Deed) : fires (xs ++ ys) = fires xs ++ fires ys :=
  List.filterMap_append

theorem fires_eq_nil {ds : List Deed} (h : ∀ d ∈ ds, d.fired? = none) : fires ds = [] :=
  List.filterMap_eq_nil_iff.mpr h

theorem IsAct.isQuiet {d : Deed} (h : d.IsAct) : d.IsQuiet := by
  obtain ⟨i, a, rfl⟩ := h
  exact ⟨rfl, rfl⟩

/-! ### Accounts -/

/-- The bodies that begin are those of timers that were collected, in their order, and of timers
that fire once all. -/
structure Accounted (ds : List Deed) (p : Performer) : Prop where
  sublist : (fires ds).Sublist (collectedAll ds p)
  once : (fires ds).filter (fun f => !f.repeats) =
    (collectedAll ds p).filter (fun f => !f.repeats)

theorem Accounted.append {xs ys : List Deed} {p : Performer} (hxs : Accounted xs p)
    (hys : Accounted ys (replay xs p)) : Accounted (xs ++ ys) p where
  sublist := by
    rw [fires_append, collectedAll_append]
    exact hxs.sublist.append hys.sublist
  once := by
    rw [fires_append, collectedAll_append, List.filter_append, List.filter_append, hxs.once,
      hys.once]

theorem accounted_of_isQuiet {ds : List Deed} (h : ∀ d ∈ ds, d.IsQuiet) (p : Performer) :
    Accounted ds p := by
  have hfires : fires ds = [] := fires_eq_nil fun d hd => (h d hd).fired?
  have hcollected : collectedAll ds p = [] :=
    collectedAll_eq_nil (fun d hd => (h d hd).isCollect) p
  constructor
  · rw [hfires]
    exact List.nil_sublist _
  · rw [hfires, hcollected]

/-- If the timer of a number fires once, its body begins as often as it is collected. -/
theorem Accounted.filter_serial {ds : List Deed} {p : Performer} (h : Accounted ds p)
    {serial : Nat} (hserial : ∀ f ∈ collectedAll ds p, f.serial = serial → f.repeats = false) :
    (fires ds).filter (fun f => f.serial = serial) =
      (collectedAll ds p).filter (fun f => f.serial = serial) := by
  have hdrop : ∀ fs : List FiredTimer, (∀ f ∈ fs, f ∈ collectedAll ds p) →
      fs.filter (fun f => f.serial = serial) =
        (fs.filter (fun f => !f.repeats)).filter (fun f => f.serial = serial) := by
    intro fs hfs
    rw [List.filter_filter]
    refine List.filter_congr fun f hf => ?_
    by_cases heq : f.serial = serial
    · simp [heq, hserial f (hfs f hf) heq]
    · simp [heq]
  rw [hdrop _ fun f hf => h.sublist.subset hf, hdrop _ fun f hf => hf, h.once]

/-! ### After a collection -/

/-- Whether a timer that was collected is live, after whatever was done since: always if it fires
once, and otherwise if no request has ended it. -/
theorem isLive_replay {p : Performer} {family : TimerFamily} {now : Duration} {f : FiredTimer}
    {ds : List Deed} (hs : p.scheduler.Numbered) (hf : f ∈ (p.collect family now).2)
    (hapart : Along Apart ds (p.collect family now).1) :
    (replay ds (p.collect family now).1).scheduler.isLive f =
      (!f.repeats || !Scheduler.isEndedBy f (requests ds (p.collect family now).1)) := by
  obtain ⟨rs, hscheduler, hasked⟩ := scheduler_replay hapart
  have howner : f.owner = p.owner := by
    obtain ⟨t, -, -, htf⟩ := Scheduler.mem_due.mp hf
    rw [← htf]
    rfl
  have hended : Scheduler.isEndedBy f rs =
      Scheduler.isEndedBy f (requests ds (p.collect family now).1) := by
    rw [← hasked, Scheduler.isEndedBy, Scheduler.isEndedBy, List.any_filter]
    congr 1
    funext r
    by_cases hr : r.owner = f.owner
    · have howned : r.owner = (p.collect family now).1.owner := hr.trans howner
      simp [howned]
    · rw [TimerRequest.ends_of_owner_ne hr, Bool.and_false]
  rw [hscheduler, ← hended]
  exact Scheduler.isLive_serveAll hs hf rs

end Deed

open Deed

namespace Performer

/-! ### The deeds of a batch -/

theorem deedsEach_append {α : Type} (deeds : α → Performer → List Deed) (xs ys : List α)
    (p : Performer) :
    deedsEach deeds (xs ++ ys) p =
      deedsEach deeds xs p ++ deedsEach deeds ys (replay (deedsEach deeds xs p) p) := by
  induction xs generalizing p with
  | nil => rfl
  | cons a r ih => simp [deedsEach, ih]

/-- What the deeds of each run are, the deeds of several are. -/
theorem forall_mem_deedsEach {α : Type} {deeds : α → Performer → List Deed} {P : Deed → Prop}
    {xs : List α} (h : ∀ a ∈ xs, ∀ p, ∀ d ∈ deeds a p, P d) (p : Performer) :
    ∀ d ∈ deedsEach deeds xs p, P d := by
  induction xs generalizing p with
  | nil =>
      intro d hd
      cases hd
  | cons a r ih =>
      intro d hd
      rw [deedsEach, List.mem_append] at hd
      rcases hd with hd | hd
      · exact h a List.mem_cons_self p d hd
      · exact ih (fun b hb => h b (List.mem_cons_of_mem a hb)) _ d hd

theorem isAct_of_mem_performAllDeeds {i : Invocation} {actions : List Action} {p : Performer} :
    ∀ d ∈ performAllDeeds i actions p, d.IsAct := by
  intro d hd
  obtain ⟨a, -, rfl⟩ := List.mem_map.mp hd
  exact ⟨i, a, rfl⟩

/-- The deeds of the actions that wait: they are taken from their queue, and each is done. -/
theorem mem_forwardedDeeds {p : Performer} {now : Duration} {d : Deed}
    (h : d ∈ p.forwardedDeeds now) : d = .takeForwarded ∨ d.IsAct := by
  rcases List.mem_cons.mp h with rfl | hd
  · exact Or.inl rfl
  · refine Or.inr (forall_mem_deedsEach (fun f _ q e he => ?_) _ d hd)
    obtain ⟨a, -, rfl⟩ := List.mem_map.mp he
    exact ⟨_, a, rfl⟩

variable {context : Context} {now : Duration}

theorem isAct_of_mem_bodyDeeds {f : FiredTimer} {p : Performer} :
    ∀ d ∈ bodyDeeds context now f p, d.IsAct := by
  intro d hd
  rw [bodyDeeds] at hd
  cases hbody : f.body with
  | actions list =>
      rw [hbody] at hd
      exact isAct_of_mem_performAllDeeds d hd
  | callback name =>
      rw [hbody] at hd
      cases hd

/-- The deeds of a batch: bodies begin, of timers that were collected, and actions are done. -/
theorem mem_batchDeeds {fs : List FiredTimer} {p : Performer} {d : Deed}
    (h : d ∈ batchDeeds context now fs p) : (∃ f ∈ fs, d = .fire context now f) ∨ d.IsAct := by
  refine forall_mem_deedsEach (P := fun d => (∃ f ∈ fs, d = .fire context now f) ∨ d.IsAct)
    (fun f hf q e he => ?_) p d h
  rw [firedDeeds] at he
  split at he
  · rcases List.mem_cons.mp he with rfl | he
    · exact Or.inl ⟨f, hf, rfl⟩
    · exact Or.inr (isAct_of_mem_bodyDeeds e he)
  · cases he

theorem isCollect_of_mem_batchDeeds {fs : List FiredTimer} {p : Performer} :
    ∀ d ∈ batchDeeds context now fs p, d.isCollect = false := by
  intro d hd
  rcases mem_batchDeeds hd with ⟨f, -, rfl⟩ | hact
  · rfl
  · exact hact.isQuiet.isCollect

theorem along_apart_batchDeeds (context : Context) (now : Duration) (fs : List FiredTimer)
    (p q : Performer) :
    Along Apart (batchDeeds context now fs p) q := by
  refine along_of_forall (fun d hd r => ?_) q
  rcases mem_batchDeeds hd with ⟨f, -, rfl⟩ | ⟨i, a, rfl⟩
  · trivial
  · trivial

theorem fires_firedDeeds (f : FiredTimer) (p : Performer) :
    fires (firedDeeds context now f p) = if p.scheduler.isLive f then [f] else [] := by
  rw [firedDeeds]
  split
  · have hbody : fires (bodyDeeds context now f p) = [] :=
      fires_eq_nil fun d hd => (isAct_of_mem_bodyDeeds d hd).isQuiet.fired?
    show f :: fires (bodyDeeds context now f p) = [f]
    rw [hbody]
  · rfl

theorem batchDeeds_cons (f : FiredTimer) (fs : List FiredTimer) (p : Performer) :
    batchDeeds context now (f :: fs) p =
      firedDeeds context now f p ++
        batchDeeds context now fs (replay (firedDeeds context now f p) p) := rfl

/-- No bodies begin but those of the timers that were collected, in their order. -/
theorem fires_batchDeeds_sublist (fs : List FiredTimer) (p : Performer) :
    (fires (batchDeeds context now fs p)).Sublist fs := by
  induction fs generalizing p with
  | nil => exact List.Sublist.refl []
  | cons f r ih =>
      rw [batchDeeds_cons, fires_append, fires_firedDeeds]
      split
      · exact (ih _).cons_cons f
      · exact (ih _).cons f

/-- The bodies of all timers that fire once begin. -/
theorem filter_once_batchDeeds (fs : List FiredTimer) (p : Performer) :
    (fires (batchDeeds context now fs p)).filter (fun f => !f.repeats) =
      fs.filter (fun f => !f.repeats) := by
  induction fs generalizing p with
  | nil => rfl
  | cons f r ih =>
      rw [batchDeeds_cons, fires_append, fires_firedDeeds, List.filter_append, ih]
      cases hrepeats : f.repeats with
      | true =>
          rw [List.filter_cons_of_neg (by simp [hrepeats])]
          split
          · rw [List.filter_cons_of_neg (by simp [hrepeats])]
            rfl
          · rfl
      | false =>
          have hlive : p.scheduler.isLive f = true := by simp [Scheduler.isLive, hrepeats]
          rw [if_pos hlive, List.filter_cons_of_pos (by simp [hrepeats]),
            List.filter_cons_of_pos (by simp [hrepeats])]
          rfl

theorem accounted_dueDeeds (p : Performer) (family : TimerFamily) :
    Accounted (p.dueDeeds family context now) p := by
  have hcollected : collectedAll (p.dueDeeds family context now) p = (p.collect family now).2 := by
    rw [dueDeeds, collectedAll, collectedAll_eq_nil isCollect_of_mem_batchDeeds, List.append_nil]
    rfl
  constructor
  · rw [hcollected]
    exact fires_batchDeeds_sublist _ _
  · rw [hcollected]
    exact filter_once_batchDeeds _ _

/-- The deeds of a batch around one of its timers. -/
theorem batchDeeds_split (context : Context) (now : Duration) (before after : List FiredTimer)
    (f : FiredTimer) (p : Performer) :
    ∃ rest, batchDeeds context now (before ++ f :: after) p =
      batchDeeds context now before p ++
        firedDeeds context now f (replay (batchDeeds context now before p) p) ++ rest := by
  have hsplit := deedsEach_append (firedDeeds context now) before (f :: after) p
  rw [deedsEach, ← List.append_assoc] at hsplit
  exact ⟨_, hsplit⟩

end Performer

end LiveScene
