import LiveScene.Timer.Scheduler
import Mathlib.Data.List.Nodup

/-!
# LiveScene.Proofs.Timer.Requests

Whatever is asked of a registry of timers, one request after the other.

* `TimerRequest` lists the requests. Several instances may share a registry, so each names the one
  whose timers it is about, and `TimerRequest.ends` says which timer it puts an end to.
* `timer?_serve_cases` says all that a request can do to a timer: put a new one in its place, or
  keep it, with the number of its start. What holds of all registries that requests lead to is
  derived from that.
* `leaves` says whether requests leave a timer under a name where there was none. Their order
  decides, and what they ask about other instances does not (`leaves_filter`).
* `Numbered` is the invariant: a number belongs to one timer. It lets a timer be followed through
  a run by its number.
-/

namespace LiveScene

/-- What is asked of a registry. -/
inductive TimerRequest where
  | start (owner id : String) (spec : TimerSpec) (now : Duration) (cells : CellStore)
  | stop (owner id : String)
  | stopAll (owner : String)
  | due (owner : String) (family : TimerFamily) (now : Duration) (cells : CellStore)

namespace TimerRequest

/-- The instance whose timers a request is about. -/
def owner : TimerRequest → String
  | start owner .. => owner
  | stop owner _ => owner
  | stopAll owner => owner
  | due owner .. => owner

/-- Whether a request ends the timer of a name: it is stopped, by itself or with all of its
instance, or another is started in its place. -/
def ends (owner id : String) : TimerRequest → Bool
  | start o i .. => decide (owner = o ∧ id = i)
  | stop o i => decide (owner = o ∧ id = i)
  | stopAll o => decide (owner = o)
  | due .. => false

theorem ends_of_owner_ne {r : TimerRequest} {owner : String} (h : r.owner ≠ owner)
    (id : String) : r.ends owner id = false := by
  have hne : ¬ owner = r.owner := fun heq => h heq.symm
  cases r with
  | start o i spec now cells => exact decide_eq_false fun hkey => hne hkey.1
  | stop o i => exact decide_eq_false fun hkey => hne hkey.1
  | stopAll o => exact decide_eq_false hne
  | due o family now cells => rfl

end TimerRequest

/-! ### One timer -/

namespace Timer

/-- What stays of a timer as long as it is in the registry. -/
structure Continues (t u : Timer) : Prop where
  serial : u.serial = t.serial
  family : u.spec.family = t.spec.family
  repeats : u.spec.repeats = t.spec.repeats

theorem Continues.refl (t : Timer) : t.Continues t := ⟨rfl, rfl, rfl⟩

theorem Continues.trans {t u v : Timer} (h₁ : t.Continues u) (h₂ : u.Continues v) :
    t.Continues v :=
  ⟨h₂.serial.trans h₁.serial, h₂.family.trans h₁.family, h₂.repeats.trans h₁.repeats⟩

theorem continues_dueAt? (t : Timer) (frame : Duration) (cells : CellStore) :
    t.Continues (t.dueAt? frame cells).2 := by
  unfold dueAt?
  split <;> exact ⟨rfl, rfl, rfl⟩

theorem continues_advance (t : Timer) (now : Duration) : t.Continues (t.advance now) :=
  ⟨rfl, rfl, rfl⟩

variable {family : TimerFamily} {frame now : Duration} {cells : CellStore} {t : Timer}

/-- What a question leaves in the registry is the timer that was asked. -/
theorem continues_ask {u : Timer} (h : (ask family frame now cells t).kept = some u) :
    t.Continues u := by
  have hread := t.continues_dueAt? frame cells
  unfold ask at h
  generalize t.dueAt? frame cells = answer at h hread
  obtain ⟨time, read⟩ := answer
  split at h
  · cases time with
    | none => cases h; exact hread
    | some time =>
      dsimp only at h
      split at h
      · cases h; exact hread
      · split at h <;> cases h
        exact hread.trans (read.continues_advance now)
  · cases h; exact Continues.refl t

/-- A timer that repeats stays. -/
theorem kept_ask_of_repeats (h : t.spec.repeats = true) :
    ∃ u, (ask family frame now cells t).kept = some u := by
  have hread := (t.continues_dueAt? frame cells).repeats
  unfold ask
  generalize t.dueAt? frame cells = answer at hread
  obtain ⟨time, read⟩ := answer
  split
  · cases time with
    | none => exact ⟨_, rfl⟩
    | some time =>
      dsimp only at hread ⊢
      rw [hread, h]
      split <;> exact ⟨_, rfl⟩
  · exact ⟨_, rfl⟩

/-- A timer that fires once leaves when it fires. -/
theorem kept_ask_of_fired (hfired : (ask family frame now cells t).fired = true)
    (h : t.spec.repeats = false) : (ask family frame now cells t).kept = none := by
  have hread := (t.continues_dueAt? frame cells).repeats
  unfold ask at hfired ⊢
  generalize t.dueAt? frame cells = answer at hread hfired
  obtain ⟨time, read⟩ := answer
  split at hfired
  · next hfamily =>
    rw [if_pos hfamily]
    cases time with
    | none => cases hfired
    | some time =>
      dsimp only at hread hfired ⊢
      rw [hread, h] at hfired ⊢
      split at hfired
      · cases hfired
      · next hlate => rw [if_neg hlate]; rfl
  · cases hfired

/-- A timer by the clock is left alone until its time has come. -/
theorem ask_of_wallClock (h : t.spec.family = .wallClock) :
    ask family frame now cells t =
      if family = .wallClock ∧ t.nextDue ≤ now then
        ⟨if t.spec.repeats then some (t.advance now) else none, true, false⟩
      else ⟨some t, false, false⟩ := by
  unfold ask dueAt?
  cases family with
  | frame => simp [h]
  | wallClock =>
    have hle : t.nextDue ≤ now ↔ ¬ now < t.nextDue := by
      rw [Duration.le_def, Duration.lt_def, Nat.not_lt]
    by_cases hlt : now < t.nextDue
    · simp [h, hlt, hle]
    · cases hrepeats : t.spec.repeats <;> simp [h, hlt, hle, hrepeats]

end Timer

/-! ### Requests -/

namespace Scheduler

/-- The registry after a request. -/
def serve (s : Scheduler) : TimerRequest → Scheduler
  | .start owner id spec now cells => s.start owner id spec now cells
  | .stop owner id => (s.stop owner id).1
  | .stopAll owner => (s.stopAll owner).1
  | .due owner family now cells => (s.due owner family now cells).1

/-- The registry after requests in order. -/
def serveAll (s : Scheduler) (rs : List TimerRequest) : Scheduler := rs.foldl serve s

@[simp] theorem serveAll_nil (s : Scheduler) : s.serveAll [] = s := rfl

@[simp] theorem serveAll_cons (s : Scheduler) (r : TimerRequest) (rs : List TimerRequest) :
    s.serveAll (r :: rs) = (s.serve r).serveAll rs := rfl

theorem serveAll_append (s : Scheduler) (xs ys : List TimerRequest) :
    s.serveAll (xs ++ ys) = (s.serveAll xs).serveAll ys := List.foldl_append

/-- A registry that requests lead to. -/
def Reachable (s : Scheduler) : Prop := ∃ frame rs, s = (new frame).serveAll rs

variable {s : Scheduler}

@[simp] theorem frame_serve (s : Scheduler) (r : TimerRequest) : (s.serve r).frame = s.frame := by
  cases r with
  | start owner id spec now cells => exact s.frame_start owner id spec now cells
  | stop owner id => exact s.frame_stop owner id
  | stopAll owner => rfl
  | due owner family now cells => exact s.frame_due owner family now cells

@[simp] theorem frame_serveAll (s : Scheduler) (rs : List TimerRequest) :
    (s.serveAll rs).frame = s.frame := by
  induction rs generalizing s with
  | nil => rfl
  | cons r rest ih => rw [serveAll_cons, ih, frame_serve]

/-- A request that does not end a timer leaves it alone, or asks whether its time has come. -/
theorem timer?_serve_of_not_ends {r : TimerRequest} {owner id : String}
    (h : r.ends owner id = false) :
    (s.serve r).timer? owner id = s.timer? owner id ∨
      ∃ family now cells, r = .due owner family now cells ∧
        (s.serve r).timer? owner id =
          (s.timer? owner id).bind fun t => (Timer.ask family s.frame now cells t).kept := by
  cases r with
  | start o i spec now cells =>
    exact Or.inl ((s.timer?_start o i spec now cells owner id).trans
      (if_neg (of_decide_eq_false h)))
  | stop o i => exact Or.inl ((s.timer?_stop o i owner id).trans (if_neg (of_decide_eq_false h)))
  | stopAll o => exact Or.inl ((s.timer?_stopAll o owner id).trans (if_neg (of_decide_eq_false h)))
  | due o family now cells =>
    have hdue := s.timer?_due o family now cells owner id
    by_cases ho : owner = o
    · subst ho
      exact Or.inr ⟨family, now, cells, rfl, hdue.trans (if_pos rfl)⟩
    · exact Or.inl (hdue.trans (if_neg ho))

/-- What is found under a name that a request ends was started by it. -/
theorem timer?_serve_of_ends {r : TimerRequest} {owner id : String} (h : r.ends owner id = true)
    {u : Timer} (hu : (s.serve r).timer? owner id = some u) :
    ∃ spec now cells, r = .start owner id spec now cells ∧ s.started? spec now cells = some u := by
  cases r with
  | start o i spec now cells =>
    have hkey := of_decide_eq_true h
    rw [serve, timer?_start, if_pos hkey] at hu
    obtain ⟨rfl, rfl⟩ := hkey
    exact ⟨spec, now, cells, rfl, hu⟩
  | stop o i =>
    rw [serve, timer?_stop, if_pos (of_decide_eq_true h)] at hu
    cases hu
  | stopAll o =>
    rw [serve, timer?_stopAll, if_pos (of_decide_eq_true h)] at hu
    cases hu
  | due o family now cells => cases h

/-- What is found under a name after a request was started by it, or was there before and was not
ended. -/
theorem timer?_serve_cases {r : TimerRequest} {owner id : String} {u : Timer}
    (h : (s.serve r).timer? owner id = some u) :
    (∃ spec now cells, r = .start owner id spec now cells ∧ u.serial = s.nextSerial ∧
      (s.serve r).nextSerial = s.nextSerial + 1) ∨
    (r.ends owner id = false ∧ ∃ t, s.timer? owner id = some t ∧ t.Continues u) := by
  cases hends : r.ends owner id with
  | true =>
    obtain ⟨spec, now, cells, rfl, hstarted⟩ := timer?_serve_of_ends hends h
    refine Or.inl ⟨spec, now, cells, rfl, ?_, ?_⟩
    · obtain ⟨resolved, -, rfl⟩ := Option.map_eq_some_iff.mp hstarted
      rfl
    · rw [serve, nextSerial_start, hstarted]
      rfl
  | false =>
    refine Or.inr ⟨rfl, ?_⟩
    rcases timer?_serve_of_not_ends hends with hsame | ⟨family, now, cells, -, hasked⟩
    · exact ⟨u, hsame ▸ h, Timer.Continues.refl u⟩
    · obtain ⟨t, ht, hkept⟩ := Option.bind_eq_some_iff.mp (hasked ▸ h)
      exact ⟨t, ht, Timer.continues_ask hkept⟩

/-- A timer that repeats stays until a request ends it. -/
theorem timer?_serve_of_repeats {r : TimerRequest} {owner id : String} {t : Timer}
    (ht : s.timer? owner id = some t) (hrepeats : t.spec.repeats = true)
    (hends : r.ends owner id = false) :
    ∃ u, (s.serve r).timer? owner id = some u ∧ t.Continues u := by
  rcases timer?_serve_of_not_ends hends with hsame | ⟨family, now, cells, -, hasked⟩
  · exact ⟨t, hsame.trans ht, Timer.Continues.refl t⟩
  · obtain ⟨u, hu⟩ : ∃ u, (Timer.ask family s.frame now cells t).kept = some u :=
      Timer.kept_ask_of_repeats hrepeats
    exact ⟨u, by rw [hasked, ht, Option.bind_some, hu], Timer.continues_ask hu⟩

/-- A timer by the clock stays as it is until a request ends it or its time has come. -/
theorem timer?_serve_of_wallClock {r : TimerRequest} {owner id : String} {t : Timer}
    (ht : s.timer? owner id = some t) (hfamily : t.spec.family = .wallClock)
    (hends : r.ends owner id = false)
    (hearly : ∀ now cells, r = .due owner .wallClock now cells → ¬ t.nextDue ≤ now) :
    (s.serve r).timer? owner id = some t := by
  rcases timer?_serve_of_not_ends hends with hsame | ⟨family, now, cells, hr, hasked⟩
  · exact hsame.trans ht
  · have hno : ¬ (family = .wallClock ∧ t.nextDue ≤ now) := by
      rintro ⟨rfl, hle⟩
      exact hearly now cells hr hle
    rw [hasked, ht, Option.bind_some, Timer.ask_of_wallClock hfamily, if_neg hno]

/-- A timer is collected if its time has come. -/
theorem toFired_mem_due {owner id : String} {t : Timer} (ht : s.timer? owner id = some t)
    {family : TimerFamily} {now : Duration} {cells : CellStore} :
    t.toFired owner id ∈ (s.due owner family now cells).2 ↔
      (Timer.ask family s.frame now cells t).fired = true := by
  rw [mem_due]
  constructor
  · rintro ⟨u, hu, hfired, -⟩
    have hsame : some t = some u := ht.symm.trans hu
    cases hsame
    exact hfired
  · intro hfired
    exact ⟨t, ht, hfired, rfl⟩

/-- A timer is collected under a condition, and no other that is collected has a property of its.
Then it alone is collected with that property, under that condition. -/
theorem filter_due_eq_ite {owner : String} {family : TimerFamily} {now : Duration}
    {cells : CellStore} {p : FiredTimer → Prop} [DecidablePred p] {f : FiredTimer} {c : Prop}
    [Decidable c] (hc : f ∈ (s.due owner family now cells).2 ↔ c) (hf : p f)
    (hother : ∀ g ∈ (s.due owner family now cells).2, p g → g = f) :
    (s.due owner family now cells).2.filter p = if c then [f] else [] := by
  split
  · next hcond =>
    have hmem := hc.mpr hcond
    have hnodup := (s.nodup_due owner family now cells).filter p
    by_contra hne
    rcases (hnodup.ne_singleton_iff f).mp hne with hnil | ⟨g, hg, hgf⟩
    · exact List.filter_eq_nil_iff.mp hnil f hmem (decide_eq_true hf)
    · obtain ⟨hg, hpg⟩ := List.mem_filter.mp hg
      exact hgf (hother g hg (of_decide_eq_true hpg))
  · next hno =>
    refine List.filter_eq_nil_iff.mpr fun g hg hpg => hno (hc.mp ?_)
    rw [← hother g hg (of_decide_eq_true hpg)]
    exact hg

theorem nextSerial_le_serve (s : Scheduler) (r : TimerRequest) :
    s.nextSerial ≤ (s.serve r).nextSerial := by
  cases r with
  | start owner id spec now cells =>
    rw [serve, nextSerial_start]
    split <;> omega
  | stop owner id => exact Nat.le_of_eq (s.nextSerial_stop owner id).symm
  | stopAll owner => exact Nat.le_refl _
  | due owner family now cells => exact Nat.le_of_eq (s.nextSerial_due owner family now cells).symm

theorem nextSerial_le_serveAll (s : Scheduler) (rs : List TimerRequest) :
    s.nextSerial ≤ (s.serveAll rs).nextSerial := by
  induction rs generalizing s with
  | nil => exact Nat.le_refl _
  | cons r rest ih => exact Nat.le_trans (s.nextSerial_le_serve r) (ih (s.serve r))

/-! ### What requests leave -/

/-- Whether a timer can be started: the length of its interval in frames is a duration. -/
def fits (frame : Duration) (spec : TimerSpec) (cells : CellStore) : Bool :=
  match spec.family with
  | .frame => ((spec.interval.resolve cells).1.quantize? frame).isSome
  | .wallClock => true

/-- Whether a request puts a timer into the registry. -/
def places (frame : Duration) : TimerRequest → Bool
  | .start _ _ spec _ cells => fits frame spec cells
  | _ => false

/-- Whether there is a timer under a name after a request, if one was there before or not. -/
def presentAfter (frame : Duration) (owner id : String) (present : Bool) (r : TimerRequest) :
    Bool :=
  if r.ends owner id then places frame r else present

/-- Whether requests leave a timer under a name where there was none. -/
def leaves (frame : Duration) (owner id : String) (rs : List TimerRequest) : Bool :=
  rs.foldl (presentAfter frame owner id) false

theorem isSome_started? (s : Scheduler) (spec : TimerSpec) (now : Duration)
    (cells : CellStore) : (s.started? spec now cells).isSome = fits s.frame spec cells := by
  unfold started? effective? fits
  rw [Option.isSome_map]
  cases spec.family <;> rfl

theorem isSome_timer?_serve {r : TimerRequest} {owner : String}
    (h : ∀ family now cells, r ≠ .due owner family now cells) (id : String) :
    ((s.serve r).timer? owner id).isSome =
      presentAfter s.frame owner id (s.timer? owner id).isSome r := by
  rw [presentAfter]
  cases hends : r.ends owner id with
  | false =>
    rcases timer?_serve_of_not_ends hends with hsame | ⟨family, now, cells, hr, -⟩
    · rw [hsame]
      rfl
    · exact absurd hr (h family now cells)
  | true =>
    cases r with
    | start o i spec now cells =>
      rw [serve, timer?_start, if_pos (of_decide_eq_true hends), isSome_started?]
      rfl
    | stop o i =>
      rw [serve, timer?_stop, if_pos (of_decide_eq_true hends)]
      rfl
    | stopAll o =>
      rw [serve, timer?_stopAll, if_pos (of_decide_eq_true hends)]
      rfl
    | due o family now cells => cases hends

/-- Whether there is a timer under a name after requests of which none asks for those that are
due. -/
theorem isSome_timer?_serveAll {rs : List TimerRequest} {owner : String}
    (h : ∀ r ∈ rs, ∀ family now cells, r ≠ .due owner family now cells) (id : String) :
    ((s.serveAll rs).timer? owner id).isSome =
      rs.foldl (presentAfter s.frame owner id) (s.timer? owner id).isSome := by
  induction rs generalizing s with
  | nil => rfl
  | cons r rest ih =>
    rw [serveAll_cons, ih fun q hq => h q (List.mem_cons_of_mem r hq), frame_serve,
      isSome_timer?_serve (h r List.mem_cons_self), List.foldl_cons]

/-- Requests about other instances leave nothing. -/
theorem leaves_filter (frame : Duration) (owner id : String) (rs : List TimerRequest) :
    leaves frame owner id (rs.filter fun r => r.owner = owner) = leaves frame owner id rs := by
  rw [leaves, leaves, List.foldl_filter]
  congr 1
  funext present r
  by_cases howner : r.owner = owner
  · simp [howner]
  · simp [howner, presentAfter, TimerRequest.ends_of_owner_ne howner]

/-! ### Numbers -/

/-- The numbers of the starts tell the timers apart. -/
structure Numbered (s : Scheduler) : Prop where
  /-- All numbers were given. -/
  below : ∀ {owner id t}, s.timer? owner id = some t → t.serial < s.nextSerial
  /-- No number was given twice. -/
  inj : ∀ {owner id other name t u}, s.timer? owner id = some t → s.timer? other name = some u →
    t.serial = u.serial → owner = other ∧ id = name

theorem numbered_new (frame : Duration) : (new frame).Numbered where
  below h := by cases h
  inj h := by cases h

theorem Numbered.serve (h : s.Numbered) (r : TimerRequest) : (s.serve r).Numbered where
  below hu := by
    rcases timer?_serve_cases hu with ⟨_, _, _, _, hserial, hnext⟩ | ⟨_, t, ht, hsame⟩
    · rw [hserial, hnext]
      exact Nat.lt_succ_self _
    · rw [hsame.serial]
      exact Nat.lt_of_lt_of_le (h.below ht) (s.nextSerial_le_serve r)
  inj hu hv heq := by
    -- A request starts one timer at most, and its number is above all that were there.
    rcases timer?_serve_cases hu with ⟨_, _, _, hr, hserial, _⟩ | ⟨_, t, ht, hsame⟩
    · rcases timer?_serve_cases hv with ⟨_, _, _, hr', _⟩ | ⟨_, t', ht', hsame'⟩
      · rw [hr] at hr'
        injection hr' with ho hi
        exact ⟨ho, hi⟩
      · have := h.below ht'
        rw [hserial, hsame'.serial] at heq
        omega
    · rcases timer?_serve_cases hv with ⟨_, _, _, _, hserial', _⟩ | ⟨_, t', ht', hsame'⟩
      · have := h.below ht
        rw [hserial', hsame.serial] at heq
        omega
      · exact h.inj ht ht' (by rw [← hsame.serial, heq, hsame'.serial])

theorem Numbered.serveAll (h : s.Numbered) (rs : List TimerRequest) :
    (s.serveAll rs).Numbered := by
  induction rs generalizing s with
  | nil => exact h
  | cons r rest ih => exact ih (h.serve r)

theorem Reachable.numbered (h : s.Reachable) : s.Numbered := by
  obtain ⟨frame, rs, rfl⟩ := h
  exact (numbered_new frame).serveAll rs

end Scheduler

end LiveScene
