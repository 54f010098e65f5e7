import LiveScene.Ensemble
import LiveScene.Proofs.Scene.Twin

/-!
# LiveScene.Proofs.Ensemble.Isolation

Scenes that share a registry of timers do not interfere.

A scene among others is compared with the same scene when only it moves. `Alike` relates the two
runs: the scene is the same in both but for the numbers of its timers. Its own moves keep that
(`Alike.step_own`), and so do those of the others in the one run, which the other run leaves
out (`Alike.step_others`).
-/

namespace LiveScene

/-- What is asked of scenes side by side. -/
inductive Move where
  /-- One of them does an operation of its own. -/
  | operate (member : Nat) (op : Operation) (own : op.isOwn = true)
  /-- One of them is given up. -/
  | drop (member : Nat)

/-- The scene that a move is about. -/
def Move.member : Move → Nat
  | operate member .. => member
  | drop member => member

namespace Ensemble

/-- Makes a move. Who was given up reports nothing. -/
def step (e : Ensemble) : Move → Ensemble × Option Report
  | .operate i op _ =>
    let (e, report) := e.act i fun s => s.step op
    (e.noteCalls (report.getD ∅), report)
  | .drop i => (e.drop i, none)

/-- Makes moves in order, and lists what was reported, with the scene whose move it was. -/
def play (e : Ensemble) : List Move → Ensemble × List (Nat × Option Report)
  | [] => (e, [])
  | m :: r => (((e.step m).1.play r).1, (m.member, (e.step m).2) :: ((e.step m).1.play r).2)

/-! ### Acting -/

section Act

variable {α : Type} {e : Ensemble} {i : Nat} {m : Member}

theorem act_of_gone (hm : e.members[i]? = some m) (hgone : m.gone = true)
    (f : Scene → Scene × α) : e.act i f = (e, none) := by
  simp [act, hm, hgone]

theorem act_of_live (hm : e.members[i]? = some m) (hlive : m.gone = false)
    (f : Scene → Scene × α) :
    e.act i f = (e.takeBack i m (f (e.lend m)).1, some (f (e.lend m)).2) := by
  simp [act, hm, hlive]

theorem act_of_none (hm : e.members[i]? = none) (f : Scene → Scene × α) :
    e.act i f = (e, none) := by
  simp [act, hm]

/-- What is taken back is what is lent again. -/
theorem lend_takeBack (e : Ensemble) (i : Nat) (m : Member) (s : Scene) :
    (e.takeBack i m s).lend { m with scene := s } = s := by
  unfold takeBack lend
  cases m.sharesTimers <;> cases m.sharesRecords <;> rfl

theorem members_takeBack_self (hm : e.members[i]? = some m) (s : Scene) :
    (e.takeBack i m s).members[i]? = some { m with scene := s } := by
  obtain ⟨hlt, -⟩ := List.getElem?_eq_some_iff.mp hm
  exact List.getElem?_set_self hlt

theorem members_takeBack_ne {j : Nat} (hne : j ≠ i) (e : Ensemble) (m : Member) (s : Scene) :
    (e.takeBack i m s).members[j]? = e.members[j]? :=
  List.getElem?_set_ne (Ne.symm hne)

/-- Giving a scene up ends it. -/
theorem drop_eq (e : Ensemble) (i : Nat) :
    e.drop i =
      { (e.act i fun s => s.step .teardown).1 with
        members := (e.act i fun s => s.step .teardown).1.members.modify i
          fun m => { m with gone := true } } := by
  have hact : (e.act i fun s => (s.teardown, ())).1 = (e.act i fun s => s.step .teardown).1 := by
    cases hm : e.members[i]? with
    | none => simp [act, hm]
    | some m => cases hgone : m.gone <;> simp [act, hm, hgone, Scene.step]
  rw [drop, hact]

end Act

/-! ### A scene among others, and alone -/

/-- A scene that has its name and its records for itself. Its timers it may share. -/
structure Isolated (e : Ensemble) (i : Nat) (m : Member) : Prop where
  member : e.members[i]? = some m
  records : m.sharesRecords = false
  others : ∀ j n, j ≠ i → e.members[j]? = some n → n.scene.owner ≠ m.scene.owner
  reachable : (e.lend m).performer.scheduler.Reachable

/-- Two ensembles in which a scene is the same but for the numbers of its timers. In the second
there are others, with other names. -/
structure Alike (owner : String) (i : Nat) (alone shared : Ensemble) : Prop where
  others : ∀ j n, j ≠ i → shared.members[j]? = some n → n.scene.owner ≠ owner
  own : ∃ m s f, alone.members[i]? = some m ∧ shared.members[i]? = some { m with scene := s } ∧
    m.sharesRecords = false ∧
    Scene.Twin owner f (alone.lend m) (shared.lend { m with scene := s })

theorem Isolated.alike {e : Ensemble} {i : Nat} {m : Member} (h : e.Isolated i m) :
    Alike m.scene.owner i e e where
  others := h.others
  own := by
    have htimers := Scheduler.Renumbered.refl h.reachable.numbered m.scene.owner
    exact ⟨m, m.scene, id, h.member, h.member, h.records, rfl, rfl, rfl, htimers⟩

namespace Alike

variable {owner : String} {i : Nat} {alone shared : Ensemble}

/-- The scene shows the same in both. -/
theorem seen_eq (h : Alike owner i alone shared) :
    (shared.scene? i).map Scene.seen = (alone.scene? i).map Scene.seen := by
  obtain ⟨m, s, f, halone, hshared, -, htwin⟩ := h.own
  simp [scene?, halone, hshared, htwin.seen_eq]

/-! ### Moves of the scene -/

theorem act_own (h : Alike owner i alone shared) {op : Operation} (hop : op.isOwn = true) :
    Alike owner i (alone.act i fun s => s.step op).1 (shared.act i fun s => s.step op).1 ∧
      (shared.act i fun s => s.step op).2 = (alone.act i fun s => s.step op).2 := by
  obtain ⟨m, s, f, halone, hshared, hrecords, htwin⟩ := h.own
  cases hgone : m.gone with
  | true =>
      rw [act_of_gone halone hgone, act_of_gone hshared hgone]
      exact ⟨h, rfl⟩
  | false =>
      have hstep := htwin.step hop
      rw [act_of_live halone hgone, act_of_live hshared hgone, hstep.report]
      refine ⟨⟨fun j n hne hn => ?_, ?_⟩, rfl⟩
      · rw [members_takeBack_ne hne] at hn
        exact h.others j n hne hn
      · refine ⟨_, _, f, members_takeBack_self halone _, members_takeBack_self hshared _,
          hrecords, ?_⟩
        have hlent := shared.lend_takeBack i { m with scene := s }
          ((shared.lend { m with scene := s }).step op).1
        rw [lend_takeBack, hlent]
        exact hstep.twin

/-- The scene is given up in both. -/
theorem modify_own (h : Alike owner i alone shared) :
    Alike owner i
      { alone with members := alone.members.modify i fun m => { m with gone := true } }
      { shared with members := shared.members.modify i fun m => { m with gone := true } } := by
  obtain ⟨m, s, f, halone, hshared, hrecords, htwin⟩ := h.own
  refine ⟨fun j n hne hn => ?_, { m with gone := true }, s, f, ?_, ?_, hrecords, htwin⟩
  · have hsame : shared.members[j]? = some n := by
      simpa [List.getElem?_modify, Ne.symm hne] using hn
    exact h.others j n hne hsame
  · simp [halone]
  · simp [hshared]

theorem step_own (h : Alike owner i alone shared) {m : Move} (hm : m.member = i) :
    Alike owner i (alone.step m).1 (shared.step m).1 ∧ (shared.step m).2 = (alone.step m).2 := by
  subst hm
  cases m with
  | operate j op hop =>
      obtain ⟨hact, hreport⟩ := h.act_own hop
      exact ⟨⟨hact.others, hact.own⟩, hreport⟩
  | drop j =>
      have hact := (h.act_own (rfl : Operation.teardown.isOwn = true)).1
      refine ⟨?_, rfl⟩
      simp only [step, drop_eq]
      exact hact.modify_own

/-! ### Moves of the others -/

/-- Others put requests about their timers, and do not touch the scene. -/
theorem of_requests (h : Alike owner i alone shared) {changed : Ensemble}
    (hmember : changed.members[i]? = shared.members[i]?)
    (hothers : ∀ j n, j ≠ i → changed.members[j]? = some n → n.scene.owner ≠ owner)
    {rs : List TimerRequest} (hrs : ∀ r ∈ rs, r.owner ≠ owner)
    (hscheduler : changed.scheduler = shared.scheduler.serveAll rs) :
    Alike owner i alone changed := by
  obtain ⟨m, s, f, halone, hshared, hrecords, htwin⟩ := h.own
  refine ⟨hothers, ?_⟩
  cases htimers : m.sharesTimers with
  | false =>
      have hlend : changed.lend { m with scene := s } = shared.lend { m with scene := s } := by
        simp [lend, htimers, hrecords]
      exact ⟨m, s, f, halone, hmember.trans hshared, hrecords, hlend ▸ htwin⟩
  | true =>
      have hlend : changed.lend { m with scene := s } =
          { shared.lend { m with scene := s } with
            performer := (shared.lend { m with scene := s }).performer.withTimers
              ((shared.lend { m with scene := s }).performer.scheduler.serveAll rs) } := by
        simp [lend, htimers, hrecords, hscheduler, Performer.withTimers]
      obtain ⟨g, hg⟩ := htwin.serveAll_others hrs
      exact ⟨m, s, g, halone, hmember.trans hshared, hrecords, hlend ▸ hg⟩

/-- What another scene does. -/
theorem act_others (h : Alike owner i alone shared) {j : Nat} (hne : j ≠ i) {op : Operation}
    (hop : op.isOwn = true) : Alike owner i alone (shared.act j fun s => s.step op).1 := by
  cases hm : shared.members[j]? with
  | none =>
      rw [act_of_none hm]
      exact h
  | some n =>
      cases hgone : n.gone with
      | true =>
          rw [act_of_gone hm hgone]
          exact h
      | false =>
          rw [act_of_live hm hgone]
          have hother : n.scene.owner ≠ owner := h.others j n hne hm
          obtain ⟨howner, rs, hrs, hstep⟩ := (shared.lend n).scheduler_step hop
          have hlent : (shared.lend n).owner = n.scene.owner := rfl
          rw [hlent] at howner hrs
          obtain ⟨asked, hasked, hscheduler⟩ : ∃ asked : List TimerRequest,
              (∀ r ∈ asked, r.owner ≠ owner) ∧
              (shared.takeBack j n ((shared.lend n).step op).1).scheduler =
                shared.scheduler.serveAll asked := by
            cases htimers : n.sharesTimers with
            | false => exact ⟨[], by simp, by simp [takeBack, htimers]⟩
            | true =>
                exact ⟨rs, fun r hr => hrs r hr ▸ hother,
                  by simpa [takeBack, htimers, lend] using hstep⟩
          refine h.of_requests (members_takeBack_ne (Ne.symm hne) _ _ _) ?_ hasked hscheduler
          intro k m hk hmem
          by_cases hkj : k = j
          · subst hkj
            rw [members_takeBack_self hm] at hmem
            cases hmem
            exact howner ▸ hother
          · rw [members_takeBack_ne hkj] at hmem
            exact h.others k m hk hmem

/-- Another scene is given up. -/
theorem modify_others (h : Alike owner i alone shared) {j : Nat} (hne : j ≠ i) :
    Alike owner i alone
      { shared with members := shared.members.modify j fun m => { m with gone := true } } := by
  have hnone : ∀ r ∈ ([] : List TimerRequest), r.owner ≠ owner := by simp
  refine h.of_requests ?_ ?_ hnone rfl
  · simp [hne]
  · intro k m hk hmem
    obtain ⟨n, hn, hsame⟩ : ∃ n, shared.members[k]? = some n ∧ n.scene = m.scene := by
      by_cases hkj : j = k
      · simp only [List.getElem?_modify, hkj, if_true, Option.map_eq_map,
          Option.map_eq_some_iff] at hmem
        obtain ⟨n, hn, rfl⟩ := hmem
        exact ⟨n, hn, rfl⟩
      · exact ⟨m, by simpa [List.getElem?_modify, hkj] using hmem, rfl⟩
    exact hsame ▸ h.others k n hk hn

theorem step_others (h : Alike owner i alone shared) {m : Move} (hm : m.member ≠ i) :
    Alike owner i alone (shared.step m).1 := by
  cases m with
  | operate j op hop =>
      have hact := h.act_others hm hop
      exact ⟨hact.others, hact.own⟩
  | drop j =>
      have hact := h.act_others hm (rfl : Operation.teardown.isOwn = true)
      simp only [step, drop_eq]
      exact hact.modify_others hm

/-- Runs of moves, and runs of those among them that the scene makes. -/
theorem play (h : Alike owner i alone shared) (moves : List Move) :
    Alike owner i (alone.play (moves.filter fun m => m.member = i)).1 (shared.play moves).1 ∧
      (shared.play moves).2.filter (fun answer => answer.1 = i) =
        (alone.play (moves.filter fun m => m.member = i)).2 := by
  induction moves generalizing alone shared with
  | nil => exact ⟨h, rfl⟩
  | cons m r ih =>
      by_cases hm : m.member = i
      · obtain ⟨hstep, hreport⟩ := h.step_own hm
        obtain ⟨hrest, hreports⟩ := ih hstep
        simp [Ensemble.play, hm, hreport, hreports, hrest]
      · obtain ⟨hrest, hreports⟩ := ih (h.step_others hm)
        simp [Ensemble.play, hm, hreports, hrest]

end Alike

/-- What a scene shows and reports is what it shows and reports if the others do not move. -/
theorem same_without_others {e : Ensemble} {i : Nat} {m : Member} (h : e.Isolated i m)
    (moves : List Move) :
    ((e.play moves).1.scene? i).map Scene.seen =
        ((e.play (moves.filter fun m => m.member = i)).1.scene? i).map Scene.seen ∧
      (e.play moves).2.filter (fun answer => answer.1 = i) =
        (e.play (moves.filter fun m => m.member = i)).2 := by
  obtain ⟨halike, hreports⟩ := h.alike.play moves
  exact ⟨halike.seen_eq, hreports⟩

/-- A scene that shares its timers, as it begins. -/
def newcomer (owner : String) : Member where
  scene := Scene.new owner {} (.animator {}) default
  sharesTimers := true
  sharesRecords := false

/-- Two scenes with a registry between them. The name of the second begins with that of the
first. -/
def neighbours : Ensemble where
  members := [newcomer "a", newcomer "a:b"]
  scheduler := default
  records := .empty

/-- A timer that plays an effect after ten milliseconds. -/
def lateChime : TimerSpec :=
  Performer.delayedSpec (Scene.atStart none) 10 [Scene.chime]

/-- Each starts a timer of the same id and polls. The second is given up in between. -/
def interleaved : List Move :=
  [.operate 0 (.startTimer "t" lateChime .zero) rfl,
    .operate 1 (.startTimer "t" lateChime .zero) rfl,
    .operate 1 (.poll (.ofMillis 10)) rfl, .drop 1, .operate 0 (.poll (.ofMillis 10)) rfl]

theorem same_without_others_neighbours :
    neighbours.Isolated 0 (newcomer "a") ∧
      ((neighbours.play interleaved).1.scene? 0).map Scene.seen =
        ((neighbours.play (interleaved.filter fun m => m.member = 0)).1.scene? 0).map Scene.seen ∧
      (neighbours.play interleaved).2.filter (fun answer => answer.1 = 0) =
        (neighbours.play (interleaved.filter fun m => m.member = 0)).2 := by
  have hisolated : neighbours.Isolated 0 (newcomer "a") := by
    refine ⟨rfl, rfl, fun j n hne hn => ?_, ⟨_, [], rfl⟩⟩
    match j, hne, hn with
    | 1, _, hn =>
        cases hn
        decide
  exact ⟨hisolated, same_without_others hisolated interleaved⟩

end Ensemble

end LiveScene
