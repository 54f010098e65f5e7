import LiveScene.Proofs.Performer.Twin
import LiveScene.Proofs.Scene.Deeds

/-!
# LiveScene.Proofs.Scene.Twin

Scenes that differ in the numbers of their timers do the same.

`Twin.step`: an operation leaves two such scenes the same but for the numbers, and they report the
same. What an operation asks of the registry of timers is about those of its scene
(`scheduler_step`), so to others who share the registry it is as `Renumbered.serve_others` says.
-/

namespace LiveScene

open Performer (Blind BlindAt TwinRuns)

/-- Whether an operation is one of the scene itself, and not of others that share with it. -/
def Operation.isOwn : Operation → Bool
  | share .. => false
  | _ => true

/-! ### What deeds ask of the timers -/

namespace Deed

/-- But for what others share, all that a deed does to the timers is what it asks of them. -/
theorem scheduler_run_of_own {d : Deed} (h : ∀ t rs, d ≠ .share t rs) (p : Performer) :
    (d.run p).1.scheduler = p.scheduler.serveAll (d.request? p).toList := by
  cases d with
  | share scheduler records => exact absurd rfl (h scheduler records)
  | act i a => exact (Performer.scheduler_act i a p).1
  | fire context now f =>
      rw [run_fire]
      rfl
  | _ => rfl

theorem scheduler_replay_of_own {ds : List Deed} {p : Performer}
    (h : ∀ d ∈ ds, ∀ t rs, d ≠ .share t rs) (hapart : Along Apart ds p) :
    ∃ rs : List TimerRequest, (∀ r ∈ rs, r.owner = p.owner) ∧
      (replay ds p).scheduler = p.scheduler.serveAll rs := by
  induction ds generalizing p with
  | nil => exact ⟨[], by simp, rfl⟩
  | cons d r ih =>
      obtain ⟨rs, hrs, hreplay⟩ := ih (fun e he => h e (List.mem_cons_of_mem d he)) hapart.2
      have hrun := scheduler_run_of_own (h d List.mem_cons_self) p
      refine ⟨(d.request? p).toList ++ rs, fun q hq => ?_, ?_⟩
      · rcases List.mem_append.mp hq with hq | hq
        · exact owner_of_request? (Option.mem_toList.mp hq)
        · exact (hrs q hq).trans (owner_run hapart.1)
      · rw [replay_cons, hreplay, hrun, Scheduler.serveAll_append]

end Deed

namespace Scene

/-! ### Steps of scenes that are alike -/

/-- Two scenes of a name that are the same but for the numbers of their timers. -/
structure Twin (owner : String) (f : Nat → Nat) (s t : Scene) : Prop where
  rest : t = { s with performer := t.performer }
  performer : Performer.Twin owner f s.performer t.performer

/-- Two steps leave scenes that are alike and report the same. -/
structure TwinSteps (owner : String) (f : Nat → Nat) (x y : Scene × Report) : Prop where
  twin : Twin owner f x.1 y.1
  report : y.2 = x.2

namespace Twin

variable {owner : String} {f : Nat → Nat} {s t : Scene}

theorem graph_eq (h : Twin owner f s t) : t.graph = s.graph := by
  rw [h.rest]

theorem tornDown_eq (h : Twin owner f s t) : t.tornDown = s.tornDown := by
  rw [h.rest]

/-- What changes the performers alike leaves the scenes alike. -/
theorem setPerformer (h : Twin owner f s t) {p q : Performer} (hpq : p.Twin owner f q) :
    Twin owner f { s with performer := p } { t with performer := q } := by
  refine ⟨?_, hpq⟩
  rw [h.rest]

theorem perform (h : Twin owner f s t) {run : Performer → Performer × Report}
    (hrun : TwinRuns owner f (run s.performer) (run t.performer)) :
    TwinSteps owner f (s.perform run) (t.perform run) :=
  ⟨h.setPerformer hrun.twin, hrun.report⟩

theorem performBlind (h : Twin owner f s t) {run : Performer → Performer × Report}
    (hrun : Blind run) : TwinSteps owner f (s.perform run) (t.perform run) :=
  h.perform ((hrun s.performer).twin h.performer)

theorem handleIn (h : Twin owner f s t) (id : String) (kind : HandlerKind) (i : Invocation) :
    TwinSteps owner f (answered (s.handleIn id kind i)) (answered (t.handleIn id kind i)) := by
  unfold Scene.handleIn
  rw [h.graph_eq]
  cases s.graph.find? id with
  | none => exact ⟨h, rfl⟩
  | some node =>
      exact h.performBlind (Performer.blind_performAll i (node.attributes.handlers.get kind))

theorem itemName_eq (h : Twin owner f s t) (id : String) : t.itemName id = s.itemName id := by
  unfold itemName
  rw [h.graph_eq]

/-- What is built of the same events is the same. -/
theorem assembly_eq (h : Twin owner f s t) : t.assembly = s.assembly := by
  unfold assembly
  rw [h.rest, h.performer.rest]
  rfl

/-- Putting a stage of the same name in place. -/
theorem setAssembly (h : Twin owner f s t) {a : Assembly}
    (ha : a.stage.cells.owner = s.performer.owner) :
    Twin owner f (s.setAssembly a) (t.setAssembly a) := by
  have hblind : BlindAt (fun p => ({ p with stage := a.stage }, ∅)) s.performer :=
    Performer.blindAt_of_untouched ha fun t => rfl
  refine ⟨?_, (hblind.twin h.performer).twin⟩
  unfold Scene.setAssembly
  rw [h.rest]

theorem frame (h : Twin owner f s t) (now : Duration) :
    TwinSteps owner f (s.frame now) (t.frame now) := by
  have hmoved : BlindAt (fun p => ({ p with stage := p.stage.frame now }, ∅)) s.performer :=
    Performer.blindAt_of_untouched (s.performer.stage.owner_frame now) fun t => rfl
  have hdue := (hmoved.twin h.performer).twin.runDue .frame .lowLatency now
  unfold Scene.frame
  rw [h.tornDown_eq]
  split
  · exact ⟨h, rfl⟩
  · exact h.perform hdue

theorem poll (h : Twin owner f s t) (now : Duration) :
    TwinSteps owner f (s.poll now) (t.poll now) := by
  have hplayed := (Performer.blind_playEffects s.performer).twin h.performer
  have hforwarded := (Performer.blind_runForwarded now _).twin hplayed.twin
  have hdue := hforwarded.twin.runDue .wallClock .fullCapability now
  unfold Scene.poll
  rw [h.tornDown_eq]
  split
  · exact ⟨h, rfl⟩
  · refine h.perform ⟨hdue.twin, ?_⟩
    simp only [hplayed.report, hforwarded.report, hdue.report]

theorem startTimer (h : Twin owner f s t) (id : String) (spec : TimerSpec) (now : Duration) :
    Twin owner f (s.startTimer id spec now) (t.startTimer id spec now) := by
  unfold Scene.startTimer
  by_cases htorn : s.tornDown = true
  · rw [if_pos htorn, if_pos (h.tornDown_eq.trans htorn)]
    exact h
  · rw [if_neg htorn, if_neg (h.tornDown_eq ▸ htorn)]
    exact (h.performBlind (Performer.blind_startTimer id spec now)).twin

theorem teardown (h : Twin owner f s t) : Twin owner f s.teardown t.teardown := by
  have hclosed := (Performer.blind_close s.performer).twin h.performer
  unfold Scene.teardown
  rw [h.tornDown_eq]
  split
  · exact h
  · refine ⟨?_, hclosed.twin⟩
    rw [h.rest]

/-- An operation leaves the scenes alike, and they report the same. -/
theorem step (h : Twin owner f s t) {op : Operation} (hop : op.isOwn = true) :
    TwinSteps owner f (s.step op) (t.step op) := by
  cases op with
  | apply event =>
      have howner : (s.assembly.apply event).stage.cells.owner = s.performer.owner :=
        s.owner_step (.apply event) rfl
      simp only [Scene.step, Scene.apply, h.assembly_eq]
      exact ⟨h.setAssembly howner, rfl⟩
  | sync log =>
      have howner : (s.assembly.sync log).1.stage.cells.owner = s.performer.owner :=
        s.owner_step (.sync log) rfl
      simp only [Scene.step, Scene.sync, h.assembly_eq]
      exact ⟨h.setAssembly howner, rfl⟩
  | handle id kind params now => exact h.handleIn id kind _
  | handleItem id kind params item now =>
      have hname := h.itemName_eq id
      simp only [Scene.step, handleItem, hname]
      exact h.handleIn id kind _
  | handleIn id kind i => exact h.handleIn id kind i
  | execute actions i => exact h.performBlind (Performer.blind_performAll i actions)
  | runForwarded now => exact h.performBlind (Performer.blind_runForwarded now)
  | startTimer id spec now => exact ⟨h.startTimer id spec now, rfl⟩
  | stopTimer id => exact ⟨(h.performBlind (Performer.blind_stopTimer id)).twin, rfl⟩
  | frame now => exact h.frame now
  | poll now => exact h.poll now
  | teardown => exact ⟨h.teardown, rfl⟩
  | share => cases hop

end Twin

/-- What others ask of the registry leaves the scenes alike. -/
theorem Twin.serveAll_others {owner : String} {f : Nat → Nat} {s t : Scene}
    (h : Twin owner f s t) {rs : List TimerRequest} (hrs : ∀ r ∈ rs, r.owner ≠ owner) :
    ∃ g, Twin owner g s
      { t with performer := t.performer.withTimers (t.performer.scheduler.serveAll rs) } := by
  obtain ⟨hrest, howner, hperformer, htimers⟩ := h
  obtain ⟨g, hg⟩ := htimers.serveAll_others hrs
  refine ⟨g, ?_, howner, ?_, hg⟩
  · rw [hrest]
  · rw [hperformer]
    rfl

/-! ### What a scene shows -/

/-- The scene without what others who share its registry leave there: only its own timers, and
these without their numbers. -/
def seen (s : Scene) : Scene :=
  { s with performer := s.performer.withTimers (s.performer.scheduler.seenBy s.owner) }

theorem Twin.seen_eq {owner : String} {f : Nat → Nat} {s t : Scene} (h : Twin owner f s t) :
    t.seen = s.seen := by
  obtain ⟨hrest, howner, hperformer, htimers⟩ := h
  have hsame : t.owner = s.owner := by
    rw [Scene.owner, hperformer]
    rfl
  have hregistry : t.performer.scheduler.seenBy t.owner = s.performer.scheduler.seenBy s.owner := by
    rw [hsame]
    exact (howner ▸ htimers).seenBy_eq
  unfold seen
  rw [hregistry, hrest, hperformer]
  rfl

/-! ### What a step asks of the timers -/

theorem share_notMem_deeds {s : Scene} {op : Operation} (hop : op.isOwn = true)
    (scheduler : Scheduler) (records : RecordStore) : .share scheduler records ∉ s.deeds op := by
  intro hmem
  rcases mem_deeds hmem with hinner | houter
  · cases hinner
  · cases op with
    | share => cases hop
    | startTimer | frame | poll | teardown =>
        rw [outerDeeds] at houter
        split at houter <;> simp at houter
    | _ => simp [outerDeeds] at houter

/-- All that an operation does to the timers is to put requests about those of the scene. -/
theorem scheduler_step (s : Scene) {op : Operation} (hop : op.isOwn = true) :
    (s.step op).1.owner = s.owner ∧
      ∃ rs : List TimerRequest, (∀ r ∈ rs, r.owner = s.owner) ∧
        (s.step op).1.performer.scheduler = s.performer.scheduler.serveAll rs := by
  have hapart : s.Apart op := by
    cases op with
    | share => cases hop
    | _ => trivial
  have halong := along_apart_deeds hapart
  have hshare : ∀ d ∈ s.deeds op, ∀ t rs, d ≠ .share t rs := by
    rintro d hd t rs rfl
    exact share_notMem_deeds hop t rs hd
  rw [owner, performer_step, Deed.owner_replay halong]
  exact ⟨rfl, Deed.scheduler_replay_of_own hshare halong⟩

end Scene

end LiveScene
