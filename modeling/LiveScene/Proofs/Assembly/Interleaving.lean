import LiveScene.Proofs.Assembly.Following

/-!
# LiveScene.Proofs.Assembly.Interleaving

Events on cells and events on nodes.

* An event on nodes does the same whatever the stage is (`Event.apply_withStage`), and one on cells
  does the same whatever the graph is (`Event.apply_withGraph`). So neither kind changes the other's
  part.
* A log that mixes two lists, one of each kind, builds the graph of the one and the stage of the
  other (`Interleaves.applyAll_eq`). Nothing of this depends on how they are mixed.
-/

namespace LiveScene

/-- A list mixes two others, each of them in its own order. -/
inductive Interleaves {α : Type} : List α → List α → List α → Prop where
  | nil : Interleaves [] [] []
  /-- The next item is the first one of the left list. -/
  | left {a : α} {xs ys mixed : List α} :
      Interleaves xs ys mixed → Interleaves (a :: xs) ys (a :: mixed)
  /-- The next item is the first one of the right list. -/
  | right {a : α} {xs ys mixed : List α} :
      Interleaves xs ys mixed → Interleaves xs (a :: ys) (a :: mixed)

attribute [ext] Assembly

namespace Assembly

/-- The assembly with another graph. -/
def withGraph (a : Assembly) (graph : Graph) : Assembly := { a with graph := graph }

/-- The assembly with another stage. -/
def withStage (a : Assembly) (stage : Stage) : Assembly := { a with stage := stage }

@[simp] theorem withStage_withStage (a : Assembly) (s t : Stage) :
    (a.withStage s).withStage t = a.withStage t := rfl

theorem updateCell_withGraph (a : Assembly) (id : String) (value : Value) (animated : Bool)
    (durationMs : Option UInt64) (graph : Graph) :
    (a.withGraph graph).updateCell id value animated durationMs =
      (a.updateCell id value animated durationMs).withGraph graph := by
  cases value with
  | number target =>
      rw [updateCell_number, updateCell_number]
      rfl
  | _ => rfl

end Assembly

namespace Event

/-- Whether an event creates or assigns a cell. -/
def isOnCell : Event → Bool
  | createCell .. | updateCell .. => true
  | _ => false

/-- Whether an event changes nodes, their links or the root. -/
def isOnNode : Event → Bool
  | createNode .. | addChild .. | removeChild .. | updateStyle .. | updateText .. | deleteNode ..
  | setRoot .. => true
  | _ => false

/-! ### What an event does not look at -/

/-- An event on cells does the same whatever the graph is. -/
theorem apply_withGraph {e : Event} (h : e.isOnCell = true) (a : Assembly) (graph : Graph) :
    e.apply (a.withGraph graph) = (e.apply a).withGraph graph := by
  cases e with
  | createCell id type initial => simp only [apply, Assembly.withGraph]
  | updateCell id value animated durationMs =>
      simp only [apply]
      exact a.updateCell_withGraph id value animated durationMs graph
  | _ => simp [isOnCell] at h

/-- An event on nodes does the same whatever the stage is. -/
theorem apply_withStage {e : Event} (h : e.isOnNode = true) (a : Assembly) (stage : Stage) :
    e.apply (a.withStage stage) = (e.apply a).withStage stage := by
  cases e with
  | createCell | updateCell | batch => simp [isOnNode] at h
  | _ => simp only [apply, Assembly.modifyAttributes, Assembly.withStage]

/-- What each event of a list passes over, the list passes over. -/
theorem applyAll_comm {events : List Event} {f : Assembly → Assembly}
    (h : ∀ e ∈ events, ∀ a, e.apply (f a) = f (e.apply a)) (a : Assembly) :
    applyAll events (f a) = f (applyAll events a) := by
  induction events generalizing a with
  | nil => simp only [applyAll]
  | cons e r ih =>
      simp only [applyAll]
      rw [h e List.mem_cons_self]
      exact ih (fun d hd => h d (List.mem_cons_of_mem e hd)) (e.apply a)

theorem applyAll_withGraph {cells : List Event} (h : ∀ e ∈ cells, e.isOnCell = true)
    (a : Assembly) (graph : Graph) :
    applyAll cells (a.withGraph graph) = (applyAll cells a).withGraph graph := by
  have hcells : ∀ e ∈ cells, ∀ b : Assembly,
      e.apply (b.withGraph graph) = (e.apply b).withGraph graph := by
    intro e he b
    exact apply_withGraph (h e he) b graph
  exact applyAll_comm hcells a

theorem applyAll_withStage {nodes : List Event} (h : ∀ e ∈ nodes, e.isOnNode = true)
    (a : Assembly) (stage : Stage) :
    applyAll nodes (a.withStage stage) = (applyAll nodes a).withStage stage := by
  have hnodes : ∀ e ∈ nodes, ∀ b : Assembly,
      e.apply (b.withStage stage) = (e.apply b).withStage stage := by
    intro e he b
    exact apply_withStage (h e he) b stage
  exact applyAll_comm hnodes a

/-! ### What an event does not change -/

/-- What does not depend on the count leaves it as it is. -/
theorem applied_apply (e : Event) (a : Assembly) : (e.apply a).applied = a.applied := by
  have hcount := congrArg Assembly.applied (apply_counting e a a.applied)
  exact hcount

/-- Nor does an event on cells change the graph. -/
theorem apply_eq_withStage {e : Event} (h : e.isOnCell = true) (a : Assembly) :
    e.apply a = a.withStage (e.apply a).stage := by
  have hgraph := congrArg Assembly.graph (apply_withGraph h a a.graph)
  exact Assembly.ext hgraph rfl (applied_apply e a)

/-- Nor does an event on nodes change the stage. -/
theorem apply_eq_withGraph {e : Event} (h : e.isOnNode = true) (a : Assembly) :
    e.apply a = a.withGraph (e.apply a).graph := by
  have hstage := congrArg Assembly.stage (apply_withStage h a a.stage)
  exact Assembly.ext rfl hstage (applied_apply e a)

theorem applied_applyAll (events : List Event) (a : Assembly) :
    (applyAll events a).applied = a.applied := by
  have hcount := congrArg Assembly.applied (applyAll_counting events a a.applied)
  exact hcount

end Event

/-! ### Mixed logs -/

variable {cells nodes mixed : List Event}

/-- A mixed log builds the graph of its events on nodes and the stage of its events on cells. -/
theorem Interleaves.applyAll_eq (h : Interleaves cells nodes mixed)
    (hcells : ∀ e ∈ cells, e.isOnCell = true) (hnodes : ∀ e ∈ nodes, e.isOnNode = true)
    (a : Assembly) :
    Event.applyAll mixed a =
      (Event.applyAll nodes a).withStage (Event.applyAll cells a).stage := by
  induction h generalizing a with
  | nil => simp only [Event.applyAll, Assembly.withStage]
  | @left e cells nodes mixed _ ih =>
      have hrest := ih (fun d hd => hcells d (List.mem_cons_of_mem e hd)) hnodes (e.apply a)
      -- The nodes do not see what the event has done to the stage.
      rw [Event.applyAll, hrest, Event.applyAll,
        Event.apply_eq_withStage (hcells e List.mem_cons_self) a,
        Event.applyAll_withStage hnodes, Assembly.withStage_withStage]
  | @right e cells nodes mixed _ ih =>
      have hrest := ih hcells (fun d hd => hnodes d (List.mem_cons_of_mem e hd)) (e.apply a)
      have hstage : (Event.applyAll cells (e.apply a)).stage = (Event.applyAll cells a).stage := by
        rw [Event.apply_eq_withGraph (hnodes e List.mem_cons_self) a,
          Event.applyAll_withGraph hcells]
        rfl
      rw [Event.applyAll, hrest, hstage, Event.applyAll]

namespace Assembly

/-- However a list of events on cells and a list of events on nodes are mixed, each in its own
order, they build the same: the graph that the one builds, and the cells with their versions and
the requests for animations that the other does. -/
theorem builds_however_mixed {other : List Event} (hcells : ∀ e ∈ cells, e.isOnCell = true)
    (hnodes : ∀ e ∈ nodes, e.isOnNode = true) (h : Interleaves cells nodes mixed)
    (hother : Interleaves cells nodes other) (a : Assembly) :
    Event.applyAll mixed a = Event.applyAll other a ∧
      Event.applyAll mixed a =
        { graph := (Event.applyAll nodes a).graph
          stage := (Event.applyAll cells a).stage
          applied := a.applied } := by
  have hmixed := h.applyAll_eq hcells hnodes a
  have happlied := Event.applied_applyAll nodes a
  refine ⟨hmixed.trans (hother.applyAll_eq hcells hnodes a).symm, ?_⟩
  rw [hmixed, withStage, happlied]

/-- A cell is created and animated. -/
def lightUp : List Event :=
  [.createCell "light" .number (.number 0), .updateCell "light" (.number 1) true (some 50)]

/-- A lamp is created, and becomes the root. -/
def hangLamp : List Event :=
  [.createNode ⟨{ id := "lamp", kind := .text }, []⟩, .setRoot "lamp"]

/-- The lamp before the light, or one within the other. -/
theorem builds_however_mixed_lamp :
    Interleaves lightUp hangLamp (hangLamp ++ lightUp) ∧
      Event.applyAll (hangLamp ++ lightUp) (new recording) =
        Event.applyAll (lightUp.take 1 ++ hangLamp ++ lightUp.drop 1) (new recording) ∧
      (Event.applyAll (hangLamp ++ lightUp) (new recording)).graph.root = some "lamp" ∧
      ((Event.applyAll (hangLamp ++ lightUp) (new recording)).stage.renderer.requests.map
        AnimationRequest.cell) = ["light"] := by
  have hcells : ∀ e ∈ lightUp, e.isOnCell = true := by simp [lightUp, Event.isOnCell]
  have hnodes : ∀ e ∈ hangLamp, e.isOnNode = true := by simp [hangLamp, Event.isOnNode]
  have hafter : Interleaves lightUp hangLamp (hangLamp ++ lightUp) :=
    .right (.right (.left (.left .nil)))
  have hwithin : Interleaves lightUp hangLamp (lightUp.take 1 ++ hangLamp ++ lightUp.drop 1) :=
    .left (.right (.right (.left .nil)))
  have hboth := builds_however_mixed hcells hnodes hafter hwithin (new recording)
  refine ⟨hafter, hboth.1, ?_, ?_⟩
  · rw [hboth.2]
    rfl
  · rw [hboth.2]
    rfl

end Assembly

end LiveScene
