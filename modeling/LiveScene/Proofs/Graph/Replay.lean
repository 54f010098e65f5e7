import LiveScene.Proofs.Graph.Edits
import LiveScene.Proofs.Trace

/-!
# LiveScene.Proofs.Graph.Replay

The graph that a log builds is a forest after each of its events.

`Graph.Built` are the graphs that logs lead to. Those inside a batch are among them: they are built
by the events up to there.
-/

namespace LiveScene

theorem Assembly.consistent_modifyAttributes {a : Assembly} (h : a.graph.Consistent)
    (id : String) {f : Attributes → Attributes}
    (hf : ∀ attributes, (f attributes).id = attributes.id) :
    (a.modifyAttributes id f).graph.Consistent :=
  h.modify_attributes id hf

/-- The assignment of a cell does not touch the graph. -/
@[simp] theorem Assembly.graph_updateCell (a : Assembly) (id : String) (value : Value)
    (animated : Bool) (durationMs : Option UInt64) :
    (a.updateCell id value animated durationMs).graph = a.graph := by
  unfold Assembly.updateCell
  split
  · split <;> rfl
  · rfl

/-- Every event keeps the graph consistent; those on cells do not touch it. -/
theorem Event.preserved_consistent :
    Event.Preserved fun a => a.graph.Consistent := by
  intro e a hbatch h
  cases e with
  | batch events => exact absurd hbatch (by simp [isBatch])
  | createCell id type initial =>
      rw [apply]
      exact h
  | updateCell id value animated durationMs =>
      rw [apply, Assembly.graph_updateCell]
      exact h
  | createNode spec =>
      rw [apply]
      exact h.insert spec
  | addChild p c position =>
      rw [apply]
      exact h.addChild p c _
  | removeChild p c =>
      rw [apply]
      exact h.removeChild p c
  | updateStyle id style merge animated durationMs =>
      rw [apply]
      refine Assembly.consistent_modifyAttributes h id fun attributes => ?_
      rfl
  | updateText id text =>
      rw [apply]
      refine Assembly.consistent_modifyAttributes h id fun attributes => ?_
      rfl
  | deleteNode id animated durationMs =>
      rw [apply]
      exact h.delete id
  | setRoot id =>
      rw [apply]
      exact h.setRoot (some id)

/-- From nothing, any log goes through forests only: after each of its events, inside batches
too, and in the end. -/
theorem Assembly.isForest_of_replay (stage : Stage) (events : List Event) :
    (∀ a ∈ Event.traceAll events (new stage), a.graph.IsForest) ∧
      (Event.applyAll events (new stage)).graph.IsForest := by
  have hnew : (new stage).graph.Consistent := Graph.Consistent.empty
  constructor
  · intro a ha
    have hpassed := Event.forall_mem_traceAll Event.preserved_consistent events (new stage) hnew
    exact (hpassed a ha).isForest
  · exact (Event.applyAll_of_preserved Event.preserved_consistent events (new stage) hnew).isForest

namespace Graph

/-- A graph that events build from nothing. -/
def Built (g : Graph) : Prop :=
  ∃ stage events, (Event.applyAll events (Assembly.new stage)).graph = g

theorem Built.consistent {g : Graph} (h : g.Built) : g.Consistent := by
  obtain ⟨stage, events, rfl⟩ := h
  exact Event.applyAll_of_preserved Event.preserved_consistent events (Assembly.new stage)
    Consistent.empty

end Graph

end LiveScene
