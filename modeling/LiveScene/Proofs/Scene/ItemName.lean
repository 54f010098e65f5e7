import LiveScene.Proofs.Graph.Replay
import LiveScene.Proofs.Graph.Template
import LiveScene.Proofs.Scene.Deeds

/-!
# LiveScene.Proofs.Scene.ItemName

The name of an item in the template of a collection.

* In each run of a scene the nodes of its graph stand under their own ids (`consistent_run`), so an
  id that no node has can only be that of an inline node.
* The actions are those of the first place of the id, and the name is that of the outermost
  collection (`handleItem_of_place`). It is the name of the nearest one if this is a node of the
  graph; if it lies inline in another node, it is passed over (`records_strikeInline`).
-/

namespace LiveScene

namespace Scene

/-- A scene that operations lead to. -/
def Reachable (s : Scene) : Prop :=
  ∃ owner settings renderer chance ops, s = ((new owner settings renderer chance).run ops).1

variable {s : Scene}

theorem graph_handleIn (s : Scene) (id : String) (kind : HandlerKind) (i : Invocation) :
    (answered (s.handleIn id kind i)).1.graph = s.graph := by
  unfold handleIn
  cases s.graph.find? id <;> rfl

/-- Only events change the graph. -/
theorem consistent_step (h : s.graph.Consistent) (op : Operation) :
    (s.step op).1.graph.Consistent := by
  cases op with
  | apply event => exact Event.apply_of_preserved Event.preserved_consistent event s.assembly h
  | sync log =>
      show (s.assembly.sync log).1.graph.Consistent
      unfold Assembly.sync
      split
      · exact Event.applyAll_of_preserved Event.preserved_consistent
          (log.drop s.assembly.applied) s.assembly h
      · exact h
  | handle id kind params now =>
      rw [step, handle, graph_handleIn]
      exact h
  | handleItem id kind params item now =>
      rw [step, handleItem, graph_handleIn]
      exact h
  | handleIn id kind i =>
      rw [step, graph_handleIn]
      exact h
  | execute actions i => exact h
  | runForwarded now => exact h
  | startTimer id spec now =>
      show (s.startTimer id spec now).graph.Consistent
      unfold startTimer
      split <;> exact h
  | stopTimer id => exact h
  | frame now =>
      show (s.frame now).1.graph.Consistent
      unfold frame
      split <;> exact h
  | poll now =>
      show (s.poll now).1.graph.Consistent
      unfold poll
      split <;> exact h
  | teardown =>
      show s.teardown.graph.Consistent
      unfold teardown
      split <;> exact h
  | share scheduler records => exact h

theorem consistent_run (h : s.graph.Consistent) (ops : List Operation) :
    (s.run ops).1.graph.Consistent := by
  induction ops generalizing s with
  | nil => exact h
  | cons op r ih => exact ih (consistent_step h op)

theorem Reachable.consistent (h : s.Reachable) : s.graph.Consistent := by
  obtain ⟨owner, settings, renderer, chance, ops, rfl⟩ := h
  exact consistent_run Graph.Consistent.empty ops

/-! ### Names -/

end Scene

/-- The name that a collection gives its items. -/
def Node.recordName (n : Node) : String := n.attributes.itemName.getD Scene.defaultItemName

namespace Scene

variable {s : Scene} {id : String} {p : Place} {c : Node}

/-- Runs the actions of a node for an item. -/
def runFor (s : Scene) (node : Node) (kind : HandlerKind) (params : Params) (scope : ItemScope)
    (now : Duration) : Scene × Except Fault Report :=
  let (s, report) :=
    s.execute (node.attributes.handlers.get kind) ⟨kind.context, params, some scope, now⟩
  (s, .ok report)

/-- The name of an item is that of the outermost collection. -/
theorem itemName_eq_outermost? (hs : s.Reachable) (hget : s.graph.get? id = none) :
    s.itemName id = (s.graph.outermost? id).elim defaultItemName Node.recordName := by
  rw [itemName, Graph.templateOwner?_eq_outermost? hs.consistent.id_eq hget]
  cases s.graph.outermost? id <;> rfl

/-- An inline node lies in the template of a collection, the nearest one. An interaction with it
runs its actions, and placeholders know the item by the name of the first collection among the
nodes of the graph in which there is a node of this id. If no inline collection lies around the
node, this is the nearest one. Otherwise it is the node of the graph around it, if that is a
collection. -/
theorem handleItem_of_place (hs : s.Reachable) (hget : s.graph.get? id = none)
    (hp : s.graph.place? id = some p) (hc : p.collection? = some c) (kind : HandlerKind)
    (params : Params) (item : Json) (now : Duration) :
    s.graph.find? id = some p.node ∧
      s.handleItem id kind params item now =
        s.runFor p.node kind params ⟨s.itemName id, item⟩ now ∧
      s.itemName id = (s.graph.outermost? id).elim defaultItemName Node.recordName ∧
      ((∀ n ∈ p.inner, n.isCollection = false) → s.itemName id = c.recordName) ∧
      (p.top.isCollection = true → s.itemName id = p.top.recordName) := by
  have hfind : s.graph.find? id = some p.node := by
    rw [Graph.find?_eq_place? hget, hp, Option.map_some]
  have hname := itemName_eq_outermost? hs hget
  have htop : p.top.isCollection = true → s.itemName id = p.top.recordName := by
    intro hcollection
    rw [hname, Graph.outermost?_of_isCollection hp hcollection, Option.elim_some]
  refine ⟨hfind, ?_, hname, ?_, htop⟩
  · rw [handleItem, handleIn, hfind]
    rfl
  · intro hinner
    obtain ⟨rfl, hcollection⟩ := Place.eq_top_of_collection? hc hinner
    exact htop hcollection

/-- A row that is pressed to remove the record of its item. -/
def strikeRow : NodeSpec where
  attributes :=
    { id := "row", kind := .actionable,
      handlers := { press := [.mk (.dataDelete "todos" "\x7b\x7btodo.id\x7d\x7d") none] } }
  children := []

/-- A list with such a row for each record, which it names. -/
def todoList : NodeSpec where
  attributes :=
    { id := "list", kind := .collection, collection := some "todos", itemName := some "todo" }
  children := [strikeRow]

/-- A page with the list in it. -/
def todoPage : NodeSpec := ⟨{ id := "page", kind := .container }, [todoList]⟩

/-- A scene with a node and a record. -/
def listing (spec : NodeSpec) : Scene :=
  (blank.run [.apply (.createNode spec),
    .execute [.mk (.dataCreate "todos" (Dict.ofList [("id", .str "a")])) none]
      (atStart none)]).1

theorem reachable_listing (spec : NodeSpec) : (listing spec).Reachable := ⟨_, _, _, _, _, rfl⟩

/-- The place of the row in a list of the graph. -/
def rowInList : Place := ⟨strikeRow.toNode (some "list"), [], todoList.toNode none⟩

/-- The place of the row in a list that lies in a page. -/
def rowInPage : Place :=
  ⟨strikeRow.toNode (some "list"), [todoList.toNode (some "page")], todoPage.toNode none⟩

theorem handleItem_of_place_todoList :
    (listing todoList).Reachable ∧ (listing todoList).graph.get? "row" = none ∧
      (listing todoList).graph.place? "row" = some rowInList ∧
      rowInList.collection? = some (todoList.toNode none) ∧
      (listing todoList).itemName "row" = "todo" := by
  have hs := reachable_listing todoList
  have hget : (listing todoList).graph.get? "row" = none := rfl
  have hp : (listing todoList).graph.place? "row" = some rowInList := rfl
  have hc : rowInList.collection? = some (todoList.toNode none) := rfl
  have hall := handleItem_of_place hs hget hp hc .press ∅ .null .zero
  exact ⟨hs, hget, hp, hc, hall.2.2.2.1 fun n hn => nomatch hn⟩

/-- If the list lies in a page, then the item has no name of its own, and the row does not remove
its record. Under the name that the list gives, it would. -/
theorem records_strikeInline :
    (listing todoPage).graph.place? "row" = some rowInPage ∧
      rowInPage.collection? = some (todoList.toNode (some "page")) ∧
      (todoList.toNode (some "page")).recordName = "todo" ∧
      (listing todoPage).itemName "row" = "item" ∧
      (((listing todoPage).handleItem "row" .press ∅ (.obj [("id", .str "a")])
        .zero).1.performer.records.all "todos").map RecordStore.idOf? = [some "a"] ∧
      (((listing todoPage).runFor rowInPage.node .press ∅ ⟨"todo", .obj [("id", .str "a")]⟩
        .zero).1.performer.records.all "todos").map RecordStore.idOf? = [] := by
  refine ⟨rfl, rfl, rfl, rfl, ?_, ?_⟩
  · decide +kernel
  · decide +kernel

end Scene

end LiveScene
