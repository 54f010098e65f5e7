import LiveScene.Node.Graph
import LiveScene.Proofs.Dict
import Mathlib.Data.List.Chain

/-!
# LiveScene.Proofs.Graph.Template

Where the inline nodes of a graph lie.

* A `Place` is an inline node with all nodes around it: inline ones, and outside of them one of the
  graph. `Graph.places` lists the places, each before those below it, and there are no others
  (`Graph.mem_places_iff`).
* A place lies in the template of each collection around it. The one that it is repeated for is the
  nearest (`Place.collection?`).
* The questions to a graph are searches among its places. `find?` stops at the first place of an id
  (`Graph.find?_eq_place?`). `templateOwner?` looks for collections among the nodes of the graph
  only, and stops at the first place of the id in one of them
  (`Graph.templateOwner?_eq_outermost?`). So it finds the nearest collection if no inline one lies
  around the place.
-/

namespace LiveScene

/-- Whether a node repeats its inline children. -/
def Node.isCollection (n : Node) : Bool := decide (n.attributes.kind = .collection)

/-- A node is an inline child of another. -/
def Node.LiesIn (n outer : Node) : Prop := .inline n ∈ outer.children

/-- A place of an inline node. -/
structure Place where
  node : Node
  /-- The inline nodes around it, the nearest first. -/
  inner : List Node
  /-- The node of the graph around it. -/
  top : Node

namespace Place

/-- All nodes around a place, the nearest first. -/
def around (p : Place) : List Node := p.inner ++ [p.top]

/-- The nearest collection around a place. -/
def collection? (p : Place) : Option Node := p.around.find? Node.isCollection

/-- Each node is an inline child of the next one around it. -/
def Nested (p : Place) : Prop := (p.node :: p.around).IsChain Node.LiesIn

end Place

/-! ### The places below a node -/

namespace Node

mutual

/-- The places below a node that is `top`, or lies below it with the first of `inner`. -/
def placesBelow (top : Node) (inner : List Node) : Node → List Place
  | ⟨_, _, children⟩ => placesAmong top inner children

/-- The places among children and below them. -/
def placesAmong (top : Node) (inner : List Node) : List Child → List Place
  | [] => []
  | .ref _ :: r => placesAmong top inner r
  | .inline node :: r =>
    ⟨node, inner, top⟩ :: (placesBelow top (node :: inner) node ++ placesAmong top inner r)

end

/-- The places below a node of the graph. -/
def places (n : Node) : List Place := placesBelow n [] n

variable {top : Node} {p q : Place}

theorem placesBelow_eq (top : Node) (inner : List Node) (n : Node) :
    placesBelow top inner n = placesAmong top inner n.children := by
  obtain ⟨attributes, parent, children⟩ := n
  rw [placesBelow]

mutual

/-- Places below a node have what lies around the node around them. -/
theorem nested_of_mem_placesBelow {inner : List Node} (n : Node)
    (hn : (inner ++ [top]).head? = some n) (hchain : (inner ++ [top]).IsChain LiesIn)
    (hp : p ∈ placesBelow top inner n) : p.top = top ∧ p.Nested := by
  obtain ⟨attributes, parent, children⟩ := n
  rw [placesBelow] at hp
  exact nested_of_mem_placesAmong children hn (fun c hc => hc) hchain hp

theorem nested_of_mem_placesAmong {inner : List Node} {n : Node} (children : List Child)
    (hn : (inner ++ [top]).head? = some n) (hsub : ∀ c ∈ children, c ∈ n.children)
    (hchain : (inner ++ [top]).IsChain LiesIn)
    (hp : p ∈ placesAmong top inner children) : p.top = top ∧ p.Nested := by
  cases children with
  | nil => simp [placesAmong] at hp
  | cons c r =>
      have hrest : ∀ d ∈ r, d ∈ n.children := by
        intro d hd
        exact hsub d (List.mem_cons_of_mem c hd)
      cases c with
      | ref id =>
          rw [placesAmong] at hp
          exact nested_of_mem_placesAmong r hn hrest hchain hp
      | inline node =>
          have hnode : Child.inline node ∈ n.children := hsub _ List.mem_cons_self
          have hnested : (node :: (inner ++ [top])).IsChain LiesIn := by
            refine List.isChain_cons.mpr ⟨?_, hchain⟩
            intro outer houter
            rw [hn] at houter
            cases houter
            exact hnode
          rw [placesAmong, List.mem_cons, List.mem_append] at hp
          rcases hp with rfl | hp | hp
          · exact ⟨rfl, hnested⟩
          · exact nested_of_mem_placesBelow node rfl hnested hp
          · exact nested_of_mem_placesAmong r hn hrest hchain hp

end

/-- Each inline child has its place. -/
theorem mem_placesAmong_of_mem {inner : List Node} {node : Node} {children : List Child}
    (h : .inline node ∈ children) : ⟨node, inner, top⟩ ∈ placesAmong top inner children := by
  induction children with
  | nil => cases h
  | cons c r ih =>
      cases c with
      | ref id =>
          rw [placesAmong]
          exact ih (by simpa using h)
      | inline other =>
          rw [placesAmong, List.mem_cons, List.mem_append]
          rcases List.mem_cons.mp h with heq | hr
          · cases heq
            exact Or.inl rfl
          · exact Or.inr (Or.inr (ih hr))

mutual

/-- What lies below a place lies below the node around it. -/
theorem placesBelow_subset {inner : List Node} (n : Node) (hq : q ∈ placesBelow top inner n) :
    placesBelow top (q.node :: q.inner) q.node ⊆ placesBelow top inner n := by
  obtain ⟨attributes, parent, children⟩ := n
  rw [placesBelow] at hq ⊢
  exact placesBelow_subset_placesAmong children hq

theorem placesBelow_subset_placesAmong {inner : List Node} (children : List Child)
    (hq : q ∈ placesAmong top inner children) :
    placesBelow top (q.node :: q.inner) q.node ⊆ placesAmong top inner children := by
  cases children with
  | nil => simp [placesAmong] at hq
  | cons c r =>
      cases c with
      | ref id =>
          rw [placesAmong] at hq ⊢
          exact placesBelow_subset_placesAmong r hq
      | inline node =>
          intro p hp
          rw [placesAmong, List.mem_cons, List.mem_append] at hq ⊢
          rcases hq with rfl | hq | hq
          · exact Or.inr (Or.inl hp)
          · exact Or.inr (Or.inl (placesBelow_subset node hq hp))
          · exact Or.inr (Or.inr (placesBelow_subset_placesAmong r hq hp))

end

/-- The places below a node are all those that it is the outermost node of. -/
theorem mem_places_iff {n : Node} : p ∈ n.places ↔ p.top = n ∧ p.Nested := by
  constructor
  · intro hp
    exact nested_of_mem_placesBelow n rfl (List.isChain_singleton n) hp
  · rintro ⟨rfl, hnested⟩
    obtain ⟨node, inner, top⟩ := p
    rw [Place.Nested, Place.around, List.isChain_cons] at hnested
    obtain ⟨houter, hchain⟩ := hnested
    -- From the outermost node inwards.
    induction inner generalizing node with
    | nil =>
        rw [places, placesBelow_eq]
        exact mem_placesAmong_of_mem (houter top rfl)
    | cons next rest ih =>
        rw [List.cons_append, List.isChain_cons] at hchain
        have hnext := ih next hchain.1 hchain.2
        refine placesBelow_subset top hnext ?_
        rw [placesBelow_eq]
        exact mem_placesAmong_of_mem (houter next rfl)

mutual

/-- The search below a node stops at the first place of the id. -/
theorem findInline?_eq_find? (top : Node) (inner : List Node) (id : String) (n : Node) :
    n.findInline? id =
      ((placesBelow top inner n).find? fun p => p.node.id = id).map Place.node := by
  obtain ⟨attributes, parent, children⟩ := n
  rw [findInline?, placesBelow]
  exact findInlineIn?_eq_find? top inner id children

theorem findInlineIn?_eq_find? (top : Node) (inner : List Node) (id : String)
    (children : List Child) :
    findInlineIn? id children =
      ((placesAmong top inner children).find? fun p => p.node.id = id).map Place.node := by
  cases children with
  | nil => rfl
  | cons c r =>
      have hrest := findInlineIn?_eq_find? top inner id r
      cases c with
      | ref other =>
          rw [findInlineIn?, placesAmong]
          exact hrest
      | inline node =>
          have hbelow := findInline?_eq_find? top (node :: inner) id node
          rw [findInlineIn?, placesAmong]
          by_cases hid : node.id = id
          · rw [if_pos hid, List.find?_cons_of_pos (by simpa using hid)]
            rfl
          · rw [if_neg hid, List.find?_cons_of_neg (by simpa using hid), List.find?_append,
              hbelow, hrest]
            cases (placesBelow top (node :: inner) node).find? fun p => p.node.id = id <;> rfl

end

end Node

/-! ### The places of a graph -/

namespace Graph

variable {g : Graph} {id : String} {p : Place} {c : Node}

/-- The places of a graph. -/
def places (g : Graph) : List Place := g.nodes.values.flatMap Node.places

/-- The first place of an id. -/
def place? (g : Graph) (id : String) : Option Place := g.places.find? fun p => p.node.id = id

/-- The places of a graph are those that lie, inline, in one of its nodes. -/
theorem mem_places_iff : p ∈ g.places ↔ p.top ∈ g.nodes.values ∧ p.Nested := by
  simp only [places, List.mem_flatMap, Node.mem_places_iff]
  constructor
  · rintro ⟨n, hn, rfl, hnested⟩
    exact ⟨hn, hnested⟩
  · rintro ⟨hn, hnested⟩
    exact ⟨p.top, hn, rfl, hnested⟩

/-- An id that no node has is looked for among the places. -/
theorem find?_eq_place? (hget : g.get? id = none) : g.find? id = (g.place? id).map Place.node := by
  rw [find?, hget, place?, places, List.find?_flatMap, List.map_findSome?]
  refine congrArg (g.nodes.values.findSome? ·) ?_
  funext n
  exact Node.findInline?_eq_find? n [] id n

/-- The first collection among the nodes of a graph in which there is a place of an id. -/
def outermost? (g : Graph) (id : String) : Option Node :=
  (g.places.find? fun p => decide (p.node.id = id) && p.top.isCollection).map Place.top

/-- In the places of one node, this is the node, if it is a collection and has a place of the id. -/
theorem map_top_find? (n : Node) (id : String) :
    (n.places.find? fun p => decide (p.node.id = id) && p.top.isCollection).map Place.top =
      if n.isCollection && (n.findInline? id).isSome then some n else none := by
  have htop : ∀ p ∈ n.places, p.top = n := by
    intro p hp
    exact (Node.mem_places_iff.mp hp).1
  rw [Node.findInline?_eq_find? n [] id n, Option.isSome_map, ← Node.places]
  generalize n.places = places at htop
  induction places with
  | nil => simp
  | cons p r ih =>
      have hp : p.top = n := htop p List.mem_cons_self
      have hr := ih fun q hq => htop q (List.mem_cons_of_mem p hq)
      by_cases hid : p.node.id = id
      · by_cases hcoll : n.isCollection = true
        · simp [hid, hp, hcoll]
        · rw [List.find?_cons_of_neg (by simp [hp, hcoll]), hr]
          simp [hcoll]
      · rw [List.find?_cons_of_neg (by simp [hid]), List.find?_cons_of_neg (by simp [hid]), hr]

/-- In a graph whose nodes stand under their ids, the collection that an inline node is said to
belong to is the outermost one. -/
theorem templateOwner?_eq_outermost? (hids : ∀ id node, g.get? id = some node → node.id = id)
    (hget : g.get? id = none) : g.templateOwner? id = g.outermost? id := by
  have hother : ∀ n ∈ g.nodes.values, n.id ≠ id := by
    rintro n hn rfl
    obtain ⟨name, hname⟩ := Dict.mem_values_iff.mp hn
    have hid : n.id = name := hids name n hname
    rw [hid] at hget
    have hsome : g.get? name = some n := hname
    rw [hget] at hsome
    cases hsome
  rw [templateOwner?, outermost?, places]
  generalize g.nodes.values = nodes at hother
  induction nodes with
  | nil => rfl
  | cons n r ih =>
      have hn : n.id ≠ id := hother n List.mem_cons_self
      have hr := ih fun m hm => hother m (List.mem_cons_of_mem n hm)
      have hasked : (decide (n.attributes.kind = .collection) &&
          (decide (n.id = id) || (n.findInline? id).isSome)) =
            (n.isCollection && (n.findInline? id).isSome) := by
        rw [decide_eq_false hn, Bool.false_or, Node.isCollection]
      rw [List.flatMap_cons, List.find?_append, Option.map_or, map_top_find?, ← hr]
      by_cases hfound : (n.isCollection && (n.findInline? id).isSome) = true
      · rw [List.find?_cons_of_pos (by simpa only [hasked] using hfound), if_pos hfound,
          Option.some_or]
      · rw [List.find?_cons_of_neg (by simpa only [hasked] using hfound), if_neg hfound,
          Option.none_or]

/-- If the first place of an id lies in a collection of the graph, this is the outermost one. -/
theorem outermost?_of_isCollection (hp : g.place? id = some p) (htop : p.top.isCollection = true) :
    g.outermost? id = some p.top := by
  obtain ⟨hid, before, after, hplaces, hbefore⟩ := List.find?_eq_some_iff_append.mp hp
  have hfirst : g.places.find? (fun p => decide (p.node.id = id) && p.top.isCollection) =
      some p := by
    refine List.find?_eq_some_iff_append.mpr ⟨by rw [hid, htop]; rfl, before, after, hplaces, ?_⟩
    intro q hq
    have hother := hbefore q hq
    rw [Bool.not_eq_true'] at hother ⊢
    rw [hother, Bool.false_and]
  rw [outermost?, hfirst, Option.map_some]

end Graph

/-- The nearest collection around a place is the node of the graph around it, if none of the inline
nodes between is a collection. -/
theorem Place.eq_top_of_collection? {p : Place} {c : Node} (hc : p.collection? = some c)
    (hinner : ∀ n ∈ p.inner, n.isCollection = false) : c = p.top ∧ p.top.isCollection = true := by
  have hnone : p.inner.find? Node.isCollection = none := by
    refine List.find?_eq_none.mpr fun n hn => ?_
    rw [hinner n hn]
    exact Bool.false_ne_true
  rw [collection?, around, List.find?_append, hnone, Option.none_or, List.find?_cons] at hc
  split at hc
  · next htop =>
      cases hc
      exact ⟨rfl, htop⟩
  · cases hc

end LiveScene
