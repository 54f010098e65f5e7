import LiveScene.Proofs.Assembly.Flat
import LiveScene.Proofs.Graph.Replay

/-!
# LiveScene.Proofs.Graph.Recreation

A node that is created again, from what it was created from.

* What a node has of its own are its attributes and its inline children (`Node.own`). As long as it
  is there, only events that name it and rewrite it change that (`Event.own_applyAll`).
* So a second creation finds the attributes and the inline children that it brings, and keeps the
  links. What it may change is the order of the children: it puts the references in front
  (`Node.refsFirst`). Nothing changes just if none of them stood behind an inline child.
-/

namespace LiveScene

/-- What satisfies a condition can be put in front of the rest without a change just if none of it
stands behind what does not. -/
theorem filter_append_filter_not_eq_self_iff {α : Type} {p : α → Bool} {l : List α} :
    l.filter p ++ l.filter (fun a => !p a) = l ↔ l.Pairwise fun a b => p b = true → p a = true := by
  induction l with
  | nil => simp
  | cons a l ih =>
      rw [List.pairwise_cons]
      cases ha : p a with
      | true => simp [ha, ih]
      | false =>
          have hrest : (a :: l).filter p = l.filter p := List.filter_cons_of_neg (by simp [ha])
          have hfront : (a :: l).filter (fun b => !p b) = a :: l.filter fun b => !p b :=
            List.filter_cons_of_pos (by simp [ha])
          rw [hrest, hfront]
          constructor
          · intro heq
            have hnone : l.filter p = [] := by
              cases hfirst : l.filter p with
              | nil => rfl
              | cons b rest =>
                  -- The first of what was put in front would be the one that does not satisfy it.
                  have hb : b ∈ l.filter p := hfirst ▸ List.mem_cons_self
                  rw [hfirst, List.cons_append] at heq
                  rw [(List.cons.inj heq).1] at hb
                  exact absurd (List.mem_filter.mp hb).2 (by simp [ha])
            rw [hnone, List.nil_append, List.cons.injEq] at heq
            refine ⟨fun b hb hpb => absurd hpb (List.filter_eq_nil_iff.mp hnone b hb), ih.mp ?_⟩
            rw [hnone, List.nil_append]
            exact heq.2
          · rintro ⟨hbehind, hrest⟩
            have hnone : l.filter p = [] := by
              refine List.filter_eq_nil_iff.mpr fun b hb hpb => ?_
              exact absurd (hbehind b hb hpb) (by simp)
            have hl := ih.mpr hrest
            rw [hnone, List.nil_append] at hl ⊢
            rw [hl]

namespace Node

/-- A node with its references in front of its inline children. -/
def refsFirst (n : Node) : Node :=
  { n with children := n.children.filter Child.isRef ++ n.children.filter fun c => !c.isRef }

theorem refsFirst_eq_self_iff {n : Node} :
    n.refsFirst = n ↔ n.children.Pairwise fun c d => d.isRef = true → c.isRef = true := by
  rw [← filter_append_filter_not_eq_self_iff, refsFirst]
  cases n
  simp

end Node

namespace Graph

/-- What is left of a node that may be removed is the node. -/
theorem get?_prune (g : Graph) (limit : Nat) (ids : List String) (x : String) :
    (g.prune limit ids).get? x = none ∨ (g.prune limit ids).get? x = g.get? x := by
  induction limit generalizing g ids with
  | zero => exact Or.inr rfl
  | succ limit ih =>
      rw [prune]
      split
      · exact Or.inr rfl
      · rcases ih (g.without ids) ((ids.filterMap g.get?).flatMap Node.childRefs) with hnone | hsame
        · exact Or.inl hnone
        · rw [get?_without] at hsame
          split at hsame
          · exact Or.inl hsame
          · exact Or.inr hsame

end Graph

namespace Event

/-- Whether an event gives the node of an id other attributes, or creates it anew. -/
def rewrites (id : String) : Event → Bool
  | createNode spec => decide (spec.attributes.id = id)
  | updateStyle other .. => decide (other = id)
  | updateText other _ => decide (other = id)
  | _ => false

/-- An event that does not rewrite a node removes it, or leaves it what is its own. -/
theorem own_apply {e : Event} {id : String} (hbatch : e.isBatch = false)
    (hrewrites : e.rewrites id = false) (a : Assembly) :
    (e.apply a).graph.get? id = none ∨
      ((e.apply a).graph.get? id).map Node.own = (a.graph.get? id).map Node.own := by
  cases e with
  | batch events => exact absurd hbatch (by simp [isBatch])
  | createCell name type initial => exact Or.inr (by rw [apply])
  | updateCell name value animated durationMs =>
      exact Or.inr (by rw [apply, Assembly.graph_updateCell])
  | createNode spec =>
      have hne : ¬ id = spec.attributes.id := Ne.symm (of_decide_eq_false hrewrites)
      exact Or.inr (by rw [apply, Graph.get?_insert, if_neg hne])
  | addChild p c position => exact Or.inr (by rw [apply, Graph.get?_addChild_own])
  | removeChild p c =>
      refine Or.inr ?_
      rw [apply, Graph.removeChild]
      split
      · exact a.graph.get?_detach_own c id
      · rfl
  | updateStyle name style merge animated durationMs =>
      have hne : ¬ id = name := Ne.symm (of_decide_eq_false hrewrites)
      exact Or.inr (by rw [apply, Assembly.modifyAttributes, Graph.get?_modify, if_neg hne])
  | updateText name text =>
      have hne : ¬ id = name := Ne.symm (of_decide_eq_false hrewrites)
      exact Or.inr (by rw [apply, Assembly.modifyAttributes, Graph.get?_modify, if_neg hne])
  | deleteNode name animated durationMs =>
      rw [apply, Graph.delete]
      split
      · rcases (a.graph.detach name).get?_prune (a.graph.nodes.size + 1) [name] id with
          hnone | hsame
        · exact Or.inl hnone
        · exact Or.inr (by rw [hsame, Graph.get?_detach_own])
      · exact Or.inr rfl
  | setRoot name => exact Or.inr (by rw [apply]; rfl)

/-- So do events in order, unless one of them rewrites it. -/
theorem own_applyAll {id : String} {events : List Event}
    (hkept : ∀ e ∈ flattenAll events, e.rewrites id = false) (a : Assembly) :
    (applyAll events a).graph.get? id = none ∨
      ((applyAll events a).graph.get? id).map Node.own = (a.graph.get? id).map Node.own := by
  have hflat := isBatch_of_mem_flattenAll events
  rw [← applyAll_flattenAll]
  generalize flattenAll events = flat at hkept hflat
  induction flat generalizing a with
  | nil => exact Or.inr (by rw [applyAll])
  | cons e r ih =>
      rw [applyAll]
      have hrest := ih (e.apply a) (fun d hd => hkept d (List.mem_cons_of_mem e hd))
        (fun d hd => hflat d (List.mem_cons_of_mem e hd))
      rcases hrest with hnone | hsame
      · exact Or.inl hnone
      · rcases own_apply (hflat e List.mem_cons_self) (hkept e List.mem_cons_self) a with
          hnone | hfirst
        · rw [hnone] at hsame
          exact Or.inl (by simpa using hsame)
        · exact Or.inr (hsame.trans hfirst)

end Event

/-! ### Creating again -/

theorem Graph.own_recreated (g : Graph) (spec : NodeSpec) :
    (g.recreated spec).own = (spec.toNode none).own := by
  have hrefs : ∀ children : List Child,
      (children.filter Child.isRef).filter (fun c => !c.isRef) = [] := by
    intro children
    rw [List.filter_filter]
    simp
  rw [Node.own, Node.own, Graph.recreated, List.filter_append]
  cases g.get? spec.attributes.id with
  | none => rfl
  | some old => simp [hrefs]

theorem Graph.own_toNode (spec : NodeSpec) :
    (spec.toNode none).own = ((spec.toNode none).attributes, (spec.toNode none).children) := by
  have hnone : ∀ c ∈ (spec.toNode none).children, c.ref? = none :=
    List.filterMap_eq_nil_iff.mp (childRefs_toNode none spec)
  have hall : (spec.toNode none).children.filter (fun c => !c.isRef) =
      (spec.toNode none).children := by
    refine List.filter_eq_self.mpr fun c hc => ?_
    simp [Child.isRef, hnone c hc]
  rw [Node.own, hall]

/-- A second creation finds what it brings, and puts the references in front. -/
theorem Graph.recreated_eq_refsFirst {g : Graph} {spec : NodeSpec} {node : Node}
    (hnode : g.get? spec.attributes.id = some node) (hown : node.own = (spec.toNode none).own) :
    g.recreated spec = node.refsFirst := by
  rw [own_toNode, Node.own, Prod.mk.injEq] at hown
  rw [recreated, Node.refsFirst, parent?_of_get? hnode, hnode, Option.elim_some, hown.2]
  cases node
  cases hown.1
  rfl

theorem Graph.get?_recreate {g : Graph} {spec : NodeSpec} {node : Node}
    (hnode : g.get? spec.attributes.id = some node) (hown : node.own = (spec.toNode none).own)
    (x : String) :
    (g.insert spec).get? x = if x = spec.attributes.id then some node.refsFirst else g.get? x := by
  rw [get?_insert, recreated_eq_refsFirst hnode hown]

/-- It changes nothing just if they were in front already. -/
theorem Graph.insert_eq_self_iff {g : Graph} {spec : NodeSpec} {node : Node}
    (hnode : g.get? spec.attributes.id = some node) (hown : node.own = (spec.toNode none).own) :
    g.insert spec = g ↔ node.refsFirst = node := by
  have hget := get?_recreate hnode hown
  constructor
  · intro hsame
    have hid := hget spec.attributes.id
    rw [hsame, hnode, if_pos rfl, Option.some.injEq] at hid
    exact hid.symm
  · intro hsame
    refine ext_get? (fun x => ?_) rfl
    rw [hget]
    split
    · next hx => rw [hsame, hx, hnode]
    · rfl

namespace Assembly

/-- What no event since has rewritten is what the creation brought. -/
theorem own_of_not_rewritten {a : Assembly} {spec : NodeSpec} {events : List Event}
    (hkept : ∀ e ∈ Event.flattenAll events, e.rewrites spec.attributes.id = false) {node : Node}
    (hnode : (Event.applyAll events ((Event.createNode spec).apply a)).graph.get?
      spec.attributes.id = some node) : node.own = (spec.toNode none).own := by
  have hcreated : ((Event.createNode spec).apply a).graph.get? spec.attributes.id =
      some (a.graph.recreated spec) := by
    rw [Event.apply, Graph.get?_insert, if_pos rfl]
  rcases Event.own_applyAll hkept ((Event.createNode spec).apply a) with hnone | hsame
  · rw [hnode] at hnone
    cases hnone
  · rw [hnode, hcreated, Option.map_some, Option.map_some, Graph.own_recreated] at hsame
    exact Option.some.inj hsame

/-- A node is created, and no later event rewrites it. If it is still there and is created again, it
comes to have its references in front of its inline children, both in the order that they had; all
else stays as it is. So the graph does not change just if no reference stood behind an inline
child. -/
theorem recreates (a : Assembly) (spec : NodeSpec) {events : List Event}
    (hkept : ∀ e ∈ Event.flattenAll events, e.rewrites spec.attributes.id = false) {node : Node}
    (hnode : (Event.applyAll events ((Event.createNode spec).apply a)).graph.get?
      spec.attributes.id = some node) :
    let built := Event.applyAll events ((Event.createNode spec).apply a)
    let again := (Event.createNode spec).apply built
    again.graph.get? spec.attributes.id = some node.refsFirst ∧
      (∀ x, x ≠ spec.attributes.id → again.graph.get? x = built.graph.get? x) ∧
      again.graph.root = built.graph.root ∧
      (again.graph = built.graph ↔
        node.children.Pairwise fun c d => d.isRef = true → c.isRef = true) := by
  intro built again
  have hown := own_of_not_rewritten hkept hnode
  have hagain : again.graph = built.graph.insert spec := by
    show ((Event.createNode spec).apply built).graph = _
    rw [Event.apply]
  have hget := Graph.get?_recreate hnode hown
  rw [hagain]
  refine ⟨?_, ?_, rfl, ?_⟩
  · rw [hget, if_pos rfl]
  · intro x hx
    rw [hget, if_neg hx]
  · rw [Graph.insert_eq_self_iff hnode hown, Node.refsFirst_eq_self_iff]

/-- A shelf with a label of its own. -/
def labelled : NodeSpec :=
  ⟨{ id := "shelf", kind := .container }, [⟨{ id := "label", kind := .text }, []⟩]⟩

/-- A book is put on the shelf. -/
def shelve (position : Option UInt64) : List Event :=
  [.createNode ⟨{ id := "book", kind := .text }, []⟩, .addChild "shelf" "book" position]

/-- The shelf with the book. -/
def shelved (position : Option UInt64) : Assembly :=
  Event.applyAll (shelve position)
    ((Event.createNode labelled).apply (new ⟨.new "scene", .idle, {}⟩))

/-- In front of the label the book may stay. -/
theorem recreates_shelved :
    (∀ e ∈ Event.flattenAll (shelve (some 0)), e.rewrites "shelf" = false) ∧
      ((shelved (some 0)).graph.get? "shelf").isSome = true ∧
      ((Event.createNode labelled).apply (shelved (some 0))).graph = (shelved (some 0)).graph := by
  have hkept : ∀ e ∈ Event.flattenAll (shelve (some 0)), e.rewrites "shelf" = false := by
    simp [shelve, Event.flattenAll, Event.flatten, Event.rewrites]
  have hkinds : ((shelved (some 0)).graph.get? "shelf").map
      (fun node => node.children.map Child.isRef) = some [true, false] := by decide
  obtain ⟨node, hnode, hchildren⟩ := Option.map_eq_some_iff.mp hkinds
  have horder : (node.children.map Child.isRef).Pairwise fun p q => q = true → p = true := by
    rw [hchildren]
    decide
  refine ⟨hkept, by rw [hnode]; rfl, ?_⟩
  exact (recreates _ labelled hkept hnode).2.2.2.mpr (List.pairwise_map.mp horder)

/-- Behind the label it may not: no event rewrites the shelf, and to create it again changes the
graph. -/
theorem recreation_moves_book :
    (shelved none).graph.Built ∧
      (∀ e ∈ Event.flattenAll (shelve none), e.rewrites "shelf" = false) ∧
      ((shelved none).graph.get? "shelf").map (fun node => node.children.map Child.isRef) =
        some [false, true] ∧
      ((Event.createNode labelled).apply (shelved none)).graph ≠ (shelved none).graph := by
  have hkinds : ((shelved none).graph.get? "shelf").map
      (fun node => node.children.map Child.isRef) = some [false, true] := by decide
  refine ⟨⟨⟨.new "scene", .idle, {}⟩, .createNode labelled :: shelve none, ?_⟩, ?_, hkinds, ?_⟩
  · rw [Event.applyAll]
    rfl
  · simp [shelve, Event.flattenAll, Event.flatten, Event.rewrites]
  · intro hsame
    have hmoved : (((Event.createNode labelled).apply (shelved none)).graph.get? "shelf").map
        (fun node => node.children.map Child.isRef) = some [true, false] := by decide
    rw [hsame, hkinds] at hmoved
    exact absurd hmoved (by decide)

end Assembly

end LiveScene
