import LiveScene.Proofs.Graph.Replay
import Mathlib.Logic.Relation

/-!
# LiveScene.Proofs.Graph.Subtree

What leaves a graph: one link, or a node with all below it.

* `LosesRef` is what an edit does to the children of a parent: the one reference to a child goes,
  and the order of the others stays, inline ones included.
* `Graph.InTree` goes down from a node by references. In a consistent graph this is the way up by
  parents, read backwards (`Consistent.inTree_iff`), so that the lemmas on walks apply.
* `Graph.Detached` and `Graph.TreeRemoved` say in full what a graph is after such an edit. Each
  names all nodes, so that nothing else can have changed.
-/

namespace LiveScene

/-- Children lose the one reference to an id that is among them. All others stay in their order. -/
def LosesRef (id : String) (children rest : List Child) : Prop :=
  ∃ before after, children = before ++ .ref id :: after ∧ rest = before ++ after ∧
    ∀ c ∈ rest, c.ref? ≠ some id

namespace Node

variable {n : Node} {id : String}

theorem ref?_ne_of_notMem_childRefs (h : id ∉ n.childRefs) :
    ∀ c ∈ n.children, c.ref? ≠ some id := by
  intro c hc href
  exact h (List.mem_filterMap.mpr ⟨c, hc, href⟩)

/-- A node without references to an id is the same without them. -/
theorem withoutRef_eq_self (h : id ∉ n.childRefs) : n.withoutRef id = n := by
  have hkept : n.children.filter (fun c => c.ref? ≠ some id) = n.children := by
    refine List.filter_eq_self.mpr fun c hc => ?_
    simpa using ref?_ne_of_notMem_childRefs h c hc
  rw [withoutRef, hkept]
  cases n
  rfl

/-- A node that refers to an id once loses that reference. -/
theorem losesRef_withoutRef (hnodup : n.childRefs.Nodup) (hmem : id ∈ n.childRefs) :
    LosesRef id n.children (n.withoutRef id).children := by
  obtain ⟨c, hc, href⟩ := List.mem_filterMap.mp hmem
  cases c with
  | inline node => cases href
  | ref other =>
      cases href
      obtain ⟨before, after, hsplit⟩ := List.append_of_mem hc
      have href : (Child.ref id).ref? = some id := rfl
      rw [childRefs, hsplit, List.filterMap_append, List.filterMap_cons_some href,
        List.nodup_middle, List.nodup_cons] at hnodup
      have hother : ∀ c ∈ before ++ after, c.ref? ≠ some id := by
        intro c hc href
        refine hnodup.1 ?_
        rw [← List.filterMap_append]
        exact List.mem_filterMap.mpr ⟨c, hc, href⟩
      have hkept : (before ++ after).filter (fun c => c.ref? ≠ some id) = before ++ after := by
        refine List.filter_eq_self.mpr fun c hc => ?_
        simpa using hother c hc
      refine ⟨before, after, hsplit, ?_, ?_⟩
      · rw [← hkept]
        simp [withoutRef, hsplit, Child.ref?]
      · intro c hc
        simpa using (List.mem_filter.mp hc).2

end Node

namespace Graph

/-- An id is another, or lies below it: that refers to it, or to what refers to it, and so on. -/
def InTree (g : Graph) (top id : String) : Prop :=
  Relation.ReflTransGen (fun p c => c ∈ g.refs p) top id

/-- A child is taken from its parent, and nothing else changes. -/
structure Detached (g g' : Graph) (p c : String) : Prop where
  parent : ∃ node rest, g.get? p = some node ∧ LosesRef c node.children rest ∧
    g'.get? p = some { node with children := rest }
  child : ∃ node, g.get? c = some node ∧ g'.get? c = some { node with parent := none }
  others : ∀ x, x ≠ p → x ≠ c → g'.get? x = g.get? x
  root : g'.root = g.root
  /-- What was below the child still is. -/
  tree : ∀ x, g'.InTree c x ↔ g.InTree c x

/-- A node is removed with all below it, and nothing else changes but its parent and the root. -/
structure TreeRemoved (g g' : Graph) (top : String) : Prop where
  contains_iff : ∀ x, g'.nodes.contains x = true ↔ g.nodes.contains x = true ∧ ¬ g.InTree top x
  parent : ∀ p, g.parent? top = some p → ∃ node rest, g.get? p = some node ∧
    LosesRef top node.children rest ∧ g'.get? p = some { node with children := rest }
  others : ∀ x, ¬ g.InTree top x → g.parent? top ≠ some x → g'.get? x = g.get? x
  /-- A root that is removed is no root any more, -/
  root_removed : ∀ r, g.root = some r → g.InTree top r → g'.root = none
  /-- and any other stays. -/
  root_kept : (∀ r, g.root = some r → ¬ g.InTree top r) → g'.root = g.root

variable {g : Graph} {p c top x : String}

namespace Consistent

/-! ### Trees -/

/-- What lies in a tree is that from which a walk upward meets its top. -/
theorem inTree_iff (h : g.Consistent) : g.InTree top x ↔ ∃ steps, g.climb steps x = some top := by
  constructor
  · intro htree
    induction htree with
    | refl => exact ⟨0, rfl⟩
    | tail _ href ih =>
        obtain ⟨steps, hs⟩ := ih
        refine ⟨steps + 1, ?_⟩
        rw [climb_succ, (h.mem_refs_iff _ _).mp href]
        exact hs
  · rintro ⟨steps, hs⟩
    induction steps generalizing x with
    | zero =>
        cases hs
        exact Relation.ReflTransGen.refl
    | succ steps ih =>
        rw [climb_succ] at hs
        obtain ⟨p, hp, hs⟩ := Option.bind_eq_some_iff.mp hs
        exact (ih hs).tail ((h.mem_refs_iff p x).mpr hp)

/-- The parent of a node does not lie in its tree. -/
theorem not_inTree_parent (h : g.Consistent) (hp : g.parent? c = some p) : ¬ g.InTree c p := by
  rw [h.inTree_iff]
  rintro ⟨steps, hs⟩
  exact h.climb_succ_ne_self steps c (by rw [climb_succ, hp]; exact hs)

theorem ne_parent (h : g.Consistent) (hp : g.parent? c = some p) : p ≠ c := by
  rintro rfl
  exact h.not_inTree_parent hp Relation.ReflTransGen.refl

/-- Detaching a node keeps the walks that end at it. -/
theorem climb_detach (h : g.Consistent) (steps : Nat) (x : String) :
    (g.detach top).climb steps x = some top ↔ g.climb steps x = some top := by
  induction steps generalizing x with
  | zero => rfl
  | succ steps ih =>
      rw [climb_succ, climb_succ, parent?_detach]
      by_cases hx : x = top
      · subst hx
        rw [if_pos rfl]
        exact iff_of_false (by simp) (h.climb_succ_ne_self steps x)
      · rw [if_neg hx]
        simp only [Option.bind_eq_some_iff, ih]

theorem inTree_detach (h : g.Consistent) (x : String) :
    (g.detach top).InTree top x ↔ g.InTree top x := by
  rw [h.inTree_iff, (h.detach top).inTree_iff]
  simp only [h.climb_detach]

/-! ### Detaching -/

theorem get?_detach (h : g.Consistent) (c x : String) :
    (g.detach c).get? x =
      if g.parent? c = some x then (g.get? x).map (·.withoutRef c)
      else if x = c then (g.get? x).map fun node => { node with parent := none }
      else g.get? x := by
  cases hp : g.parent? c with
  | none =>
      rw [Graph.detach, hp, if_neg (by simp)]
      by_cases hxc : x = c
      · subst hxc
        cases hx : g.get? x with
        | none => simp
        | some node =>
            have hroot : node.parent = none := (parent?_of_get? hx).symm.trans hp
            cases node
            cases hroot
            simp
      · simp [hxc]
  | some p =>
      rw [Graph.detach, hp]
      simp only [get?_modify, Option.some.injEq]
      by_cases hx : x = p
      · subst hx
        simp [h.ne_parent hp]
      · simp [hx, Ne.symm hx]

theorem detach_eq_self (hp : g.parent? c = none) : g.detach c = g := by
  rw [Graph.detach, hp]

theorem root_detach (g : Graph) (c : String) : (g.detach c).root = g.root := by
  unfold Graph.detach
  split <;> rfl

/-- A parent loses the reference to a child that is detached. -/
theorem losesRef_detach (h : g.Consistent) (hp : g.parent? c = some p) :
    ∃ node rest, g.get? p = some node ∧ LosesRef c node.children rest ∧
      (g.detach c).get? p = some { node with children := rest } := by
  obtain ⟨node, hnode⟩ := h.get?_of_parent hp
  have hnodup := h.nodup_refs p
  have hmem := (h.mem_refs_iff p c).mpr hp
  rw [refs_of_get? hnode] at hnodup hmem
  refine ⟨node, (node.withoutRef c).children, hnode, Node.losesRef_withoutRef hnodup hmem, ?_⟩
  rw [h.get?_detach, if_pos hp, hnode]
  rfl

theorem detached_detach (h : g.Consistent) (hp : g.parent? c = some p) :
    g.Detached (g.detach c) p c where
  parent := h.losesRef_detach hp
  child := by
    obtain ⟨node, hnode⟩ := get?_of_parent? hp
    refine ⟨node, hnode, ?_⟩
    have hne : ¬ g.parent? c = some c := fun hself => h.ne_parent hself rfl
    rw [h.get?_detach, if_neg hne, if_pos rfl, hnode]
    rfl
  others x hxp hxc := by
    have hne : ¬ g.parent? c = some x := by
      rw [hp, Option.some.injEq]
      exact Ne.symm hxp
    rw [h.get?_detach, if_neg hne, if_neg hxc]
  root := root_detach g c
  tree := h.inTree_detach

/-! ### Deleting -/

theorem treeRemoved_delete (h : g.Consistent) (hid : g.nodes.contains top = true) :
    g.TreeRemoved (g.delete top) top := by
  obtain ⟨removed, hdelete, hremoved⟩ := delete_eq_without h hid
  have hmem : ∀ x, x ∈ removed ↔ g.InTree top x := by
    intro x
    rw [hremoved, h.inTree_iff]
    simp only [h.climb_detach]
  have hget : ∀ x, (g.delete top).get? x =
      if x ∈ removed then none else (g.detach top).get? x := by
    intro x
    rw [hdelete, get?_without]
  have hroot : (g.delete top).root = if g.root.any removed.contains then none else g.root := by
    rw [hdelete, without, root_detach]
  constructor
  · intro x
    have hcontains : ((g.detach top).get? x).isSome = (g.get? x).isSome :=
      contains_detach g top x
    show ((g.delete top).get? x).isSome = true ↔ (g.get? x).isSome = true ∧ ¬ g.InTree top x
    rw [hget, ← hcontains, ← hmem]
    by_cases hx : x ∈ removed <;> simp [hx]
  · intro p hp
    obtain ⟨node, rest, hnode, hloses, hafter⟩ := h.losesRef_detach hp
    refine ⟨node, rest, hnode, hloses, ?_⟩
    rw [hget, if_neg (fun hx => h.not_inTree_parent hp ((hmem p).mp hx)), hafter]
  · intro x hx hp
    have hxtop : x ≠ top := by
      rintro rfl
      exact hx Relation.ReflTransGen.refl
    rw [hget, if_neg (fun hin => hx ((hmem x).mp hin)), h.get?_detach, if_neg hp, if_neg hxtop]
  · intro r hr hin
    rw [hroot, hr]
    simp [(hmem r).mpr hin]
  · intro hkept
    rw [hroot]
    cases hr : g.root with
    | none => rfl
    | some r =>
        have hnot : r ∉ removed := fun hin => hkept r hr ((hmem r).mp hin)
        simp [hnot]

end Consistent

end Graph

namespace Assembly

/-- An event deletes a node of a graph that events have built. It is removed with all that lies
below it; its parent loses the one reference to it, and a root that is removed is no root any more.
All else stays as it is. Without such a node nothing changes. -/
theorem deletes_tree {a : Assembly} (ha : a.graph.Built) (id : String) (animated : Bool)
    (durationMs : Option UInt64) :
    (a.graph.nodes.contains id = true →
        a.graph.TreeRemoved ((Event.deleteNode id animated durationMs).apply a).graph id) ∧
      (a.graph.nodes.contains id = false →
        (Event.deleteNode id animated durationMs).apply a = a) := by
  rw [Event.apply]
  constructor
  · intro hid
    exact ha.consistent.treeRemoved_delete hid
  · intro hid
    rw [Graph.delete, if_neg (by simp [hid])]

/-- A room with a sign of its own, a lamp, and a shelf with a book, which is the root. -/
def room : List Event :=
  [.createNode ⟨{ id := "room", kind := .container }, [⟨{ id := "sign", kind := .text }, []⟩]⟩,
   .createNode ⟨{ id := "shelf", kind := .container }, []⟩,
   .createNode ⟨{ id := "book", kind := .text }, []⟩,
   .createNode ⟨{ id := "lamp", kind := .text }, []⟩,
   .addChild "room" "shelf" (some 0),
   .addChild "room" "lamp" none,
   .addChild "shelf" "book" none,
   .setRoot "shelf"]

/-- What the events of the room build. -/
def furnished : Assembly := Event.applyAll room (new ⟨.new "scene", .idle, {}⟩)

theorem deletes_tree_furnished :
    furnished.graph.Built ∧ furnished.graph.nodes.contains "shelf" = true ∧
      ((Event.deleteNode "shelf" true none).apply furnished).graph.nodes.contains "book" = false ∧
      ((Event.deleteNode "shelf" true none).apply furnished).graph.root = none ∧
      ((Event.deleteNode "shelf" true none).apply furnished).graph.get? "lamp" =
        furnished.graph.get? "lamp" := by
  have hbuilt : furnished.graph.Built := ⟨_, room, rfl⟩
  have hid : furnished.graph.nodes.contains "shelf" = true := by decide
  have hremoved := (deletes_tree hbuilt "shelf" true none).1 hid
  have hbook : furnished.graph.InTree "shelf" "book" := Relation.ReflTransGen.single (by decide)
  have hlamp : ¬ furnished.graph.InTree "shelf" "lamp" :=
    ((hremoved.contains_iff "lamp").mp (by decide)).2
  refine ⟨hbuilt, hid, ?_, ?_, ?_⟩
  · rw [← Bool.not_eq_true, hremoved.contains_iff]
    exact fun hleft => hleft.2 hbook
  · exact hremoved.root_removed "shelf" (by decide) Relation.ReflTransGen.refl
  · exact hremoved.others "lamp" hlamp (by decide)

end Assembly

end LiveScene
