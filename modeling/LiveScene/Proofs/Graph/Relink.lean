import LiveScene.Proofs.Graph.Subtree

/-!
# LiveScene.Proofs.Graph.Relink

What additions and removals of children do.

* `Graph.Refuses` are the additions that would name a missing node or close a circle. They change
  nothing.
* `Graph.Linked` says in full what a graph is after any other: the reference goes out of the
  children of the parent, if it was among them, before the position is counted in what is left.
* An addition that is not refused may still find the reference at the place where it would put it
  (`Graph.Lists`). Then it puts it there again.
-/

namespace LiveScene

/-- Children gain a reference in front of the one at a position, or at the end. -/
def GainsRef (id : String) (position : Option Nat) (rest children : List Child) : Prop :=
  ∃ before after, rest = before ++ after ∧ children = before ++ .ref id :: after ∧
    before.length = min (position.getD rest.length) rest.length

/-- There is one place for the reference. -/
theorem gainsRef_iff {id : String} {position : Option Nat} {rest children : List Child} :
    GainsRef id position rest children ↔ children = Graph.insertAt rest position (.ref id) := by
  unfold Graph.insertAt
  constructor
  · rintro ⟨before, after, hrest, rfl, hlength⟩
    dsimp only
    rw [← hlength, hrest, List.take_left, List.drop_left]
  · intro hchildren
    refine ⟨_, _, (List.take_append_drop _ _).symm, hchildren, ?_⟩
    rw [List.length_take]
    omega

/-- A reference that is put among the others and taken out again leaves them as they were. -/
theorem Node.withoutRef_insertAt (n : Node) (id : String) (position : Option Nat) :
    ({ n with children := Graph.insertAt (n.withoutRef id).children position (.ref id) } :
      Node).withoutRef id = n.withoutRef id := by
  obtain ⟨before, after, hrest, hchildren, -⟩ :=
    gainsRef_iff.mpr (Eq.refl (Graph.insertAt (n.withoutRef id).children position (.ref id)))
  have hkept : before.filter (fun d => d.ref? ≠ some id) ++
      after.filter (fun d => d.ref? ≠ some id) = before ++ after := by
    rw [← List.filter_append, ← hrest, withoutRef, List.filter_filter]
    simp
  rw [hchildren, withoutRef, List.filter_append, List.filter_cons_of_neg (by simp [Child.ref?]),
    hkept, ← hrest]
  rfl

namespace Graph

/-- An addition is refused: the parent or the child is unknown, or the parent is the child or lies
below it. -/
def Refuses (g : Graph) (p c : String) : Prop :=
  g.get? p = none ∨ g.get? c = none ∨ g.InTree c p

/-- A node lists a child at the place that a position stands for among the others. -/
def Lists (g : Graph) (p c : String) (position : Option Nat) : Prop :=
  ∃ node, g.get? p = some node ∧
    GainsRef c position (node.children.filter fun d => d.ref? ≠ some c) node.children

/-- A node becomes the child of another, at a position, and nothing else changes. -/
structure Linked (g g' : Graph) (p c : String) (position : Option Nat) : Prop where
  parent : ∃ node children, g.get? p = some node ∧
    GainsRef c position (node.children.filter fun d => d.ref? ≠ some c) children ∧
    g'.get? p = some { node with children := children }
  child : ∃ node, g.get? c = some node ∧ g'.get? c = some { node with parent := some p }
  /-- The parent that it had before loses the reference to it. -/
  former : ∀ q, g.parent? c = some q → q ≠ p → ∃ node rest, g.get? q = some node ∧
    LosesRef c node.children rest ∧ g'.get? q = some { node with children := rest }
  others : ∀ x, x ≠ p → x ≠ c → g.parent? c ≠ some x → g'.get? x = g.get? x
  root : g'.root = g.root

variable {g : Graph} {p c : String}

theorem contains_eq_true_iff_ne_none {x : String} :
    g.nodes.contains x = true ↔ g.get? x ≠ none :=
  Option.isSome_iff_ne_none

namespace Consistent

theorem canAdd_iff (h : g.Consistent) : g.CanAdd p c ↔ ¬ g.Refuses p c := by
  rw [CanAdd, Refuses, contains_eq_true_iff_ne_none, contains_eq_true_iff_ne_none,
    ← Bool.not_eq_true, h.isAncestor_iff, ← h.inTree_iff]
  tauto

theorem addChild_of_refuses (h : g.Consistent) (hrefuses : g.Refuses p c)
    (position : Option Nat) : g.addChild p c position = g := by
  rcases addChild_cases g p c position with ⟨hsame, -⟩ | ⟨hadd, -⟩
  · exact hsame
  · exact absurd hrefuses (h.canAdd_iff.mp hadd)

theorem ne_of_canAdd (h : g.Consistent) (hadd : g.CanAdd p c) : p ≠ c := by
  rintro rfl
  exact h.canAdd_iff.mp hadd (Or.inr (Or.inr Relation.ReflTransGen.refl))

/-! ### Adding -/

/-- The children of a node without a reference, whether it was detached or never there. -/
theorem map_children_detach (h : g.Consistent) (hne : p ≠ c) :
    (g.detach c).get? p = (g.get? p).map (·.withoutRef c) := by
  rw [h.get?_detach, if_neg hne]
  split
  · rfl
  · next hp =>
      cases hnode : g.get? p with
      | none => rfl
      | some node =>
          have hnot : c ∉ node.childRefs := by
            rw [← refs_of_get? hnode, h.mem_refs_iff]
            exact hp
          rw [Option.map_some, Node.withoutRef_eq_self hnot]

theorem get?_addChild (h : g.Consistent) (hadd : g.CanAdd p c) (position : Option Nat)
    (x : String) :
    (g.addChild p c position).get? x =
      if x = c then (g.get? x).map fun node => { node with parent := some p }
      else if x = p then (g.get? x).map fun node =>
        { node with children := insertAt (node.withoutRef c).children position (.ref c) }
      else (g.detach c).get? x := by
  have hne := h.ne_of_canAdd hadd
  rcases addChild_cases g p c position with ⟨-, hno⟩ | ⟨-, heq⟩
  · exact absurd hadd hno
  · rw [heq, get?_modify, get?_modify]
    by_cases hxc : x = c
    · subst hxc
      have hself : ¬ g.parent? x = some x := fun hp => h.ne_parent hp rfl
      rw [if_pos rfl, if_pos rfl, if_neg (Ne.symm hne), h.get?_detach, if_neg hself, if_pos rfl]
      cases g.get? x <;> rfl
    · rw [if_neg hxc, if_neg hxc]
      split
      · next hxp =>
          subst hxp
          rw [h.map_children_detach hne]
          cases g.get? x <;> rfl
      · rfl

theorem root_addChild (g : Graph) (p c : String) (position : Option Nat) :
    (g.addChild p c position).root = g.root := by
  rcases addChild_cases g p c position with ⟨heq, -⟩ | ⟨-, heq⟩
  · rw [heq]
  · rw [heq]
    exact root_detach g c

theorem linked_addChild (h : g.Consistent) (hadd : g.CanAdd p c) (position : Option Nat) :
    g.Linked (g.addChild p c position) p c position := by
  have hne := h.ne_of_canAdd hadd
  have hget := h.get?_addChild hadd position
  obtain ⟨hp, hc, -⟩ := hadd
  obtain ⟨parent, hparent⟩ := Dict.contains_eq_true_iff.mp hp
  obtain ⟨child, hchild⟩ := Dict.contains_eq_true_iff.mp hc
  rw [← get?] at hparent hchild
  constructor
  · refine ⟨parent, _, hparent, gainsRef_iff.mpr rfl, ?_⟩
    rw [hget, if_neg hne, if_pos rfl, hparent]
    rfl
  · refine ⟨child, hchild, ?_⟩
    rw [hget, if_pos rfl, hchild]
    rfl
  · intro q hq hqp
    obtain ⟨node, rest, hnode, hloses, hafter⟩ := h.losesRef_detach hq
    refine ⟨node, rest, hnode, hloses, ?_⟩
    rw [hget, if_neg (h.ne_parent hq), if_neg hqp, hafter]
  · intro x hxp hxc hq
    rw [hget, if_neg hxc, if_neg hxp, h.get?_detach, if_neg hq, if_neg hxc]
  · exact root_addChild g p c position

/-- An addition that is not refused changes nothing just if it finds the reference in its place. -/
theorem addChild_eq_self_iff (h : g.Consistent) (hadd : g.CanAdd p c) (position : Option Nat) :
    g.addChild p c position = g ↔ g.Lists p c position := by
  obtain ⟨⟨node, children, hnode, hgains, hafter⟩, ⟨child, hchild, hchild'⟩, -, hothers, hroot⟩ :=
    h.linked_addChild hadd position
  constructor
  · intro hsame
    have hchildren : node.children = children := by
      rw [hsame, hnode, Option.some.injEq] at hafter
      exact congrArg Node.children hafter
    exact ⟨node, hnode, hchildren ▸ hgains⟩
  · rintro ⟨other, hother, hlisted⟩
    rw [hnode, Option.some.injEq] at hother
    subst hother
    have hchildren : children = node.children :=
      (gainsRef_iff.mp hgains).trans (gainsRef_iff.mp hlisted).symm
    -- It lists the child, so that it is the parent already.
    have hp : g.parent? c = some p := by
      obtain ⟨before, after, -, hsplit, -⟩ := hlisted
      rw [← h.mem_refs_iff, refs_of_get? hnode, Node.childRefs, hsplit]
      simp [Child.ref?]
    have hparent : child.parent = some p := (parent?_of_get? hchild).symm.trans hp
    refine ext_get? (fun x => ?_) hroot
    by_cases hxp : x = p
    · rw [hxp, hafter, hnode, hchildren]
      cases node
      rfl
    · by_cases hxc : x = c
      · rw [hxc, hchild', hchild, ← hparent]
        cases child
        rfl
      · refine hothers x hxp hxc ?_
        rw [hp]
        exact fun hx => hxp (Option.some.inj hx).symm

/-! ### Removing -/

/-- A removal takes an addition back, up to the link that the child had before. -/
theorem removeChild_addChild (h : g.Consistent) (hadd : g.CanAdd p c) (position : Option Nat) :
    (g.addChild p c position).removeChild p c = g.detach c := by
  have hadded := h.addChild p c position
  have hparent : (g.addChild p c position).parent? c = some p := by
    rw [parent?_addChild position hadd, if_pos rfl]
  have hne := h.ne_of_canAdd hadd
  rw [Graph.removeChild, if_pos hparent]
  refine ext_get? (fun x => ?_) ?_
  · rw [hadded.get?_detach, hparent, h.get?_addChild hadd]
    simp only [Option.some.injEq]
    by_cases hxp : x = p
    · subst hxp
      rw [if_pos rfl, if_neg hne, if_pos rfl, h.map_children_detach hne]
      cases g.get? x with
      | none => rfl
      | some node => exact congrArg some (node.withoutRef_insertAt c position)
    · rw [if_neg (Ne.symm hxp)]
      by_cases hxc : x = c
      · subst hxc
        have hself : ¬ g.parent? x = some x := fun hp => h.ne_parent hp rfl
        rw [if_pos rfl, if_pos rfl, h.get?_detach, if_neg hself, if_pos rfl]
        cases g.get? x <;> rfl
      · rw [if_neg hxc, if_neg hxc, if_neg hxp]
  · rw [root_detach, root_addChild, root_detach]

end Consistent

end Graph

namespace Assembly

/-- Events link nodes of a graph that events have built. An addition is refused, and changes
nothing, or it links the child to the parent and changes nothing else; what is not refused leaves
the graph as it is only if it finds the reference in its place. A removal takes the child from its
parent if that is the one named, and else changes nothing. So it takes back the addition of a child
that had no parent. -/
theorem edits_links {a : Assembly} (ha : a.graph.Built) (p c : String)
    (position : Option UInt64) :
    (a.graph.Refuses p c → (Event.addChild p c position).apply a = a) ∧
      (¬ a.graph.Refuses p c → a.graph.Linked ((Event.addChild p c position).apply a).graph p c
        (position.map UInt64.toNat)) ∧
      (((Event.addChild p c position).apply a).graph = a.graph ↔
        a.graph.Refuses p c ∨ a.graph.Lists p c (position.map UInt64.toNat)) ∧
      (a.graph.parent? c = some p →
        a.graph.Detached ((Event.removeChild p c).apply a).graph p c) ∧
      (a.graph.parent? c ≠ some p → (Event.removeChild p c).apply a = a) ∧
      (a.graph.parent? c = none →
        ((Event.removeChild p c).apply ((Event.addChild p c position).apply a)).graph =
          a.graph) := by
  have h := ha.consistent
  simp only [Event.apply]
  refine ⟨?_, ?_, ?_, ?_, ?_, ?_⟩
  · intro hrefuses
    rw [h.addChild_of_refuses hrefuses]
  · intro hadd
    exact h.linked_addChild (h.canAdd_iff.mpr hadd) _
  · by_cases hrefuses : a.graph.Refuses p c
    · exact iff_of_true (h.addChild_of_refuses hrefuses _) (Or.inl hrefuses)
    · rw [h.addChild_eq_self_iff (h.canAdd_iff.mpr hrefuses), or_iff_right hrefuses]
  · intro hp
    rw [Graph.removeChild, if_pos hp]
    exact h.detached_detach hp
  · intro hp
    rw [Graph.removeChild, if_neg hp]
  · intro hnone
    by_cases hrefuses : a.graph.Refuses p c
    · rw [h.addChild_of_refuses hrefuses, Graph.removeChild, if_neg (by simp [hnone])]
    · rw [h.removeChild_addChild (h.canAdd_iff.mpr hrefuses),
        Graph.Consistent.detach_eq_self hnone]

/-- The lamp is put on the shelf, in front of the book. -/
theorem edits_links_furnished :
    furnished.graph.Built ∧ ¬ furnished.graph.Refuses "shelf" "lamp" ∧
      furnished.graph.Linked ((Event.addChild "shelf" "lamp" (some 0)).apply furnished).graph
        "shelf" "lamp" (some 0) ∧
      ((Event.addChild "shelf" "lamp" (some 0)).apply furnished).graph.refs "shelf" =
        ["lamp", "book"] ∧
      (Event.addChild "book" "room" none).apply furnished = furnished := by
  have hbuilt : furnished.graph.Built := ⟨_, room, rfl⟩
  have hfree : ¬ furnished.graph.Refuses "shelf" "lamp" :=
    hbuilt.consistent.canAdd_iff.mp ⟨by decide, by decide, by decide⟩
  have hcircle : furnished.graph.Refuses "book" "room" := by
    by_contra hno
    have hadd := hbuilt.consistent.canAdd_iff.mpr hno
    exact absurd hadd.2.2 (by decide)
  exact ⟨hbuilt, hfree, (edits_links hbuilt "shelf" "lamp" (some 0)).2.1 hfree, by decide,
    (edits_links hbuilt "book" "room" none).1 hcircle⟩

end Assembly

end LiveScene
