import LiveScene.Node.Graph

/-!
# LiveScene.Proofs.Graph.Links

The links of a graph as two functions, and what each edit makes of them.

* `Graph.refs` is the side that parents keep, `Graph.parent?` the one that children keep.
  Statements about links read a graph through these two and `Graph.get?` only.
* `Graph.climb` follows parents a number of steps. It is the walk upward without a bound;
  `Graph.lineage` is its beginning.
-/

namespace LiveScene

namespace Node

theorem childRefs_withoutRef (n : Node) (id : String) :
    (n.withoutRef id).childRefs = n.childRefs.filter fun c => c ≠ id := by
  unfold childRefs withoutRef
  induction n.children with
  | nil => rfl
  | cons c r ih =>
      cases c with
      | ref other =>
          by_cases h : other = id
          · simpa [List.filter_cons, List.filterMap_cons, Child.ref?, h] using ih
          · simpa [List.filter_cons, List.filterMap_cons, Child.ref?, h] using ih
      | inline node => simpa [List.filter_cons, List.filterMap_cons, Child.ref?] using ih

/-- What a node has of its own, whatever it is linked to: its attributes and its inline children. -/
def own (n : Node) : Attributes × List Child :=
  (n.attributes, n.children.filter fun c => !c.isRef)

@[simp] theorem own_withoutRef (n : Node) (id : String) : (n.withoutRef id).own = n.own := by
  -- What is left out is a reference, so it is no inline child.
  have hrest : ∀ c : Child, (!c.isRef && decide (c.ref? ≠ some id)) = !c.isRef := by
    intro c
    cases c <;> simp [Child.isRef, Child.ref?]
  simp only [own, withoutRef, List.filter_filter, hrest]

end Node

namespace Graph

/-- The ids that a node refers to; none if there is no such node. -/
def refs (g : Graph) (id : String) : List String := (g.get? id).elim [] Node.childRefs

/-- The id that lies a number of steps above another. -/
def climb (g : Graph) : (steps : Nat) → String → Option String
  | 0, id => some id
  | steps + 1, id => (g.parent? id).bind (g.climb steps)

/-- Graphs with the same nodes and the same root are equal. -/
theorem ext_get? {g g' : Graph} (hget : ∀ x, g.get? x = g'.get? x) (hroot : g.root = g'.root) :
    g = g' := by
  obtain ⟨nodes, root⟩ := g
  obtain ⟨nodes', root'⟩ := g'
  have hnodes : nodes = nodes' := Dict.ext_get? hget
  cases hnodes
  cases hroot
  rfl

variable {g : Graph}

theorem refs_of_get? {id : String} {node : Node} (h : g.get? id = some node) :
    g.refs id = node.childRefs := by
  rw [refs, h, Option.elim_some]

theorem refs_of_get?_none {id : String} (h : g.get? id = none) : g.refs id = [] := by
  rw [refs, h, Option.elim_none]

theorem parent?_of_get? {id : String} {node : Node} (h : g.get? id = some node) :
    g.parent? id = node.parent := by
  rw [parent?, h, Option.bind_some]

theorem parent?_of_get?_none {id : String} (h : g.get? id = none) : g.parent? id = none := by
  rw [parent?, h, Option.bind_none]

theorem mem_refs_iff {p c : String} :
    c ∈ g.refs p ↔ ∃ node, g.get? p = some node ∧ c ∈ node.childRefs := by
  rw [refs]
  cases g.get? p <;> simp

theorem parent?_eq_some_iff {p c : String} :
    g.parent? c = some p ↔ ∃ node, g.get? c = some node ∧ node.parent = some p :=
  Option.bind_eq_some_iff

theorem get?_of_mem_refs {id c : String} (h : c ∈ g.refs id) : ∃ node, g.get? id = some node := by
  obtain ⟨node, hnode, -⟩ := mem_refs_iff.mp h
  exact ⟨node, hnode⟩

theorem get?_of_parent? {id p : String} (h : g.parent? id = some p) :
    ∃ node, g.get? id = some node := by
  obtain ⟨node, hnode, -⟩ := parent?_eq_some_iff.mp h
  exact ⟨node, hnode⟩

/-! ### The walk upward -/

@[simp] theorem climb_zero (g : Graph) (id : String) : g.climb 0 id = some id := rfl

theorem climb_succ (g : Graph) (steps : Nat) (id : String) :
    g.climb (steps + 1) id = (g.parent? id).bind (g.climb steps) := rfl

/-- A step to the parent may as well be the last one. -/
theorem climb_succ_last (g : Graph) (steps : Nat) (id : String) :
    g.climb (steps + 1) id = (g.climb steps id).bind g.parent? := by
  induction steps generalizing id with
  | zero => cases h : g.parent? id <;> simp [climb, h]
  | succ steps ih =>
      rw [climb_succ, climb_succ]
      cases h : g.parent? id with
      | none => rfl
      | some p => exact ih p

theorem climb_add (g : Graph) (m n : Nat) (id : String) :
    g.climb (m + n) id = (g.climb m id).bind (g.climb n) := by
  induction m generalizing id with
  | zero => rw [Nat.zero_add]; rfl
  | succ m ih =>
      rw [Nat.succ_add, climb_succ, climb_succ]
      cases h : g.parent? id with
      | none => rfl
      | some p => exact ih p

/-- The walk upward meets what its bounded beginning lists. -/
theorem mem_lineage {limit : Nat} {id a : String} :
    a ∈ g.lineage limit id ↔ ∃ steps < limit, g.climb steps id = some a := by
  induction limit generalizing id with
  | zero => simp [lineage]
  | succ limit ih =>
      rw [lineage, List.mem_cons]
      constructor
      · rintro (rfl | h)
        · exact ⟨0, Nat.succ_pos _, rfl⟩
        · cases hp : g.parent? id with
          | none => simp [hp] at h
          | some p =>
              rw [hp] at h
              obtain ⟨steps, hlt, hc⟩ := ih.mp h
              exact ⟨steps + 1, Nat.succ_lt_succ hlt, by rw [climb_succ, hp]; exact hc⟩
      · rintro ⟨steps, hlt, hc⟩
        cases steps with
        | zero => exact Or.inl (Option.some.inj hc).symm
        | succ steps =>
            rw [climb_succ] at hc
            cases hp : g.parent? id with
            | none => simp [hp] at hc
            | some p =>
                rw [hp] at hc
                exact Or.inr (ih.mpr ⟨steps, Nat.lt_of_succ_lt_succ hlt, hc⟩)

/-- Walks survive an edit that does so with all parents. -/
theorem climb_mono {g' : Graph} (h : ∀ c p, g.parent? c = some p → g'.parent? c = some p)
    {steps : Nat} {id a : String} (hc : g.climb steps id = some a) :
    g'.climb steps id = some a := by
  induction steps generalizing id with
  | zero => exact hc
  | succ steps ih =>
      rw [climb_succ] at hc
      obtain ⟨p, hp, hc⟩ := Option.bind_eq_some_iff.mp hc
      rw [climb_succ, h id p hp]
      exact ih hc

/-! ### Changes of one node -/

theorem get?_modify (g : Graph) (id other : String) (f : Node → Node) :
    (g.modify id f).get? other = if other = id then (g.get? other).map f else g.get? other :=
  Dict.get?_modify g.nodes id other f

/-- A change that keeps the parent of every node keeps all parents. -/
theorem parent?_modify (g : Graph) (id other : String) {f : Node → Node}
    (hf : ∀ node, (f node).parent = node.parent) :
    (g.modify id f).parent? other = g.parent? other := by
  rw [parent?, parent?, get?_modify]
  split
  · cases g.get? other with
    | none => rfl
    | some node => exact hf node
  · rfl

/-- A change that keeps the references of every node keeps all references. -/
theorem refs_modify (g : Graph) (id other : String) {f : Node → Node}
    (hf : ∀ node, (f node).childRefs = node.childRefs) :
    (g.modify id f).refs other = g.refs other := by
  rw [refs, refs, get?_modify]
  split
  · cases g.get? other with
    | none => rfl
    | some node => exact hf node
  · rfl

theorem parent?_modify_parent (g : Graph) (id other : String) (p : Option String) :
    (g.modify id fun node => { node with parent := p }).parent? other =
      if other = id then (g.get? other).bind fun _ => p else g.parent? other := by
  rw [parent?, get?_modify]
  split
  · cases g.get? other <;> rfl
  · rfl

theorem refs_modify_withoutRef (g : Graph) (id other c : String) :
    (g.modify id fun node => node.withoutRef c).refs other =
      if other = id then (g.refs other).filter fun d => d ≠ c else g.refs other := by
  rw [refs, refs, get?_modify]
  split
  · cases g.get? other with
    | none => rfl
    | some node => exact Node.childRefs_withoutRef node c
  · rfl

/-- A change of links leaves every node what is its own. -/
theorem get?_modify_own (g : Graph) (id other : String) {f : Node → Node}
    (hf : ∀ node, (f node).own = node.own) :
    ((g.modify id f).get? other).map Node.own = (g.get? other).map Node.own := by
  rw [get?_modify]
  split
  · cases g.get? other with
    | none => rfl
    | some node => exact congrArg some (hf node)
  · rfl

/-! ### Detaching -/

theorem parent?_detach (g : Graph) (c other : String) :
    (g.detach c).parent? other = if other = c then none else g.parent? other := by
  unfold detach
  cases hp : g.parent? c with
  | none =>
      by_cases h : other = c
      · rw [if_pos h, h]; exact hp
      · rw [if_neg h]
  | some p =>
      simp only
      rw [parent?_modify, parent?_modify_parent]
      · by_cases h : other = c
        · rw [if_pos h, if_pos h]; cases g.get? other <;> rfl
        · rw [if_neg h, if_neg h]
      · exact fun node => rfl

theorem refs_detach (g : Graph) (c other : String) :
    (g.detach c).refs other =
      if g.parent? c = some other then (g.refs other).filter fun d => d ≠ c
      else g.refs other := by
  unfold detach
  cases hp : g.parent? c with
  | none => simp
  | some p =>
      simp only [Option.some.injEq]
      rw [refs_modify_withoutRef, refs_modify]
      · by_cases h : other = p
        · rw [if_pos h, if_pos h.symm]
        · rw [if_neg h, if_neg fun he => h he.symm]
      · exact fun node => rfl

/-- Detaching keeps the nodes: each is there as before, with what is its own. -/
theorem get?_detach_own (g : Graph) (c other : String) :
    ((g.detach c).get? other).map Node.own = (g.get? other).map Node.own := by
  unfold detach
  cases g.parent? c with
  | none => rfl
  | some p =>
      simp only
      rw [get?_modify_own, get?_modify_own]
      · exact fun node => rfl
      · exact fun node => node.own_withoutRef c

theorem contains_detach (g : Graph) (c other : String) :
    (g.detach c).nodes.contains other = g.nodes.contains other := by
  have h := congrArg Option.isSome (get?_detach_own g c other)
  rwa [Option.isSome_map, Option.isSome_map] at h

/-! ### Creating -/

theorem parent_toNode (p : Option String) (spec : NodeSpec) : (spec.toNode p).parent = p := by
  cases spec
  simp [NodeSpec.toNode]

theorem id_toNode (p : Option String) (spec : NodeSpec) :
    (spec.toNode p).id = spec.attributes.id := by
  cases spec
  simp [NodeSpec.toNode, Node.id]

theorem filterMap_ref?_toChildren (p : String) (specs : List NodeSpec) :
    (NodeSpec.toChildren p specs).filterMap Child.ref? = [] := by
  induction specs with
  | nil => simp [NodeSpec.toChildren]
  | cons spec r ih => simpa [NodeSpec.toChildren, Child.ref?] using ih

/-- A specification has inline children only. -/
theorem childRefs_toNode (p : Option String) (spec : NodeSpec) :
    (spec.toNode p).childRefs = [] := by
  cases spec
  simpa [NodeSpec.toNode, Node.childRefs] using filterMap_ref?_toChildren _ _

theorem filterMap_ref?_filter_isRef (children : List Child) :
    (children.filter Child.isRef).filterMap Child.ref? = children.filterMap Child.ref? := by
  induction children with
  | nil => rfl
  | cons c r ih =>
      cases c with
      | ref id => simpa [List.filter_cons, List.filterMap_cons, Child.isRef, Child.ref?] using ih
      | inline node =>
          simpa [List.filter_cons, List.filterMap_cons, Child.isRef, Child.ref?] using ih

/-- The node that a creation leaves. One that exists keeps its parent, and its references in
front. -/
def recreated (g : Graph) (spec : NodeSpec) : Node :=
  { spec.toNode none with
    parent := g.parent? spec.attributes.id
    children :=
      ((g.get? spec.attributes.id).elim [] fun old => old.children.filter Child.isRef) ++
        (spec.toNode none).children }

theorem id_recreated (g : Graph) (spec : NodeSpec) :
    (g.recreated spec).id = spec.attributes.id :=
  id_toNode none spec

theorem childRefs_recreated (g : Graph) (spec : NodeSpec) :
    (g.recreated spec).childRefs = g.refs spec.attributes.id := by
  have hnone : (spec.toNode none).children.filterMap Child.ref? = [] := childRefs_toNode none spec
  rw [Node.childRefs, recreated, List.filterMap_append, hnone, List.append_nil, refs]
  cases g.get? spec.attributes.id with
  | none => rfl
  | some old => exact filterMap_ref?_filter_isRef old.children

theorem get?_insert (g : Graph) (spec : NodeSpec) (other : String) :
    (g.insert spec).get? other =
      if other = spec.attributes.id then some (g.recreated spec) else g.get? other := by
  have hid := id_toNode none spec
  have hparent := parent_toNode none spec
  unfold insert recreated
  simp only [hid]
  generalize spec.toNode none = node at hid hparent
  obtain ⟨attributes, parent, children⟩ := node
  cases hg : g.get? spec.attributes.id with
  | none =>
      cases hparent
      rw [parent?_of_get?_none hg]
      exact (Dict.get?_insert _ _ _ _).trans (by rw [hid]; rfl)
  | some old =>
      rw [parent?_of_get? hg]
      exact (Dict.get?_insert _ _ _ _).trans (by rw [← hid]; rfl)

theorem parent?_insert (g : Graph) (spec : NodeSpec) (other : String) :
    (g.insert spec).parent? other = g.parent? other := by
  rw [parent?, get?_insert]
  split
  · next h => rw [h]; rfl
  · rfl

theorem refs_insert (g : Graph) (spec : NodeSpec) (other : String) :
    (g.insert spec).refs other = g.refs other := by
  rw [refs, get?_insert]
  split
  · next h => rw [Option.elim_some, childRefs_recreated, h]
  · rfl

/-! ### Adding a child -/

theorem insertAt_perm {α : Type} (items : List α) (position : Option Nat) (a : α) :
    (insertAt items position a).Perm (a :: items) := by
  unfold insertAt
  refine List.perm_middle.trans ?_
  rw [List.take_append_drop]

theorem own_insertAt (node : Node) (position : Option Nat) (c : String) :
    ({ node with children := insertAt node.children position (.ref c) } : Node).own = node.own := by
  have hkept : (insertAt node.children position (.ref c)).filter (fun d => !d.isRef) =
      node.children.filter fun d => !d.isRef := by
    unfold insertAt
    rw [List.filter_append, List.filter_cons_of_neg (by simp [Child.isRef, Child.ref?]),
      ← List.filter_append, List.take_append_drop]
  rw [Node.own, Node.own, hkept]

/-- A reference among the children is one more among the references, wherever it stands. -/
theorem childRefs_insertAt_perm (node : Node) (position : Option Nat) (c : String) :
    ({ node with children := insertAt node.children position (.ref c) } : Node).childRefs.Perm
      (c :: node.childRefs) :=
  (insertAt_perm node.children position (.ref c)).filterMap Child.ref?

/-- An addition that is not refused. -/
def CanAdd (g : Graph) (p c : String) : Prop :=
  g.nodes.contains p = true ∧ g.nodes.contains c = true ∧ g.isAncestor c p = false

/-- An addition is refused, or detaches the child, lists it and names its parent. -/
theorem addChild_cases (g : Graph) (p c : String) (position : Option Nat) :
    (g.addChild p c position = g ∧ ¬ g.CanAdd p c) ∨
      (g.CanAdd p c ∧ g.addChild p c position =
        ((g.detach c).modify p fun node =>
          { node with children := insertAt node.children position (.ref c) }).modify c
            fun node => { node with parent := some p }) := by
  unfold addChild CanAdd
  cases hp : g.nodes.contains p with
  | false => exact Or.inl ⟨by simp, by simp⟩
  | true =>
      cases hc : g.nodes.contains c with
      | false => exact Or.inl ⟨by simp, by simp⟩
      | true =>
          cases ha : g.isAncestor c p with
          | true => exact Or.inl ⟨by simp, by simp⟩
          | false => exact Or.inr ⟨⟨rfl, rfl, rfl⟩, by simp⟩

theorem refs_modify_insertAt (g : Graph) (id other c : String) (position : Option Nat)
    (h : g.nodes.contains id = true) :
    ((g.modify id fun node =>
      { node with children := insertAt node.children position (.ref c) }).refs other).Perm
        (if other = id then c :: g.refs other else g.refs other) := by
  rw [refs, refs, get?_modify]
  split
  · next he =>
      subst he
      obtain ⟨node, hnode⟩ := Dict.contains_eq_true_iff.mp h
      rw [show g.get? other = some node from hnode]
      exact childRefs_insertAt_perm node position c
  · exact List.Perm.refl _

end Graph

end LiveScene
