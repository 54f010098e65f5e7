import LiveScene.Proofs.Dict
import LiveScene.Proofs.Graph.Recreation

/-!
# LiveScene.Proofs.Graph.Lookup

Inline nodes by their paths.

* A path is the list of the positions at which one goes down from child to child. Unlike the nodes
  around it, it tells an inline node from others that look the same. `NotBehind` is the order in
  which a walk through a tree comes by: a node before what lies below it, and this before the next
  child.
* A specification and the node that is made from it have the same at each path
  (`NodeSpec.makes_toNode`).
* A search below a node stops at the first path to a node of the id
  (`Node.isFirst_findInline?`), and one in a graph at the first path in the first node that has any
  (`Graph.find?_eq_some_iff`).
* In a graph that events build, all inline nodes are templates, made from specifications and never
  changed (`Event.preserved_templated`).
-/

namespace LiveScene

/-! ### Paths -/

/-- In preorder, a path does not come behind another. -/
inductive NotBehind : List Nat → List Nat → Prop where
  /-- A node comes before those below it. -/
  | above (q : List Nat) : NotBehind [] q
  /-- A child comes, with all below it, before those at later positions. -/
  | earlier {i j : Nat} (h : i < j) (p q : List Nat) : NotBehind (i :: p) (j :: q)
  /-- Below one child, the order is that of the rest of the paths. -/
  | within (i : Nat) {p q : List Nat} (h : NotBehind p q) : NotBehind (i :: p) (i :: q)

namespace NotBehind

theorem antisymm {p q : List Nat} (h : NotBehind p q) (h' : NotBehind q p) : p = q := by
  induction h with
  | above q =>
      cases h'
      rfl
  | earlier hlt p q =>
      cases h' with
      | earlier hgt => exact absurd hlt (Nat.lt_asymm hgt)
      | within => exact absurd hlt (Nat.lt_irrefl _)
  | within i _ ih =>
      cases h' with
      | earlier hlt => exact absurd hlt (Nat.lt_irrefl _)
      | within _ h' => rw [ih h']

/-- One more child in front does not change the order of the others. -/
theorem succ {i j : Nat} {p q : List Nat} (h : NotBehind (i :: p) (j :: q)) :
    NotBehind ((i + 1) :: p) ((j + 1) :: q) := by
  cases h with
  | earlier hlt => exact .earlier (Nat.succ_lt_succ hlt) p q
  | within _ h => exact .within (i + 1) h

end NotBehind

/-- The node of an inline child. -/
def Child.inline? : Child → Option Node
  | ref _ => none
  | inline node => some node

/-- The inline node to which a path leads. The empty path leads to the node itself. -/
def Node.inlineAt? (n : Node) : (path : List Nat) → Option Node
  | [] => some n
  | i :: path => (n.children[i]?.bind Child.inline?).bind fun c => c.inlineAt? path

/-- The specification to which a path leads. -/
def NodeSpec.specAt? (s : NodeSpec) : (path : List Nat) → Option NodeSpec
  | [] => some s
  | i :: path => s.children[i]?.bind fun c => c.specAt? path

theorem Node.inlineAt?_append (n : Node) (p q : List Nat) :
    n.inlineAt? (p ++ q) = (n.inlineAt? p).bind fun m => m.inlineAt? q := by
  induction p generalizing n with
  | nil => rfl
  | cons i p ih =>
      rw [List.cons_append, inlineAt?, inlineAt?]
      cases n.children[i]?.bind Child.inline? with
      | none => rfl
      | some c => exact ih c

/-! ### What is made from a specification -/

namespace NodeSpec

/-- A node is what a specification describes, below a parent. -/
structure Makes (spec : NodeSpec) (parent : Option String) (n : Node) : Prop where
  /-- The same paths lead to specifications and to inline nodes, and these have the same attributes,
  the id and the handlers among them. -/
  attributes : ∀ path, (n.inlineAt? path).map Node.attributes =
    (spec.specAt? path).map NodeSpec.attributes
  /-- There are no references among the children. -/
  inline : ∀ path m, n.inlineAt? path = some m → m.childRefs = []
  parent : n.parent = parent
  /-- Each inline node names the one around it as its parent. -/
  parent_inline : ∀ path i m c, n.inlineAt? path = some m → n.inlineAt? (path ++ [i]) = some c →
    c.parent = some m.id

theorem attributes_toNode (parent : Option String) (spec : NodeSpec) :
    (spec.toNode parent).attributes = spec.attributes := by
  cases spec
  rw [toNode]

theorem children_toNode (parent : Option String) (spec : NodeSpec) :
    (spec.toNode parent).children =
      spec.children.map fun c => .inline (c.toNode (some spec.attributes.id)) := by
  obtain ⟨attributes, children⟩ := spec
  rw [toNode]
  induction children with
  | nil => simp [toChildren]
  | cons c r ih => simpa [toChildren] using ih

theorem inlineAt?_toNode_cons (parent : Option String) (spec : NodeSpec) (i : Nat)
    (path : List Nat) :
    (spec.toNode parent).inlineAt? (i :: path) =
      spec.children[i]?.bind fun c => (c.toNode (some spec.attributes.id)).inlineAt? path := by
  rw [Node.inlineAt?, children_toNode, List.getElem?_map]
  cases spec.children[i]? <;> rfl

/-- A path leads to what is made from the specification that it leads to. -/
theorem inlineAt?_toNode (parent : Option String) (spec : NodeSpec) (path : List Nat) :
    ∃ above, (spec.toNode parent).inlineAt? path = (spec.specAt? path).map (toNode above) := by
  induction path generalizing parent spec with
  | nil => exact ⟨parent, rfl⟩
  | cons i path ih =>
      rw [inlineAt?_toNode_cons, specAt?]
      cases spec.children[i]? with
      | none => exact ⟨none, rfl⟩
      | some c => exact ih (some spec.attributes.id) c

theorem makes_toNode (spec : NodeSpec) (parent : Option String) :
    spec.Makes parent (spec.toNode parent) where
  attributes path := by
    obtain ⟨above, hpath⟩ := inlineAt?_toNode parent spec path
    rw [hpath, Option.map_map]
    refine congrArg (Option.map · (spec.specAt? path)) ?_
    funext s
    exact attributes_toNode above s
  inline path m hm := by
    obtain ⟨above, hpath⟩ := inlineAt?_toNode parent spec path
    rw [hpath] at hm
    obtain ⟨s, -, rfl⟩ := Option.map_eq_some_iff.mp hm
    exact Graph.childRefs_toNode above s
  parent := Graph.parent_toNode parent spec
  parent_inline path i m c hm hc := by
    obtain ⟨above, hpath⟩ := inlineAt?_toNode parent spec path
    rw [Node.inlineAt?_append, hm, Option.bind_some] at hc
    rw [hpath] at hm
    obtain ⟨s, -, rfl⟩ := Option.map_eq_some_iff.mp hm
    rw [inlineAt?_toNode_cons] at hc
    obtain ⟨inner, -, hinner⟩ := Option.bind_eq_some_iff.mp hc
    cases hinner
    rw [Graph.parent_toNode, Graph.id_toNode]

end NodeSpec

/-! ### The search below a node -/

/-- The nodes to which paths lead that start at one of several children. -/
def amongAt? (children : List Child) : (path : List Nat) → Option Node
  | [] => none
  | i :: path => (children[i]?.bind Child.inline?).bind fun c => c.inlineAt? path

theorem amongAt?_eq_some_iff {n m : Node} {path : List Nat} :
    amongAt? n.children path = some m ↔ path ≠ [] ∧ n.inlineAt? path = some m := by
  cases path <;> simp [amongAt?, Node.inlineAt?]

/-- Of the paths to a node of an id, one is the first. -/
structure FirstMatch (at? : List Nat → Option Node) (id : String) (path : List Nat) (m : Node) :
    Prop where
  found : at? path = some m
  id_eq : m.id = id
  first : ∀ q other, at? q = some other → other.id = id → NotBehind path q

/-- An answer to a search is the node of an id to which the first path leads, or there is none. -/
def IsFirst (at? : List Nat → Option Node) (id : String) : (answer : Option Node) → Prop
  | some m => ∃ path, FirstMatch at? id path m
  | none => ∀ path m, at? path = some m → m.id ≠ id

/-- A child in which there is no node of the id may be passed over. -/
theorem IsFirst.skip {c : Child} {r : List Child} {id : String} {answer : Option Node}
    (h : IsFirst (amongAt? r) id answer)
    (hc : ∀ path m, amongAt? (c :: r) (0 :: path) = some m → m.id ≠ id) :
    IsFirst (amongAt? (c :: r)) id answer := by
  cases answer with
  | none =>
      intro path m hm
      cases path with
      | nil => cases hm
      | cons i path =>
          cases i with
          | zero => exact hc path m hm
          | succ i => exact h (i :: path) m hm
  | some m =>
      obtain ⟨path, hfound, hid, hfirst⟩ := h
      cases path with
      | nil => cases hfound
      | cons i path =>
          refine ⟨(i + 1) :: path, hfound, hid, ?_⟩
          intro q other hq hother
          cases q with
          | nil => cases hq
          | cons j q =>
              cases j with
              | zero => exact absurd hother (hc q other hq)
              | succ j => exact (hfirst (j :: q) other hq hother).succ

mutual

/-- The search below a node finds the first one of the id. -/
theorem Node.isFirst_findInline? (id : String) (n : Node) :
    IsFirst (amongAt? n.children) id (n.findInline? id) := by
  obtain ⟨attributes, parent, children⟩ := n
  rw [findInline?]
  exact isFirst_findInlineIn? id children

theorem Node.isFirst_findInlineIn? (id : String) (children : List Child) :
    IsFirst (amongAt? children) id (findInlineIn? id children) := by
  cases children with
  | nil =>
      intro path m hm
      cases path <;> simp [amongAt?] at hm
  | cons c r =>
      have hrest := isFirst_findInlineIn? id r
      cases c with
      | ref other =>
          rw [findInlineIn?]
          refine hrest.skip ?_
          simp [amongAt?, Child.inline?]
      | inline node =>
          have hbelow := isFirst_findInline? id node
          rw [findInlineIn?]
          by_cases hid : node.id = id
          · rw [if_pos hid]
            refine ⟨[0], rfl, hid, ?_⟩
            intro q other hq _
            cases q with
            | nil => cases hq
            | cons j q =>
                cases j with
                | zero => exact .within 0 (.above q)
                | succ j => exact .earlier (Nat.succ_pos j) [] q
          · rw [if_neg hid]
            -- A path through the child leads to it, which is not meant, or below it.
            have hthrough : ∀ path m, amongAt? (.inline node :: r) (0 :: path) = some m →
                m.id = id → amongAt? node.children path = some m := by
              intro path m hm hmid
              refine amongAt?_eq_some_iff.mpr ⟨?_, hm⟩
              rintro rfl
              cases hm
              exact hid hmid
            cases hfound : node.findInline? id with
            | none =>
                rw [hfound] at hbelow
                refine hrest.skip fun path m hm hmid => ?_
                exact hbelow path m (hthrough path m hm hmid) hmid
            | some m =>
                rw [hfound] at hbelow
                obtain ⟨path, hpath, hmid, hfirst⟩ := hbelow
                refine ⟨0 :: path, (amongAt?_eq_some_iff.mp hpath).2, hmid, ?_⟩
                intro q other hq hother
                cases q with
                | nil => cases hq
                | cons j q =>
                    cases j with
                    | zero => exact .within 0 (hfirst q other (hthrough q other hq hother) hother)
                    | succ j => exact .earlier (Nat.succ_pos j) path q

end

/-! ### The search in a graph -/

namespace Graph

/-- A path leads from a node of the graph to an inline node in it. -/
def HasInline (g : Graph) (name : String) (path : List Nat) (m : Node) : Prop :=
  ∃ node, g.get? name = some node ∧ path ≠ [] ∧ node.inlineAt? path = some m

/-- Of the inline nodes of an id, one is the first: it lies in the first of the nodes, by name, in
which there are any, and comes before the others in it. -/
structure FirstInline (g : Graph) (id name : String) (path : List Nat) (m : Node) : Prop where
  found : g.HasInline name path m
  id_eq : m.id = id
  first : ∀ name' path' m', g.HasInline name' path' m' → m'.id = id →
    name < name' ∨ name = name' ∧ NotBehind path path'

variable {g : Graph} {id name : String} {path : List Nat} {m : Node}

theorem hasInline_iff :
    g.HasInline name path m ↔
      ∃ e ∈ g.nodes.entries, e.1 = name ∧ amongAt? e.2.children path = some m := by
  simp only [HasInline, ← amongAt?_eq_some_iff]
  constructor
  · rintro ⟨node, hnode, hm⟩
    exact ⟨(name, node), Dict.mem_entries_iff.mpr hnode, rfl, hm⟩
  · rintro ⟨e, he, rfl, hm⟩
    exact ⟨e.2, Dict.mem_entries_iff.mp he, hm⟩

theorem find?_eq_findSome? (hget : g.get? id = none) :
    g.find? id = g.nodes.entries.findSome? fun e => e.2.findInline? id := by
  rw [find?, hget, Dict.values, List.findSome?_map]
  rfl

/-- What is found is the first of its id. -/
theorem exists_firstInline (hget : g.get? id = none) (hfound : g.find? id = some m) :
    ∃ name path, g.FirstInline id name path m := by
  rw [find?_eq_findSome? hget, List.findSome?_eq_some_iff] at hfound
  obtain ⟨before, e, after, hentries, hm, hbefore⟩ := hfound
  have hascending := g.nodes.ascending
  rw [hentries, names, List.map_append, List.map_cons, List.pairwise_append,
    List.pairwise_cons] at hascending
  have hfirst := Node.isFirst_findInline? id e.2
  rw [hm] at hfirst
  obtain ⟨path, hpath, hid, hfirst⟩ := hfirst
  have he : e ∈ g.nodes.entries := by simp [hentries]
  refine ⟨e.1, path, hasInline_iff.mpr ⟨e, he, rfl, hpath⟩, hid, ?_⟩
  intro name' path' m' hm' hid'
  obtain ⟨d, hd, rfl, hpath'⟩ := hasInline_iff.mp hm'
  rw [hentries, List.mem_append, List.mem_cons] at hd
  rcases hd with hd | rfl | hd
  · have hnone := Node.isFirst_findInline? id d.2
    rw [hbefore d hd] at hnone
    exact absurd hid' (hnone path' m' hpath')
  · exact Or.inr ⟨rfl, hfirst path' m' hpath' hid'⟩
  · exact Or.inl (hascending.2.1.1 d.1 (List.mem_map_of_mem hd))

/-- If nothing is found, there is nothing of the id. -/
theorem id_ne_of_find?_eq_none (hnone : g.find? id = none) (hm : g.HasInline name path m) :
    m.id ≠ id := by
  have hget : g.get? id = none := by
    rw [find?] at hnone
    cases hnode : g.get? id with
    | none => rfl
    | some node => simp [hnode] at hnone
  rw [find?_eq_findSome? hget, List.findSome?_eq_none_iff] at hnone
  obtain ⟨e, he, rfl, hpath⟩ := hasInline_iff.mp hm
  have hfirst := Node.isFirst_findInline? id e.2
  rw [hnone e he] at hfirst
  exact hfirst path m hpath

theorem FirstInline.eq {name' : String} {path' : List Nat} {m' : Node}
    (h : g.FirstInline id name path m) (h' : g.FirstInline id name' path' m') : m = m' := by
  have hpath : name = name' ∧ path = path' := by
    rcases h.first name' path' m' h'.found h'.id_eq with hlt | ⟨hname, hpath⟩ <;>
      rcases h'.first name path m h.found h.id_eq with hlt' | ⟨hname', hpath'⟩
    · exact absurd hlt (String.lt_asymm hlt')
    · exact absurd (hname' ▸ hlt) (String.lt_irrefl _)
    · exact absurd (hname ▸ hlt') (String.lt_irrefl _)
    · exact ⟨hname, hpath.antisymm hpath'⟩
  obtain ⟨rfl, rfl⟩ := hpath
  obtain ⟨node, hnode, -, hm⟩ := h.found
  obtain ⟨node', hnode', -, hm'⟩ := h'.found
  rw [hnode, Option.some.injEq] at hnode'
  rw [← hnode', hm, Option.some.injEq] at hm'
  exact hm'

/-- An id that no node has finds the first of the inline nodes of that id. -/
theorem find?_eq_some_iff (hget : g.get? id = none) :
    g.find? id = some m ↔ ∃ name path, g.FirstInline id name path m := by
  constructor
  · exact exists_firstInline hget
  · rintro ⟨name, path, h⟩
    cases hfind : g.find? id with
    | none => exact absurd h.id_eq (id_ne_of_find?_eq_none hfind h.found)
    | some m' =>
        obtain ⟨name', path', h'⟩ := exists_firstInline hget hfind
        rw [h.eq h']

theorem find?_eq_get? {node : Node} (hnode : g.get? id = some node) : g.find? id = some node := by
  rw [find?, hnode]

/-- What a look-up finds. -/
structure Finds (g : Graph) (id : String) : Prop where
  /-- Something, if a node has the id or an inline node, at any depth. -/
  isSome_iff : (g.find? id).isSome = true ↔
    g.nodes.contains id = true ∨ ∃ name path m, g.HasInline name path m ∧ m.id = id
  /-- The node, if there is one. -/
  node : ∀ node, g.get? id = some node → g.find? id = some node
  /-- The first inline node, otherwise. -/
  inline : g.get? id = none → ∀ m,
    g.find? id = some m ↔ ∃ name path, g.FirstInline id name path m

theorem finds (g : Graph) (id : String) : g.Finds id where
  isSome_iff := by
    constructor
    · intro hsome
      obtain ⟨m, hm⟩ := Option.isSome_iff_exists.mp hsome
      cases hget : g.get? id with
      | some node => exact Or.inl (Dict.contains_eq_true_iff.mpr ⟨node, hget⟩)
      | none =>
          obtain ⟨name, path, hfirst⟩ := exists_firstInline hget hm
          exact Or.inr ⟨name, path, m, hfirst.found, hfirst.id_eq⟩
    · rintro (hnode | ⟨name, path, m, hm, hid⟩)
      · obtain ⟨node, hnode⟩ := Dict.contains_eq_true_iff.mp hnode
        rw [find?_eq_get? hnode]
        rfl
      · rw [Option.isSome_iff_ne_none]
        intro hnone
        exact id_ne_of_find?_eq_none hnone hm hid
  node _ := find?_eq_get?
  inline hget _ := find?_eq_some_iff hget

/-! ### Templates in a graph that events build -/

/-- The inline children of the nodes are made from specifications. -/
def Templated (g : Graph) : Prop :=
  ∀ name node c, g.get? name = some node → .inline c ∈ node.children →
    ∃ spec : NodeSpec, c = spec.toNode (some name)

theorem inline_mem_recreated {spec : NodeSpec} {c : Node}
    (hc : .inline c ∈ (g.recreated spec).children) :
    ∃ s : NodeSpec, c = s.toNode (some spec.attributes.id) := by
  rw [recreated, List.mem_append] at hc
  rcases hc with hc | hc
  · -- What a node keeps of the children that it had are references.
    cases hold : g.get? spec.attributes.id <;>
      simp [hold, List.mem_filter, Child.isRef, Child.ref?] at hc
  · rw [NodeSpec.children_toNode, List.mem_map] at hc
    obtain ⟨s, -, hs⟩ := hc
    cases hs
    exact ⟨s, rfl⟩

end Graph

theorem Node.inline_mem_iff_own {n c : Node} : .inline c ∈ n.children ↔ .inline c ∈ n.own.2 := by
  simp [own, List.mem_filter, Child.isRef, Child.ref?]

/-- An event creates templates, or removes them with their node; it does not change them. -/
theorem Event.preserved_templated : Event.Preserved fun a => a.graph.Templated := by
  intro e a hbatch h name node c hnode hc
  cases hrewrites : e.rewrites name with
  | false =>
      rcases own_apply hbatch hrewrites a with hnone | hsame
      · rw [hnode] at hnone
        cases hnone
      · rw [hnode, Option.map_some] at hsame
        obtain ⟨old, hold, hown⟩ := Option.map_eq_some_iff.mp hsame.symm
        rw [Node.inline_mem_iff_own, ← hown, ← Node.inline_mem_iff_own] at hc
        exact h name old c hold hc
  | true =>
      cases e with
      | createNode spec =>
          have hname : spec.attributes.id = name := of_decide_eq_true hrewrites
          subst hname
          rw [apply, Graph.get?_insert, if_pos rfl, Option.some.injEq] at hnode
          rw [← hnode] at hc
          exact Graph.inline_mem_recreated hc
      | updateStyle id | updateText id =>
          have hname : id = name := of_decide_eq_true hrewrites
          subst hname
          rw [apply, Assembly.modifyAttributes, Graph.get?_modify, if_pos rfl] at hnode
          obtain ⟨old, hold, rfl⟩ := Option.map_eq_some_iff.mp hnode
          exact h id old c hold hc
      | _ => simp [rewrites] at hrewrites

namespace Graph

variable {g : Graph}

theorem Built.templated (h : g.Built) : g.Templated := by
  obtain ⟨stage, events, rfl⟩ := h
  refine Event.applyAll_of_preserved Event.preserved_templated events (Assembly.new stage) ?_
  intro name node c hnode
  cases hnode

/-- Each inline node in such a graph names the one around it as its parent. -/
theorem Built.parent_inline (h : g.Built) {name : String} {node m c : Node} {path : List Nat}
    {i : Nat} (hnode : g.get? name = some node) (hm : node.inlineAt? path = some m)
    (hc : node.inlineAt? (path ++ [i]) = some c) : c.parent = some m.id := by
  have htop : ∀ (j : Nat) (d : Node), node.children[j]?.bind Child.inline? = some d →
      ∃ spec : NodeSpec, d = spec.toNode (some name) := by
    intro j d hd
    obtain ⟨child, hchild, hinline⟩ := Option.bind_eq_some_iff.mp hd
    cases child with
    | ref id => cases hinline
    | inline other =>
        cases hinline
        exact h.templated name node d hnode (List.mem_of_getElem? hchild)
  cases path with
  | nil =>
      cases hm
      obtain ⟨d, hd, hdc⟩ := Option.bind_eq_some_iff.mp hc
      cases hdc
      obtain ⟨spec, rfl⟩ := htop i c hd
      rw [parent_toNode, h.consistent.id_eq name node hnode]
  | cons j path =>
      obtain ⟨d, hd, hdm⟩ := Option.bind_eq_some_iff.mp hm
      rw [List.cons_append, Node.inlineAt?, hd, Option.bind_some] at hc
      obtain ⟨spec, rfl⟩ := htop j d hd
      exact (spec.makes_toNode (some name)).parent_inline path i m c hdm hc

/-- A node has what its specification has at each path, as templates that name the node around them
as their parent, and they keep that in each graph that events build. A look-up of an id finds the
node that has it, otherwise the first inline node, and it finds nothing only if there is neither. -/
theorem finds_what_specs_describe :
    (∀ (spec : NodeSpec) (parent : Option String), spec.Makes parent (spec.toNode parent)) ∧
    (∀ (g : Graph) (id : String), g.Finds id) ∧
    (∀ g : Graph, g.Built → ∀ name node path i m c, g.get? name = some node →
      node.inlineAt? path = some m → node.inlineAt? (path ++ [i]) = some c →
      c.parent = some m.id) := by
  refine ⟨NodeSpec.makes_toNode, finds, ?_⟩
  intro g hbuilt name node path i m c hnode hm hc
  exact hbuilt.parent_inline hnode hm hc

/-- A title. -/
def title : NodeSpec := ⟨{ id := "title", kind := .text }, []⟩

/-- A row that is repeated for each record, with a mark and a title. -/
def row : NodeSpec :=
  ⟨{ id := "row", kind := .collection }, [⟨{ id := "mark", kind := .actionable }, []⟩, title]⟩

/-- A page with a row, and a title of its own. -/
def page : NodeSpec := ⟨{ id := "page", kind := .container }, [row, title]⟩

/-- The graph of the page. -/
def pageGraph : Graph :=
  (Event.applyAll [.createNode page] (.new ⟨.new "scene", .idle, {}⟩)).graph

/-- Of the two titles, the one in the row is found. It names the row as its parent. -/
theorem finds_what_specs_describe_page :
    page.Makes none (page.toNode none) ∧ pageGraph.Built ∧
      pageGraph.HasInline "page" [0, 1] (title.toNode (some "row")) ∧
      (title.toNode (some "row")).parent = some (row.toNode (some "page")).id ∧
      (pageGraph.find? "title").isSome = true ∧
      ∃ name path, pageGraph.FirstInline "title" name path (title.toNode (some "row")) := by
  obtain ⟨hmakes, hfinds, hparent⟩ := finds_what_specs_describe
  have hbuilt : pageGraph.Built := ⟨_, [.createNode page], rfl⟩
  have hpage : pageGraph.get? "page" = some (page.toNode none) := rfl
  have hrow : (page.toNode none).inlineAt? [0] = some (row.toNode (some "page")) := rfl
  have htitle : (page.toNode none).inlineAt? [0, 1] = some (title.toNode (some "row")) := rfl
  have hinline : pageGraph.HasInline "page" [0, 1] (title.toNode (some "row")) :=
    ⟨page.toNode none, hpage, List.cons_ne_nil _ _, htitle⟩
  refine ⟨hmakes page none, hbuilt, hinline, ?_, ?_, ?_⟩
  · exact hparent pageGraph hbuilt "page" _ [0] 1 _ _ hpage hrow htitle
  · exact (hfinds pageGraph "title").isSome_iff.mpr (Or.inr ⟨"page", [0, 1], _, hinline, rfl⟩)
  · exact ((hfinds pageGraph "title").inline rfl _).mp rfl

end Graph

end LiveScene
