import LiveScene.Node.Document

/-!
# LiveScene.Node.Graph

The nodes of a scene by their ids, and the edits of their links.

A link is kept twice: the parent lists a reference to the child, and the child names the parent.
Each edit changes both, so that they agree in every graph that edits lead to; `violations` lists
where they do not. Edits that name nodes which do not exist, or would close a circle, change
nothing.
-/

namespace LiveScene

/-- The nodes by their ids, and the id of the root. -/
structure Graph where
  nodes : Dict Node := ∅
  root : Option String := none

namespace Graph

instance : Inhabited Graph := ⟨{}⟩

/-! ### Questions -/

/-- A node. -/
def get? (g : Graph) (id : String) : Option Node := g.nodes.get? id

/-- A node, or else the first inline node of the id. -/
def find? (g : Graph) (id : String) : Option Node :=
  match g.get? id with
  | some node => some node
  | none => g.nodes.values.findSome? (Node.findInline? id)

/-- The first collection that is the node of an id, or has one in its template. -/
def templateOwner? (g : Graph) (id : String) : Option Node :=
  g.nodes.values.find? fun node =>
    decide (node.attributes.kind = .collection)
      && (decide (node.id = id) || (node.findInline? id).isSome)

/-- The root, if there is a node of its id. -/
def rootNode? (g : Graph) : Option Node := g.root.bind g.get?

/-- The nodes that a node refers to, in order. -/
def childrenOf (g : Graph) (id : String) : List Node :=
  match g.get? id with
  | some node => node.childRefs.filterMap g.get?
  | none => []

/-- The parent that a node names. -/
def parent? (g : Graph) (id : String) : Option String := (g.get? id).bind Node.parent

/-- An id and those above it, at most `limit` of them. -/
def lineage (g : Graph) : (limit : Nat) → String → List String
  | 0, _ => []
  | limit + 1, id =>
    id ::
      match g.parent? id with
      | some parent => g.lineage limit parent
      | none => []

/-- Whether one id is another or above it. -/
def isAncestor (g : Graph) (ancestor id : String) : Bool :=
  (g.lineage (g.nodes.size + 1) id).contains ancestor

/-! ### Links that do not agree -/

/-- What is wrong with a reference of a node. -/
def childProblems (g : Graph) (node : Node) (child : String) : List String :=
  let link :=
    match g.get? child with
    | some c =>
      if c.parent = some node.id then []
      else [child ++ " listed by " ++ node.id ++ " but parented elsewhere"]
    | none => [node.id ++ " references missing " ++ child]
  let repeated :=
    if 1 < node.childRefs.count child then [node.id ++ " lists " ++ child ++ " more than once"]
    else []
  link ++ repeated

/-- What is wrong with the parent that a node names. -/
def parentProblems (g : Graph) (node : Node) : List String :=
  match node.parent with
  | none => []
  | some parent =>
    if (g.get? parent).any fun p => p.hasChildRef node.id then []
    else [node.id ++ " claims parent " ++ parent ++ " which does not list it"]

/-- Every link that is kept on one side only, or twice. -/
def violations (g : Graph) : List String :=
  g.nodes.values.flatMap fun node =>
    node.childRefs.flatMap (g.childProblems node) ++ g.parentProblems node

/-! ### Edits -/

/-- Changes a node. -/
def modify (g : Graph) (id : String) (f : Node → Node) : Graph :=
  { g with nodes := g.nodes.modify id f }

/-- Takes a node from its parent. -/
def detach (g : Graph) (child : String) : Graph :=
  match g.parent? child with
  | none => g
  | some parent =>
    (g.modify child fun c => { c with parent := none }).modify parent fun p => p.withoutRef child

/-- Creates a node. One that exists keeps its parent, and its references in front of the new
inline children. -/
def insert (g : Graph) (spec : NodeSpec) : Graph :=
  let node := spec.toNode none
  let node :=
    match g.get? node.id with
    | some old =>
      { node with
        parent := old.parent
        children := old.children.filter Child.isRef ++ node.children }
    | none => node
  { g with nodes := g.nodes.insert node.id node }

/-- A list with an item before the one at a position, or at the end. -/
def insertAt {α : Type} (items : List α) (position : Option Nat) (a : α) : List α :=
  let at_ := min (position.getD items.length) items.length
  items.take at_ ++ a :: items.drop at_

/-- Makes a node the child of another, at a position among its children. -/
def addChild (g : Graph) (parent child : String) (position : Option Nat) : Graph :=
  if !g.nodes.contains parent || !g.nodes.contains child then g
  else if g.isAncestor child parent then g
  else
    ((g.detach child).modify parent fun p =>
      { p with children := insertAt p.children position (.ref child) }).modify child fun c =>
        { c with parent := some parent }

/-- Takes a node from a parent, if it is that of the node. -/
def removeChild (g : Graph) (parent child : String) : Graph :=
  if g.parent? child = some parent then g.detach child else g

/-- Removes nodes, then the nodes that these refer to, and so on, at most `limit` times. -/
def prune (g : Graph) : (limit : Nat) → List String → Graph
  | 0, _ => g
  | limit + 1, ids =>
    let below := (ids.filterMap g.get?).flatMap Node.childRefs
    if ids.isEmpty then g
    else
      ({ nodes := ids.foldl Dict.erase g.nodes
         root := if g.root.any ids.contains then none else g.root } : Graph).prune limit below

/-- Removes a node and all below it. A root that is removed is no root any more. -/
def delete (g : Graph) (id : String) : Graph :=
  if g.nodes.contains id then (g.detach id).prune (g.nodes.size + 1) [id] else g

/-! ### Document -/

/-- The graph as a document. -/
def toJson (g : Graph) : Json :=
  .obj [("nodes", .obj (g.nodes.entries.map fun e => (e.1, e.2.toJson))),
    ("root", ofMaybe .str g.root)]

end Graph

end LiveScene
