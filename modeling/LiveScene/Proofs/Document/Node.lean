import LiveScene.Node.Document
import LiveScene.Proofs.Document.Action

/-!
# LiveScene.Proofs.Document.Node

Specifications and nodes decode to what they were encoded from, if all their numbers are finite.

A specification writes all of its fields (`NodeSpec.names_members`). A node leaves out what is
empty, so its members are only some of the fields (`Node.names_members`), and what is not found
under a name is the default of the field, which is what was left out.
-/

namespace LiveScene

open Json

theorem NodeKind.lookupEntry_name (k : NodeKind) :
    lookupEntry k.name NodeKind.choices = some k := by
  cases k <;> rfl

/-- Whether all numbers in handlers are finite. -/
def Handlers.IsFinite (h : Handlers) : Prop := ∀ kind, Action.AreFinite (h.get kind)

/-! ### Specifications -/

namespace NodeSpec

mutual

/-- Whether all numbers in a specification are finite. -/
def IsFinite : NodeSpec → Prop
  | ⟨attributes, children⟩ => attributes.handlers.IsFinite ∧ AreFinite children

/-- Whether all numbers in several specifications are finite. -/
def AreFinite : List NodeSpec → Prop
  | [] => True
  | spec :: r => IsFinite spec ∧ AreFinite r

end

theorem names_members (spec : NodeSpec) : names spec.members = fields := by
  obtain ⟨attributes, children⟩ := spec
  simp [members, fields]

/-- A specification is read back field by field, its children as far as they are. -/
theorem ofLayer?_members_of_children {spec : NodeSpec}
    (hhandlers : spec.attributes.handlers.IsFinite) {inner : Bool}
    (hchildren : collect ((readings (ofLayer? inner) (listToJson spec.children)).map Reading.one) =
      some spec.children) :
    ofLayer? inner (.members (memberReadings (ofLayer? inner) spec.members)) = some spec := by
  have hnodup : (names (memberReadings (ofLayer? inner) spec.members)).Nodup := by
    rw [names_memberReadings, names_members]
    decide
  have hactions (kind : HandlerKind) := Action.listOfJson?_listToJson (hhandlers kind) inner
  obtain ⟨⟨id, kind, style, text, handlers, collection, itemName⟩, children⟩ := spec
  rw [ofLayer?]
  refine Option.bind_eq_some_iff.mpr ⟨_, fields?_members hnodup fields, ?_⟩
  refine Option.bind_eq_some_iff.mpr ⟨id, by simp [members], ?_⟩
  refine Option.bind_eq_some_iff.mpr ⟨kind, by simp [members, kind.lookupEntry_name], ?_⟩
  refine Option.bind_eq_some_iff.mpr ⟨style, by simp [members], ?_⟩
  refine Option.bind_eq_some_iff.mpr ⟨text, by simp [members], ?_⟩
  refine Option.bind_eq_some_iff.mpr ⟨handlers.press, ?_, ?_⟩
  · simpa [members, Handlers.get] using hactions .press
  refine Option.bind_eq_some_iff.mpr ⟨handlers.dragStart, ?_, ?_⟩
  · simpa [members, Handlers.get] using hactions .dragStart
  refine Option.bind_eq_some_iff.mpr ⟨handlers.dragChange, ?_, ?_⟩
  · simpa [members, Handlers.get] using hactions .dragChange
  refine Option.bind_eq_some_iff.mpr ⟨handlers.dragEnd, ?_, ?_⟩
  · simpa [members, Handlers.get] using hactions .dragEnd
  refine Option.bind_eq_some_iff.mpr ⟨handlers.stateChange, ?_, ?_⟩
  · simpa [members, Handlers.get] using hactions .stateChange
  refine Option.bind_eq_some_iff.mpr ⟨collection, by simp [members], ?_⟩
  refine Option.bind_eq_some_iff.mpr ⟨itemName, by simp [members], ?_⟩
  refine Option.bind_eq_some_iff.mpr ⟨children, ?_, rfl⟩
  simpa [members] using hchildren

mutual

/-- A specification decodes to what it was encoded from. -/
theorem ofLayer?_members (spec : NodeSpec) (h : spec.IsFinite) (inner : Bool) :
    ofLayer? inner (.members (memberReadings (ofLayer? inner) spec.members)) = some spec := by
  obtain ⟨attributes, children⟩ := spec
  obtain ⟨hhandlers, hchildren⟩ := h
  exact ofLayer?_members_of_children hhandlers (collect_listToJson children hchildren inner)

theorem collect_listToJson (specs : List NodeSpec) (h : AreFinite specs) (inner : Bool) :
    collect ((readings (ofLayer? inner) (listToJson specs)).map Reading.one) = some specs := by
  cases specs with
  | nil => rfl
  | cons spec r =>
      obtain ⟨hhead, hrest⟩ := h
      have hhead := ofLayer?_members spec hhead inner
      have hrest := collect_listToJson r hrest inner
      exact collect_readings_cons _ hhead hrest

end

theorem ofJson?_toJson {spec : NodeSpec} (h : spec.IsFinite) :
    ofJson? spec.toJson = some spec := by
  rw [ofJson?, one_reading]
  exact ofLayer?_members spec h false

end NodeSpec

/-! ### Members that may be left out -/

/-- The array that is written, unless it is empty. -/
def filled? (items : List Json) : Option Json := if items.isEmpty then none else some (.arr items)

section

variable {α : Type} (name other : String)

@[simp] theorem lookupEntry_memberIf (encode : α → Json) (o : Option α) :
    lookupEntry name (memberIf other encode o) = if name = other then o.map encode else none := by
  cases o <;> simp [memberIf, lookupEntry]

@[simp] theorem lookupEntry_memberUnlessEmpty (items : List Json) :
    lookupEntry name (memberUnlessEmpty other items) =
      if name = other then filled? items else none := by
  cases items <;> simp [memberUnlessEmpty, lookupEntry, filled?]

theorem names_memberIf (encode : α → Json) (o : Option α) :
    (names (memberIf other encode o)).Sublist [other] := by
  cases o <;> simp [memberIf]

theorem names_memberUnlessEmpty (items : List Json) :
    (names (memberUnlessEmpty other items)).Sublist [other] := by
  cases items <;> simp [memberUnlessEmpty]

end

/-- A text that is left out is absent. -/
@[simp] theorem elim_str (o : Option String) :
    o.elim (some none) (nullable str? ∘ Json.str) = some o := by
  cases o <;> rfl

/-- A list that is left out is empty. -/
theorem elim_filled? {γ : Type} {read : Json → Option (List γ)} {items : List Json}
    {list : List γ} (hread : read (.arr items) = some list) (hempty : items = [] → list = []) :
    (filled? items).elim (some []) read = some list := by
  cases items with
  | nil => simp [filled?, hempty]
  | cons j r => simpa [filled?] using hread

/-! ### Handlers -/

namespace Handlers

/-- The names of the interactions. -/
def fields : List String := ["press", "dragStart", "dragChange", "dragEnd", "stateChange"]

theorem names_members (h : Handlers) : (names h.members).Sublist fields := by
  simp only [members, names_append]
  have hpress := names_memberUnlessEmpty "press" (Action.listToJson h.press)
  have hdragStart := names_memberUnlessEmpty "dragStart" (Action.listToJson h.dragStart)
  have hdragChange := names_memberUnlessEmpty "dragChange" (Action.listToJson h.dragChange)
  have hdragEnd := names_memberUnlessEmpty "dragEnd" (Action.listToJson h.dragEnd)
  have hstateChange := names_memberUnlessEmpty "stateChange" (Action.listToJson h.stateChange)
  exact (((hpress.append hdragStart).append hdragChange).append hdragEnd).append hstateChange

theorem lookupEntry_members (h : Handlers) {name : String} {kind : HandlerKind}
    (hkind : (name, kind) ∈ HandlerKind.choices) :
    lookupEntry name h.members = filled? (Action.listToJson (h.get kind)) := by
  simp only [HandlerKind.choices, List.mem_cons, List.not_mem_nil, or_false, Prod.mk.injEq] at hkind
  rcases hkind with ⟨rfl, rfl⟩ | ⟨rfl, rfl⟩ | ⟨rfl, rfl⟩ | ⟨rfl, rfl⟩ | ⟨rfl, rfl⟩ <;>
    simp [members, get]

/-- The actions that answer an interaction are found, or left out because there are none. -/
theorem optional_members {h : Handlers} (hfinite : h.IsFinite) {name : String}
    {kind : HandlerKind} (hkind : (name, kind) ∈ HandlerKind.choices) :
    Json.optional [] (Action.listOfJson? false) name h.members = some (h.get kind) := by
  have hempty : Action.listToJson (h.get kind) = [] → h.get kind = [] := by
    cases h.get kind <;> simp [Action.listToJson]
  rw [optional_eq_elim, h.lookupEntry_members hkind]
  exact elim_filled? (Action.listOfJson?_listToJson (hfinite kind) false) hempty

theorem ofJson?_members {h : Handlers} (hfinite : h.IsFinite) :
    ofJson? (.obj h.members) = some h := by
  have hfields : (Layer.members h.members).fields?
      ["press", "dragStart", "dragChange", "dragEnd", "stateChange"] = some h.members :=
    fields?_members (h.names_members.nodup (by decide)) _
  have hpress := optional_members hfinite (by decide : ("press", .press) ∈ HandlerKind.choices)
  have hdragStart :=
    optional_members hfinite (by decide : ("dragStart", .dragStart) ∈ HandlerKind.choices)
  have hdragChange :=
    optional_members hfinite (by decide : ("dragChange", .dragChange) ∈ HandlerKind.choices)
  have hdragEnd :=
    optional_members hfinite (by decide : ("dragEnd", .dragEnd) ∈ HandlerKind.choices)
  have hstateChange :=
    optional_members hfinite (by decide : ("stateChange", .stateChange) ∈ HandlerKind.choices)
  simp [ofJson?, layer, hfields, hpress, hdragStart, hdragChange, hdragEnd, hstateChange, get]

end Handlers

/-! ### Nodes -/

namespace Node

mutual

/-- Whether all numbers in a node are finite. -/
def IsFinite : Node → Prop
  | ⟨attributes, _, children⟩ => attributes.handlers.IsFinite ∧ ChildrenAreFinite children

/-- Whether all numbers in children are finite. -/
def ChildrenAreFinite : List Child → Prop
  | [] => True
  | .ref _ :: r => ChildrenAreFinite r
  | .inline node :: r => IsFinite node ∧ ChildrenAreFinite r

end

/-- The members of a node. -/
def members : Node → List (String × Json)
  | ⟨a, parent, children⟩ =>
    [("id", .str a.id), ("type", .str a.kind.name)]
      ++ memberIf "style" .ofRecord (if a.style.isEmpty then none else some a.style)
      ++ memberIf "text" .str a.text
      ++ memberUnlessEmpty "children" (childrenToJson children)
      ++ memberIf "handlers" (fun h => .obj h.members)
          (if a.handlers.isEmpty then none else some a.handlers)
      ++ memberIf "collection" .str a.collection
      ++ memberIf "itemName" .str a.itemName
      ++ memberIf "parentId" .str parent

theorem toJson_eq (n : Node) : n.toJson = .obj n.members := by
  obtain ⟨a, parent, children⟩ := n
  rw [toJson, members]
  cases a.style.isEmpty <;> cases a.handlers.isEmpty <;> rfl

theorem names_members (n : Node) : (names n.members).Sublist fields := by
  obtain ⟨a, parent, children⟩ := n
  simp only [members, names_append]
  have hhead : (names [("id", Json.str a.id), ("type", .str a.kind.name)]).Sublist ["id", "type"] :=
    List.Sublist.refl _
  have hstyle := names_memberIf "style" ofRecord (if a.style.isEmpty then none else some a.style)
  have htext := names_memberIf "text" .str a.text
  have hchildren := names_memberUnlessEmpty "children" (childrenToJson children)
  have hhandlers := names_memberIf "handlers" (fun h : Handlers => .obj h.members)
    (if a.handlers.isEmpty then none else some a.handlers)
  have hcollection := names_memberIf "collection" .str a.collection
  have hitemName := names_memberIf "itemName" .str a.itemName
  have hparent := names_memberIf "parentId" .str parent
  exact ((((((hhead.append hstyle).append htext).append hchildren).append hhandlers).append
    hcollection).append hitemName).append hparent

/-- A style that is left out is empty. -/
theorem elim_style (style : Record) :
    (if style.isEmpty then none else some style).elim (some ∅) (record? ∘ ofRecord) =
      some style := by
  cases hempty : style.isEmpty with
  | true =>
      obtain ⟨entries, ascending⟩ := style
      obtain rfl : entries = [] := List.isEmpty_iff.mp hempty
      rfl
  | false => simp

/-- Handlers that are left out answer nothing. -/
theorem elim_handlers {handlers : Handlers} (h : handlers.IsFinite) :
    (if handlers.isEmpty then none else some handlers).elim (some {})
      (Handlers.ofJson? ∘ fun h => .obj h.members) = some handlers := by
  cases hempty : handlers.isEmpty with
  | true =>
      obtain ⟨press, dragStart, dragChange, dragEnd, stateChange⟩ := handlers
      simp only [Handlers.isEmpty, Bool.and_eq_true, List.isEmpty_iff] at hempty
      obtain ⟨⟨⟨⟨rfl, rfl⟩, rfl⟩, rfl⟩, rfl⟩ := hempty
      rfl
  | false => simp [Handlers.ofJson?_members h]

theorem childrenToJson_eq_nil {children : List Child} (h : childrenToJson children = []) :
    children = [] := by
  cases children with
  | nil => rfl
  | cons c r => cases c <;> simp [childrenToJson] at h

/-- A node is read back field by field, its children as far as they are. -/
theorem ofLayer?_members_of_children {n : Node} (hhandlers : n.attributes.handlers.IsFinite)
    (hchildren : collect ((readings Child.ofLayer? (childrenToJson n.children)).map Reading.one) =
      some n.children) :
    ofLayer? (.members (memberReadings Child.ofLayer? n.members)) = some n := by
  have hnodup : (names (memberReadings Child.ofLayer? n.members)).Nodup := by
    rw [names_memberReadings]
    exact n.names_members.nodup (by decide)
  have hfound : (filled? (childrenToJson n.children)).elim (some [])
      (fun j => (reading Child.ofLayer? j).many) = some n.children := by
    refine elim_filled? ?_ childrenToJson_eq_nil
    exact (many_reading _ _).trans hchildren
  obtain ⟨⟨id, kind, style, text, handlers, collection, itemName⟩, parent, children⟩ := n
  rw [ofLayer?]
  refine Option.bind_eq_some_iff.mpr ⟨_, fields?_members hnodup fields, ?_⟩
  refine Option.bind_eq_some_iff.mpr ⟨id, by simp [members], ?_⟩
  refine Option.bind_eq_some_iff.mpr ⟨kind, by simp [members, kind.lookupEntry_name], ?_⟩
  refine Option.bind_eq_some_iff.mpr ⟨style, by simp [members, elim_style], ?_⟩
  refine Option.bind_eq_some_iff.mpr ⟨text, by simp [members], ?_⟩
  refine Option.bind_eq_some_iff.mpr ⟨children, by simpa [members] using hfound, ?_⟩
  refine Option.bind_eq_some_iff.mpr ⟨handlers, ?_, ?_⟩
  · simp [members, elim_handlers hhandlers]
  refine Option.bind_eq_some_iff.mpr ⟨collection, by simp [members], ?_⟩
  refine Option.bind_eq_some_iff.mpr ⟨itemName, by simp [members], ?_⟩
  exact Option.bind_eq_some_iff.mpr ⟨parent, by simp [members], rfl⟩

mutual

/-- A node decodes to what it was encoded from. -/
theorem ofLayer?_members (n : Node) (h : n.IsFinite) :
    ofLayer? (.members (memberReadings Child.ofLayer? n.members)) = some n := by
  obtain ⟨attributes, parent, children⟩ := n
  obtain ⟨hhandlers, hchildren⟩ := h
  exact ofLayer?_members_of_children hhandlers (collect_childrenToJson children hchildren)

theorem collect_childrenToJson (children : List Child) (h : ChildrenAreFinite children) :
    collect ((readings Child.ofLayer? (childrenToJson children)).map Reading.one) =
      some children := by
  cases children with
  | nil => rfl
  | cons c r =>
      cases c with
      | ref id =>
          have hrest := collect_childrenToJson r h
          have href : Child.ofLayer? (readLayer Child.ofLayer? (.str id)) = some (.ref id) := rfl
          exact collect_readings_cons _ href hrest
      | inline node =>
          obtain ⟨hnode, hrest⟩ := h
          have hnode := ofLayer?_members node hnode
          have hrest := collect_childrenToJson r hrest
          -- An object is no reference.
          have hinline : Child.ofLayer? (readLayer Child.ofLayer? node.toJson) =
              some (.inline node) := by
            rw [toJson_eq, readLayer, Child.ofLayer?, hnode]
            rfl
            nofun
          exact collect_readings_cons _ hinline hrest

end

theorem ofJson?_toJson {n : Node} (h : n.IsFinite) : ofJson? n.toJson = some n := by
  rw [ofJson?, toJson_eq]
  exact ofLayer?_members n h

end Node

end LiveScene
