import LiveScene.Proofs.Dict
import LiveScene.Proofs.Graph.Subtree

/-!
# LiveScene.Proofs.Graph.Violations

The checker of links.

* A `LinkFault` is a link about which its two sides do not agree, or one that is kept twice.
  `Graph.HasFault` says which faults a graph has, from both sides of the link.
* The checker lists a text for each fault, and no other text (`Graph.mem_violations_iff`). It goes
  through the nodes, so this takes that each of them stands under its own id: under another one, it
  would be reported by a name that nothing is found under.
* A graph has no fault just if its links agree (`Graph.linksAgree_iff`), as they do in every graph
  that events build (`Graph.Built.violations_eq_nil`).
-/

namespace LiveScene

/-- What may be wrong with a link of a parent and a child. -/
inductive LinkFault where
  /-- The parent refers to the child, which does not exist. -/
  | missing (parent child : String)
  /-- The parent refers to the child, which names another parent or none. -/
  | elsewhere (parent child : String)
  /-- The parent refers to the child more than once. -/
  | repeated (parent child : String)
  /-- The child names the parent, which does not exist or does not refer to it. -/
  | unlisted (parent child : String)

namespace LinkFault

/-- How a fault is reported. -/
def text : LinkFault → String
  | missing parent child => parent ++ " references missing " ++ child
  | elsewhere parent child => child ++ " listed by " ++ parent ++ " but parented elsewhere"
  | repeated parent child => parent ++ " lists " ++ child ++ " more than once"
  | unlisted parent child => child ++ " claims parent " ++ parent ++ " which does not list it"

end LinkFault

namespace Graph

/-- The faults that a graph has. -/
def HasFault (g : Graph) : LinkFault → Prop
  | .missing p c => c ∈ g.refs p ∧ g.get? c = none
  | .elsewhere p c => c ∈ g.refs p ∧ g.get? c ≠ none ∧ g.parent? c ≠ some p
  | .repeated p c => 1 < (g.refs p).count c
  | .unlisted p c => g.parent? c = some p ∧ c ∉ g.refs p

/-- The two sides of every link agree. -/
structure LinksAgree (g : Graph) : Prop where
  /-- A reference names a node whose parent is the one that lists it. -/
  child : ∀ p node c, g.get? p = some node → c ∈ node.childRefs →
    ∃ child, g.get? c = some child ∧ child.parent = some p
  /-- No node lists a reference twice. -/
  once : ∀ p node, g.get? p = some node → node.childRefs.Nodup
  /-- A node that names a parent is listed by a node of that id. -/
  parent : ∀ c node p, g.get? c = some node → node.parent = some p →
    ∃ parent, g.get? p = some parent ∧ c ∈ parent.childRefs

variable {g : Graph} {node : Node} {c text : String}

/-! ### The reports of one node -/

theorem mem_childProblems_iff :
    text ∈ g.childProblems node c ↔
      (g.get? c = none ∧ (LinkFault.missing node.id c).text = text) ∨
      ((g.get? c ≠ none ∧ g.parent? c ≠ some node.id) ∧
        (LinkFault.elsewhere node.id c).text = text) ∨
      (1 < node.childRefs.count c ∧ (LinkFault.repeated node.id c).text = text) := by
  have hrepeated : text ∈ (if 1 < node.childRefs.count c then
      [node.id ++ " lists " ++ c ++ " more than once"] else []) ↔
      1 < node.childRefs.count c ∧ (LinkFault.repeated node.id c).text = text := by
    split <;> simp [*, LinkFault.text, eq_comm]
  rw [childProblems, List.mem_append, hrepeated]
  cases hc : g.get? c with
  | none => simp [LinkFault.text, eq_comm]
  | some child =>
      rw [parent?_of_get? hc]
      by_cases hparent : child.parent = some node.id
      · simp [hparent]
      · simp [hparent, LinkFault.text, eq_comm]

theorem mem_parentProblems_iff :
    text ∈ g.parentProblems node ↔
      ∃ p, node.parent = some p ∧ node.id ∉ g.refs p ∧
        (LinkFault.unlisted p node.id).text = text := by
  rw [parentProblems]
  cases node.parent with
  | none => simp
  | some p =>
      have hlisted : ((g.get? p).any fun parent => parent.hasChildRef node.id) = true ↔
          node.id ∈ g.refs p := by
        rw [refs]
        cases g.get? p <;> simp [Node.hasChildRef]
      by_cases hmem : node.id ∈ g.refs p
      · simp [hlisted.mpr hmem, hmem]
      · simp [mt hlisted.mp hmem, hmem, LinkFault.text, eq_comm]

/-! ### All reports -/

/-- The checker reports the faults of a graph, and nothing else. -/
theorem mem_violations_iff (hids : ∀ id node, g.get? id = some node → node.id = id) :
    text ∈ g.violations ↔ ∃ fault, g.HasFault fault ∧ fault.text = text := by
  have hnodes : ∀ node, node ∈ g.nodes.values ↔ g.get? node.id = some node := by
    intro node
    rw [Dict.mem_values_iff]
    constructor
    · rintro ⟨name, hname⟩
      rw [hids name node hname]
      exact hname
    · intro hnode
      exact ⟨node.id, hnode⟩
  simp only [violations, List.mem_flatMap, List.mem_append, mem_childProblems_iff,
    mem_parentProblems_iff, hnodes]
  constructor
  · rintro ⟨node, hnode, ⟨c, hc, hreport⟩ | ⟨p, hp, hunlisted, htext⟩⟩
    · rw [← refs_of_get? hnode] at hc hreport
      rcases hreport with ⟨hnone, htext⟩ | ⟨helsewhere, htext⟩ | ⟨hcount, htext⟩
      · exact ⟨.missing node.id c, ⟨hc, hnone⟩, htext⟩
      · exact ⟨.elsewhere node.id c, ⟨hc, helsewhere⟩, htext⟩
      · exact ⟨.repeated node.id c, hcount, htext⟩
    · exact ⟨.unlisted p node.id, ⟨parent?_eq_some_iff.mpr ⟨node, hnode, hp⟩, hunlisted⟩, htext⟩
  · -- A fault of a reference is reported by the node that has it, and one of a parent by the child.
    have hlister : ∀ p c, c ∈ g.refs p →
        ∃ node, g.get? p = some node ∧ node.id = p ∧ c ∈ node.childRefs := by
      intro p c hc
      obtain ⟨node, hnode, hlisted⟩ := mem_refs_iff.mp hc
      exact ⟨node, hnode, hids p node hnode, hlisted⟩
    rintro ⟨fault, hfault, htext⟩
    cases fault with
    | missing p c =>
        obtain ⟨node, hnode, rfl, hc⟩ := hlister p c hfault.1
        exact ⟨node, hnode, Or.inl ⟨c, hc, Or.inl ⟨hfault.2, htext⟩⟩⟩
    | elsewhere p c =>
        obtain ⟨node, hnode, rfl, hc⟩ := hlister p c hfault.1
        exact ⟨node, hnode, Or.inl ⟨c, hc, Or.inr (Or.inl ⟨hfault.2, htext⟩)⟩⟩
    | repeated p c =>
        have hlisted : c ∈ g.refs p := List.count_pos_iff.mp (Nat.lt_trans Nat.zero_lt_one hfault)
        obtain ⟨node, hnode, rfl, hc⟩ := hlister p c hlisted
        refine ⟨node, hnode, Or.inl ⟨c, hc, Or.inr (Or.inr ⟨?_, htext⟩)⟩⟩
        rw [← refs_of_get? hnode]
        exact hfault
    | unlisted p c =>
        obtain ⟨node, hnode, hp⟩ := parent?_eq_some_iff.mp hfault.1
        obtain rfl := hids c node hnode
        exact ⟨node, hnode, Or.inr ⟨p, hp, hfault.2, htext⟩⟩

/-- A graph without faults is one whose links agree. -/
theorem linksAgree_iff : g.LinksAgree ↔ ∀ fault, ¬ g.HasFault fault := by
  constructor
  · intro h fault hfault
    cases fault with
    | missing p c =>
        obtain ⟨node, hnode, hc⟩ := mem_refs_iff.mp hfault.1
        obtain ⟨child, hchild, -⟩ := h.child p node c hnode hc
        rw [hfault.2] at hchild
        cases hchild
    | elsewhere p c =>
        obtain ⟨node, hnode, hc⟩ := mem_refs_iff.mp hfault.1
        exact hfault.2.2 (parent?_eq_some_iff.mpr (h.child p node c hnode hc))
    | repeated p c =>
        have hc : c ∈ g.refs p := List.count_pos_iff.mp (Nat.lt_trans Nat.zero_lt_one hfault)
        obtain ⟨node, hnode, -⟩ := mem_refs_iff.mp hc
        have hone := List.nodup_iff_count_le_one.mp (h.once p node hnode) c
        rw [← refs_of_get? hnode] at hone
        exact Nat.not_lt_of_le hone hfault
    | unlisted p c =>
        obtain ⟨node, hnode, hp⟩ := parent?_eq_some_iff.mp hfault.1
        exact hfault.2 (mem_refs_iff.mpr (h.parent c node p hnode hp))
  · intro h
    constructor
    · intro p node c hnode hc
      have hmem : c ∈ g.refs p := mem_refs_iff.mpr ⟨node, hnode, hc⟩
      have hexists : g.get? c ≠ none := fun hnone => h (.missing p c) ⟨hmem, hnone⟩
      by_contra hparent
      rw [← parent?_eq_some_iff] at hparent
      exact h (.elsewhere p c) ⟨hmem, hexists, hparent⟩
    · intro p node hnode
      refine List.nodup_iff_count_le_one.mpr fun c => Nat.le_of_not_lt fun hcount => ?_
      rw [← refs_of_get? hnode] at hcount
      exact h (.repeated p c) hcount
    · intro c node p hnode hp
      by_contra hlisted
      rw [← mem_refs_iff] at hlisted
      exact h (.unlisted p c) ⟨parent?_eq_some_iff.mpr ⟨node, hnode, hp⟩, hlisted⟩

theorem violations_eq_nil_iff_forall (hids : ∀ id node, g.get? id = some node → node.id = id) :
    g.violations = [] ↔ ∀ fault, ¬ g.HasFault fault := by
  rw [List.eq_nil_iff_forall_not_mem]
  simp only [mem_violations_iff hids]
  constructor
  · intro h fault hfault
    exact h fault.text ⟨fault, hfault, rfl⟩
  · rintro h text ⟨fault, hfault, -⟩
    exact h fault hfault

theorem Consistent.linksAgree (h : g.Consistent) : g.LinksAgree where
  child p node c hnode hc := (h.isForest.refs_iff p c).mp ⟨node, hnode, hc⟩
  once p node hnode := by
    rw [← refs_of_get? hnode]
    exact h.nodup_refs p
  parent c node p hnode hp := (h.isForest.refs_iff p c).mpr ⟨node, hnode, hp⟩

/-- There is nothing to report about a graph that events build. -/
theorem Built.violations_eq_nil (h : g.Built) : g.violations = [] :=
  (violations_eq_nil_iff_forall h.consistent.id_eq).mpr (linksAgree_iff.mp h.consistent.linksAgree)

/-- In a graph whose nodes stand under their ids, whatever their links are, the checker reports
nothing just if every reference names a node whose parent is the one that lists it, no node lists a
reference twice, and every node that names a parent is listed by it. -/
theorem violations_eq_nil_iff (hids : ∀ id node, g.get? id = some node → node.id = id) :
    g.violations = [] ↔ g.LinksAgree := by
  rw [violations_eq_nil_iff_forall hids, linksAgree_iff]

end Graph

namespace Assembly

/-- The room with a lamp that takes the shelf for its parent. -/
def miswired : Graph :=
  furnished.graph.modify "lamp" fun lamp => { lamp with parent := some "shelf" }

/-- The checker finds the lamp from both sides. -/
theorem violations_eq_nil_iff_miswired :
    (∀ id node, miswired.get? id = some node → node.id = id) ∧
      miswired.violations =
        ["lamp claims parent shelf which does not list it",
          "lamp listed by room but parented elsewhere"] ∧
      ¬ miswired.LinksAgree := by
  have hbuilt : furnished.graph.Built := ⟨_, room, rfl⟩
  have hids : ∀ id node, miswired.get? id = some node → node.id = id := by
    intro id node hnode
    rw [miswired, Graph.get?_modify] at hnode
    split at hnode
    · obtain ⟨lamp, hlamp, rfl⟩ := Option.map_eq_some_iff.mp hnode
      exact hbuilt.consistent.id_eq id lamp hlamp
    · exact hbuilt.consistent.id_eq id node hnode
  have hreported : miswired.violations =
      ["lamp claims parent shelf which does not list it",
        "lamp listed by room but parented elsewhere"] := by decide
  refine ⟨hids, hreported, ?_⟩
  rw [← Graph.violations_eq_nil_iff hids, hreported]
  exact List.cons_ne_nil _ _

end Assembly

end LiveScene
