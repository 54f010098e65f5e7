import LiveScene.Proofs.Graph.Links
import Mathlib.Data.List.Nodup
import Mathlib.Data.List.Perm.Subperm

/-!
# LiveScene.Proofs.Graph.Forest

Consistent graphs are forests.

`Graph.Consistent` is the invariant of the edits: the two sides of every link agree, and some
rank falls with each step to a parent. A rank is easier to carry through an edit than a bound on
the walks upward, and it yields the bound: the ids of a walk fall in rank, so they are distinct
names of nodes, and there are no more of them than nodes (`Consistent.climb_lt_size`).
`Graph.IsForest` says in full what a consistent graph is; it mentions no rank.
-/

namespace LiveScene

namespace Dict

theorem mem_keys_of_get? {α : Type} {d : Dict α} {name : String} {value : α}
    (h : d.get? name = some value) : name ∈ d.keys := by
  by_contra hmem
  have hnone : d.get? name = none := lookupEntry_eq_none_of_not_mem hmem
  rw [hnone] at h
  exact absurd h (by simp)

theorem length_keys {α : Type} (d : Dict α) : d.keys.length = d.size := by
  simp [keys, names, size]

end Dict

namespace Graph

/-- The invariant of the edits of a graph. -/
structure Consistent (g : Graph) : Prop where
  /-- Each node stands under its own id. -/
  id_eq : ∀ id node, g.get? id = some node → node.id = id
  /-- Parents refer to those who name them, and to nothing else. -/
  mem_refs_iff : ∀ p c, c ∈ g.refs p ↔ g.parent? c = some p
  /-- Nothing is referred to twice. -/
  nodup_refs : ∀ p, (g.refs p).Nodup
  /-- Some rank falls with each step to a parent. -/
  ranked : ∃ rank : String → Nat, ∀ c p, g.parent? c = some p → rank p < rank c

/-- A forest whose links agree on both sides. -/
structure IsForest (g : Graph) : Prop where
  /-- Each node stands under its own id. -/
  id_eq : ∀ id node, g.get? id = some node → node.id = id
  /-- A node refers to an id exactly if a node of that id names it as its parent. -/
  refs_iff : ∀ p c, (∃ node, g.get? p = some node ∧ c ∈ node.childRefs) ↔
    ∃ node, g.get? c = some node ∧ node.parent = some p
  /-- It does so once. -/
  count_eq_one : ∀ p node c, g.get? p = some node → c ∈ node.childRefs →
    node.childRefs.count c = 1
  /-- No reference names a missing node. -/
  ref_exists : ∀ p node c, g.get? p = some node → c ∈ node.childRefs →
    ∃ child, g.get? c = some child
  /-- No parent is missing. -/
  parent_exists : ∀ c node p, g.get? c = some node → node.parent = some p →
    ∃ parent, g.get? p = some parent
  /-- The way up from every node ends at one without a parent, in fewer steps than there are
  nodes. -/
  rooted : ∀ id node, g.get? id = some node → ∃ steps < g.nodes.size, ∃ top root,
    g.climb steps id = some top ∧ g.get? top = some root ∧ root.parent = none
  /-- The walk upward ends wherever it starts, -/
  walk_ends : ∀ id, ∃ steps ≤ g.nodes.size, g.climb (steps + 1) id = none
  /-- and the part of it that is looked through is all of it. -/
  isAncestor_iff : ∀ a id, g.isAncestor a id = true ↔ ∃ steps, g.climb steps id = some a

namespace Consistent

variable {g : Graph}

/-- A graph without nodes is consistent. -/
theorem empty : Consistent {} where
  id_eq _ _ h := by simp [get?] at h
  mem_refs_iff _ _ := by simp [refs, parent?, get?]
  nodup_refs _ := by simp [refs, get?]
  ranked := ⟨fun _ => 0, fun _ _ h => by simp [parent?, get?] at h⟩

/-! ### Walks upward -/

/-- The parent of a node is a node. -/
theorem get?_of_parent (h : g.Consistent) {c p : String} (hp : g.parent? c = some p) :
    ∃ node, g.get? p = some node :=
  get?_of_mem_refs ((h.mem_refs_iff p c).mpr hp)

theorem get?_of_climb (h : g.Consistent) {steps : Nat} {id a : String} {node : Node}
    (hid : g.get? id = some node) (hc : g.climb steps id = some a) :
    ∃ node, g.get? a = some node := by
  cases steps with
  | zero => exact ⟨node, Option.some.inj hc ▸ hid⟩
  | succ steps =>
      rw [climb_succ_last] at hc
      obtain ⟨c, -, hp⟩ := Option.bind_eq_some_iff.mp hc
      exact h.get?_of_parent hp

theorem rank_climb {rank : String → Nat} (hr : ∀ c p, g.parent? c = some p → rank p < rank c)
    {steps : Nat} {id a : String} (hc : g.climb steps id = some a) :
    rank a + steps ≤ rank id := by
  induction steps generalizing id with
  | zero => exact Nat.le_of_eq (congrArg rank (Option.some.inj hc).symm)
  | succ steps ih =>
      rw [climb_succ] at hc
      obtain ⟨p, hp, hc⟩ := Option.bind_eq_some_iff.mp hc
      have hlt := hr id p hp
      have hle := ih hc
      omega

/-- No id lies above itself. -/
theorem climb_succ_ne_self (h : g.Consistent) (steps : Nat) (id : String) :
    g.climb (steps + 1) id ≠ some id := by
  obtain ⟨rank, hr⟩ := h.ranked
  intro hc
  have hle := rank_climb hr hc
  omega

/-- An id is reached by one number of steps only. -/
theorem climb_inj (h : g.Consistent) {m n : Nat} {id a : String}
    (hm : g.climb m id = some a) (hn : g.climb n id = some a) : m = n := by
  -- Were one number of steps greater, the rest of that walk would lead from `a` to itself.
  have key : ∀ m k, g.climb m id = some a → g.climb (m + (k + 1)) id ≠ some a := by
    intro m k hm hk
    rw [climb_add, hm, Option.bind_some] at hk
    exact h.climb_succ_ne_self k a hk
  rcases Nat.lt_trichotomy m n with hlt | heq | hlt
  · obtain ⟨k, rfl⟩ := Nat.exists_eq_add_of_lt hlt
    exact absurd hn (key m k hm)
  · exact heq
  · obtain ⟨k, rfl⟩ := Nat.exists_eq_add_of_lt hlt
    exact absurd hm (key n k hn)

theorem nodup_lineage (h : g.Consistent) (limit : Nat) (id : String) :
    (g.lineage limit id).Nodup := by
  induction limit generalizing id with
  | zero => exact List.nodup_nil
  | succ limit ih =>
      rw [lineage]
      cases hp : g.parent? id with
      | none => exact List.nodup_singleton id
      | some p =>
          refine List.nodup_cons.mpr ⟨fun hmem => ?_, ih p⟩
          obtain ⟨steps, -, hc⟩ := mem_lineage.mp hmem
          exact h.climb_succ_ne_self steps id (by rw [climb_succ, hp]; exact hc)

theorem length_lineage {steps : Nat} {id a : String} (hc : g.climb steps id = some a) :
    (g.lineage (steps + 1) id).length = steps + 1 := by
  induction steps generalizing id with
  | zero => rw [lineage]; cases g.parent? id <;> rfl
  | succ steps ih =>
      rw [climb_succ] at hc
      obtain ⟨p, hp, hc⟩ := Option.bind_eq_some_iff.mp hc
      rw [lineage, hp]
      exact congrArg Nat.succ (ih hc)

/-- A walk from a node has fewer steps than there are nodes. -/
theorem climb_lt_size (h : g.Consistent) {steps : Nat} {id a : String} {node : Node}
    (hid : g.get? id = some node) (hc : g.climb steps id = some a) : steps < g.nodes.size := by
  -- The ids on the way are different names of nodes, and there is one more of them than steps.
  have hsub : g.lineage (steps + 1) id ⊆ g.nodes.keys := by
    intro x hx
    obtain ⟨k, -, hk⟩ := mem_lineage.mp hx
    obtain ⟨other, hother⟩ := h.get?_of_climb hid hk
    exact Dict.mem_keys_of_get? hother
  have hle := (List.subperm_of_subset (h.nodup_lineage _ _) hsub).length_le
  rw [length_lineage hc, Dict.length_keys] at hle
  exact hle

/-- A walk from anywhere has no more steps than there are nodes. -/
theorem climb_le_size (h : g.Consistent) {steps : Nat} {id a : String}
    (hc : g.climb steps id = some a) : steps ≤ g.nodes.size := by
  cases steps with
  | zero => exact Nat.zero_le _
  | succ steps =>
      obtain ⟨p, hp, -⟩ := Option.bind_eq_some_iff.mp hc
      obtain ⟨node, hid⟩ := get?_of_parent? hp
      exact Nat.le_of_lt (h.climb_lt_size hid hc)

/-- What is looked through for an ancestor is the whole walk upward. -/
theorem isAncestor_iff (h : g.Consistent) (a id : String) :
    g.isAncestor a id = true ↔ ∃ steps, g.climb steps id = some a := by
  rw [isAncestor, List.contains_iff_mem, mem_lineage]
  constructor
  · rintro ⟨steps, -, hc⟩
    exact ⟨steps, hc⟩
  · rintro ⟨steps, hc⟩
    exact ⟨steps, Nat.lt_succ_of_le (h.climb_le_size hc), hc⟩

/-- The way up from a node ends at one that has no parent. -/
theorem exists_root (h : g.Consistent) {id : String} {node : Node}
    (hid : g.get? id = some node) :
    ∃ steps top root, g.climb steps id = some top ∧ g.get? top = some root ∧
      root.parent = none := by
  obtain ⟨rank, hr⟩ := h.ranked
  -- The induction is on the rank, because the walk itself carries no bound yet.
  induction hn : rank id using Nat.strongRecOn generalizing id node with
  | _ n ih =>
      cases hp : g.parent? id with
      | none => exact ⟨0, id, node, rfl, hid, by rw [← parent?_of_get? hid, hp]⟩
      | some p =>
          obtain ⟨parent, hparent⟩ := h.get?_of_parent hp
          obtain ⟨steps, top, root, hc, htop, hroot⟩ := ih (rank p) (hn ▸ hr id p hp) hparent rfl
          exact ⟨steps + 1, top, root, by rw [climb_succ, hp]; exact hc, htop, hroot⟩

/-- A consistent graph is a forest. -/
theorem isForest (h : g.Consistent) : g.IsForest where
  id_eq := h.id_eq
  refs_iff p c := by
    rw [← Graph.mem_refs_iff, ← parent?_eq_some_iff]
    exact h.mem_refs_iff p c
  count_eq_one p node c hp hc := by
    have hnodup := h.nodup_refs p
    rw [refs_of_get? hp] at hnodup
    exact List.count_eq_one_of_mem hnodup hc
  ref_exists p node c hp hc :=
    get?_of_parent? ((h.mem_refs_iff p c).mp (by rw [refs_of_get? hp]; exact hc))
  parent_exists c node p hc hp := h.get?_of_parent (by rw [parent?_of_get? hc, hp])
  rooted id node hid := by
    obtain ⟨steps, top, root, hc, htop, hroot⟩ := h.exists_root hid
    exact ⟨steps, h.climb_lt_size hid hc, top, root, hc, htop, hroot⟩
  walk_ends id := by
    refine ⟨g.nodes.size, Nat.le_refl _, ?_⟩
    cases hc : g.climb (g.nodes.size + 1) id with
    | none => rfl
    | some a => exact absurd (h.climb_le_size hc) (Nat.not_succ_le_self _)
  isAncestor_iff := h.isAncestor_iff

/-! ### Edits that keep all links -/

/-- An edit that keeps the links on both sides keeps the graph consistent, if each node stands
under its own id after it. -/
theorem of_links_eq {g' : Graph} (h : g.Consistent)
    (hid : ∀ id node, g'.get? id = some node → node.id = id)
    (hrefs : ∀ id, g'.refs id = g.refs id) (hparent : ∀ id, g'.parent? id = g.parent? id) :
    g'.Consistent where
  id_eq := hid
  mem_refs_iff p c := by rw [hrefs, hparent]; exact h.mem_refs_iff p c
  nodup_refs p := by rw [hrefs]; exact h.nodup_refs p
  ranked := by
    obtain ⟨rank, hr⟩ := h.ranked
    exact ⟨rank, fun c p hp => hr c p (by rw [← hparent]; exact hp)⟩

theorem insert (h : g.Consistent) (spec : NodeSpec) : (g.insert spec).Consistent := by
  refine h.of_links_eq (fun id node hnode => ?_) (refs_insert g spec) (parent?_insert g spec)
  rw [get?_insert] at hnode
  split at hnode
  · next he => rw [← Option.some.inj hnode, id_recreated, he]
  · exact h.id_eq id node hnode

/-- A change of attributes that keeps ids keeps the graph consistent. -/
theorem modify_attributes (h : g.Consistent) (id : String) {f : Attributes → Attributes}
    (hf : ∀ a, (f a).id = a.id) :
    (g.modify id fun node => { node with attributes := f node.attributes }).Consistent := by
  refine h.of_links_eq (fun other node hnode => ?_)
    (fun other => refs_modify g id other fun _ => rfl)
    (fun other => parent?_modify g id other fun _ => rfl)
  rw [get?_modify] at hnode
  split at hnode
  · obtain ⟨old, hold, rfl⟩ := Option.map_eq_some_iff.mp hnode
    exact (hf old.attributes).trans (h.id_eq other old hold)
  · exact h.id_eq other node hnode

/-- The root is no link. -/
theorem setRoot (h : g.Consistent) (root : Option String) :
    ({ g with root := root } : Graph).Consistent :=
  h.of_links_eq h.id_eq (fun _ => rfl) (fun _ => rfl)

end Consistent

end Graph

end LiveScene
