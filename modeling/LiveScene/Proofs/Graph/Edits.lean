import LiveScene.Proofs.Graph.Forest

/-!
# LiveScene.Proofs.Graph.Edits

Edits of links keep a graph consistent.

* Detaching a node takes away both sides of one link.
* An addition gives a new link both its sides. It closes no circle: what was below the child is
  ranked above all that was above the parent, which is not below the child.
* A deletion takes whole levels below a node, each found by the references of the one before. What
  it takes in all (`delete_eq_without`) are whole trees, because the node deleted was detached
  first.
-/

namespace LiveScene

namespace Dict

theorem get?_foldl_erase {α : Type} (d : Dict α) (removed : List String) (name : String) :
    (removed.foldl erase d).get? name = if name ∈ removed then none else d.get? name := by
  induction removed generalizing d with
  | nil => simp
  | cons id r ih =>
      rw [List.foldl_cons, ih, get?_erase]
      by_cases hr : name ∈ r
      · rw [if_pos hr, if_pos (List.mem_cons_of_mem id hr)]
      · by_cases hid : name = id
        · rw [if_neg hr, if_pos hid, if_pos (hid ▸ List.mem_cons_self)]
        · rw [if_neg hr, if_neg hid, if_neg fun hmem => (List.mem_cons.mp hmem).elim hid hr]

end Dict

namespace Graph

variable {g : Graph}

namespace Consistent

/-- An edit that leaves all nodes what is their own leaves each under its own id. -/
theorem id_eq_of_own_eq {g' : Graph} (h : g.Consistent)
    (hown : ∀ id, (g'.get? id).map Node.own = (g.get? id).map Node.own) :
    ∀ id node, g'.get? id = some node → node.id = id := by
  intro id node hnode
  have hmap := hown id
  rw [hnode, Option.map_some] at hmap
  obtain ⟨old, hold, hsame⟩ := Option.map_eq_some_iff.mp hmap.symm
  have hid : old.id = node.id := congrArg (fun own => own.1.id) hsame
  exact hid.symm.trans (h.id_eq id old hold)

/-! ### Detaching -/

theorem detach (h : g.Consistent) (c : String) : (g.detach c).Consistent where
  id_eq := h.id_eq_of_own_eq (get?_detach_own g c)
  mem_refs_iff p x := by
    rw [refs_detach, parent?_detach]
    by_cases hx : x = c
    · subst hx
      by_cases hp : g.parent? x = some p
      · simp [hp]
      · rw [if_neg hp, if_pos rfl, h.mem_refs_iff]
        exact iff_of_false hp (by simp)
    · rw [if_neg hx]
      split
      · simpa [hx] using h.mem_refs_iff p x
      · exact h.mem_refs_iff p x
  nodup_refs p := by
    rw [refs_detach]
    split
    · exact (h.nodup_refs p).filter _
    · exact h.nodup_refs p
  ranked := by
    obtain ⟨rank, hr⟩ := h.ranked
    refine ⟨rank, fun x p hp => ?_⟩
    rw [parent?_detach] at hp
    split at hp
    · exact absurd hp (by simp)
    · exact hr x p hp

theorem removeChild (h : g.Consistent) (p c : String) : (g.removeChild p c).Consistent := by
  unfold Graph.removeChild
  split
  · exact h.detach c
  · exact h

/-! ### Adding a child -/

/-- The rank after an addition: what is below the child is lifted above the parent. -/
theorem ranked_link (h : g.Consistent) {p c : String}
    (hpc : ¬ ∃ steps, g.climb steps p = some c) {g' : Graph}
    (hparent : ∀ x, x ≠ c → g'.parent? x = g.parent? x) (hc : g'.parent? c = some p) :
    ∃ rank : String → Nat, ∀ x q, g'.parent? x = some q → rank q < rank x := by
  classical
  obtain ⟨rank, hr⟩ := h.ranked
  -- The new link is the only one that leads from below the child to a node that is not.
  refine ⟨fun x => if ∃ steps, g.climb steps x = some c then rank x + (rank p + 1) else rank x,
    fun x q hq => ?_⟩
  by_cases hx : x = c
  · subst hx
    have hpq : p = q := Option.some.inj (hc.symm.trans hq)
    have hself : ∃ steps, g.climb steps x = some x := ⟨0, rfl⟩
    subst hpq
    simp only [if_neg hpc, if_pos hself]
    omega
  · rw [hparent x hx] at hq
    have hlt := hr x q hq
    by_cases hbelow : ∃ steps, g.climb steps q = some c
    · have hx' : ∃ steps, g.climb steps x = some c := by
        obtain ⟨steps, hsteps⟩ := hbelow
        exact ⟨steps + 1, by rw [climb_succ, hq]; exact hsteps⟩
      simp only [if_pos hbelow, if_pos hx']
      omega
    · simp only [if_neg hbelow]
      split
      · omega
      · exact hlt

end Consistent

/-- The child of an addition gets the parent, and all else keeps its own. -/
theorem parent?_addChild {p c : String} (position : Option Nat) (h : g.CanAdd p c)
    (x : String) :
    (g.addChild p c position).parent? x = if x = c then some p else g.parent? x := by
  rcases addChild_cases g p c position with ⟨-, hno⟩ | ⟨-, heq⟩
  · exact absurd h hno
  · rw [heq, parent?_modify_parent]
    by_cases hx : x = c
    · subst hx
      have hchild := h.2.1
      rw [← contains_detach g x x] at hchild
      obtain ⟨node, hnode⟩ := Dict.contains_eq_true_iff.mp hchild
      rw [if_pos rfl, if_pos rfl, get?_modify, show (g.detach x).get? x = some node from hnode]
      split <;> rfl
    · rw [if_neg hx, if_neg hx, parent?_modify, parent?_detach, if_neg hx]
      exact fun node => rfl

/-- The parent of an addition lists the child beside what it listed without it. -/
theorem refs_addChild_perm {p c : String} (position : Option Nat) (h : g.CanAdd p c)
    (x : String) :
    ((g.addChild p c position).refs x).Perm
      (if x = p then c :: (g.detach c).refs x else (g.detach c).refs x) := by
  rcases addChild_cases g p c position with ⟨-, hno⟩ | ⟨-, heq⟩
  · exact absurd h hno
  · rw [heq, refs_modify]
    · exact refs_modify_insertAt _ _ _ _ _ ((contains_detach g c p).trans h.1)
    · exact fun node => rfl

theorem get?_addChild_own (g : Graph) (p c : String) (position : Option Nat) (x : String) :
    ((g.addChild p c position).get? x).map Node.own = (g.get? x).map Node.own := by
  rcases addChild_cases g p c position with ⟨heq, -⟩ | ⟨-, heq⟩
  · rw [heq]
  · rw [heq, get?_modify_own, get?_modify_own, get?_detach_own]
    · exact fun node => own_insertAt node position c
    · exact fun node => rfl

namespace Consistent

theorem addChild (h : g.Consistent) (p c : String) (position : Option Nat) :
    (g.addChild p c position).Consistent := by
  rcases addChild_cases g p c position with ⟨heq, -⟩ | ⟨hadd, -⟩
  · rw [heq]
    exact h
  · have hd := h.detach c
    have hnone : (g.detach c).parent? c = none := by rw [parent?_detach, if_pos rfl]
    -- No one lists the child any more, so that the new reference is its only one.
    have hfresh : ∀ q, c ∉ (g.detach c).refs q := by
      intro q hmem
      rw [hd.mem_refs_iff, hnone] at hmem
      exact absurd hmem (by simp)
    refine ⟨h.id_eq_of_own_eq (get?_addChild_own g p c position),
      fun q x => ?_, fun q => ?_, ?_⟩
    · rw [(refs_addChild_perm position hadd q).mem_iff, parent?_addChild position hadd]
      by_cases hx : x = c
      · subst hx
        rw [if_pos rfl, Option.some.injEq]
        by_cases hq : q = p
        · simp [hq]
        · rw [if_neg hq]
          exact iff_of_false (hfresh q) fun he => hq he.symm
      · have hold := hd.mem_refs_iff q x
        rw [parent?_detach, if_neg hx] at hold
        rw [if_neg hx, ← hold]
        split
        · simp [hx]
        · rfl
    · rw [(refs_addChild_perm position hadd q).nodup_iff]
      split
      · exact List.nodup_cons.mpr ⟨hfresh q, hd.nodup_refs q⟩
      · exact hd.nodup_refs q
    · refine h.ranked_link (p := p) (c := c) (fun hclimb => ?_)
        (fun x hx => by rw [parent?_addChild position hadd, if_neg hx])
        (by rw [parent?_addChild position hadd, if_pos rfl])
      have hno := hadd.2.2
      rw [(h.isAncestor_iff c p).mpr hclimb] at hno
      exact absurd hno (by simp)

end Consistent

/-! ### Deleting -/

/-- The references of the nodes of one level are the next. -/
theorem mem_level_succ {g₀ : Graph} (h : g₀.Consistent) {id : String} {level : Nat}
    {ids : List String} (hids : ∀ x, x ∈ ids ↔ g₀.climb level x = some id)
    (hget : ∀ x ∈ ids, g.get? x = g₀.get? x) (y : String) :
    y ∈ (ids.filterMap g.get?).flatMap Node.childRefs ↔ g₀.climb (level + 1) y = some id := by
  rw [List.mem_flatMap, climb_succ, Option.bind_eq_some_iff]
  constructor
  · rintro ⟨node, hnode, hy⟩
    obtain ⟨x, hx, hxnode⟩ := List.mem_filterMap.mp hnode
    rw [hget x hx] at hxnode
    exact ⟨x, (h.mem_refs_iff x y).mp (by rw [refs_of_get? hxnode]; exact hy), (hids x).mp hx⟩
  · rintro ⟨x, hparent, hclimb⟩
    obtain ⟨node, hnode⟩ := h.get?_of_parent hparent
    have hx := (hids x).mpr hclimb
    refine ⟨node, List.mem_filterMap.mpr ⟨x, hx, by rw [hget x hx]; exact hnode⟩, ?_⟩
    rw [← refs_of_get? hnode]
    exact (h.mem_refs_iff x y).mpr hparent

/-- The graph without the nodes of some ids. A root among them is no root any more. -/
def without (g : Graph) (ids : List String) : Graph where
  nodes := ids.foldl Dict.erase g.nodes
  root := if g.root.any ids.contains then none else g.root

@[simp] theorem without_nil (g : Graph) : g.without [] = g := by
  obtain ⟨nodes, root⟩ := g
  cases root <;> simp [without]

theorem without_without (g : Graph) (xs ys : List String) :
    (g.without xs).without ys = g.without (xs ++ ys) := by
  cases hroot : g.root with
  | none => simp [without, hroot]
  | some r => by_cases hr : r ∈ xs <;> simp [without, hroot, hr]

theorem get?_without (g : Graph) (ids : List String) (x : String) :
    (g.without ids).get? x = if x ∈ ids then none else g.get? x :=
  Dict.get?_foldl_erase g.nodes ids x

/-- Removing level by level takes away what is below the id, from a level on, if no level is beyond
the limit. -/
theorem prune_eq_without {g₀ : Graph} (h : g₀.Consistent) {id : String} (limit level : Nat)
    {ids : List String} (hids : ∀ x, x ∈ ids ↔ g₀.climb level x = some id)
    (hbound : ∀ steps x, g₀.climb steps x = some id → steps < level + limit)
    (hkept : ∀ x, (¬ ∃ steps < level, g₀.climb steps x = some id) → g.get? x = g₀.get? x) :
    ∃ removed, g.prune limit ids = g.without removed ∧
      ∀ x, x ∈ removed ↔ ∃ steps ≥ level, g₀.climb steps x = some id := by
  induction limit generalizing g level ids with
  | zero =>
      refine ⟨[], by rw [prune, without_nil], fun x => ⟨fun hx => absurd hx List.not_mem_nil, ?_⟩⟩
      rintro ⟨steps, hge, hs⟩
      have hlt := hbound steps x hs
      omega
  | succ limit ih =>
      rw [prune]
      split
      · next hempty =>
          refine ⟨[], by rw [without_nil], fun x => ⟨fun hx => absurd hx List.not_mem_nil, ?_⟩⟩
          rintro ⟨steps, hge, hs⟩
          -- A walk of so many steps would pass through this level, which is empty.
          obtain ⟨above, rfl⟩ := Nat.exists_eq_add_of_le' hge
          rw [climb_add] at hs
          obtain ⟨y, -, hy⟩ := Option.bind_eq_some_iff.mp hs
          have hmem := (hids y).mpr hy
          rw [List.isEmpty_iff.mp hempty] at hmem
          exact absurd hmem List.not_mem_nil
      · -- A node of this level is not of one before, so it still stands.
        have hget : ∀ y ∈ ids, g.get? y = g₀.get? y := by
          intro y hy
          refine hkept y fun ⟨steps, hlt, hs⟩ => ?_
          have heq := h.climb_inj hs ((hids y).mp hy)
          omega
        have hkept' : ∀ x, (¬ ∃ steps < level + 1, g₀.climb steps x = some id) →
            (g.without ids).get? x = g₀.get? x := by
          intro x hx
          have hnot : x ∉ ids := fun hmem =>
            hx ⟨level, Nat.lt_succ_self level, (hids x).mp hmem⟩
          rw [get?_without, if_neg hnot]
          exact hkept x fun ⟨steps, hlt, hs⟩ => hx ⟨steps, Nat.lt_succ_of_lt hlt, hs⟩
        have hbound' : ∀ steps x, g₀.climb steps x = some id → steps < level + 1 + limit := by
          intro steps x hs
          have hlt := hbound steps x hs
          omega
        obtain ⟨removed, hpruned, hremoved⟩ :=
          ih (level + 1) (mem_level_succ h hids hget) hbound' hkept'
        refine ⟨ids ++ removed, hpruned.trans (g.without_without ids removed), fun x => ?_⟩
        rw [List.mem_append, hids, hremoved]
        constructor
        · rintro (hs | ⟨steps, hge, hs⟩)
          · exact ⟨level, Nat.le_refl level, hs⟩
          · exact ⟨steps, Nat.le_of_succ_le hge, hs⟩
        · rintro ⟨steps, hge, hs⟩
          rcases Nat.eq_or_lt_of_le hge with rfl | hgt
          · exact Or.inl hs
          · exact Or.inr ⟨steps, hgt, hs⟩

/-- A deletion takes the node, once it is detached, and all below it. -/
theorem delete_eq_without (h : g.Consistent) {id : String} (hid : g.nodes.contains id = true) :
    ∃ removed, g.delete id = (g.detach id).without removed ∧
      ∀ x, x ∈ removed ↔ ∃ steps, (g.detach id).climb steps x = some id := by
  have hmono : ∀ c p, (g.detach id).parent? c = some p → g.parent? c = some p := by
    intro c p hp
    rw [parent?_detach] at hp
    split at hp
    · exact absurd hp (by simp)
    · exact hp
  -- The walks of the detached graph are walks of the graph, which bounds their length.
  have hbound : ∀ steps x, (g.detach id).climb steps x = some id →
      steps < 0 + (g.nodes.size + 1) := by
    intro steps x hs
    have hle := h.climb_le_size (climb_mono hmono hs)
    omega
  have hids : ∀ x, x ∈ [id] ↔ (g.detach id).climb 0 x = some id := by
    intro x
    simp
  obtain ⟨removed, hpruned, hremoved⟩ :=
    prune_eq_without (h.detach id) (g.nodes.size + 1) 0 hids hbound fun x _ => rfl
  refine ⟨removed, by rw [delete, if_pos hid]; exact hpruned, fun x => ?_⟩
  rw [hremoved]
  simp

/-- A deletion keeps every other node as it is once the node deleted is detached. -/
theorem get?_delete (h : g.Consistent) {id : String} (hid : g.nodes.contains id = true)
    (x : String) :
    ((∃ steps, (g.detach id).climb steps x = some id) → (g.delete id).get? x = none) ∧
      ((¬ ∃ steps, (g.detach id).climb steps x = some id) →
        (g.delete id).get? x = (g.detach id).get? x) := by
  obtain ⟨removed, hdelete, hremoved⟩ := delete_eq_without h hid
  rw [hdelete, get?_without, ← hremoved]
  exact ⟨fun hx => if_pos hx, fun hx => if_neg hx⟩

namespace Consistent

/-- Whole trees can be taken from a consistent graph. -/
theorem remove_trees (h : g.Consistent) {g' : Graph} {removed : String → Prop}
    (hclosed : ∀ c p, g.parent? c = some p → (removed c ↔ removed p))
    (hleft : ∀ x, removed x → g'.get? x = none)
    (hkept : ∀ x, ¬ removed x → g'.get? x = g.get? x) : g'.Consistent := by
  have hparent : ∀ x, ¬ removed x → g'.parent? x = g.parent? x := by
    intro x hx
    rw [parent?, hkept x hx, parent?]
  have hrefs : ∀ x, ¬ removed x → g'.refs x = g.refs x := by
    intro x hx
    rw [refs, hkept x hx, refs]
  refine ⟨fun id node hnode => ?_, fun p c => ?_, fun p => ?_, ?_⟩
  · by_cases hid : removed id
    · rw [hleft id hid] at hnode
      exact absurd hnode (by simp)
    · exact h.id_eq id node (by rw [← hkept id hid]; exact hnode)
  -- A link has both its ends among what is removed, or neither.
  · by_cases hp : removed p <;> by_cases hc : removed c
    · rw [refs_of_get?_none (hleft p hp), parent?_of_get?_none (hleft c hc)]
      simp
    · rw [refs_of_get?_none (hleft p hp), hparent c hc]
      exact iff_of_false List.not_mem_nil fun hpc => hc ((hclosed c p hpc).mpr hp)
    · rw [hrefs p hp, parent?_of_get?_none (hleft c hc), h.mem_refs_iff]
      exact iff_of_false (fun hpc => hp ((hclosed c p hpc).mp hc)) (by simp)
    · rw [hrefs p hp, hparent c hc, h.mem_refs_iff]
  · by_cases hp : removed p
    · rw [refs_of_get?_none (hleft p hp)]
      exact List.nodup_nil
    · rw [hrefs p hp]
      exact h.nodup_refs p
  · obtain ⟨rank, hr⟩ := h.ranked
    refine ⟨rank, fun c p hpc => ?_⟩
    by_cases hc : removed c
    · rw [parent?_of_get?_none (hleft c hc)] at hpc
      exact absurd hpc (by simp)
    · exact hr c p (by rw [← hparent c hc]; exact hpc)

theorem delete (h : g.Consistent) (id : String) : (g.delete id).Consistent := by
  by_cases hid : g.nodes.contains id = true
  · refine (h.detach id).remove_trees (fun c p hp => ?_) (fun x => (get?_delete h hid x).1)
      (fun x => (get?_delete h hid x).2)
    constructor
    · rintro ⟨steps, hs⟩
      cases steps with
      | zero =>
          -- The node deleted is a root once it is detached.
          rw [Option.some.inj hs, parent?_detach, if_pos rfl] at hp
          exact absurd hp (by simp)
      | succ steps =>
          rw [climb_succ, hp] at hs
          exact ⟨steps, hs⟩
    · rintro ⟨steps, hs⟩
      exact ⟨steps + 1, by rw [climb_succ, hp]; exact hs⟩
  · rw [Graph.delete, if_neg hid]
    exact h

end Consistent

end Graph

end LiveScene
