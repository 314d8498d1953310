import HdlIndex.Proofs.Symbol.Slots

/-! Slots at the end of a reading. To release a scope gives up its slot and those below it, with a
list of what is still to be given up; to sweep does so with all scopes that the reading has not opened
again. Main statements: a store that holds a table holds the table behind the reading once the
reading has ended, and its values are those of the table. -/

namespace HdlIndex

namespace Node

theorem mem_releaseOrder {n : Node} {id : Nat} : id ∈ n.releaseOrder ↔ id ∈ n.ids := by
  rw [← List.count_pos_iff, n.count_releaseOrder, List.count_pos_iff]

theorem mem_releaseOrderOf {nodes : List Node} {id : Nat} :
    id ∈ releaseOrderOf nodes ↔ id ∈ idsOf nodes := by
  rw [← List.count_pos_iff, count_releaseOrderOf, List.count_pos_iff]

theorem map_id_sweepAll (nodes : List Node) :
    (sweepAll nodes).map (·.id) = nodes.map (·.id) := by
  rw [sweepAll_eq, List.map_map]
  exact List.map_congr_left fun n _ => n.id_sweep

/-- The numbers of a scope are those that stay and those that are given up. -/
theorem perm_sweep (n : Node) : (n.sweep.ids ++ n.staleIds).Perm n.ids := by
  rw [List.perm_iff_count]
  intro id
  rw [List.count_append, n.count_sweep]

theorem perm_sweepAll (nodes : List Node) :
    (idsOf (sweepAll nodes) ++ staleIdsOf nodes).Perm (idsOf nodes) := by
  rw [List.perm_iff_count]
  intro id
  rw [List.count_append, count_sweepAll]

end Node

namespace ScopeStore

variable {s : ScopeStore}

/-! ### Slots that are given up -/

/-- Gives up slots, one after another. -/
def giveUpAll (s : ScopeStore) (ids : List Nat) : ScopeStore := ids.foldl giveUp s

theorem giveUpAll_append (s : ScopeStore) (a b : List Nat) :
    s.giveUpAll (a ++ b) = (s.giveUpAll a).giveUpAll b := List.foldl_append

theorem size_giveUpAll (s : ScopeStore) (ids : List Nat) :
    (s.giveUpAll ids).slots.size = s.slots.size := by
  induction ids generalizing s with
  | nil => rfl
  | cons id ids ih => exact (ih _).trans Array.size_setIfInBounds

theorem free_giveUpAll (s : ScopeStore) (ids : List Nat) :
    (s.giveUpAll ids).free = ids.reverse ++ s.free := by
  induction ids generalizing s with
  | nil => rfl
  | cons id ids ih =>
    refine (ih _).trans ?_
    rw [List.reverse_cons, List.append_assoc]
    rfl

theorem anonymous_giveUpAll (s : ScopeStore) (ids : List Nat) :
    (s.giveUpAll ids).anonymous = s.anonymous := by
  induction ids generalizing s with
  | nil => rfl
  | cons id ids ih => exact ih _

theorem getElem?_giveUpAll_of_not_mem {ids : List Nat} {i : Nat} (h : i ∉ ids) :
    (s.giveUpAll ids).slots[i]? = s.slots[i]? := by
  induction ids generalizing s with
  | nil => rfl
  | cons id ids ih =>
    rw [List.mem_cons, not_or] at h
    refine (ih h.2).trans ?_
    rw [giveUp, Array.getElem?_setIfInBounds, if_neg (Ne.symm h.1)]

theorem getElem?_giveUpAll_of_mem {ids : List Nat} {i : Nat} (h : i ∈ ids)
    (hi : i < s.slots.size) : (s.giveUpAll ids).slots[i]? = some {} := by
  induction ids generalizing s with
  | nil => cases h
  | cons id ids ih =>
    have hsize : (s.giveUp id).slots.size = s.slots.size := Array.size_setIfInBounds
    by_cases hmem : i ∈ ids
    · exact ih hmem (hsize ▸ hi)
    · obtain rfl : i = id := (List.mem_cons.1 h).resolve_right hmem
      refine (getElem?_giveUpAll_of_not_mem hmem).trans ?_
      rw [giveUp, Array.getElem?_setIfInBounds_self_of_lt hi]

theorem Has.giveUpAll {entries : List (Nat × Slot)} (h : s.Has entries) {ids : List Nat}
    (hapart : ∀ i ∈ entries.map (·.1), i ∉ ids) : (s.giveUpAll ids).Has entries :=
  h.of_agree fun i hi => getElem?_giveUpAll_of_not_mem (hapart i hi)

mutual

/-- To release a scope gives up its slot and those below it before anything else that is pending. -/
theorem release_node {parent : Option Nat} (n : Node) (s : ScopeStore)
    (h : s.Has (n.slots parent)) (hnd : n.ids.Nodup) (pending : List Nat) :
    s.release (n.id :: pending) = (s.giveUpAll n.releaseOrder).release pending := by
  match n with
  | ⟨id, scope, children, previous⟩ =>
    rw [Node.slots] at h
    rw [Node.ids, List.nodup_cons, List.nodup_append, List.mem_append, not_or] at hnd
    obtain ⟨hid, hndc, hndp, hapart⟩ := hnd
    have hslot : s.slot id = ⟨scope, parent, children.map (·.id), previous.map (·.id)⟩ :=
      slot_of_getElem? (h _ List.mem_cons_self)
    have hrelease : s.release (id :: pending) = (s.giveUpAll [id]).release
        ((previous.map (·.id)).reverse ++ ((children.map (·.id)).reverse ++ pending)) := by
      rw [release, hslot]
      rfl
    obtain ⟨hchildren, hprevious⟩ := has_append.1 (h.mono (List.subset_cons_self _ _))
    have hprevious' : (s.giveUpAll [id]).Has (Node.slotsOf (some id) previous) := by
      refine hprevious.giveUpAll fun i hi hmem => hid.2 ?_
      rwa [Node.map_fst_slotsOf, List.mem_singleton.1 hmem] at hi
    have hchildren' : (s.giveUpAll (id :: Node.releaseOrderOf previous)).Has
        (Node.slotsOf (some id) children) := by
      refine hchildren.giveUpAll fun i hi hmem => ?_
      rw [Node.map_fst_slotsOf] at hi
      rcases List.mem_cons.1 hmem with rfl | hmem
      · exact hid.1 hi
      · exact hapart i hi i (Node.mem_releaseOrderOf.1 hmem) rfl
    rw [hrelease, release_row previous _ hprevious' hndp, ← giveUpAll_append, List.singleton_append,
      release_row children _ hchildren' hndc, Node.releaseOrder, ← giveUpAll_append,
      List.cons_append]

theorem release_row {parent : Option Nat} (nodes : List Node) (s : ScopeStore)
    (h : s.Has (Node.slotsOf parent nodes)) (hnd : (Node.idsOf nodes).Nodup) (pending : List Nat) :
    s.release ((nodes.map (·.id)).reverse ++ pending) =
      (s.giveUpAll (Node.releaseOrderOf nodes)).release pending := by
  match nodes with
  | [] => rfl
  | n :: rest =>
    rw [Node.slotsOf, has_append] at h
    rw [Node.idsOf, List.nodup_append] at hnd
    have hn : (s.giveUpAll (Node.releaseOrderOf rest)).Has (n.slots parent) := by
      refine h.1.giveUpAll fun i hi hrest => ?_
      rw [Node.map_fst_slots] at hi
      exact hnd.2.2 i hi i (Node.mem_releaseOrderOf.1 hrest) rfl
    rw [List.map_cons, List.reverse_cons, List.append_assoc, release_row rest s h.2 hnd.2.1,
      Node.releaseOrderOf, giveUpAll_append]
    exact release_node n _ hn hnd.1 pending

end

/-- The containers of a row are released one after another. -/
theorem foldl_release {parent : Option Nat} (nodes : List Node) (s : ScopeStore)
    (h : s.Has (Node.slotsOf parent nodes)) (hnd : (Node.idsOf nodes).Nodup) :
    (nodes.map (·.id)).foldl (fun s id => s.release [id]) s =
      s.giveUpAll (nodes.flatMap Node.releaseOrder) := by
  induction nodes generalizing s with
  | nil => rfl
  | cons n rest ih =>
    rw [Node.slotsOf, has_append] at h
    rw [Node.idsOf, List.nodup_append] at hnd
    have hrest : (s.giveUpAll n.releaseOrder).Has (Node.slotsOf parent rest) := by
      refine h.2.giveUpAll fun i hi hn => ?_
      rw [Node.map_fst_slotsOf] at hi
      exact hnd.2.2 i (Node.mem_releaseOrder.1 hn) i hi rfl
    rw [List.map_cons, List.foldl_cons, release_node n s h.1 hnd.1, release, ih _ hrest hnd.2.1,
      List.flatMap_cons, giveUpAll_append]

/-! ### Sweeps -/

/-- Whether some slots among those of `ids` were given up and no others were touched. -/
structure GivesUp (s s' : ScopeStore) (ids stale : List Nat) : Prop where
  size : s'.slots.size = s.slots.size
  anonymous : s'.anonymous = s.anonymous
  free : s'.free = stale.reverse ++ s.free
  subset : stale ⊆ ids
  blank : ∀ i ∈ stale, s'.slots[i]? = some {}
  others : ∀ i, i ∉ ids → s'.slots[i]? = s.slots[i]?

theorem GivesUp.trans {s' s'' : ScopeStore} {ids ids' stale stale' : List Nat}
    (h : s.GivesUp s' ids stale) (h' : s'.GivesUp s'' ids' stale') (hapart : ∀ i ∈ ids, i ∉ ids') :
    s.GivesUp s'' (ids ++ ids') (stale ++ stale') where
  size := h'.size.trans h.size
  anonymous := h'.anonymous.trans h.anonymous
  free := by rw [h'.free, h.free, List.reverse_append, List.append_assoc]
  subset := by
    intro i hi
    rw [List.mem_append] at hi ⊢
    exact hi.imp (h.subset ·) (h'.subset ·)
  blank := by
    intro i hi
    rcases List.mem_append.1 hi with hi | hi
    · rw [h'.others i (hapart i (h.subset hi)), h.blank i hi]
    · exact h'.blank i hi
  others := by
    intro i hi
    rw [List.mem_append, not_or] at hi
    rw [h'.others i hi.2, h.others i hi.1]

theorem GivesUp.mono {s' : ScopeStore} {ids ids' stale : List Nat} (h : s.GivesUp s' ids stale)
    (hsub : ids ⊆ ids') : s.GivesUp s' ids' stale where
  size := h.size
  anonymous := h.anonymous
  free := h.free
  subset := fun _ hi => hsub (h.subset hi)
  blank := h.blank
  others := fun i hi => h.others i fun hmem => hi (hsub hmem)

theorem GivesUp.refl (s : ScopeStore) : s.GivesUp s [] [] :=
  ⟨rfl, rfl, rfl, List.Subset.refl _, by simp, fun _ _ => rfl⟩

theorem Has.lt {entries : List (Nat × Slot)} (h : s.Has entries) :
    ∀ i ∈ entries.map (·.1), i < s.slots.size := by
  intro i hi
  obtain ⟨e, he, rfl⟩ := List.mem_map.1 hi
  exact (Array.getElem?_eq_some_iff.1 (h e he)).1

/-- A scope gives up its containers of an earlier reading. -/
theorem givesUp_previous {id : Nat} {slot : Slot} {parent : Option Nat} (previous : List Node)
    (hself : s.slots[id]? = some slot) (h : s.Has (Node.slotsOf parent previous))
    (hnd : (id :: Node.idsOf previous).Nodup) (hids : slot.previous = previous.map (·.id)) :
    ∃ s' : ScopeStore, (s.slot id).previous.foldl (fun s stale => s.release [stale])
        (s.modify id ({ · with previous := [] })) = s' ∧
      s.GivesUp s' (id :: Node.idsOf previous) (previous.flatMap Node.releaseOrder) ∧
      s'.slots[id]? = some { slot with previous := [] } := by
  rw [List.nodup_cons] at hnd
  have hmem (i : Nat) : i ∈ previous.flatMap Node.releaseOrder ↔ i ∈ Node.idsOf previous := by
    rw [← List.count_pos_iff, Node.count_flatMap_releaseOrder, List.count_pos_iff]
  have hkeep : (s.modify id ({ · with previous := [] })).Has (Node.slotsOf parent previous) := by
    refine h.modify ?_ _
    rw [Node.map_fst_slotsOf]
    exact hnd.1
  have hsize : (s.modify id ({ · with previous := [] })).slots.size = s.slots.size :=
    Array.size_modify
  refine ⟨_, ?_, ⟨(size_giveUpAll _ _).trans hsize, anonymous_giveUpAll _ _, free_giveUpAll _ _,
    ?_, ?_, ?_⟩, ?_⟩
  · rw [slot_of_getElem? hself, hids]
    exact foldl_release previous _ hkeep hnd.2
  · exact fun i hi => List.mem_cons_of_mem _ ((hmem i).1 hi)
  · intro i hi
    refine getElem?_giveUpAll_of_mem hi (hkeep.lt i ?_)
    rwa [Node.map_fst_slotsOf, ← hmem]
  · intro i hi
    rw [List.mem_cons, not_or] at hi
    rw [getElem?_giveUpAll_of_not_mem (fun hi' => hi.2 ((hmem i).1 hi')),
      getElem?_modify_of_ne hi.1]
  · rw [getElem?_giveUpAll_of_not_mem (fun hi => hnd.1 ((hmem id).1 hi)),
      getElem?_modify_self hself]

mutual

/-- To sweep a scope, as many scopes are looked at as stay of it and those below it. -/
theorem sweep_node {parent : Option Nat} (n : Node) (s : ScopeStore)
    (h : s.Has (n.slots parent)) (hnd : n.ids.Nodup) :
    ∃ s', s.GivesUp s' n.ids n.staleIds ∧ s'.Has (n.sweep.slots parent) ∧
      ∀ bound pending, s.sweep (n.sweep.ids.length + bound) (n.id :: pending) =
        s'.sweep bound pending := by
  match n with
  | ⟨id, scope, children, previous⟩ =>
    rw [Node.slots] at h
    rw [Node.ids, List.nodup_cons, List.nodup_append, List.mem_append, not_or] at hnd
    obtain ⟨hid, hndc, hndp, hapart⟩ := hnd
    obtain ⟨hchildren, hprevious⟩ := has_append.1 (h.mono (List.subset_cons_self _ _))
    obtain ⟨s₁, hs₁, hstale, hself⟩ := givesUp_previous previous (h _ List.mem_cons_self) hprevious
      (List.nodup_cons.2 ⟨hid.2, hndp⟩) rfl
    have hapart' : ∀ i ∈ id :: Node.idsOf previous, i ∉ Node.idsOf children := by
      intro i hi hmem
      rcases List.mem_cons.1 hi with rfl | hi
      · exact hid.1 hmem
      · exact hapart i hmem i hi rfl
    have hchildren₁ : s₁.Has (Node.slotsOf (some id) children) := by
      refine hchildren.of_agree fun i hi => hstale.others i fun hmem => ?_
      rw [Node.map_fst_slotsOf] at hi
      exact hapart' i hmem hi
    obtain ⟨s₂, hgives, hhas, hsweep⟩ := sweep_row children s₁ hchildren₁ hndc
    refine ⟨s₂, ?_, ?_, fun bound pending => ?_⟩
    · rw [Node.staleIds]
      refine (hstale.trans hgives hapart').mono fun i hi => ?_
      simp only [Node.ids, List.mem_append, List.mem_cons] at hi ⊢
      grind
    · rw [Node.sweep, Node.slots, Node.map_id_sweepAll, Node.slotsOf, List.append_nil]
      refine List.forall_mem_cons.2 ⟨?_, hhas⟩
      exact (hgives.others id hid.1).trans hself
    · have hbound : (Node.sweep ⟨id, scope, children, previous⟩).ids.length + bound =
          (Node.idsOf (Node.sweepAll children)).length + bound + 1 := by
        simp only [Node.sweep, Node.ids, Node.idsOf, List.length_cons, List.append_nil]
        omega
      rw [hbound, ScopeStore.sweep]
      dsimp only
      rw [hs₁, slot_of_getElem? hself]
      exact hsweep bound pending

theorem sweep_row {parent : Option Nat} (nodes : List Node) (s : ScopeStore)
    (h : s.Has (Node.slotsOf parent nodes)) (hnd : (Node.idsOf nodes).Nodup) :
    ∃ s', s.GivesUp s' (Node.idsOf nodes) (Node.staleIdsOf nodes) ∧
      s'.Has (Node.slotsOf parent (Node.sweepAll nodes)) ∧
      ∀ bound pending, s.sweep ((Node.idsOf (Node.sweepAll nodes)).length + bound)
        ((nodes.map (·.id)).reverse ++ pending) = s'.sweep bound pending := by
  match nodes with
  | [] => exact ⟨s, .refl s, h, fun bound pending => by simp [Node.sweepAll, Node.idsOf]⟩
  | n :: rest =>
    rw [Node.slotsOf, has_append] at h
    rw [Node.idsOf, List.nodup_append] at hnd
    obtain ⟨hn, hrest⟩ := h
    obtain ⟨hndn, hndr, hapart⟩ := hnd
    obtain ⟨s₁, hgives₁, hhas₁, hsweep₁⟩ := sweep_row rest s hrest hndr
    have hn₁ : s₁.Has (n.slots parent) := by
      refine hn.of_agree fun i hi => hgives₁.others i fun hmem => ?_
      rw [Node.map_fst_slots] at hi
      exact hapart i hi i hmem rfl
    obtain ⟨s₂, hgives₂, hhas₂, hsweep₂⟩ := sweep_node n s₁ hn₁ hndn
    refine ⟨s₂, ?_, ?_, fun bound pending => ?_⟩
    · rw [Node.staleIdsOf]
      refine (hgives₁.trans hgives₂ fun i hi hmem => hapart i hmem i hi rfl).mono fun i hi => ?_
      rw [Node.idsOf]
      exact List.mem_append.2 (List.mem_append.1 hi).symm
    · rw [Node.sweepAll, Node.slotsOf, has_append]
      refine ⟨hhas₂, hhas₁.of_agree fun i hi => hgives₂.others i fun hmem => ?_⟩
      rw [Node.map_fst_slotsOf] at hi
      have hi' := (Node.perm_sweepAll rest).subset (List.mem_append_left _ hi)
      exact hapart i hmem i hi' rfl
    · have hbound : (Node.idsOf (Node.sweepAll (n :: rest))).length + bound =
          (Node.idsOf (Node.sweepAll rest)).length + (n.sweep.ids.length + bound) := by
        rw [Node.sweepAll, Node.idsOf, List.length_append]
        omega
      rw [hbound, List.map_cons, List.reverse_cons, List.append_assoc, hsweep₁]
      exact hsweep₂ bound pending

end

/-- Behind a reading a store holds what the table holds. -/
theorem Holds.endParse {t : SymbolTable} (h : s.Holds t) (ht : t.Sound) :
    s.endParse.Holds t.endParse := by
  obtain ⟨hndIds, -, hapart⟩ := List.nodup_append.1 ht.nodup
  obtain ⟨s', hgives, hhas, hsweep⟩ := sweep_node t.root s h.tree hndIds
  have hids : t.root.sweep.ids.length ≤ s.slots.size := by
    have hsweeped := t.root.perm_sweep.length_eq
    have hnumbers := ht.numbers.length_eq
    rw [List.length_append] at hsweeped hnumbers
    rw [List.length_range] at hnumbers
    rw [h.size]
    omega
  have hend : s.endParse = s' := by
    have hrun := hsweep (s.slots.size - t.root.sweep.ids.length) []
    rw [Nat.add_sub_cancel' hids, ht.root_id] at hrun
    rw [ScopeStore.endParse]
    refine hrun.trans ?_
    cases s.slots.size - t.root.sweep.ids.length <;> rfl
  rw [hend]
  refine ⟨hgives.size.trans h.size, ?_, hgives.anonymous.trans h.anonymous, hhas, ?_⟩
  · rw [hgives.free, h.free]
    rfl
  · intro id hid
    rcases List.mem_append.1 hid with hid | hid
    · exact hgives.blank id (List.mem_reverse.1 hid)
    · rw [hgives.others id fun hmem => hapart id hmem id hid rfl]
      exact h.blank id hid

/-! ### Values -/

theorem Holds.nodeCount {t : SymbolTable} (h : s.Holds t) : s.nodeCount = t.nodeCount := by
  rw [ScopeStore.nodeCount, SymbolTable.nodeCount, h.size, h.free]

theorem containersOf_nil (s : ScopeStore) (bound : Nat) : s.containersOf bound [] = [] := by
  cases bound <;> rfl

theorem containersOf_cons (s : ScopeStore) (bound id : Nat) (ids : List Nat) :
    s.containersOf bound (id :: ids) = s.containersOf bound [id] ++ s.containersOf bound ids := by
  cases bound with
  | zero => rfl
  | succ bound =>
    simp only [containersOf]
    exact List.filterMap_append (l := [id])

mutual

/-- A slot has the container of the scope that is in it. -/
theorem containersOf_node {parent : Option Nat} (n : Node) (h : s.Has (n.slots parent))
    {bound : Nat} (hbound : n.ids.length ≤ bound) :
    s.containersOf bound [n.id] = n.toContainer?.toList := by
  match n, bound with
  | ⟨id, scope, children, previous⟩, 0 => simp [Node.ids] at hbound
  | ⟨id, scope, children, previous⟩, bound + 1 =>
    rw [Node.slots] at h
    simp only [Node.ids, List.length_cons, List.length_append] at hbound
    have hslot : s.slot id = ⟨scope, parent, children.map (·.id), previous.map (·.id)⟩ :=
      slot_of_getElem? (h _ List.mem_cons_self)
    have hchildren := (has_append.1 (h.mono (List.subset_cons_self _ _))).1
    have hle : (Node.idsOf children).length ≤ bound := by omega
    have hrow := containersOf_row children hchildren hle
    rw [containersOf, Node.toContainer?]
    simp only [List.filterMap_cons, List.filterMap_nil, hslot, hrow]
    cases scope.symbol <;> rfl

theorem containersOf_row {parent : Option Nat} (nodes : List Node)
    (h : s.Has (Node.slotsOf parent nodes)) {bound : Nat}
    (hbound : (Node.idsOf nodes).length ≤ bound) :
    s.containersOf bound (nodes.map (·.id)) = Node.containersOf nodes := by
  match nodes with
  | [] => exact s.containersOf_nil bound
  | n :: rest =>
    rw [Node.slotsOf, has_append] at h
    rw [Node.idsOf, List.length_append] at hbound
    rw [List.map_cons, containersOf_cons, containersOf_node n h.1 (by omega),
      containersOf_row rest h.2 (by omega), Node.containersOf]

end

/-- The value of a store is that of the table that it holds. -/
theorem Holds.toFileSymbols {t : SymbolTable} (h : s.Holds t) (ht : t.Sound)
    (includes : List String) : s.toFileSymbols includes = t.toFileSymbols includes := by
  obtain ⟨hroot, hinner⟩ := h.has_root ht
  have hbound : (Node.idsOf t.root.children).length ≤ s.slots.size := by
    have hnumbers := ht.numbers.length_eq
    rw [t.root.ids_eq] at hnumbers
    simp only [List.length_append, List.length_cons, List.length_range] at hnumbers
    rw [h.size]
    omega
  rw [ScopeStore.toFileSymbols, SymbolTable.toFileSymbols, hroot]
  simp only [Node.slot, containersOf_row _ (has_append.1 hinner).1 hbound]

end ScopeStore

end HdlIndex
