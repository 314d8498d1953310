import HdlIndex.Proofs.Symbol.Edits
import HdlIndex.Symbol.Store
import Mathlib.Data.List.Find

/-! Trees in slots. A store holds a tree of scopes if each scope of the tree stands in the slot of its
number, with links that say what is around it and what is inside. Main statement: declaring, opening
containers and starting a reading do the same to a store and to the table that it holds, and hand out
the same numbers. -/

namespace HdlIndex

/-! ### The slots of a tree -/

namespace Node

/-- The slot of a scope, given the number of the scope around it. -/
def slot (parent : Option Nat) (n : Node) : Slot :=
  ⟨n.scope, parent, n.children.map (·.id), n.previous.map (·.id)⟩

mutual

/-- The slots of a scope and of all scopes below it, each with its number. -/
def slots (parent : Option Nat) : Node → List (Nat × Slot)
  | ⟨id, scope, children, previous⟩ =>
    (id, ⟨scope, parent, children.map (·.id), previous.map (·.id)⟩) ::
      (slotsOf (some id) children ++ slotsOf (some id) previous)

def slotsOf (parent : Option Nat) : List Node → List (Nat × Slot)
  | [] => []
  | n :: rest => n.slots parent ++ slotsOf parent rest

end

/-- The slots of the scopes below a scope. -/
def innerSlots (n : Node) : List (Nat × Slot) :=
  slotsOf (some n.id) n.children ++ slotsOf (some n.id) n.previous

theorem slots_eq (parent : Option Nat) (n : Node) :
    n.slots parent = (n.id, n.slot parent) :: n.innerSlots := by
  obtain ⟨id, scope, children, previous⟩ := n
  rw [slots]
  rfl

theorem slotsOf_append (parent : Option Nat) (a b : List Node) :
    slotsOf parent (a ++ b) = slotsOf parent a ++ slotsOf parent b := by
  induction a with
  | nil => rfl
  | cons n a ih => simp only [List.cons_append, slotsOf, ih, List.append_assoc]

mutual

theorem map_fst_slots (parent : Option Nat) (n : Node) : (n.slots parent).map (·.1) = n.ids := by
  match n with
  | ⟨id, scope, children, previous⟩ =>
    rw [slots, ids, List.map_cons, List.map_append, map_fst_slotsOf, map_fst_slotsOf]

theorem map_fst_slotsOf (parent : Option Nat) (nodes : List Node) :
    (slotsOf parent nodes).map (·.1) = idsOf nodes := by
  match nodes with
  | [] => rfl
  | n :: rest => rw [slotsOf, idsOf, List.map_append, map_fst_slots, map_fst_slotsOf]

end

theorem map_fst_innerSlots (n : Node) :
    n.innerSlots.map (·.1) = idsOf n.children ++ idsOf n.previous := by
  rw [innerSlots, List.map_append, map_fst_slotsOf, map_fst_slotsOf]

theorem mem_slotsOf {parent : Option Nat} {nodes : List Node} {n : Node} (h : n ∈ nodes) :
    n.slots parent ⊆ slotsOf parent nodes := by
  induction nodes with
  | nil => cases h
  | cons m rest ih =>
    intro e he
    rw [slotsOf, List.mem_append]
    rcases List.mem_cons.1 h with rfl | h
    · exact .inl he
    · exact .inr (ih h he)

theorem innerSlots_reset_subset (n : Node) : n.reset.innerSlots ⊆ n.innerSlots := by
  intro e he
  simp only [innerSlots, reset, slotsOf, slotsOf_append, List.nil_append, List.mem_append] at he ⊢
  exact he.symm

theorem slot_reset (n : Node) (parent : Option Nat) :
    (n.slot parent).reset = n.reset.slot parent := by
  simp only [slot, reset, Slot.reset, List.map_nil, List.map_append]

theorem slot_reopen (n : Node) (symbol : Symbol) (parent : Option Nat) :
    (n.slot parent).reopen symbol = (n.reopen symbol).slot parent := by
  simp only [slot, reopen, reset, Slot.reopen, Slot.reset, List.map_nil, List.map_append]

end Node

namespace Frame

/-- The slots of a frame whose gap holds the scope with a number. -/
def slots (f : Frame) (parent : Option Nat) (inner : Nat) : List (Nat × Slot) :=
  let row := f.before.map (·.id) ++ inner :: f.after.map (·.id)
  let others := f.others.map (·.id)
  (f.id, if f.stale then ⟨f.scope, parent, others, row⟩ else ⟨f.scope, parent, row, others⟩) ::
    Node.slotsOf (some f.id) (f.before ++ f.after ++ f.others)

theorem map_fst_slots (f : Frame) (parent : Option Nat) (inner : Nat) :
    (f.slots parent inner).map (·.1) = f.ids := by
  rw [slots, ids, List.map_cons, Node.map_fst_slotsOf, Node.idsOf_append, Node.idsOf_append]

theorem perm_slots_fill (f : Frame) (parent : Option Nat) (n : Node) :
    ((f.fill n).slots parent).Perm (f.slots parent n.id ++ n.slots (some f.id)) := by
  classical
  rw [List.perm_iff_count]
  intro e
  cases hs : f.stale <;>
    simp only [fill, slots, hs, Node.slots, Node.slotsOf_append, Node.slotsOf, List.map_append,
      List.map_cons, List.count_append, List.count_cons, Bool.false_eq_true, if_true, if_false] <;> omega

end Frame

namespace Surroundings

/-- The number of the scope that a scope stands in. -/
def parent? (around : Surroundings) : Option Nat := around.head?.map (·.id)

/-- The slots of the surroundings of the scope with a number. -/
def slots : Surroundings → Nat → List (Nat × Slot)
  | [], _ => []
  | f :: around, inner => f.slots (parent? around) inner ++ slots around f.id

theorem map_fst_slots (around : Surroundings) (inner : Nat) :
    (around.slots inner).map (·.1) = around.ids := by
  induction around generalizing inner with
  | nil => rfl
  | cons f around ih =>
    rw [slots, List.map_append, f.map_fst_slots, ih, ids, ids, List.flatMap_cons]

theorem perm_slots_fill (around : Surroundings) (n : Node) :
    ((around.fill n).slots none).Perm (around.slots n.id ++ n.slots (parent? around)) := by
  induction around generalizing n with
  | nil => exact .refl _
  | cons f around ih =>
    refine (ih (f.fill n)).trans ?_
    rw [f.id_fill, slots]
    refine ((f.perm_slots_fill (parent? around) n).append_left _).trans ?_
    rw [← List.append_assoc]
    exact List.perm_append_comm.append_right _

end Surroundings

theorem SymbolTable.Sound.nodup_numbers {t : SymbolTable} {around : Surroundings} {n : Node}
    (h : t.Sound) (hr : t.root = around.fill n) : (around.ids ++ n.ids ++ t.free).Nodup :=
  (h.numbers_focus hr).nodup_iff.2 List.nodup_range

theorem SymbolTable.Sound.update_node {t : SymbolTable} {around : Surroundings} {n : Node}
    (h : t.Sound) (hr : t.root = around.fill n) (f : Node → Node) :
    t.root.update n.id f = around.fill (f n) := by
  rw [hr, Surroundings.update_fill _ n (h.not_mem_around hr _ n.id_mem_ids), n.update_self]

theorem SymbolTable.Sound.openContainer_focus {t : SymbolTable} {around : Surroundings} {n : Node}
    (h : t.Sound) (hr : t.root = around.fill n) (symbol : Symbol) :
    t.openContainer n.id symbol = t.openIn n (n.scope.located symbol) := by
  rw [openContainer, h.find?_focus hr]

namespace ScopeStore

/-! ### Slots by number -/

variable {s : ScopeStore} {id : Nat} {slot : Slot}

theorem slot_of_getElem? (h : s.slots[id]? = some slot) : s.slot id = slot := by
  rw [ScopeStore.slot, h, Option.getD_some]

theorem getElem?_modify_self (h : s.slots[id]? = some slot) (f : Slot → Slot) :
    (s.modify id f).slots[id]? = some (f slot) := by
  rw [modify, Array.getElem?_modify, if_pos rfl, h, Option.map_some]

theorem getElem?_modify_of_ne {i : Nat} (hne : i ≠ id) (f : Slot → Slot) :
    (s.modify id f).slots[i]? = s.slots[i]? := by
  rw [modify, Array.getElem?_modify, if_neg (Ne.symm hne)]

/-! ### Stores that hold a table -/

/-- Whether each entry stands in the slot of its number. -/
def Has (s : ScopeStore) (entries : List (Nat × Slot)) : Prop :=
  ∀ e ∈ entries, s.slots[e.1]? = some e.2

theorem Has.mono {a b : List (Nat × Slot)} (h : s.Has b) (hsub : a ⊆ b) : s.Has a :=
  fun e he => h e (hsub he)

theorem has_append {a b : List (Nat × Slot)} : s.Has (a ++ b) ↔ s.Has a ∧ s.Has b :=
  List.forall_mem_append

/-- Stores that agree on some numbers have the same entries under them. -/
theorem Has.of_agree {s' : ScopeStore} {entries : List (Nat × Slot)} (h : s.Has entries)
    (hagree : ∀ i ∈ entries.map (·.1), s'.slots[i]? = s.slots[i]?) : s'.Has entries := by
  intro e he
  rw [hagree e.1 (List.mem_map_of_mem he)]
  exact h e he

/-- A slot that is changed is none of those of other numbers. -/
theorem Has.modify {entries : List (Nat × Slot)} (h : s.Has entries)
    (hid : id ∉ entries.map (·.1)) (f : Slot → Slot) : (s.modify id f).Has entries :=
  h.of_agree fun _ hi => getElem?_modify_of_ne (ne_of_mem_of_not_mem hi hid) f

/-- Whether a store holds a table. What stands outside the tree of the table does not count. -/
structure Holds (s : ScopeStore) (t : SymbolTable) : Prop where
  size : s.slots.size = t.slots
  free : s.free = t.free
  anonymous : s.anonymous = t.anonymous
  tree : s.Has (t.root.slots none)
  blank : ∀ id ∈ t.free, s.slots[id]? = some {}

theorem holds_empty : empty.Holds .empty where
  size := rfl
  free := rfl
  anonymous := rfl
  tree := by
    intro e he
    rw [List.mem_singleton.1 he]
    rfl
  blank := by simp [SymbolTable.empty]

section Focus

variable {t : SymbolTable} {around : Surroundings} {n m : Node}

theorem Holds.has_focus (h : s.Holds t) (hr : t.root = around.fill n) :
    s.Has (around.slots n.id) ∧ s.slots[n.id]? = some (n.slot (Surroundings.parent? around)) ∧
      s.Has n.innerSlots := by
  have htree := h.tree
  rw [hr] at htree
  obtain ⟨haround, hn⟩ := has_append.1 (htree.mono (around.perm_slots_fill n).symm.subset)
  rw [n.slots_eq] at hn
  exact ⟨haround, hn _ List.mem_cons_self, fun e he => hn e (List.mem_cons_of_mem _ he)⟩

theorem Holds.slot_focus (h : s.Holds t) (hr : t.root = around.fill n) :
    s.slot n.id = n.slot (Surroundings.parent? around) := slot_of_getElem? (h.has_focus hr).2.1

/-- A store holds a tree with another scope if that one and the scopes below it are in their slots. -/
theorem Holds.of_focus {s' : ScopeStore} (hsize : s'.slots.size = t.slots) (hfree : s'.free = t.free)
    (hanonymous : s'.anonymous = t.anonymous) (hr : t.root = around.fill m)
    (haround : s'.Has (around.slots m.id)) (hself : s'.slots[m.id]? = some (m.slot (Surroundings.parent? around)))
    (hinner : s'.Has m.innerSlots) (hblank : ∀ id ∈ t.free, s'.slots[id]? = some {}) :
    s'.Holds t where
  size := hsize
  free := hfree
  anonymous := hanonymous
  tree := by
    rw [hr]
    refine Has.mono ?_ (around.perm_slots_fill m).subset
    rw [has_append, m.slots_eq]
    exact ⟨haround, List.forall_mem_cons.2 ⟨hself, hinner⟩⟩
  blank := hblank

/-- One slot is changed, which is that of a scope whose containers stay what they are. -/
theorem Holds.modify (h : s.Holds t) (hr : t.root = around.fill n)
    (hnd : (around.ids ++ n.ids ++ t.free).Nodup) (hid : m.id = n.id)
    (hinner : m.innerSlots ⊆ n.innerSlots) {f : Slot → Slot}
    (hf : f (n.slot (Surroundings.parent? around)) = m.slot (Surroundings.parent? around)) :
    (s.modify n.id f).Holds { t with root := around.fill m } := by
  obtain ⟨haround, hself, hbelow⟩ := h.has_focus hr
  rw [n.ids_eq] at hnd
  simp only [List.nodup_append, List.nodup_cons, List.mem_append, List.mem_cons] at hnd
  obtain ⟨⟨-, ⟨hfresh, -⟩, hapart⟩, -, hapart'⟩ := hnd
  refine .of_focus (by simpa [ScopeStore.modify] using h.size) h.free h.anonymous rfl ?_ ?_ ?_ ?_
  · rw [hid]
    refine haround.modify ?_ f
    rw [around.map_fst_slots]
    exact fun hmem => hapart n.id hmem n.id (.inl rfl) rfl
  · rw [hid, ← hf]
    exact getElem?_modify_self hself f
  · refine (hbelow.mono hinner).modify (fun hmem => hfresh ?_) f
    rw [← List.mem_append, ← n.map_fst_innerSlots]
    obtain ⟨e, he, heq⟩ := List.mem_map.1 hmem
    exact heq ▸ List.mem_map_of_mem (hinner he)
  · intro id hfree
    rw [getElem?_modify_of_ne]
    · exact h.blank id hfree
    · rintro rfl
      exact hapart' n.id (.inr (.inl rfl)) n.id hfree rfl

/-- The file scope has nothing around it. -/
theorem Holds.has_root (h : s.Holds t) (ht : t.Sound) :
    s.slot rootId = t.root.slot none ∧ s.Has t.root.innerSlots := by
  have hr : t.root = Surroundings.fill [] t.root := rfl
  have hroot := h.slot_focus hr
  rw [ht.root_id] at hroot
  exact ⟨hroot, (h.has_focus hr).2.2⟩

/-! ### Declaring -/

theorem Holds.update (h : s.Holds t) (ht : t.Sound) {id : Nat} (hid : id ∈ t.root.ids)
    (f : Scope → Scope) : (s.update id f).Holds (t.update id f) := by
  obtain ⟨around, n, hr, rfl⟩ := t.root.exists_focus hid
  rw [ht.update_focus hr]
  exact h.modify (m := { n with scope := f n.scope }) hr (ht.nodup_numbers hr) rfl
    (List.Subset.refl _) rfl

theorem Holds.slot_scope (h : s.Holds t) (ht : t.Sound) {id : Nat} (hid : id ∈ t.root.ids) :
    (s.slot id).scope = t.scope id := by
  obtain ⟨around, n, hr, rfl⟩ := t.root.exists_focus hid
  rw [h.slot_focus hr, SymbolTable.scope, ht.find?_focus hr]
  rfl

/-- A symbol has the same place in a slot as in the scope. -/
theorem Holds.addSymbol (h : s.Holds t) (ht : t.Sound) {id : Nat} (hid : id ∈ t.root.ids)
    (symbol : Symbol) : (s.addSymbol id symbol).1.Holds (t.addSymbol id symbol).1 ∧
      (s.addSymbol id symbol).2 = (t.addSymbol id symbol).2 :=
  ⟨h.update ht hid _, congrArg (Scope.placeOf symbol) (h.slot_scope ht hid)⟩

theorem Holds.anonymousName (h : s.Holds t) (stem : String) :
    (s.anonymousName stem).1.Holds (t.anonymousName stem).1 ∧
      (s.anonymousName stem).2 = (t.anonymousName stem).2 := by
  rw [ScopeStore.anonymousName, SymbolTable.anonymousName, h.anonymous]
  exact ⟨⟨h.size, h.free, rfl, h.tree, h.blank⟩, rfl⟩

theorem Holds.beginParse (h : s.Holds t) (ht : t.Sound) : s.beginParse.Holds t.beginParse := by
  have hr : t.root = Surroundings.fill [] t.root := rfl
  have hreset := h.modify (m := t.root.reset) (f := (·.reset)) hr (ht.nodup_numbers hr) rfl ?_ ?_
  · rw [ht.root_id] at hreset
    exact ⟨hreset.size, hreset.free, rfl, hreset.tree, hreset.blank⟩
  · exact t.root.innerSlots_reset_subset
  · exact t.root.slot_reset _

end Focus

/-! ### Opening containers -/

section Opening

variable {t : SymbolTable} {around : Surroundings} {n c : Node} {before after : List Node}

/-- The first container of a key in a row is found by the numbers of the row. -/
theorem findChild?_row {parent : Option Nat} {nodes : List Node}
    (h : s.Has (Node.slotsOf parent nodes)) (symbol : Symbol) :
    s.findChild? (nodes.map (·.id)) symbol =
      (nodes.find? (·.scope.isFor symbol)).map (·.id) := by
  rw [findChild?, List.find?_map]
  congr 1
  refine List.find?_congr fun c hc => ?_
  have hslot := h _ (Node.mem_slotsOf hc (c.slots_eq parent ▸ List.mem_cons_self))
  rw [Function.comp_apply, slot_of_getElem? hslot]
  rfl

/-- A container is emptied where it stands. -/
theorem Holds.again (h : s.Holds t) (ht : t.Sound) (hr : t.root = around.fill n)
    (hc : n.children = before ++ c :: after) (symbol : Symbol) :
    (s.modify c.id (·.reopen symbol)).Holds { t with
      root := around.fill { n with children := before ++ c.reopen symbol :: after } } := by
  have hfocus : t.root =
      Surroundings.fill (⟨n.id, n.scope, before, after, n.previous, false⟩ :: around) c := by
    obtain ⟨id, scope, children, previous⟩ := n
    subst hc
    exact hr
  exact h.modify (m := c.reopen symbol) hfocus (ht.nodup_numbers hfocus) rfl
    c.innerSlots_reset_subset (c.slot_reopen symbol _)

/-- A container of an earlier reading goes to the end, and is emptied there. -/
theorem Holds.previous (h : s.Holds t) (ht : t.Sound) (hr : t.root = around.fill n)
    (hc : n.previous = before ++ c :: after) (symbol : Symbol) :
    ((s.modify n.id (·.claim c.id)).modify c.id (·.reopen symbol)).Holds { t with
      root := around.fill { n with
        children := n.children ++ [c.reopen symbol], previous := before ++ after } } := by
  obtain ⟨id, scope, children, previous⟩ := n
  subst hc
  have hnd := ht.nodup_numbers hr
  have hbefore : c.id ∉ before.map (·.id) := by
    intro hmem
    obtain ⟨b, hb, heq⟩ := List.mem_map.1 hmem
    have hrow : (Node.idsOf (before ++ c :: after)).Nodup := by
      simp only [Node.ids, List.nodup_append, List.nodup_cons] at hnd
      exact hnd.1.2.1.2.2.1
    exact Node.id_ne_of_mem hrow b (List.mem_append_left _ hb) heq
  have hclaimed := h.modify (m := ⟨id, scope, children ++ [c], before ++ after⟩)
    (f := (·.claim c.id)) hr hnd rfl ?_ ?_
  · have hfocus : around.fill ⟨id, scope, children ++ [c], before ++ after⟩ =
        Surroundings.fill (⟨id, scope, children, [], before ++ after, false⟩ :: around) c := rfl
    refine hclaimed.modify (m := c.reopen symbol) hfocus ?_ rfl c.innerSlots_reset_subset
      (c.slot_reopen symbol _)
    refine (List.Perm.nodup_iff ?_).1 hnd
    rw [List.perm_iff_count]
    intro i
    simp only [Surroundings.ids, List.flatMap_cons, Frame.ids, Node.ids, Node.idsOf,
      Node.idsOf_append, List.count_append, List.count_cons, List.count_nil]
    omega
  · intro e he
    simp only [Node.innerSlots, Node.slotsOf, Node.slotsOf_append, List.append_nil,
      List.mem_append] at he ⊢
    grind
  · simp only [Node.slot, Slot.claim, List.map_append, List.map_cons, List.map_nil,
      List.erase_append_right _ hbefore, List.erase_cons_head]

/-- A new slot is the next one that the table hands out. -/
theorem Holds.allocate (h : s.Holds t) (slot : Slot) :
    ∃ s' : ScopeStore, s.allocate slot = (s', t.nextId) ∧ s'.slots.size = t.takeId.slots ∧
      s'.free = t.takeId.free ∧ s'.anonymous = t.takeId.anonymous ∧
      s'.slots[t.nextId]? = some slot ∧
      ∀ i, i ≠ t.nextId → s'.slots[i]? = s.slots[i]? := by
  rcases hfree : t.free with _ | ⟨id, rest⟩
  · have hnext : t.nextId = s.slots.size := by simp [SymbolTable.nextId, hfree, h.size]
    refine ⟨{ s with slots := s.slots.push slot }, ?_, ?_, ?_, ?_, ?_, fun i hi => ?_⟩
    · rw [ScopeStore.allocate, h.free, hfree, hnext]
    · simp [SymbolTable.takeId, hfree, h.size]
    · simp [SymbolTable.takeId, hfree, h.free]
    · simp [SymbolTable.takeId, hfree, h.anonymous]
    · simp [hnext]
    · simp [Array.getElem?_push, hnext ▸ hi]
  · have hnext : t.nextId = id := by simp [SymbolTable.nextId, hfree]
    have hlt : id < s.slots.size :=
      (Array.getElem?_eq_some_iff.1 (h.blank id (by simp [hfree]))).1
    refine ⟨{ s with slots := s.slots.setIfInBounds id slot, free := rest }, ?_, ?_, ?_, ?_, ?_,
      fun i hi => ?_⟩
    · rw [ScopeStore.allocate, h.free, hfree, hnext]
    · simp [SymbolTable.takeId, hfree, h.size]
    · simp [SymbolTable.takeId, hfree]
    · simp [SymbolTable.takeId, hfree, h.anonymous]
    · simp [hnext, hlt]
    · have hne : id ≠ i := hnext ▸ hi.symm
      simp [hne]

/-- A new container goes to the end. -/
theorem Holds.fresh (h : s.Holds t) (ht : t.Sound) (hr : t.root = around.fill n) (symbol : Symbol) :
    ∃ s' : ScopeStore,
      s.allocate { scope := .ofSymbol symbol, parent := some n.id } = (s', t.nextId) ∧
      (s'.modify n.id (·.addChild t.nextId)).Holds { t.takeId with
        root := around.fill (n.addChild { id := t.nextId, scope := .ofSymbol symbol }) } := by
  obtain ⟨s', hs', hsize, hfree, hanonymous, hnew, hold⟩ :=
    h.allocate { scope := .ofSymbol symbol, parent := some n.id }
  refine ⟨s', hs', ?_⟩
  obtain ⟨haround, hself, hinner⟩ := h.has_focus hr
  have hnd : (around.ids ++ n.ids ++ [t.nextId] ++ t.takeId.free).Nodup :=
    (SymbolTable.perm_takeId (ht.numbers_focus hr)).nodup_iff.2 List.nodup_range
  simp only [n.ids_eq, List.nodup_append, List.nodup_cons, List.mem_append, List.mem_cons,
    List.not_mem_nil, or_false] at hnd
  obtain ⟨⟨⟨-, ⟨hfresh, -⟩, hapart⟩, -, hnext⟩, -, hfreed⟩ := hnd
  have hnode : n.id ≠ t.nextId := hnext n.id (.inr (.inl rfl)) t.nextId rfl
  refine .of_focus (by simpa [ScopeStore.modify] using hsize) hfree hanonymous rfl ?_ ?_ ?_ ?_
  · refine haround.of_agree fun i hi => ?_
    rw [around.map_fst_slots] at hi
    rw [getElem?_modify_of_ne (hapart i hi n.id (.inl rfl)),
      hold i (hnext i (.inl hi) t.nextId rfl)]
  · have hset := getElem?_modify_self ((hold n.id hnode).trans hself) (·.addChild t.nextId)
    refine hset.trans ?_
    simp [Node.slot, Node.addChild, Slot.addChild]
  · have hrows : (s'.modify n.id (·.addChild t.nextId)).Has n.innerSlots := by
      refine hinner.of_agree fun i hi => ?_
      rw [n.map_fst_innerSlots, List.mem_append] at hi
      have hne : i ≠ n.id := fun heq => hfresh (heq ▸ hi)
      rw [getElem?_modify_of_ne hne, hold i (hnext i (.inr (.inr hi)) t.nextId rfl)]
    have hchild : (s'.modify n.id (·.addChild t.nextId)).slots[t.nextId]? =
        some { scope := .ofSymbol symbol, parent := some n.id } := by
      rw [getElem?_modify_of_ne hnode.symm, hnew]
    intro e he
    simp only [Node.innerSlots, Node.addChild, Node.slotsOf_append, Node.slotsOf, Node.slots,
      List.append_nil, List.mem_append, List.mem_singleton, List.map_nil] at he
    rcases he with (he | rfl) | he
    · exact hrows e (List.mem_append_left _ he)
    · exact hchild
    · exact hrows e (List.mem_append_right _ he)
  · intro i hi
    have hne : i ≠ t.nextId := fun heq => hfreed t.nextId (.inr rfl) i hi heq.symm
    have hne' : i ≠ n.id := fun heq => hfreed n.id (.inl (.inr (.inl rfl))) i hi heq.symm
    rw [getElem?_modify_of_ne hne', hold i hne]
    exact h.blank i (t.free_takeId_subset hi)

/-- A store opens the container that the table opens, under the same number. -/
theorem Holds.openContainer (h : s.Holds t) (ht : t.Sound) {id : Nat} (hid : id ∈ t.root.ids)
    (symbol : Symbol) :
    (s.openContainer id symbol).1.Holds (t.openContainer id symbol).1 ∧
      (s.openContainer id symbol).2 = (t.openContainer id symbol).2 := by
  obtain ⟨around, n, hr, rfl⟩ := t.root.exists_focus hid
  have hnd := ht.nodup_numbers hr
  simp only [n.ids_eq, List.nodup_append, List.nodup_cons] at hnd
  obtain ⟨⟨-, ⟨-, hndc, hndp, -⟩, -⟩, -⟩ := hnd
  obtain ⟨-, -, hinner⟩ := h.has_focus hr
  obtain ⟨hchildren, hprevious⟩ := has_append.1 hinner
  simp only [ScopeStore.openContainer, h.slot_focus hr, Node.slot, findChild?_row hchildren,
    findChild?_row hprevious]
  rw [ht.openContainer_focus hr]
  generalize n.scope.located symbol = symbol
  rw [SymbolTable.openIn]
  simp only [ht.update_node hr, t.root_takeId]
  rcases hchild : n.children.find? (·.scope.isFor symbol) with _ | c
  · rcases hprev : n.previous.find? (·.scope.isFor symbol) with _ | c
    · obtain ⟨s', hs', hholds⟩ := h.fresh ht hr symbol
      simp only [hchild, hprev, Option.map_none, hs', and_true]
      exact hholds
    · obtain ⟨-, before, after, hc, -⟩ := List.find?_eq_some_iff_append.1 hprev
      simp only [hchild, hprev, Option.map_none, Option.map_some, and_true]
      rw [Node.openPrevious, hc, Node.filter_id_ne (hc ▸ hndp)]
      exact h.previous ht hr hc symbol
  · obtain ⟨-, before, after, hc, -⟩ := List.find?_eq_some_iff_append.1 hchild
    simp only [hchild, Option.map_some, and_true]
    rw [Node.openAgain, hc, Node.map_reopen symbol (hc ▸ hndc)]
    exact h.again ht hr hc symbol

end Opening

end ScopeStore

end HdlIndex
