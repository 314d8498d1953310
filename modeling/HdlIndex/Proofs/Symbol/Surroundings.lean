import HdlIndex.Symbol.Table

/-! A scope of the tree and what stands around it. A scope is looked up and changed by its number;
in a tree without repeated numbers this comes down to one place, which is given by the scope and its
surroundings: the scopes around it, each with what else it holds. Main statements: where a number
does not occur in the surroundings, to look it up or to change its scope is a matter of the scope
inside. -/

namespace HdlIndex

namespace Node

mutual

/-- The numbers of a scope and of all scopes below it. -/
def ids : Node → List Nat
  | ⟨id, _, children, previous⟩ => id :: (idsOf children ++ idsOf previous)

def idsOf : List Node → List Nat
  | [] => []
  | n :: rest => n.ids ++ idsOf rest

end

/-! ### Rows of scopes -/

theorem idsOf_append (a b : List Node) : idsOf (a ++ b) = idsOf a ++ idsOf b := by
  induction a with
  | nil => rfl
  | cons n a ih => simp only [List.cons_append, idsOf, ih, List.append_assoc]

theorem findIn?_append (id : Nat) (a b : List Node) :
    findIn? id (a ++ b) = (findIn? id a).or (findIn? id b) := by
  induction a with
  | nil => simp [findIn?]
  | cons n a ih => simp only [List.cons_append, findIn?, ih, Option.or_assoc]

theorem updateAll_append (id : Nat) (f : Node → Node) (a b : List Node) :
    updateAll id f (a ++ b) = updateAll id f a ++ updateAll id f b := by
  induction a with
  | nil => rfl
  | cons n a ih => simp only [List.cons_append, updateAll, ih]

theorem sweepAll_eq (nodes : List Node) : sweepAll nodes = nodes.map sweep := by
  induction nodes with
  | nil => rfl
  | cons n rest ih => simp only [sweepAll, ih, List.map_cons]

theorem containersOf_append (a b : List Node) :
    containersOf (a ++ b) = containersOf a ++ containersOf b := by
  induction a with
  | nil => rfl
  | cons n a ih => simp only [List.cons_append, containersOf, ih, List.append_assoc]

/-! ### Numbers that do not occur -/

mutual

theorem find?_of_not_mem {id : Nat} (n : Node) (h : id ∉ n.ids) : n.find? id = none := by
  match n with
  | ⟨i, scope, children, previous⟩ =>
    simp only [ids, List.mem_cons, List.mem_append, not_or] at h
    rw [find?, if_neg (Ne.symm h.1), findIn?_of_not_mem children h.2.1,
      findIn?_of_not_mem previous h.2.2]
    rfl

theorem findIn?_of_not_mem {id : Nat} (nodes : List Node) (h : id ∉ idsOf nodes) :
    findIn? id nodes = none := by
  match nodes with
  | [] => rfl
  | n :: rest =>
    simp only [idsOf, List.mem_append, not_or] at h
    rw [findIn?, find?_of_not_mem n h.1, findIn?_of_not_mem rest h.2]
    rfl

end

mutual

theorem update_of_not_mem {id : Nat} (f : Node → Node) (n : Node) (h : id ∉ n.ids) :
    n.update id f = n := by
  match n with
  | ⟨i, scope, children, previous⟩ =>
    simp only [ids, List.mem_cons, List.mem_append, not_or] at h
    rw [update, if_neg (Ne.symm h.1), updateAll_of_not_mem f children h.2.1,
      updateAll_of_not_mem f previous h.2.2]

theorem updateAll_of_not_mem {id : Nat} (f : Node → Node) (nodes : List Node)
    (h : id ∉ idsOf nodes) : updateAll id f nodes = nodes := by
  match nodes with
  | [] => rfl
  | n :: rest =>
    simp only [idsOf, List.mem_append, not_or] at h
    rw [updateAll, update_of_not_mem f n h.1, updateAll_of_not_mem f rest h.2]

end

theorem find?_self (n : Node) : n.find? n.id = some n := by
  obtain ⟨id, scope, children, previous⟩ := n
  simp [find?]

theorem update_self (f : Node → Node) (n : Node) : n.update n.id f = f n := by
  obtain ⟨id, scope, children, previous⟩ := n
  simp [update]

theorem ids_eq (n : Node) : n.ids = n.id :: (idsOf n.children ++ idsOf n.previous) := by
  obtain ⟨id, scope, children, previous⟩ := n
  rw [ids]

theorem id_mem_ids (n : Node) : n.id ∈ n.ids := by
  rw [ids_eq]
  exact List.mem_cons_self

end Node

/-! ### Surroundings -/

/-- A scope with a gap among its containers, or among those of an earlier reading. -/
structure Frame where
  id : Nat
  scope : Scope
  /-- Containers in front of the gap. -/
  before : List Node
  after : List Node
  /-- The other row of containers. -/
  others : List Node
  /-- Whether the gap is among the containers of an earlier reading. -/
  stale : Bool

namespace Frame

/-- The scope with its gap filled. -/
def fill (f : Frame) (n : Node) : Node :=
  if f.stale then ⟨f.id, f.scope, f.others, f.before ++ n :: f.after⟩
  else ⟨f.id, f.scope, f.before ++ n :: f.after, f.others⟩

/-- The numbers in the frame. -/
def ids (f : Frame) : List Nat :=
  f.id :: (Node.idsOf f.before ++ Node.idsOf f.after ++ Node.idsOf f.others)

theorem perm_ids_fill (f : Frame) (n : Node) : (f.fill n).ids.Perm (f.ids ++ n.ids) := by
  rw [List.perm_iff_count]
  intro id
  cases hs : f.stale <;>
    simp only [fill, hs, ids, Node.ids, Node.idsOf, Node.idsOf_append, List.count_append,
      List.count_cons, Bool.false_eq_true, if_true, if_false] <;> omega

theorem find?_fill {f : Frame} {id : Nat} (n : Node) (h : id ∉ f.ids) :
    (f.fill n).find? id = n.find? id := by
  simp only [ids, List.mem_cons, List.mem_append, not_or] at h
  obtain ⟨hid, ⟨hb, ha⟩, ho⟩ := h
  have hrow : Node.findIn? id (f.before ++ n :: f.after) = n.find? id := by
    rw [Node.findIn?_append, Node.findIn?_of_not_mem f.before hb, Node.findIn?,
      Node.findIn?_of_not_mem f.after ha]
    simp
  cases hs : f.stale <;>
    simp [fill, hs, Node.find?, Ne.symm hid, hrow, Node.findIn?_of_not_mem f.others ho]

theorem update_fill {f : Frame} {id : Nat} (g : Node → Node) (n : Node) (h : id ∉ f.ids) :
    (f.fill n).update id g = f.fill (n.update id g) := by
  simp only [ids, List.mem_cons, List.mem_append, not_or] at h
  obtain ⟨hid, ⟨hb, ha⟩, ho⟩ := h
  have hrow : Node.updateAll id g (f.before ++ n :: f.after) =
      f.before ++ n.update id g :: f.after := by
    rw [Node.updateAll_append, Node.updateAll_of_not_mem g f.before hb, Node.updateAll,
      Node.updateAll_of_not_mem g f.after ha]
  cases hs : f.stale <;>
    simp [fill, hs, Node.update, Ne.symm hid, hrow, Node.updateAll_of_not_mem g f.others ho]

end Frame

/-- What stands around a scope, the innermost frame first. -/
abbrev Surroundings := List Frame

namespace Surroundings

/-- The tree with a scope in its surroundings. -/
def fill (around : Surroundings) (n : Node) : Node := around.foldl (fun n f => f.fill n) n

/-- The numbers in the surroundings. -/
def ids (around : Surroundings) : List Nat := around.flatMap Frame.ids

@[simp]
theorem fill_nil (n : Node) : fill [] n = n := rfl

@[simp]
theorem fill_cons (f : Frame) (around : Surroundings) (n : Node) :
    fill (f :: around) n = fill around (f.fill n) := rfl

theorem perm_ids_fill (around : Surroundings) (n : Node) :
    (around.fill n).ids.Perm (around.ids ++ n.ids) := by
  induction around generalizing n with
  | nil => exact .refl _
  | cons f around ih =>
    rw [List.perm_iff_count]
    intro id
    have hout := (ih (f.fill n)).count_eq id
    have hin := (f.perm_ids_fill n).count_eq id
    simp only [fill_cons, ids, List.flatMap_cons, List.count_append] at hout hin ⊢
    omega

theorem find?_fill {around : Surroundings} {id : Nat} (n : Node) (h : id ∉ around.ids) :
    (around.fill n).find? id = n.find? id := by
  induction around generalizing n with
  | nil => rfl
  | cons f around ih =>
    simp only [ids, List.flatMap_cons, List.mem_append, not_or] at h
    rw [fill_cons, ih _ h.2, f.find?_fill n h.1]

theorem update_fill {around : Surroundings} {id : Nat} (g : Node → Node) (n : Node)
    (h : id ∉ around.ids) : (around.fill n).update id g = around.fill (n.update id g) := by
  induction around generalizing n with
  | nil => rfl
  | cons f around ih =>
    simp only [ids, List.flatMap_cons, List.mem_append, not_or] at h
    rw [fill_cons, ih _ h.2, f.update_fill g n h.1, fill_cons]

end Surroundings

end HdlIndex
