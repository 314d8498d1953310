import HdlIndex.Proofs.Symbol.Edits

/-! How a table is arranged, in terms of the numbers that its users see. Main statement: in every
table that is attained, before, during and after a reading, each number belongs to one scope of
the tree or was given up, each container is found under the scope that is its parent, with a path to
match, and the keys in a scope are different; behind a reading no container of an earlier one is
left, and there are as many scopes as containers of the file, and one. -/

namespace HdlIndex

/-! ### Parents -/

namespace Node

theorem parentIn?_append (id : Nat) (a b : List Node) :
    parentIn? id (a ++ b) = (parentIn? id a).or (parentIn? id b) := by
  induction a with
  | nil => simp [parentIn?]
  | cons n a ih => simp only [List.cons_append, parentIn?, ih, Option.or_assoc]

/-- A number is that of no scope in a row if it does not occur there at all. -/
theorem any_id_of_not_mem {id : Nat} {nodes : List Node} (h : id ∉ idsOf nodes) :
    nodes.any (·.id == id) = false := by
  rw [List.any_eq_false]
  intro n hn heq
  rw [beq_iff_eq] at heq
  exact h (heq ▸ id_mem_idsOf hn)

mutual

theorem parentOf?_of_not_mem {id : Nat} (n : Node) (h : id ∉ n.ids) : n.parentOf? id = none := by
  match n with
  | ⟨i, scope, children, previous⟩ =>
    simp only [ids, List.mem_cons, List.mem_append, not_or] at h
    rw [parentOf?, List.any_append, any_id_of_not_mem h.2.1, any_id_of_not_mem h.2.2,
      parentIn?_of_not_mem children h.2.1, parentIn?_of_not_mem previous h.2.2]
    rfl

theorem parentIn?_of_not_mem {id : Nat} (nodes : List Node) (h : id ∉ idsOf nodes) :
    parentIn? id nodes = none := by
  match nodes with
  | [] => rfl
  | n :: rest =>
    simp only [idsOf, List.mem_append, not_or] at h
    rw [parentIn?, parentOf?_of_not_mem n h.1, parentIn?_of_not_mem rest h.2]
    rfl

end

/-- Where the rows of a scope do not have a number, its parent is looked for below. -/
theorem parentOf?_of_any_eq_false {id i : Nat} {scope : Scope} {children previous : List Node}
    (hc : children.any (·.id == id) = false) (hp : previous.any (·.id == id) = false) :
    parentOf? id ⟨i, scope, children, previous⟩ =
      (parentIn? id children).or (parentIn? id previous) := by
  rw [parentOf?, List.any_append, hc, hp]
  rfl

theorem parentOf?_container {n c : Node} (h : c ∈ n.containers) :
    n.parentOf? c.id = some n.id := by
  obtain ⟨id, scope, children, previous⟩ := n
  rw [parentOf?, if_pos]
  exact List.any_eq_true.2 ⟨c, h, by simp⟩

end Node

theorem Frame.parentOf?_fill {f : Frame} {id : Nat} {n : Node} (h : id ∉ f.ids) (hn : n.id ≠ id) :
    (f.fill n).parentOf? id = n.parentOf? id := by
  simp only [ids, List.mem_cons, List.mem_append, not_or] at h
  obtain ⟨-, ⟨hb, ha⟩, ho⟩ := h
  have hrow : Node.parentIn? id (f.before ++ n :: f.after) = n.parentOf? id := by
    rw [Node.parentIn?_append, Node.parentIn?_of_not_mem f.before hb, Node.parentIn?,
      Node.parentIn?_of_not_mem f.after ha]
    simp
  have hany : (f.before ++ n :: f.after).any (·.id == id) = false := by
    rw [List.any_append, List.any_cons, Node.any_id_of_not_mem hb, Node.any_id_of_not_mem ha]
    simp [hn]
  have hany' := Node.any_id_of_not_mem ho
  have hothers := Node.parentIn?_of_not_mem f.others ho
  unfold fill
  split
  · rw [Node.parentOf?_of_any_eq_false hany' hany, hothers, hrow, Option.none_or]
  · rw [Node.parentOf?_of_any_eq_false hany hany', hothers, hrow, Option.or_none]

theorem Surroundings.parentOf?_fill {around : Surroundings} {id : Nat} {n : Node}
    (h : id ∉ around.ids) (hn : n.id ≠ id) : (around.fill n).parentOf? id = n.parentOf? id := by
  induction around generalizing n with
  | nil => rfl
  | cons f around ih =>
    simp only [ids, List.flatMap_cons, List.mem_append, not_or] at h
    have hid : (f.fill n).id ≠ id := by
      rw [f.id_fill]
      exact fun heq => h.1 (heq ▸ List.mem_cons_self)
    rw [fill_cons, ih h.2 hid, f.parentOf?_fill h.1 hn]

/-! ### Tables -/

namespace SymbolTable

/-- How a table is arranged, in terms of numbers. -/
structure Arranged (t : SymbolTable) : Prop where
  /-- Every number is that of one scope of the tree, which occurs once, or was given up. -/
  numbers : (t.root.ids ++ t.free).Perm (List.range t.slots)
  root : t.root.find? rootId = some t.root
  /-- A container is found by its number, and its parent is the scope it hangs under. -/
  parent : ∀ id n, t.root.find? id = some n → ∀ c ∈ n.children ++ n.previous,
    t.root.find? c.id = some c ∧ t.parent? c.id = some id
  /-- The path inside a container is the one around it and its own name. -/
  path : ∀ id n, t.root.find? id = some n → ∀ c ∈ n.children ++ n.previous,
    ∃ symbol, c.scope.symbol = some symbol ∧ c.scope.path = n.scope.path ++ [symbol.name]
  containers : ∀ id n, t.root.find? id = some n →
    ((n.children ++ n.previous).map (·.scope.key?)).Nodup
  leaves : ∀ id n, t.root.find? id = some n → (n.scope.symbols.map Symbol.key).Nodup

theorem Sound.parent?_container {t : SymbolTable} {around : Surroundings} {n c : Node}
    (h : t.Sound) (hr : t.root = around.fill n) (hc : c ∈ n.containers) :
    t.root.find? c.id = some c ∧ t.parent? c.id = some n.id := by
  obtain ⟨f, rfl⟩ := Node.exists_frame hc
  have hfocus : t.root = Surroundings.fill (f :: around) c := hr
  have hfind := h.find?_focus hfocus
  have hout := h.not_mem_around hfocus c.id c.id_mem_ids
  simp only [Surroundings.ids, List.flatMap_cons, List.mem_append, not_or] at hout
  have hne : (f.fill c).id ≠ c.id := by
    rw [f.id_fill]
    exact fun heq => hout.1 (heq ▸ List.mem_cons_self)
  refine ⟨hfind, ?_⟩
  rw [parent?, hfind]
  dsimp only
  rw [hr, Surroundings.parentOf?_fill hout.2 hne, Node.parentOf?_container hc]

theorem Orderly.arranged {t : SymbolTable} (h : t.Orderly) : t.Arranged where
  numbers := h.sound.numbers
  root := by rw [← h.sound.root_id, t.root.find?_self]
  parent := by
    intro id n hn c hc
    obtain ⟨rfl, around, hr⟩ := h.sound.focus_of_find? hn
    exact h.sound.parent?_container hr hc
  path := by
    intro id n hn c hc
    obtain ⟨rfl, around, hr⟩ := h.sound.focus_of_find? hn
    obtain ⟨symbol, hsymbol, -, hpath⟩ := (h.sound.focus hr).placed c hc
    exact ⟨symbol, hsymbol, hpath⟩
  containers := by
    intro id n hn
    obtain ⟨rfl, around, hr⟩ := h.sound.focus_of_find? hn
    exact (Surroundings.distinct_of_fill (hr ▸ h.distinct)).keys
  leaves := by
    intro id n hn
    obtain ⟨rfl, around, hr⟩ := h.sound.focus_of_find? hn
    exact (Surroundings.distinct_of_fill (hr ▸ h.distinct)).leaves

end SymbolTable

/-! ### The end of a reading -/

namespace Container

mutual

/-- Number of containers in a container, itself included. -/
def count : Container → Nat
  | ⟨_, _, _, _, containers⟩ => 1 + countAll containers

def countAll : List Container → Nat
  | [] => 0
  | c :: rest => c.count + countAll rest

end

theorem countAll_append (a b : List Container) : countAll (a ++ b) = countAll a + countAll b := by
  induction a with
  | nil => simp [countAll]
  | cons c a ih =>
    rw [List.cons_append, countAll, countAll, ih]
    omega

end Container

namespace Node

mutual

/-- Containers of an earlier reading are dropped everywhere. -/
theorem previous_of_find?_sweep {id : Nat} (n : Node) {m : Node}
    (h : n.sweep.find? id = some m) : m.previous = [] := by
  match n with
  | ⟨i, scope, children, previous⟩ =>
    rw [sweep, find?] at h
    split at h
    · cases h
      rfl
    · rw [findIn?, Option.or_none] at h
      exact previous_of_findIn?_sweepAll children h

theorem previous_of_findIn?_sweepAll {id : Nat} (nodes : List Node) {m : Node}
    (h : findIn? id (sweepAll nodes) = some m) : m.previous = [] := by
  match nodes with
  | [] => cases h
  | n :: rest =>
    rw [sweepAll, findIn?, Option.or_eq_some_iff] at h
    rcases h with h | ⟨-, h⟩
    · exact previous_of_find?_sweep n h
    · exact previous_of_findIn?_sweepAll rest h

end

mutual

/-- Every scope that is left below a scope is that of a container. -/
theorem length_ids_sweep (n : Node) (h : n.Sound) :
    n.sweep.ids.length = 1 + Container.countAll (containersOf n.sweep.children) := by
  match n with
  | ⟨i, scope, children, previous⟩ =>
    have hrow := length_idsOf_sweepAll children fun c hc =>
      ⟨h.placed c (List.mem_append_left _ hc), h.inner c (List.mem_append_left _ hc)⟩
    simp only [sweep, ids, idsOf, List.length_cons, List.append_nil, hrow]
    omega

theorem length_idsOf_sweepAll (nodes : List Node) {path : List String}
    (h : ∀ c ∈ nodes, c.scope.IsIn path ∧ c.Sound) :
    (idsOf (sweepAll nodes)).length = Container.countAll (containersOf (sweepAll nodes)) := by
  match nodes with
  | [] => rfl
  | n :: rest =>
    obtain ⟨⟨symbol, hsymbol, -⟩, hsound⟩ := h n List.mem_cons_self
    have hn := length_ids_sweep n hsound
    have hrest := length_idsOf_sweepAll rest fun c hc => h c (List.mem_cons_of_mem _ hc)
    have hcontainer : Container.countAll n.sweep.toContainer?.toList =
        1 + Container.countAll (containersOf n.sweep.children) := by
      obtain ⟨i, scope, children, previous⟩ := n
      rw [sweep, toContainer?, show scope.symbol = some symbol from hsymbol]
      rfl
    rw [sweepAll, idsOf, containersOf, Container.countAll_append, List.length_append, hn, hrest,
      hcontainer]

end

end Node

namespace SymbolTable

/-- The scopes in use are the file scope and the containers of the file. -/
theorem Orderly.nodeCount_endParse {t : SymbolTable} (h : t.Orderly) (includes : List String) :
    t.endParse.nodeCount =
      1 + Container.countAll (t.endParse.toFileSymbols includes).containers := by
  have hlength := h.endParse.sound.numbers.length_eq
  rw [List.length_append, List.length_range] at hlength
  have hids : t.endParse.root.ids.length =
      1 + Container.countAll (t.endParse.toFileSymbols includes).containers :=
    t.root.length_ids_sweep h.sound.tree
  rw [nodeCount, ← hids]
  omega

/-- Tables stay arranged: those that are attained, those in the middle of a reading, and those
behind it. Behind a reading no scope has containers of an earlier one, and there are as many scopes
as containers in the file, and one. -/
theorem Attainable.arranged {t : SymbolTable} (h : t.Attainable) {u : Underway}
    (hu : Edits (.start t) u) (includes : List String) :
    t.Arranged ∧ u.table.Arranged ∧ u.table.endParse.Arranged ∧
      (∀ id n, u.table.endParse.root.find? id = some n → n.previous = []) ∧
      u.table.endParse.nodeCount =
        1 + Container.countAll (u.table.endParse.toFileSymbols includes).containers := by
  have horderly := (h.orderly.beginParse.underway.edits hu).table
  refine ⟨h.orderly.arranged, horderly.arranged, horderly.endParse.arranged, ?_,
    horderly.nodeCount_endParse includes⟩
  intro id n hn
  exact u.table.root.previous_of_find?_sweep hn

end SymbolTable

end HdlIndex
