import HdlIndex.Proofs.Symbol.Surroundings

/-! Sound tables. The numbers of a sound table are those of its tree and those given up, each once,
and each container of its tree knows the path to where it stands. Main statements: what opening a
container in a scope can do, that every operation on a scope of the tree keeps a table sound, and
so do the start and the end of a reading. -/

namespace HdlIndex

namespace Scope

/-- Whether a scope is that of a container declared under a path. -/
def IsIn (path : List String) (s : Scope) : Prop :=
  ∃ symbol, s.symbol = some symbol ∧ symbol.containerPath = path ∧
    s.path = path ++ [symbol.name]

/-- Whether a scope can stand where another one stood. -/
structure Replaces (s' s : Scope) : Prop where
  path : s'.path = s.path
  isIn : ∀ path, s.IsIn path → s'.IsIn path

theorem Replaces.of_eq {s' s : Scope} (hp : s'.path = s.path) (hs : s'.symbol = s.symbol) :
    s'.Replaces s := by
  refine ⟨hp, ?_⟩
  rintro path ⟨symbol, hsym, hpath, hown⟩
  exact ⟨symbol, hs.trans hsym, hpath, hp.trans hown⟩

theorem replaces_setDefinition (s : Scope) (d : Definition) : (s.setDefinition d).Replaces s := by
  refine ⟨rfl, ?_⟩
  rintro path ⟨symbol, hsym, hpath, hown⟩
  exact ⟨{ symbol with definition := d }, by simp [setDefinition, hsym], hpath, hown⟩

/-- A container that is declared again has the scope of one that is declared for the first time. -/
theorem reopen_eq_ofSymbol {s : Scope} {symbol : Symbol} (hs : s.IsIn symbol.containerPath)
    (hfor : s.isFor symbol) : s.reopen symbol = .ofSymbol symbol := by
  obtain ⟨old, hold, -, hown⟩ := hs
  have hname : old.name = symbol.name := by
    simp only [isFor, hold, Option.any_some, Symbol.sameKey, Bool.and_eq_true, beq_iff_eq] at hfor
    exact hfor.1.1
  rw [hname] at hown
  simp only [reopen, clear, ofSymbol, hown]

end Scope

namespace Node

/-- Whether all containers below a scope know where they stand. -/
inductive Sound : Node → Prop
  | intro {n : Node} (placed : ∀ c ∈ n.children ++ n.previous, c.scope.IsIn n.scope.path)
      (inner : ∀ c ∈ n.children ++ n.previous, c.Sound) : n.Sound

theorem Sound.placed {n : Node} (h : n.Sound) : ∀ c ∈ n.children ++ n.previous,
    c.scope.IsIn n.scope.path := by
  cases h with
  | intro placed inner => exact placed

theorem Sound.inner {n : Node} (h : n.Sound) : ∀ c ∈ n.children ++ n.previous, c.Sound := by
  cases h with
  | intro placed inner => exact inner

/-- A scope is sound if all its containers are, wherever they come from. -/
theorem Sound.of_containers {n : Node} {path : List String} (hpath : n.scope.path = path)
    (h : ∀ c ∈ n.children ++ n.previous, c.scope.IsIn path ∧ c.Sound) : n.Sound :=
  .intro (fun c hc => hpath ▸ (h c hc).1) (fun c hc => (h c hc).2)

end Node

namespace Frame

theorem children_fill (f : Frame) (n : Node) :
    ∀ c, c ∈ (f.fill n).children ++ (f.fill n).previous ↔
      c = n ∨ c ∈ f.before ++ f.after ++ f.others := by
  intro c
  cases hs : f.stale <;> simp [fill, hs] <;> grind

theorem scope_fill (f : Frame) (n : Node) : (f.fill n).scope = f.scope := by
  unfold fill
  split <;> rfl

theorem id_fill (f : Frame) (n : Node) : (f.fill n).id = f.id := by
  unfold fill
  split <;> rfl

theorem sound_of_fill {f : Frame} {n : Node} (h : (f.fill n).Sound) :
    n.Sound ∧ n.scope.IsIn f.scope.path := by
  have hn := (f.children_fill n n).2 (.inl rfl)
  exact ⟨h.inner n hn, f.scope_fill n ▸ h.placed n hn⟩

theorem sound_fill {f : Frame} {n m : Node} (h : (f.fill n).Sound) (hm : m.Sound)
    (hin : m.scope.IsIn f.scope.path) : (f.fill m).Sound := by
  refine .of_containers (congrArg Scope.path (f.scope_fill m)) ?_
  intro c hc
  rcases (f.children_fill m c).1 hc with rfl | hother
  · exact ⟨hin, hm⟩
  · have hc' := (f.children_fill n c).2 (.inr hother)
    exact ⟨f.scope_fill n ▸ h.placed c hc', h.inner c hc'⟩

end Frame

namespace Surroundings

theorem sound_of_fill {around : Surroundings} {n : Node} (h : (around.fill n).Sound) :
    n.Sound := by
  induction around generalizing n with
  | nil => exact h
  | cons f around ih => exact (Frame.sound_of_fill (ih h)).1

/-- A scope may be replaced by one that stands where it stood. -/
theorem sound_fill {around : Surroundings} {n m : Node} (h : (around.fill n).Sound)
    (hm : m.Sound) (hin : m.scope.Replaces n.scope) : (around.fill m).Sound := by
  induction around generalizing n m with
  | nil => exact hm
  | cons f around ih =>
    have hf := Frame.sound_of_fill (sound_of_fill h)
    refine ih h (Frame.sound_fill (sound_of_fill h) hm (hin.isIn _ hf.2)) ?_
    rw [Frame.scope_fill, Frame.scope_fill]
    exact .of_eq rfl rfl

end Surroundings

namespace Surroundings

theorem id_fill {around : Surroundings} {n m : Node} (h : m.id = n.id) :
    (around.fill m).id = (around.fill n).id := by
  induction around generalizing n m with
  | nil => exact h
  | cons f around ih =>
    refine ih ?_
    show (f.fill m).id = (f.fill n).id
    rw [f.id_fill, f.id_fill]

theorem path_fill {around : Surroundings} {n m : Node} (h : m.scope.path = n.scope.path) :
    (around.fill m).scope.path = (around.fill n).scope.path := by
  induction around generalizing n m with
  | nil => exact h
  | cons f around ih => exact ih (by rw [f.scope_fill, f.scope_fill])

end Surroundings

namespace SymbolTable

/-- The numbers in use and those given up are all numbers, each once, and the tree is sound. -/
structure Sound (t : SymbolTable) : Prop where
  numbers : (t.root.ids ++ t.free).Perm (List.range t.slots)
  root_id : t.root.id = rootId
  root_path : t.root.scope.path = []
  tree : t.root.Sound

theorem sound_empty : empty.Sound where
  numbers := .refl _
  root_id := rfl
  root_path := rfl
  tree := .intro (by simp [empty]) (by simp [empty])

section Focus

variable {t : SymbolTable} {around : Surroundings} {n : Node}

theorem Sound.nodup (h : t.Sound) : (t.root.ids ++ t.free).Nodup :=
  h.numbers.nodup_iff.2 List.nodup_range

theorem Sound.nodup_focus (h : t.Sound) (hr : t.root = around.fill n) :
    (around.ids ++ n.ids).Nodup := by
  have hnd := (List.nodup_append.1 h.nodup).1
  rw [hr] at hnd
  exact (around.perm_ids_fill n).nodup_iff.1 hnd

/-- No number of a scope of the tree occurs around the scope. -/
theorem Sound.not_mem_around (h : t.Sound) (hr : t.root = around.fill n) :
    ∀ id ∈ n.ids, id ∉ around.ids := by
  intro id hid haround
  exact (List.nodup_append.1 (h.nodup_focus hr)).2.2 id haround id hid rfl

theorem Sound.find?_focus (h : t.Sound) (hr : t.root = around.fill n) :
    t.root.find? n.id = some n := by
  rw [hr, Surroundings.find?_fill n (h.not_mem_around hr _ n.id_mem_ids), n.find?_self]

theorem Sound.update_focus (h : t.Sound) (hr : t.root = around.fill n) (f : Scope → Scope) :
    t.update n.id f = { t with root := around.fill { n with scope := f n.scope } } := by
  rw [update, h.find?_focus hr, Option.isSome_some, if_pos rfl, hr,
    Surroundings.update_fill _ n (h.not_mem_around hr _ n.id_mem_ids), n.update_self]

/-- A scope of a sound table may be replaced by a sound one that stands where it stood, if the
numbers still come out. -/
theorem Sound.replace (h : t.Sound) (hr : t.root = around.fill n) {t' : SymbolTable} {m : Node}
    (hr' : t'.root = around.fill m) (hid : m.id = n.id) (hplace : m.scope.Replaces n.scope)
    (hm : m.Sound)
    (hnum : (around.ids ++ m.ids ++ t'.free).Perm (List.range t'.slots)) : t'.Sound where
  numbers := by
    rw [hr']
    exact ((around.perm_ids_fill m).append_right _).trans hnum
  root_id := by
    rw [hr', Surroundings.id_fill hid, ← hr]
    exact h.root_id
  root_path := by
    rw [hr', Surroundings.path_fill hplace.path, ← hr]
    exact h.root_path
  tree := by
    rw [hr']
    have htree := h.tree
    rw [hr] at htree
    exact Surroundings.sound_fill htree hm hplace

theorem Sound.numbers_focus (h : t.Sound) (hr : t.root = around.fill n) :
    (around.ids ++ n.ids ++ t.free).Perm (List.range t.slots) := by
  have hnum := h.numbers
  rw [hr] at hnum
  exact ((around.perm_ids_fill n).append_right _).symm.trans hnum

theorem Sound.focus (h : t.Sound) (hr : t.root = around.fill n) : n.Sound := by
  have htree := h.tree
  rw [hr] at htree
  exact Surroundings.sound_of_fill htree

theorem Sound.update (h : t.Sound) (hr : t.root = around.fill n) {f : Scope → Scope}
    (hf : (f n.scope).Replaces n.scope) : (t.update n.id f).Sound := by
  rw [h.update_focus hr]
  have hn := h.focus hr
  have hnum := h.numbers_focus hr
  refine h.replace hr rfl rfl hf ?_ ?_
  · exact .of_containers hf.path fun c hc => ⟨hn.placed c hc, hn.inner c hc⟩
  · rw [n.ids_eq] at hnum
    exact hnum

end Focus

/-! ### Opening containers -/

/-- What opening a container in a scope can do. The scope stands in surroundings, and `symbol` is
located in it. -/
inductive Opened (t : SymbolTable) (around : Surroundings) (n : Node) (symbol : Symbol) :
    SymbolTable → Nat → Prop
  /-- The container was declared before in this reading: it is emptied where it stands. -/
  | again {before after : List Node} {c : Node} (hc : n.children = before ++ c :: after)
      (hbefore : ∀ b ∈ before, b.scope.isFor symbol = false) (hfor : c.scope.isFor symbol) :
      Opened t around n symbol
        { t with root := around.fill { n with children := before ++ c.reopen symbol :: after } }
        c.id
  /-- The container is known from an earlier reading: it is emptied and goes to the end. -/
  | previous {before after : List Node} {c : Node}
      (hchildren : ∀ b ∈ n.children, b.scope.isFor symbol = false)
      (hc : n.previous = before ++ c :: after) (hfor : c.scope.isFor symbol) :
      Opened t around n symbol
        { t with
          root := around.fill
            { n with children := n.children ++ [c.reopen symbol], previous := before ++ after } }
        c.id
  /-- The container is new. -/
  | fresh (hchildren : ∀ b ∈ n.children, b.scope.isFor symbol = false)
      (hprevious : ∀ b ∈ n.previous, b.scope.isFor symbol = false) :
      Opened t around n symbol
        { t.takeId with
          root := around.fill (n.addChild { id := t.nextId, scope := .ofSymbol symbol }) }
        t.nextId

theorem root_takeId (t : SymbolTable) : t.takeId.root = t.root := by
  unfold takeId
  cases t.free <;> rfl

end SymbolTable

namespace Node

/-- The numbers at the front of the scopes in a row are among all their numbers. -/
theorem id_mem_idsOf {nodes : List Node} {c : Node} (h : c ∈ nodes) : c.id ∈ idsOf nodes := by
  induction nodes with
  | nil => cases h
  | cons n rest ih =>
    rw [idsOf, List.mem_append]
    rcases List.mem_cons.1 h with rfl | h
    · exact .inl c.id_mem_ids
    · exact .inr (ih h)

/-- In a row without repeated numbers a scope is told by its number. -/
theorem id_ne_of_mem {before after : List Node} {c : Node}
    (h : (idsOf (before ++ c :: after)).Nodup) : ∀ d ∈ before ++ after, d.id ≠ c.id := by
  intro d hd heq
  rw [idsOf_append, idsOf, List.nodup_append, List.nodup_append] at h
  obtain ⟨-, ⟨-, -, hafter⟩, hbefore⟩ := h
  rcases List.mem_append.1 hd with hd | hd
  · exact hbefore d.id (id_mem_idsOf hd) c.id (List.mem_append_left _ c.id_mem_ids) heq
  · exact hafter c.id c.id_mem_ids d.id (id_mem_idsOf hd) heq.symm

theorem map_reopen {before after : List Node} {c : Node} (symbol : Symbol)
    (h : (idsOf (before ++ c :: after)).Nodup) :
    ((before ++ c :: after).map fun d => if d.id == c.id then d.reopen symbol else d) =
      before ++ c.reopen symbol :: after := by
  have hne := id_ne_of_mem h
  have hkeep (row : List Node) (hrow : ∀ d ∈ row, d.id ≠ c.id) :
      (row.map fun d => if d.id == c.id then d.reopen symbol else d) = row := by
    refine (List.map_congr_left ?_).trans (List.map_id row)
    intro d hd
    simp [hrow d hd]
  rw [List.map_append, List.map_cons, hkeep before fun d hd => hne d (List.mem_append_left _ hd),
    hkeep after fun d hd => hne d (List.mem_append_right _ hd)]
  simp

theorem filter_id_ne {before after : List Node} {c : Node}
    (h : (idsOf (before ++ c :: after)).Nodup) :
    (before ++ c :: after).filter (·.id != c.id) = before ++ after := by
  have hne := id_ne_of_mem h
  have hkeep : (before ++ after).filter (·.id != c.id) = before ++ after := by
    rw [List.filter_eq_self]
    intro d hd
    simp [hne d hd]
  simpa using hkeep

end Node

namespace SymbolTable

variable {t : SymbolTable} {around : Surroundings} {n : Node}

/-- Opening a container in a scope of the tree does one of the three things it can do. -/
theorem Sound.openContainer_opened (h : t.Sound) (hr : t.root = around.fill n)
    (symbol : Symbol) :
    Opened t around n (n.scope.located symbol) (t.openContainer n.id symbol).1
      (t.openContainer n.id symbol).2 := by
  have hids := (List.nodup_append.1 (h.nodup_focus hr)).2.1
  rw [n.ids_eq, List.nodup_cons, List.nodup_append] at hids
  have hupdate (g : Node → Node) : t.root.update n.id g = around.fill (g n) := by
    rw [hr, Surroundings.update_fill _ n (h.not_mem_around hr _ n.id_mem_ids), n.update_self]
  rw [openContainer, h.find?_focus hr]
  dsimp only
  generalize n.scope.located symbol = symbol
  rw [openIn]
  rcases hchild : n.children.find? (·.scope.isFor symbol) with _ | c
  · have hnone : ∀ b ∈ n.children, b.scope.isFor symbol = false := by
      simpa using List.find?_eq_none.1 hchild
    rcases hprev : n.previous.find? (·.scope.isFor symbol) with _ | c
    · simp only [hchild, hprev]
      rw [root_takeId, hupdate]
      exact .fresh hnone (by simpa using List.find?_eq_none.1 hprev)
    · obtain ⟨hfor, before, after, hsplit, -⟩ := List.find?_eq_some_iff_append.1 hprev
      rw [hsplit] at hids
      simp only [hchild, hprev]
      rw [hupdate, Node.openPrevious, hsplit, Node.filter_id_ne hids.2.2.1]
      exact .previous hnone hsplit hfor
  · obtain ⟨hfor, before, after, hsplit, hbefore⟩ := List.find?_eq_some_iff_append.1 hchild
    rw [hsplit] at hids
    simp only [hchild]
    rw [hupdate, Node.openAgain, hsplit, Node.map_reopen symbol hids.2.1]
    exact .again hsplit (by simpa using hbefore) hfor

end SymbolTable

namespace Node

theorem perm_ids_reset (n : Node) : n.reset.ids.Perm n.ids := by
  rw [ids_eq n, ids_eq n.reset]
  show (n.id :: ([] ++ idsOf (n.previous ++ n.children))).Perm _
  rw [idsOf_append, List.nil_append]
  exact List.perm_append_comm.cons _

theorem perm_ids_reopen (n : Node) (symbol : Symbol) : (n.reopen symbol).ids.Perm n.ids := by
  have h := n.perm_ids_reset
  rw [ids_eq n.reset] at h
  rw [ids_eq (n.reopen symbol)]
  exact h

/-- Containers that stay at hand are as sound as before. -/
theorem Sound.reset {n : Node} (h : n.Sound) : n.reset.Sound := by
  refine .of_containers rfl ?_
  intro c hc
  have hc' : c ∈ n.children ++ n.previous := by
    simp only [Node.reset, List.nil_append, List.mem_append] at hc
    exact List.mem_append.2 hc.symm
  exact ⟨h.placed c hc', h.inner c hc'⟩

theorem Sound.reopen {n : Node} (h : n.Sound) (symbol : Symbol) : (n.reopen symbol).Sound :=
  .intro h.reset.placed h.reset.inner

end Node

namespace SymbolTable

variable {t : SymbolTable} {around : Surroundings} {n : Node}

/-- The next number is one that is not in use. -/
theorem perm_takeId {ids : List Nat} (h : (ids ++ t.free).Perm (List.range t.slots)) :
    (ids ++ [t.nextId] ++ t.takeId.free).Perm (List.range t.takeId.slots) := by
  unfold takeId nextId
  rcases hfree : t.free with _ | ⟨id, rest⟩
  · rw [hfree, List.append_nil] at h
    rw [List.append_nil, List.range_succ]
    exact h.append_right _
  · rw [hfree] at h
    rw [List.append_assoc]
    exact h

/-- A table stays sound if a new scope takes its place among the containers of a scope. -/
theorem Sound.insert (h : t.Sound) (hr : t.root = around.fill n) {symbol : Symbol}
    (hpath : symbol.containerPath = n.scope.path) {t' : SymbolTable} {child : Node}
    {before after previous : List Node}
    (hroot : t'.root = around.fill ⟨n.id, n.scope, before ++ child :: after, previous⟩)
    (hchild : child.scope = .ofSymbol symbol) (hsound : child.Sound)
    (hrest : ∀ c ∈ before ++ after ++ previous, c ∈ n.children ++ n.previous)
    (hnum : (around.ids ++ Node.ids ⟨n.id, n.scope, before ++ child :: after, previous⟩ ++
      t'.free).Perm (List.range t'.slots)) : t'.Sound := by
  have hn := h.focus hr
  refine h.replace hr hroot rfl (.of_eq rfl rfl) (.of_containers rfl ?_) hnum
  intro c hc
  have hcases : c = child ∨ c ∈ before ++ after ++ previous := by
    simp only [List.mem_append, List.mem_cons] at hc ⊢
    grind
  rcases hcases with rfl | hc
  · rw [hchild]
    exact ⟨⟨symbol, rfl, hpath, by rw [Scope.ofSymbol, hpath]⟩, hsound⟩
  · exact ⟨hn.placed c (hrest c hc), hn.inner c (hrest c hc)⟩

/-- An opened container is empty and stands in the place of the one of its key, or at the end. The
table is as sound as before. -/
theorem Opened.sound (h : t.Sound) (hr : t.root = around.fill n) {symbol : Symbol}
    (hpath : symbol.containerPath = n.scope.path) {t' : SymbolTable} {id : Nat}
    (ho : Opened t around n symbol t' id) :
    ∃ before child after previous, t'.Sound ∧ child.id = id ∧
      t'.root = around.fill ⟨n.id, n.scope, before ++ child :: after, previous⟩ ∧
      child.scope = .ofSymbol symbol ∧ child.children = [] ∧
      (∀ b ∈ before, b.scope.isFor symbol = false) ∧
      ((∃ c, n.children = before ++ c :: after ∧ c.scope.isFor symbol) ∨
        n.children = before ∧ after = []) := by
  have hn := h.focus hr
  have hnum := h.numbers_focus hr
  have hscope (c : Node) (hc : c ∈ n.children ++ n.previous) (hfor : c.scope.isFor symbol) :
      (c.reopen symbol).scope = .ofSymbol symbol :=
    Scope.reopen_eq_ofSymbol (hpath ▸ hn.placed c hc) hfor
  cases ho with
  | @again before after c hc hbefore hfor =>
    have hmem : c ∈ n.children ++ n.previous := by simp [hc]
    refine ⟨before, c.reopen symbol, after, n.previous, ?_, rfl, rfl, hscope c hmem hfor, rfl,
      hbefore, .inl ⟨c, hc, hfor⟩⟩
    refine h.insert hr hpath rfl (hscope c hmem hfor) ((hn.inner c hmem).reopen symbol) ?_ ?_
    · rw [hc]
      simp only [List.mem_append, List.mem_cons]
      grind
    · rw [n.ids_eq, hc] at hnum
      rw [List.perm_iff_count] at hnum ⊢
      intro i
      have hi := (c.perm_ids_reopen symbol).count_eq i
      have hn := hnum i
      simp only [Node.ids, Node.idsOf, Node.idsOf_append, List.count_append,
        List.count_cons] at hi hn ⊢
      omega
  | @previous before after c hchildren hc hfor =>
    have hmem : c ∈ n.children ++ n.previous := by simp [hc]
    refine ⟨n.children, c.reopen symbol, [], before ++ after, ?_, rfl, rfl, hscope c hmem hfor, rfl,
      hchildren, .inr ⟨rfl, rfl⟩⟩
    refine h.insert hr hpath rfl (hscope c hmem hfor) ((hn.inner c hmem).reopen symbol) ?_ ?_
    · rw [hc]
      simp only [List.mem_append, List.mem_cons]
      grind
    · rw [n.ids_eq, hc] at hnum
      rw [List.perm_iff_count] at hnum ⊢
      intro i
      have hi := (c.perm_ids_reopen symbol).count_eq i
      have hn := hnum i
      simp only [Node.ids, Node.idsOf, Node.idsOf_append, List.count_append,
        List.count_cons, List.count_nil] at hi hn ⊢
      omega
  | fresh hchildren hprevious =>
    refine ⟨n.children, { id := t.nextId, scope := .ofSymbol symbol }, [], n.previous, ?_, rfl, rfl,
      rfl, rfl, hchildren, .inr ⟨rfl, rfl⟩⟩
    refine h.insert hr hpath rfl rfl (.intro (by simp) (by simp)) (by simp) ?_
    have htake := perm_takeId hnum
    rw [n.ids_eq] at htake
    rw [List.perm_iff_count] at htake ⊢
    intro i
    have hi := htake i
    simp only [Node.ids, Node.idsOf, Node.idsOf_append, List.count_append,
      List.count_cons, List.count_nil] at hi ⊢
    omega

/-! ### Readings -/

theorem Sound.beginParse (h : t.Sound) : t.beginParse.Sound where
  numbers := (t.root.perm_ids_reset.append_right _).trans h.numbers
  root_id := h.root_id
  root_path := h.root_path
  tree := h.tree.reset

end SymbolTable

namespace Node

mutual

theorem count_releaseOrder (n : Node) (id : Nat) : n.releaseOrder.count id = n.ids.count id := by
  match n with
  | ⟨i, scope, children, previous⟩ =>
    simp only [releaseOrder, ids, List.count_cons, List.count_append,
      count_releaseOrderOf children id, count_releaseOrderOf previous id]
    omega

theorem count_releaseOrderOf (nodes : List Node) (id : Nat) :
    (releaseOrderOf nodes).count id = (idsOf nodes).count id := by
  match nodes with
  | [] => rfl
  | n :: rest =>
    simp only [releaseOrderOf, idsOf, List.count_append, count_releaseOrder n id,
      count_releaseOrderOf rest id]
    omega

end

theorem count_flatMap_releaseOrder (nodes : List Node) (id : Nat) :
    (nodes.flatMap releaseOrder).count id = (idsOf nodes).count id := by
  induction nodes with
  | nil => rfl
  | cons n rest ih =>
    rw [List.flatMap_cons, List.count_append, ih, count_releaseOrder, idsOf, List.count_append]

mutual

/-- A number of the tree is given up or stays. -/
theorem count_sweep (n : Node) (id : Nat) :
    n.sweep.ids.count id + n.staleIds.count id = n.ids.count id := by
  match n with
  | ⟨i, scope, children, previous⟩ =>
    have hc := count_sweepAll children id
    simp only [sweep, staleIds, ids, idsOf, List.count_cons, List.count_append, List.count_nil,
      count_flatMap_releaseOrder]
    omega

theorem count_sweepAll (nodes : List Node) (id : Nat) :
    (idsOf (sweepAll nodes)).count id + (staleIdsOf nodes).count id = (idsOf nodes).count id := by
  match nodes with
  | [] => rfl
  | n :: rest =>
    have hn := count_sweep n id
    have hr := count_sweepAll rest id
    simp only [sweepAll, staleIdsOf, idsOf, List.count_append]
    omega

end

theorem scope_sweep (n : Node) : n.sweep.scope = n.scope := by
  obtain ⟨id, scope, children, previous⟩ := n
  rw [sweep]

theorem id_sweep (n : Node) : n.sweep.id = n.id := by
  obtain ⟨id, scope, children, previous⟩ := n
  rw [sweep]

theorem Sound.sweep {n : Node} (h : n.Sound) : n.sweep.Sound := by
  induction h with
  | @intro n placed inner ih =>
    obtain ⟨id, scope, children, previous⟩ := n
    rw [Node.sweep, sweepAll_eq]
    refine .of_containers rfl ?_
    intro c hc
    simp only [List.append_nil, List.mem_map] at hc
    obtain ⟨d, hd, rfl⟩ := hc
    have hd' : d ∈ children ++ previous := List.mem_append_left _ hd
    rw [scope_sweep]
    exact ⟨placed d hd', ih d hd'⟩

end Node

namespace SymbolTable

theorem Sound.endParse {t : SymbolTable} (h : t.Sound) : t.endParse.Sound where
  numbers := by
    refine .trans ?_ h.numbers
    rw [List.perm_iff_count]
    intro id
    have hc := t.root.count_sweep id
    simp only [SymbolTable.endParse, List.count_append, List.count_reverse]
    omega
  root_id := t.root.id_sweep.trans h.root_id
  root_path := (congrArg Scope.path t.root.scope_sweep).trans h.root_path
  tree := h.tree.sweep

end SymbolTable

end HdlIndex
