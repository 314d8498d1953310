import HdlIndex.Proofs.Symbol.Soundness

/-! Scopes in which no declaration stands twice. Two containers of a scope differ in their keys,
those of this reading and of an earlier one taken together, and so do two of its leaf symbols. Main
statements: every operation on a scope of the tree keeps the whole tree distinct, and so do the
start and the end of a reading. -/

namespace HdlIndex

/-! ### Keys -/

namespace SymbolKind

theorem isContainer_eq (kind : SymbolKind) :
    kind.isContainer = ["module", "interface", "program", "package", "function", "task", "typedef",
      "struct", "union", "enum"].contains kind.discriminator := by
  cases kind <;> rfl

/-- Whether a kind has a scope can be told from its tag. -/
theorem isContainer_of_tag_eq {kind kind' : SymbolKind} (h : kind.tag = kind'.tag) :
    kind.isContainer = kind'.isContainer := by
  rw [isContainer_eq, isContainer_eq, (List.cons.inj h).1]

end SymbolKind

/-- What tells a declaration from others. -/
def Symbol.key (s : Symbol) : String × List String × List String :=
  (s.name, s.kind.tag, s.containerPath)

theorem Symbol.sameKey_iff {s t : Symbol} : s.sameKey t = true ↔ s.key = t.key := by
  simp [sameKey, key, and_assoc]

/-- The key of the container that a scope belongs to. -/
def Scope.key? (s : Scope) : Option (String × List String × List String) := s.symbol.map Symbol.key

theorem Scope.isFor_iff {s : Scope} {symbol : Symbol} :
    s.isFor symbol = true ↔ s.key? = some symbol.key := by
  cases hs : s.symbol with
  | none => simp [isFor, key?, hs]
  | some old => simp [isFor, key?, hs, Symbol.sameKey_iff]

theorem Scope.key?_setDefinition (s : Scope) (d : Definition) :
    (s.setDefinition d).key? = s.key? := by
  cases hs : s.symbol with
  | none => simp [setDefinition, key?, hs]
  | some old => simp [setDefinition, key?, hs, Symbol.key]

/-- The row with an element at its end, unless it has the element already. -/
def once {α : Type} [DecidableEq α] (xs : List α) (x : α) : List α :=
  if x ∈ xs then xs else xs ++ [x]

theorem mem_once {α : Type} [DecidableEq α] {xs : List α} {x y : α} :
    y ∈ once xs x ↔ y ∈ xs ∨ y = x := by
  unfold once
  split
  · next hmem => exact ⟨.inl, fun h => h.elim id fun heq => heq ▸ hmem⟩
  · simp

theorem nodup_once {α : Type} [DecidableEq α] {xs : List α} (h : xs.Nodup) (x : α) :
    (once xs x).Nodup := by
  unfold once
  split
  · exact h
  · next hnew =>
    refine List.nodup_append.2 ⟨h, by simp, ?_⟩
    rintro y hy z hz rfl
    exact hnew (List.mem_singleton.1 hz ▸ hy)

/-- A symbol takes the place of the one with its key. -/
theorem Symbol.map_key_upsert (symbols : List Symbol) (symbol : Symbol) :
    (upsert symbols symbol).map key = once (symbols.map key) symbol.key := by
  unfold upsert once
  split
  · next index hindex =>
    obtain ⟨hlt, hsame, -⟩ := List.findIdx?_eq_some_iff_getElem.1 hindex
    have hlt' : index < (symbols.map key).length := by simpa using hlt
    have hkey : (symbols.map key)[index] = symbol.key := by simpa using sameKey_iff.1 hsame
    rw [if_pos (hkey ▸ List.getElem_mem hlt'), List.map_set, ← hkey, List.set_getElem_self]
  · next hnone =>
    rw [if_neg, List.map_append, List.map_singleton]
    intro hmem
    obtain ⟨s, hs, hkey⟩ := List.mem_map.1 hmem
    exact absurd (sameKey_iff.2 hkey) (by simp [List.findIdx?_eq_none_iff.1 hnone s hs])

theorem Symbol.nodup_keys_upsert {symbols : List Symbol} (h : (symbols.map key).Nodup)
    (symbol : Symbol) : ((upsert symbols symbol).map key).Nodup := by
  rw [map_key_upsert]
  exact nodup_once h symbol.key

namespace Node

/-- The containers of a scope, of this reading and of an earlier one. -/
def containers (n : Node) : List Node := n.children ++ n.previous

/-- Whether no declaration stands twice in a scope, or in one below it. -/
inductive Distinct : Node → Prop
  | intro {n : Node} (leaves : (n.scope.symbols.map Symbol.key).Nodup)
      (keys : (n.containers.map (·.scope.key?)).Nodup)
      (inner : ∀ c ∈ n.containers, c.Distinct) : n.Distinct

theorem Distinct.leaves {n : Node} (h : n.Distinct) : (n.scope.symbols.map Symbol.key).Nodup := by
  cases h with
  | intro leaves keys inner => exact leaves

theorem Distinct.keys {n : Node} (h : n.Distinct) :
    (n.containers.map (·.scope.key?)).Nodup := by
  cases h with
  | intro leaves keys inner => exact keys

theorem Distinct.inner {n : Node} (h : n.Distinct) : ∀ c ∈ n.containers, c.Distinct := by
  cases h with
  | intro leaves keys inner => exact inner

theorem distinct_of_bare {n : Node} (hsymbols : n.scope.symbols = [])
    (hcontainers : n.containers = []) : n.Distinct :=
  .intro (by simp [hsymbols]) (by simp [hcontainers]) (by simp [hcontainers])

/-- A scope stays distinct if its containers are only put in another order. -/
theorem Distinct.of_perm {n m : Node} (h : n.Distinct)
    (hleaves : (m.scope.symbols.map Symbol.key).Nodup) (hperm : m.containers.Perm n.containers) :
    m.Distinct :=
  .intro hleaves ((hperm.map _).nodup_iff.2 h.keys) fun c hc => h.inner c (hperm.subset hc)

theorem perm_containers_reset (n : Node) : n.reset.containers.Perm n.containers := by
  show (n.previous ++ n.children).Perm (n.children ++ n.previous)
  exact List.perm_append_comm

theorem Distinct.reset {n : Node} (h : n.Distinct) : n.reset.Distinct :=
  h.of_perm (by simp [Node.reset, Scope.clear]) n.perm_containers_reset

theorem Distinct.reopen {n : Node} (h : n.Distinct) (symbol : Symbol) :
    (n.reopen symbol).Distinct :=
  h.of_perm (by simp [Node.reopen, Scope.reopen, Scope.clear]) n.perm_containers_reset

theorem key?_reopen (n : Node) (symbol : Symbol) :
    (n.reopen symbol).scope.key? = some symbol.key := rfl

/-- The container of a key is opened again, wherever it is put. -/
theorem Distinct.reopened {n m c : Node} {rest : List Node} {symbol : Symbol} (h : n.Distinct)
    (hc : n.containers.Perm (c :: rest)) (hfor : c.scope.isFor symbol)
    (hleaves : (m.scope.symbols.map Symbol.key).Nodup)
    (hm : m.containers.Perm (c.reopen symbol :: rest)) : m.Distinct := by
  have hkeys := (hc.map (·.scope.key?)).nodup_iff.1 h.keys
  rw [List.map_cons, Scope.isFor_iff.1 hfor, ← c.key?_reopen symbol] at hkeys
  refine .intro hleaves ((hm.map _).nodup_iff.2 hkeys) ?_
  intro d hd
  rcases List.mem_cons.1 (hm.subset hd) with rfl | hd
  · exact (h.inner c (hc.symm.subset List.mem_cons_self)).reopen symbol
  · exact h.inner d (hc.symm.subset (List.mem_cons_of_mem _ hd))

/-- A container of a new key is added. -/
theorem Distinct.added {n m c : Node} {symbol : Symbol} (h : n.Distinct)
    (hnew : ∀ d ∈ n.containers, d.scope.isFor symbol = false)
    (hkey : c.scope.key? = some symbol.key) (hc : c.Distinct)
    (hleaves : (m.scope.symbols.map Symbol.key).Nodup)
    (hm : m.containers.Perm (c :: n.containers)) : m.Distinct := by
  refine .intro hleaves ((hm.map _).nodup_iff.2 (List.nodup_cons.2 ⟨?_, h.keys⟩)) ?_
  · intro hmem
    obtain ⟨d, hd, hdkey⟩ := List.mem_map.1 hmem
    have hfor := Scope.isFor_iff.2 (hdkey.trans hkey)
    rw [hnew d hd] at hfor
    cases hfor
  · intro d hd
    rcases List.mem_cons.1 (hm.subset hd) with rfl | hd
    · exact hc
    · exact h.inner d hd

theorem Distinct.sweep {n : Node} (h : n.Distinct) : n.sweep.Distinct := by
  induction h with
  | @intro n leaves keys inner ih =>
    obtain ⟨id, scope, children, previous⟩ := n
    rw [Node.sweep, sweepAll_eq]
    refine .intro leaves ?_ ?_
    · have hsub : (children.map fun c => c.scope.key?).Nodup :=
        keys.sublist ((List.sublist_append_left children previous).map _)
      simpa [containers, Function.comp_def, scope_sweep] using hsub
    · intro c hc
      obtain ⟨d, hd, rfl⟩ : ∃ d ∈ children, d.sweep = c := by
        simpa [containers] using hc
      exact ih d (List.mem_append_left _ hd)

end Node

/-! ### Scopes in their surroundings -/

namespace Frame

theorem keys_fill (f : Frame) {n m : Node} (h : m.scope.key? = n.scope.key?) :
    (f.fill m).containers.map (·.scope.key?) = (f.fill n).containers.map (·.scope.key?) := by
  cases hs : f.stale <;> simp [fill, hs, Node.containers, h]

theorem distinct_of_fill {f : Frame} {n : Node} (h : (f.fill n).Distinct) : n.Distinct :=
  h.inner n ((f.children_fill n n).2 (.inl rfl))

theorem distinct_fill {f : Frame} {n m : Node} (h : (f.fill n).Distinct) (hm : m.Distinct)
    (hkey : m.scope.key? = n.scope.key?) : (f.fill m).Distinct := by
  refine .intro ?_ ?_ ?_
  · have hleaves := h.leaves
    rw [f.scope_fill] at hleaves ⊢
    exact hleaves
  · rw [f.keys_fill hkey]
    exact h.keys
  · intro c hc
    rcases (f.children_fill m c).1 hc with rfl | hother
    · exact hm
    · exact h.inner c ((f.children_fill n c).2 (.inr hother))

end Frame

namespace Surroundings

theorem distinct_of_fill {around : Surroundings} {n : Node} (h : (around.fill n).Distinct) :
    n.Distinct := by
  induction around generalizing n with
  | nil => exact h
  | cons f around ih => exact Frame.distinct_of_fill (ih h)

/-- A scope may be replaced by a distinct one of the same key. -/
theorem distinct_fill {around : Surroundings} {n m : Node} (h : (around.fill n).Distinct)
    (hm : m.Distinct) (hkey : m.scope.key? = n.scope.key?) : (around.fill m).Distinct := by
  induction around generalizing n m with
  | nil => exact hm
  | cons f around ih =>
    refine ih h (Frame.distinct_fill (distinct_of_fill h) hm hkey) ?_
    rw [f.scope_fill, f.scope_fill]

end Surroundings

namespace SymbolTable

variable {t : SymbolTable} {around : Surroundings} {n : Node}

theorem distinct_empty : empty.root.Distinct := Node.distinct_of_bare rfl rfl

theorem distinct_update (h : t.Sound) (hd : t.root.Distinct) (hr : t.root = around.fill n)
    {f : Scope → Scope} (hleaves : ((f n.scope).symbols.map Symbol.key).Nodup)
    (hkey : (f n.scope).key? = n.scope.key?) : (t.update n.id f).root.Distinct := by
  rw [hr] at hd
  have hn := Surroundings.distinct_of_fill hd
  rw [h.update_focus hr]
  exact Surroundings.distinct_fill hd (.intro hleaves hn.keys hn.inner) hkey

/-- A container is put in the place of the one of its key, or is the only one of its key. -/
theorem Opened.distinct (hd : t.root.Distinct) (hr : t.root = around.fill n) {symbol : Symbol}
    {t' : SymbolTable} {id : Nat} (ho : Opened t around n symbol t' id) : t'.root.Distinct := by
  rw [hr] at hd
  have hn := Surroundings.distinct_of_fill hd
  cases ho with
  | @again before after c hc hbefore hfor =>
    have hperm : n.containers.Perm (c :: (before ++ after ++ n.previous)) := by
      rw [Node.containers, hc, List.append_assoc, List.append_assoc]
      exact List.perm_middle
    refine Surroundings.distinct_fill hd (hn.reopened hperm hfor hn.leaves ?_) rfl
    show ((before ++ c.reopen symbol :: after) ++ n.previous).Perm _
    rw [List.append_assoc, List.append_assoc]
    exact List.perm_middle
  | @previous before after c hchildren hc hfor =>
    have hperm : n.containers.Perm (c :: (n.children ++ (before ++ after))) := by
      rw [Node.containers, hc, ← List.append_assoc, ← List.append_assoc]
      exact List.perm_middle
    refine Surroundings.distinct_fill hd (hn.reopened hperm hfor hn.leaves ?_) rfl
    show ((n.children ++ [c.reopen symbol]) ++ (before ++ after)).Perm _
    rw [List.append_assoc]
    exact List.perm_middle
  | fresh hchildren hprevious =>
    have hnew : ∀ d ∈ n.containers, d.scope.isFor symbol = false := by
      intro d hd
      rcases List.mem_append.1 hd with hd | hd
      · exact hchildren d hd
      · exact hprevious d hd
    let child : Node := { id := t.nextId, scope := .ofSymbol symbol }
    have hkey : child.scope.key? = some symbol.key := rfl
    refine Surroundings.distinct_fill hd
      (hn.added hnew hkey (Node.distinct_of_bare rfl rfl) hn.leaves ?_) rfl
    show ((n.children ++ [child]) ++ n.previous).Perm _
    rw [List.append_assoc]
    exact List.perm_middle

end SymbolTable

end HdlIndex
