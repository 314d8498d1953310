import HdlIndex.Proofs.Symbol.Edits
import Mathlib.Data.List.Nodup

/-! Numbers that last. A container is found from the file scope by a path of names and tags. During
a reading it may stand among the containers of this reading or of the one before, and move from
these to those, but the path that led to it still does. Main statement: a path that leads to a
container before a reading and to one behind it leads to the same number. -/

namespace HdlIndex

/-- What tells a container from the others of its scope: its name and its tag. -/
def Scope.label? (s : Scope) : Option (String × List String) :=
  s.symbol.map fun symbol => (symbol.name, symbol.kind.tag)

theorem Scope.label?_eq_of_key? {s s' : Scope} (h : s'.key? = s.key?) : s'.label? = s.label? := by
  have hlabel (s : Scope) : s.label? = s.key?.map fun key => (key.1, key.2.1) := by
    simp [label?, key?, Symbol.key, Function.comp_def]
  rw [hlabel, hlabel, h]

/-- Containers of one scope that have the same name and tag have the same key. -/
theorem Scope.IsIn.key?_eq {s s' : Scope} {path : List String} (h : s.IsIn path)
    (h' : s'.IsIn path) (hlabel : s.label? = s'.label?) : s.key? = s'.key? := by
  obtain ⟨symbol, hsymbol, hpath, -⟩ := h
  obtain ⟨symbol', hsymbol', hpath', -⟩ := h'
  simp only [label?, hsymbol, hsymbol', Option.map_some, Option.some.injEq, Prod.mk.injEq] at hlabel
  simp [key?, hsymbol, hsymbol', Symbol.key, hlabel, hpath, hpath']

namespace Node

/-- Whether a path of names and tags leads from a scope to the one with a number. Each container on
the way is in a row of the scope around it. -/
inductive Leads (row : Node → List Node) : Node → List (String × List String) → Nat → Prop
  | here (n : Node) : Leads row n [] n.id
  | inside {n c : Node} {label : String × List String} {path : List (String × List String)}
      {id : Nat} (hc : c ∈ row n) (hlabel : c.scope.label? = some label)
      (h : Leads row c path id) : Leads row n (label :: path) id

variable {n m : Node} {path : List (String × List String)} {i j : Nat}

/-- A container that is declared is among all containers of its scope. -/
theorem Leads.containers (h : n.Leads children path i) : n.Leads containers path i := by
  induction h with
  | here n => exact .here n
  | inside hc hlabel _ ih => exact .inside (List.mem_append_left _ hc) hlabel ih

/-- A path leads to one scope at most, as keys are told apart in each scope on the way. -/
theorem Leads.eq (h : n.Leads Node.containers path i) (h' : n.Leads Node.containers path j)
    (hsound : n.Sound) (hdistinct : n.Distinct) : i = j := by
  induction h with
  | here n =>
    cases h' with
    | here => rfl
  | @inside n c label path i hc hlabel _ ih =>
    cases h' with
    | @inside _ d _ _ _ hd hlabel' hrest =>
      have hkey : c.scope.key? = d.scope.key? :=
        (hsound.placed c hc).key?_eq (hsound.placed d hd) (hlabel.trans hlabel'.symm)
      have heq : c = d := List.inj_on_of_nodup_map hdistinct.keys hc hd hkey
      subst heq
      exact ih hrest (hsound.inner c hc) (hdistinct.inner c hc)

/-- Behind a reading a path leads where it led before the containers of an earlier one went. -/
theorem Leads.of_sweep (h : n.sweep.Leads children path i) : n.Leads children path i := by
  generalize hs : n.sweep = s at h
  induction h generalizing n with
  | here s =>
    rw [← hs, n.id_sweep]
    exact .here n
  | @inside s c label path i hc hlabel _ ih =>
    obtain ⟨id, scope, children, previous⟩ := n
    rw [sweep, sweepAll_eq] at hs
    subst hs
    obtain ⟨d, hd, rfl⟩ := List.mem_map.1 hc
    rw [scope_sweep] at hlabel
    exact .inside hd hlabel (ih rfl)

/-! ### Paths that still lead where they led -/

/-- Whether all paths that lead to a container below one scope lead there below the other. -/
def Keeps (n m : Node) : Prop :=
  ∀ path id, n.Leads containers path id → m.Leads containers path id

theorem Keeps.refl (n : Node) : n.Keeps n := fun _ _ h => h

/-- It is enough to keep the number of a scope, and each container under its name and tag. -/
theorem keeps_of_containers (hid : m.id = n.id)
    (h : ∀ c ∈ n.containers, ∃ d ∈ m.containers, d.scope.label? = c.scope.label? ∧ c.Keeps d) :
    n.Keeps m := by
  intro path id hleads
  cases hleads with
  | here =>
    rw [← hid]
    exact .here m
  | inside hc hlabel hrest =>
    obtain ⟨d, hd, hsame, hkeeps⟩ := h _ hc
    exact .inside hd (hsame.trans hlabel) (hkeeps _ _ hrest)

theorem keeps_of_subset (hid : m.id = n.id) (h : n.containers ⊆ m.containers) : n.Keeps m :=
  keeps_of_containers hid fun c hc => ⟨c, h hc, rfl, .refl c⟩

theorem keeps_reset (n : Node) : n.Keeps n.reset :=
  keeps_of_subset rfl n.perm_containers_reset.symm.subset

theorem keeps_reopen (n : Node) (symbol : Symbol) : n.Keeps (n.reopen symbol) :=
  keeps_of_subset rfl n.perm_containers_reset.symm.subset

/-- The container of a key is opened again, wherever it is put. -/
theorem keeps_reopened {c : Node} {symbol : Symbol} (hid : m.id = n.id)
    (hfor : c.scope.isFor symbol) (hc : c.reopen symbol ∈ m.containers)
    (hrest : ∀ d ∈ n.containers, d = c ∨ d ∈ m.containers) : n.Keeps m := by
  refine keeps_of_containers hid fun d hd => ?_
  rcases hrest d hd with rfl | hd
  · refine ⟨d.reopen symbol, hc, Scope.label?_eq_of_key? ?_, d.keeps_reopen symbol⟩
    rw [key?_reopen, Scope.isFor_iff.1 hfor]
  · exact ⟨d, hd, rfl, .refl d⟩

end Node

theorem Frame.keeps_fill (f : Frame) {n m : Node} (h : n.Keeps m)
    (hlabel : m.scope.label? = n.scope.label?) : (f.fill n).Keeps (f.fill m) := by
  refine Node.keeps_of_containers ((f.id_fill m).trans (f.id_fill n).symm) fun c hc => ?_
  rcases (f.children_fill n c).1 hc with rfl | hother
  · exact ⟨m, (f.children_fill m m).2 (.inl rfl), hlabel, h⟩
  · exact ⟨c, (f.children_fill m c).2 (.inr hother), rfl, .refl c⟩

/-- Paths through a scope are kept if it keeps them, and its own name and tag. -/
theorem Surroundings.keeps_fill (around : Surroundings) {n m : Node} (h : n.Keeps m)
    (hlabel : m.scope.label? = n.scope.label?) : (around.fill n).Keeps (around.fill m) := by
  induction around generalizing n m with
  | nil => exact h
  | cons f around ih =>
    refine ih (f.keeps_fill h hlabel) ?_
    rw [f.scope_fill, f.scope_fill]

namespace SymbolTable

/-- Opening a container moves no other one, and the container keeps its number. -/
theorem Opened.keeps {t t' : SymbolTable} {around : Surroundings} {n : Node} {symbol : Symbol}
    {id : Nat} (ho : Opened t around n symbol t' id) (hr : t.root = around.fill n) :
    t.root.Keeps t'.root := by
  rw [hr]
  cases ho with
  | @again before after c hc hbefore hfor =>
    refine around.keeps_fill (Node.keeps_reopened rfl hfor ?_ ?_) rfl
    · simp [Node.containers]
    · simp only [Node.containers, hc, List.mem_append, List.mem_cons]
      grind
  | @previous before after c hchildren hc hfor =>
    refine around.keeps_fill (Node.keeps_reopened rfl hfor ?_ ?_) rfl
    · simp [Node.containers]
    · simp only [Node.containers, hc, List.mem_append, List.mem_cons]
      grind
  | fresh hchildren hprevious =>
    refine around.keeps_fill (Node.keeps_of_subset rfl ?_) rfl
    intro c hc
    simp only [Node.containers, Node.addChild, List.mem_append] at hc ⊢
    exact hc.imp_left .inl

end SymbolTable

/-- An edit keeps all paths. -/
theorem Edit.keeps {u v : Underway} (h : Edit u v) (hu : u.Orderly) :
    u.table.root.Keeps v.table.root := by
  rcases h.cases_on with ⟨id, hid, f, hf, rfl⟩ | ⟨count, rfl⟩ | ⟨id, hid, symbol, rfl⟩
  · obtain ⟨around, n, hr, rfl⟩ := u.table.root.exists_focus (hu.opened _ hid)
    rw [hu.table.sound.update_focus hr, hr]
    exact around.keeps_fill (Node.keeps_of_subset rfl fun _ hc => hc)
      (Scope.label?_eq_of_key? (hf.key n.scope))
  · exact .refl _
  · obtain ⟨around, n, hr, rfl⟩ := u.table.root.exists_focus (hu.opened _ hid)
    exact (hu.table.sound.openContainer_opened hr symbol).keeps hr

theorem Edits.keeps {u v : Underway} (h : Edits u v) (hu : u.Orderly) :
    u.table.root.Keeps v.table.root := by
  induction h with
  | refl => exact .refl _
  | tail hedits hedit ih =>
    intro path id hleads
    exact hedit.keeps (hu.edits hedits) path id (ih path id hleads)

namespace SymbolTable

/-- A container that a path of names and tags leads to before a reading, and behind it, has the same
number before and behind it. -/
theorem eq_of_leads_parsed {t t' : SymbolTable} (h : t.Attainable) (hp : Parsed t t')
    {path : List (String × List String)} {i j : Nat} (hi : t.root.Leads Node.children path i)
    (hj : t'.root.Leads Node.children path j) : i = j := by
  obtain ⟨u, hu, rfl⟩ := hp
  have hstart := h.orderly.beginParse.underway
  have hend := (hstart.edits hu).table
  -- Both paths are looked at in the middle of the reading, where keys tell them apart.
  have hi' : u.table.root.Leads Node.containers path i :=
    Edits.keeps hu hstart _ _ (t.root.keeps_reset _ _ hi.containers)
  have hj' : u.table.root.Leads Node.containers path j := hj.of_sweep.containers
  exact hi'.eq hj' hend.sound.tree hend.distinct

end SymbolTable

end HdlIndex
