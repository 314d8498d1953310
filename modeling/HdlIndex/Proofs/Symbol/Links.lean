import HdlIndex.Proofs.Symbol.Arrangement
import HdlIndex.Proofs.Symbol.Reading
import HdlIndex.Proofs.Symbol.Stability

/-! Slots and the links between them. Main statements: in every store that readings lead to, before,
during and after a reading, links lead from the file scope to each slot that was not given up, in one
way, each slot names the one that it hangs under, and the keys in a scope are different; behind a
reading no link to a container of an earlier one is left; and a container that is there before and
behind a reading is in the same slot. -/

namespace HdlIndex

namespace Node

/-! ### Links of a tree -/

mutual

/-- Each scope below a scope is linked to once. -/
theorem perm_links (parent : Option Nat) (n : Node) :
    (n.id :: (n.slots parent).flatMap (·.2.links)).Perm n.ids := by
  match n with
  | ⟨id, scope, children, previous⟩ =>
    have hc := perm_linksOf (some id) children
    have hp := perm_linksOf (some id) previous
    rw [List.perm_iff_count] at hc hp ⊢
    intro i
    have hci := hc i
    have hpi := hp i
    simp only [slots, ids, Slot.links, List.flatMap_cons, List.flatMap_append, List.count_cons,
      List.count_append] at hci hpi ⊢
    omega

theorem perm_linksOf (parent : Option Nat) (nodes : List Node) :
    (nodes.map (·.id) ++ (slotsOf parent nodes).flatMap (·.2.links)).Perm (idsOf nodes) := by
  match nodes with
  | [] => exact .refl _
  | n :: rest =>
    have hn := perm_links parent n
    have hr := perm_linksOf parent rest
    rw [List.perm_iff_count] at hn hr ⊢
    intro i
    have hni := hn i
    have hri := hr i
    simp only [slotsOf, idsOf, List.map_cons, List.flatMap_append, List.count_cons,
      List.count_append] at hni hri ⊢
    omega

end

theorem links_slot (parent : Option Nat) (n : Node) :
    (n.slot parent).links = n.containers.map (·.id) := List.map_append.symm

end Node

namespace ScopeStore

/-- Whether links lead from the file scope to a slot. -/
inductive Reached (s : ScopeStore) : Nat → Prop
  | root : s.Reached rootId
  | link {i j : Nat} (hi : s.Reached i) (hj : j ∈ (s.slot i).links) : s.Reached j

/-- How the slots of a store are arranged. -/
structure Arranged (s : ScopeStore) : Prop where
  /-- Each number is that of a slot which links lead to, or was given up, and not both. -/
  numbers : ∀ i, i < s.slots.size ↔ s.Reached i ∨ i ∈ s.free
  apart : ∀ i, s.Reached i → i ∉ s.free
  free : s.free.Nodup
  /-- No slot is linked to twice, and that of the file scope not at all. -/
  once : (rootId :: s.links).Nodup
  root : (s.slot rootId).parent = none ∧ (s.slot rootId).scope.path = []
  parent : ∀ i, s.Reached i → ∀ j ∈ (s.slot i).links, (s.slot j).parent = some i
  /-- The path inside a container is the one around it and its own name. -/
  path : ∀ i, s.Reached i → ∀ j ∈ (s.slot i).links, ∃ symbol,
    (s.slot j).scope.symbol = some symbol ∧
      (s.slot j).scope.path = (s.slot i).scope.path ++ [symbol.name]
  containers : ∀ i, s.Reached i → ((s.slot i).links.map fun j => (s.slot j).scope.key?).Nodup
  leaves : ∀ i, s.Reached i → ((s.slot i).scope.symbols.map Symbol.key).Nodup

/-! ### Links of a store that holds a tree -/

section Held

variable {s : ScopeStore} {t : SymbolTable} {around : Surroundings} {n c : Node}

/-- A container of a scope is in its slot, with the scope as what is around it. -/
theorem Holds.slot_container (h : s.Holds t) (hr : t.root = around.fill n)
    (hc : c ∈ n.containers) : s.slot c.id = c.slot (some n.id) := by
  obtain ⟨f, rfl⟩ := Node.exists_frame hc
  have hfocus : t.root = Surroundings.fill (f :: around) c := hr
  rw [f.id_fill]
  exact h.slot_focus hfocus

mutual

theorem reached_ids {parent : Option Nat} (n : Node) (h : s.Has (n.slots parent))
    (hn : s.Reached n.id) : ∀ i ∈ n.ids, s.Reached i := by
  match n with
  | ⟨id, scope, children, previous⟩ =>
    rw [Node.slots] at h
    have hslot : s.slot id = ⟨scope, parent, children.map (·.id), previous.map (·.id)⟩ :=
      slot_of_getElem? (h _ List.mem_cons_self)
    obtain ⟨hchildren, hprevious⟩ := has_append.1 (h.mono (List.subset_cons_self _ _))
    intro i hi
    rw [Node.ids, List.mem_cons, List.mem_append] at hi
    rcases hi with rfl | hi | hi
    · exact hn
    · refine reached_idsOf children hchildren (fun j hj => hn.link ?_) i hi
      rw [hslot]
      exact List.mem_append_left _ hj
    · refine reached_idsOf previous hprevious (fun j hj => hn.link ?_) i hi
      rw [hslot]
      exact List.mem_append_right _ hj

theorem reached_idsOf {parent : Option Nat} (nodes : List Node)
    (h : s.Has (Node.slotsOf parent nodes)) (hn : ∀ j ∈ nodes.map (·.id), s.Reached j) :
    ∀ i ∈ Node.idsOf nodes, s.Reached i := by
  match nodes with
  | [] => exact fun i hi => nomatch hi
  | n :: rest =>
    rw [Node.slotsOf, has_append] at h
    rw [List.map_cons, List.forall_mem_cons] at hn
    intro i hi
    rcases List.mem_append.1 hi with hi | hi
    · exact reached_ids n h.1 hn.1 i hi
    · exact reached_idsOf rest h.2 hn.2 i hi

end

/-- Links lead to the scopes of the tree, and to nothing else. -/
theorem Holds.reached_iff (h : s.Holds t) (ht : t.Sound) (i : Nat) :
    s.Reached i ↔ i ∈ t.root.ids := by
  constructor
  · intro hi
    induction hi with
    | root =>
      have hroot := t.root.id_mem_ids
      rwa [ht.root_id] at hroot
    | @link i j hi hj ih =>
      obtain ⟨around, n, hr, rfl⟩ := t.root.exists_focus ih
      rw [h.slot_focus hr, n.links_slot] at hj
      obtain ⟨c, hc, rfl⟩ := List.mem_map.1 hj
      obtain ⟨f, rfl⟩ := Node.exists_frame hc
      have hfocus : t.root = Surroundings.fill (f :: around) c := hr
      exact SymbolTable.id_mem_of_focus hfocus
  · refine reached_ids t.root h.tree ?_ i
    rw [ht.root_id]
    exact .root

theorem toList_slots (s : ScopeStore) : s.slots.toList = (List.range s.slots.size).map s.slot := by
  refine List.ext_getElem (by simp) fun i hi _ => ?_
  rw [List.getElem_map, List.getElem_range]
  exact (slot_of_getElem? (Array.getElem?_eq_getElem hi)).symm

/-- The links of all slots are those of the tree. -/
theorem Holds.perm_links (h : s.Holds t) (ht : t.Sound) :
    (rootId :: s.links).Perm t.root.ids := by
  have hblank : t.free.flatMap (fun i => (s.slot i).links) = [] := by
    refine List.flatMap_eq_nil_iff.2 fun i hi => ?_
    rw [slot_of_getElem? (h.blank i hi)]
    rfl
  have htree : t.root.ids.flatMap (fun i => (s.slot i).links) =
      (t.root.slots none).flatMap (·.2.links) := by
    rw [← Node.map_fst_slots none, List.flatMap_map]
    refine List.flatMap_congr fun e he => ?_
    rw [slot_of_getElem? (h.tree e he)]
  have hlinks : s.links.Perm ((t.root.slots none).flatMap (·.2.links)) := by
    rw [links, s.toList_slots, List.flatMap_map, h.size, ← htree]
    refine (ht.numbers.symm.flatMap_right _).trans ?_
    rw [List.flatMap_append, hblank, List.append_nil]
  refine (hlinks.cons rootId).trans ?_
  have hroot : rootId = t.root.id := ht.root_id.symm
  rw [hroot]
  exact t.root.perm_links none

/-- A store is arranged if the table that it holds is. -/
theorem Holds.arranged (h : s.Holds t) (hsound : t.Sound) (ht : t.Arranged) : s.Arranged := by
  have hreached := h.reached_iff hsound
  obtain ⟨hids, hfree, hapart⟩ := List.nodup_append.1 hsound.nodup
  have hfocus (i : Nat) (hi : s.Reached i) :
      ∃ around n, t.root = Surroundings.fill around n ∧ n.id = i ∧ t.root.find? i = some n := by
    obtain ⟨around, n, hr, rfl⟩ := t.root.exists_focus ((hreached i).1 hi)
    exact ⟨around, n, hr, rfl, hsound.find?_focus hr⟩
  have hcontainer (i : Nat) (hi : s.Reached i) (j : Nat) (hj : j ∈ (s.slot i).links) :
      ∃ n c parent, t.root.find? i = some n ∧ c ∈ n.containers ∧ s.slot i = n.slot parent ∧
        s.slot j = c.slot (some i) := by
    obtain ⟨around, n, hr, rfl, hn⟩ := hfocus i hi
    rw [h.slot_focus hr, n.links_slot] at hj
    obtain ⟨c, hc, rfl⟩ := List.mem_map.1 hj
    exact ⟨n, c, _, hn, hc, h.slot_focus hr, h.slot_container hr hc⟩
  constructor
  case numbers =>
    intro i
    rw [hreached, h.size, h.free, ← List.mem_range, ← List.mem_append]
    exact ht.numbers.mem_iff.symm
  case apart =>
    intro i hi hmem
    rw [h.free] at hmem
    exact hapart i ((hreached i).1 hi) i hmem rfl
  case free => rwa [h.free]
  case once => exact (h.perm_links hsound).nodup_iff.2 hids
  case root =>
    rw [(h.has_root hsound).1]
    exact ⟨rfl, hsound.root_path⟩
  case parent =>
    intro i hi j hj
    obtain ⟨n, c, parent, -, -, -, hj⟩ := hcontainer i hi j hj
    rw [hj]
    rfl
  case path =>
    intro i hi j hj
    obtain ⟨n, c, parent, hn, hc, hi, hj⟩ := hcontainer i hi j hj
    rw [hi, hj]
    exact ht.path i n hn c hc
  case containers =>
    intro i hi
    obtain ⟨around, n, hr, rfl, hn⟩ := hfocus i hi
    rw [h.slot_focus hr, n.links_slot, List.map_map]
    refine (congrArg List.Nodup (List.map_congr_left fun c hc => ?_)).mp (ht.containers _ n hn)
    rw [Function.comp_apply, h.slot_container hr hc]
    rfl
  case leaves =>
    intro i hi
    obtain ⟨around, n, hr, rfl, hn⟩ := hfocus i hi
    rw [h.slot_focus hr]
    exact ht.leaves _ n hn

/-- Slots are linked to no container of an earlier reading if no scope of the tree has one. -/
theorem Holds.previous_eq_nil (h : s.Holds t) (hsound : t.Sound)
    (ht : ∀ id n, t.root.find? id = some n → n.previous = []) (i : Nat) :
    (s.slot i).previous = [] := by
  by_cases hlt : i < t.slots
  · rcases List.mem_append.1 (hsound.numbers.mem_iff.2 (List.mem_range.2 hlt)) with hi | hi
    · obtain ⟨around, n, hr, rfl⟩ := t.root.exists_focus hi
      rw [h.slot_focus hr, Node.slot, ht n.id n (hsound.find?_focus hr)]
      rfl
    · rw [slot_of_getElem? (h.blank i hi)]
  · rw [slot, Array.getElem?_eq_none (by rw [h.size]; omega)]
    rfl

end Held

/-- Stores stay arranged: those that readings lead to, those in the middle of a reading, and those
behind it. Behind a reading no slot is linked to a container of an earlier one, and there are as many
slots in use as containers in the file, and one. -/
theorem arranged_of_edits {s : ScopeStore} (h : s.Edited) {r : Reading} (hr : Edits (.start s) r)
    (includes : List String) :
    s.Arranged ∧ r.store.Arranged ∧ r.store.endParse.Arranged ∧
      (∀ i, (r.store.endParse.slot i).previous = []) ∧
      r.store.endParse.nodeCount =
        1 + Container.countAll (r.store.endParse.toFileSymbols includes).containers := by
  obtain ⟨t, ht, hs⟩ := h.simulated
  have hstart := ht.orderly.beginParse.underway
  obtain ⟨u, hu, hru⟩ := Edits.simulated hr (hs.start ht.orderly.sound) hstart
  have hsound := (hstart.edits hu).table.sound
  have hend := hru.store.endParse hsound
  obtain ⟨harranged, hmiddle, hbehind, hprevious, hcount⟩ := ht.arranged hu includes
  refine ⟨hs.arranged ht.orderly.sound harranged, hru.store.arranged hsound hmiddle,
    hend.arranged hsound.endParse hbehind, hend.previous_eq_nil hsound.endParse hprevious, ?_⟩
  rw [hend.nodeCount, hend.toFileSymbols hsound.endParse]
  exact hcount

/-- Declares a module with a task in it. -/
def declareNested (r : Reading) : Reading :=
  let (s, outer) := r.store.openContainer rootId { name := "m", kind := .hdlModule }
  let (s, inner) := s.openContainer outer { name := "f", kind := .task }
  ⟨s, inner :: outer :: r.opened⟩

theorem edits_declareNested {r : Reading} (h : rootId ∈ r.opened) : Edits r (declareNested r) :=
  (Relation.ReflTransGen.single (.openContainer h _)).tail (.openContainer List.mem_cons_self _)

/-- A store behind a reading that declares a module with a task in it. -/
def nestedOnce : ScopeStore := (declareNested (.start .empty)).store.endParse

theorem parsed_nestedOnce : Parsed .empty nestedOnce :=
  ⟨_, edits_declareNested List.mem_cons_self, rfl⟩

/-- A reading that has declared a package, where the one before it had none. -/
def pastPackage : Reading :=
  let (s, package) := nestedOnce.beginParse.openContainer rootId { name := "p", kind := .package }
  ⟨s, [package, rootId]⟩

theorem edits_pastPackage : Edits (.start nestedOnce) pastPackage := by
  have hpackage : Edit (.start nestedOnce) _ :=
    .openContainer List.mem_cons_self { name := "p", kind := .package }
  exact .single hpackage

theorem arranged_pastPackage :
    nestedOnce.Edited ∧ Edits (.start nestedOnce) pastPackage ∧ pastPackage.opened = [3, 0] ∧
      pastPackage.store.endParse.free = [2, 1] ∧ pastPackage.store.endParse.Arranged ∧
      pastPackage.store.endParse.nodeCount =
        1 + Container.countAll (pastPackage.store.endParse.toFileSymbols []).containers :=
  have h := arranged_of_edits (.parsed .empty parsed_nestedOnce) edits_pastPackage []
  ⟨.parsed .empty parsed_nestedOnce, edits_pastPackage, by decide, by decide +kernel, h.2.2.1,
    h.2.2.2.2⟩

/-! ### Paths of names and tags -/

/-- Whether a path of names and tags leads from a slot to another one. Each container on the way is
declared in the one around it. -/
inductive Leads (s : ScopeStore) : Nat → List (String × List String) → Nat → Prop
  | here (i : Nat) : Leads s i [] i
  | inside {i j k : Nat} {label : String × List String} {path : List (String × List String)}
      (hj : j ∈ (s.slot i).children) (hlabel : (s.slot j).scope.label? = some label)
      (h : Leads s j path k) : Leads s i (label :: path) k

/-- A path through slots is a path through the tree that they hold. -/
theorem Holds.leads {s : ScopeStore} {t : SymbolTable} (h : s.Holds t) {i k : Nat}
    {path : List (String × List String)} (hi : s.Leads i path k) {around : Surroundings} {n : Node}
    (hr : t.root = around.fill n) (hn : n.id = i) : n.Leads Node.children path k := by
  induction hi generalizing around n with
  | here i => exact hn ▸ .here n
  | @inside i j k label path hj hlabel _ ih =>
    subst hn
    rw [h.slot_focus hr] at hj
    obtain ⟨c, hc, rfl⟩ := List.mem_map.1 hj
    have hcontainer : c ∈ n.containers := List.mem_append_left _ hc
    rw [h.slot_container hr hcontainer] at hlabel
    obtain ⟨f, rfl⟩ := Node.exists_frame hcontainer
    have hfocus : t.root = Surroundings.fill (f :: around) c := hr
    exact .inside hc hlabel (ih hfocus rfl)

/-- A container that a path of names and tags leads to before a reading, and behind it, is in the same
slot before and behind it. -/
theorem eq_of_leads_edits {s s' : ScopeStore} (h : s.Edited) (hp : Parsed s s')
    {path : List (String × List String)} {i j : Nat} (hi : s.Leads rootId path i)
    (hj : s'.Leads rootId path j) : i = j := by
  obtain ⟨t, ht, hs⟩ := h.simulated
  obtain ⟨t', hp', hs'⟩ := hp.simulated hs ht.orderly
  have hr : t.root = Surroundings.fill [] t.root := rfl
  have hr' : t'.root = Surroundings.fill [] t'.root := rfl
  have hleads := hs.leads hi hr ht.orderly.sound.root_id
  have hleads' := hs'.leads hj hr' (ht.orderly.parsed hp').sound.root_id
  exact SymbolTable.eq_of_leads_parsed ht hp' hleads hleads'

/-- The store behind a reading that goes on to declare the module and its task. -/
def nestedTwice : ScopeStore := (declareNested pastPackage).store.endParse

theorem parsed_nestedTwice : Parsed nestedOnce nestedTwice :=
  ⟨_, edits_pastPackage.trans (edits_declareNested (List.mem_cons_of_mem _ List.mem_cons_self)),
    rfl⟩

theorem eq_of_leads_nestedTwice :
    ∃ i j, nestedOnce.Leads rootId [("m", ["module"]), ("f", ["task"])] i ∧
      nestedTwice.Leads rootId [("m", ["module"]), ("f", ["task"])] j ∧ i = j := by
  have hi : nestedOnce.Leads rootId [("m", ["module"]), ("f", ["task"])] 2 :=
    .inside (j := 1) (by decide) (by decide) (.inside (j := 2) (by decide) (by decide) (.here 2))
  have hj : nestedTwice.Leads rootId [("m", ["module"]), ("f", ["task"])] 2 :=
    .inside (j := 1) (by decide) (by decide) (.inside (j := 2) (by decide) (by decide) (.here 2))
  exact ⟨2, 2, hi, hj,
    eq_of_leads_edits (.parsed .empty parsed_nestedOnce) parsed_nestedTwice hi hj⟩

end ScopeStore

end HdlIndex
