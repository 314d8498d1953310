import HdlIndex.Proofs.Outline.Storage

/-! Symbols and the containers around them. A relation between symbols and the definitions of the
containers that they are declared in can be said of a tree of symbols and of the acts that leave the
tree behind. Main statement: acts leave a tree behind in which the relation holds if it holds of what
they declare. -/

namespace HdlIndex

namespace Container

mutual

/-- Whether every symbol in a container, at whatever depth, is in a relation to the definition of the
container around it. -/
def ForEach (rel : Symbol → Definition → Prop) : Container → Prop
  | ⟨symbol, symbols, _, _, containers⟩ =>
    (∀ s ∈ symbols, rel s symbol.definition) ∧ ForEachOf rel symbol.definition containers

def ForEachOf (rel : Symbol → Definition → Prop) (outer : Definition) : List Container → Prop
  | [] => True
  | c :: rest => rel c.symbol outer ∧ c.ForEach rel ∧ ForEachOf rel outer rest

end

variable {rel rel' : Symbol → Definition → Prop}

theorem forEachOf_put {outer : Definition} {c : Container} {cs : List Container}
    (hc : rel c.symbol outer) (hinner : c.ForEach rel) (h : ForEachOf rel outer cs) : ForEachOf rel outer (c.put cs) := by
  induction cs with
  | nil => exact ⟨hc, hinner, trivial⟩
  | cons d rest ih =>
    rw [put]
    split
    · exact ⟨hc, hinner, h.2.2⟩
    · exact ⟨h.1, h.2.1, ih h.2.2⟩

mutual

theorem ForEach.imp (himp : ∀ s outer, rel s outer → rel' s outer) (c : Container)
    (h : c.ForEach rel) : c.ForEach rel' := by
  match c with
  | ⟨symbol, symbols, _, _, containers⟩ =>
    exact ⟨fun s hs => himp s _ (h.1 s hs), ForEachOf.imp himp containers h.2⟩

theorem ForEachOf.imp (himp : ∀ s outer, rel s outer → rel' s outer) (cs : List Container)
    {outer : Definition} (h : ForEachOf rel outer cs) : ForEachOf rel' outer cs := by
  match cs with
  | [] => trivial
  | c :: rest => exact ⟨himp _ _ h.1, ForEach.imp himp c h.2.1, ForEachOf.imp himp rest h.2.2⟩

end

mutual

/-- What holds of each symbol and the definition around it holds of all symbols. -/
theorem ForEach.of_mem (c : Container) {outer : Definition} (hc : rel c.symbol outer)
    (h : c.ForEach rel) {s : Symbol} (hs : s ∈ c.allSymbols) : ∃ outer, rel s outer := by
  match c with
  | ⟨symbol, symbols, _, _, containers⟩ =>
    rw [allSymbols] at hs
    rcases List.mem_cons.1 hs with rfl | hs
    · exact ⟨_, hc⟩
    · rcases List.mem_append.1 hs with hs | hs
      · exact ⟨_, h.1 s hs⟩
      · exact ForEachOf.of_mem containers h.2 hs

theorem ForEachOf.of_mem (cs : List Container) {outer : Definition}
    (h : ForEachOf rel outer cs) {s : Symbol} (hs : s ∈ allSymbolsOf cs) : ∃ outer, rel s outer := by
  match cs with
  | [] => cases hs
  | c :: rest =>
    rw [allSymbolsOf] at hs
    rcases List.mem_append.1 hs with hs | hs
    · exact ForEach.of_mem c h.1 h.2.1 hs
    · exact ForEachOf.of_mem rest h.2.2 hs

end

end Container

/-- Whether every symbol of a file, at whatever depth, is in a relation to the definition of the
container around it; for symbols outside containers, that is `outer`. -/
structure FileSymbols.ForEach (rel : Symbol → Definition → Prop) (outer : Definition)
    (file : FileSymbols) : Prop where
  symbols : ∀ s ∈ file.symbols, rel s outer
  containers : Container.ForEachOf rel outer file.containers

theorem FileSymbols.ForEach.imp {rel rel' : Symbol → Definition → Prop} {outer : Definition}
    {file : FileSymbols} (himp : ∀ s outer, rel s outer → rel' s outer)
    (h : file.ForEach rel outer) : file.ForEach rel' outer where
  symbols := fun s hs => himp s outer (h.symbols s hs)
  containers := .imp himp _ h.containers

theorem FileSymbols.ForEach.of_mem {rel : Symbol → Definition → Prop} {outer : Definition}
    {file : FileSymbols} (h : file.ForEach rel outer) {s : Symbol} (hs : s ∈ file.allSymbols) :
    ∃ outer, rel s outer := by
  rw [allSymbols] at hs
  rcases List.mem_append.1 hs with hs | hs
  · exact ⟨outer, h.symbols s hs⟩
  · exact Container.ForEachOf.of_mem _ h.containers hs

/-! ### Acts -/

namespace Act

mutual

/-- Whether everything that an act declares, at whatever depth, is in a relation to the definition of
the container around it. -/
def ForEach (rel : Symbol → Definition → Prop) (outer : Definition) : Act → Prop
  | declare symbol => rel symbol outer
  | container symbol acts definition =>
    rel { symbol with definition } outer ∧ ForEachOf rel definition acts
  | _ => True

def ForEachOf (rel : Symbol → Definition → Prop) (outer : Definition) : List Act → Prop
  | [] => True
  | a :: acts => a.ForEach rel outer ∧ ForEachOf rel outer acts

end

variable {rel : Symbol → Definition → Prop} {outer : Definition}

theorem forEachOf_append {a b : List Act} (ha : ForEachOf rel outer a) (hb : ForEachOf rel outer b) :
    ForEachOf rel outer (a ++ b) := by
  induction a with
  | nil => exact hb
  | cons act a ih => exact ⟨ha.1, ih ha.2⟩

mutual

/-- An act declares in a scope what it is said to declare. -/
theorem forEach_apply
    (hpath : ∀ s path outer, rel s outer → rel { s with containerPath := path } outer)
    (a : Act) (path : List String) {c : Contents} {outer : Definition}
    (ha : a.ForEach rel outer) (hsymbols : ∀ s ∈ c.symbols, rel s outer)
    (hcontainers : Container.ForEachOf rel outer c.containers) :
    (∀ s ∈ (a.apply path c).symbols, rel s outer) ∧
      Container.ForEachOf rel outer (a.apply path c).containers := by
  match a with
  | .declare symbol =>
    refine ⟨fun s hs => ?_, hcontainers⟩
    rcases Symbol.eq_or_mem_of_mem_upsert hs with rfl | hs
    · exact hpath symbol path outer ha
    · exact hsymbols s hs
  | .importing name => exact ⟨hsymbols, hcontainers⟩
  | .exporting name => exact ⟨hsymbols, hcontainers⟩
  | .countAnonymous => exact ⟨hsymbols, hcontainers⟩
  | .container symbol acts definition =>
    have hinner : (∀ s ∈ (applyAll (path ++ [symbol.name]) acts {}).symbols, rel s definition) ∧
        Container.ForEachOf rel definition (applyAll (path ++ [symbol.name]) acts {}).containers :=
      forEach_applyAll hpath acts _ ha.2 (by simp) trivial
    exact ⟨hsymbols, Container.forEachOf_put (hpath _ path outer ha.1) hinner hcontainers⟩

theorem forEach_applyAll
    (hpath : ∀ s path outer, rel s outer → rel { s with containerPath := path } outer)
    (acts : List Act) (path : List String) {c : Contents} {outer : Definition}
    (ha : ForEachOf rel outer acts) (hsymbols : ∀ s ∈ c.symbols, rel s outer)
    (hcontainers : Container.ForEachOf rel outer c.containers) :
    (∀ s ∈ (applyAll path acts c).symbols, rel s outer) ∧
      Container.ForEachOf rel outer (applyAll path acts c).containers := by
  match acts with
  | [] => exact ⟨hsymbols, hcontainers⟩
  | a :: acts =>
    obtain ⟨hsymbols, hcontainers⟩ := forEach_apply hpath a path ha.1 hsymbols hcontainers
    exact forEach_applyAll hpath acts path ha.2 hsymbols hcontainers

end

end Act

end HdlIndex
