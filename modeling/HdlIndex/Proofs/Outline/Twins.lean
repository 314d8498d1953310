import HdlIndex.Outline.Declaration
import HdlIndex.Proofs.Outline.InStep
import HdlIndex.Proofs.Outline.Offsets
import HdlIndex.Proofs.Symbol.Distinct

/-! Twin documents have the same tokens, but the tokens may stand at other offsets, and a text that
is cut out of the second document may show a mark which the first does not have. Such a text can
only get into a kind, an import, an export or the name of a package. Main statement: readings of
twins by rules that match do the same acts, but for texts with a mark; for a document and itself,
the very same acts. -/

namespace HdlIndex

/-! ### Rows -/

/-- Whether two rows are equal, unless there is a mark in the second one. -/
def EqualUnless {α : Type} (marked : α → Bool) (xs ys : List α) : Prop := xs = ys ∨ ys.any marked

theorem EqualUnless.eq {α : Type} {marked : α → Bool} {xs ys : List α}
    (h : EqualUnless marked xs ys) (hclean : ys.any marked = false) : xs = ys :=
  h.resolve_right (by simp [hclean])

theorem mem_insertSorted {item other : String} {items : List String} :
    other ∈ insertSorted item items ↔ other = item ∨ other ∈ items := by
  induction items with
  | nil => simp [insertSorted]
  | cons head rest ih =>
    rw [insertSorted]
    split
    · next heq =>
      subst heq
      simp
    · split
      · simp
      · simp [ih, or_left_comm]

theorem any_insertSorted {marked : String → Bool} {item : String} {items : List String}
    (h : items.any marked ∨ marked item) : (insertSorted item items).any marked := by
  rw [List.any_eq_true]
  rcases h with h | h
  · obtain ⟨other, hother, hmarked⟩ := List.any_eq_true.1 h
    exact ⟨other, mem_insertSorted.2 (.inr hother), hmarked⟩
  · exact ⟨item, mem_insertSorted.2 (.inl rfl), h⟩

/-! ### Twins -/

/-- Whether a package item is the same for two documents, or else is marked; then what stands in
front of the colons is the same, or it is the name of a package with the mark. -/
def ItemAlike (Marked : String → Bool) (item item' : String) : Prop :=
  item = item' ∨ Marked item' ∧
    (Reading.beforeColons item.toList = Reading.beforeColons item'.toList ∨
      ∃ package, Reading.beforeColons item'.toList = some package ∧ package ≠ ['*'] ∧
        Marked (.ofList package))

/-- Two documents to be read side by side. -/
structure Twin where
  doc : Document
  doc' : Document
  /-- The offset in the second document for one in the first. -/
  shift : Nat → Nat
  /-- The offsets of the first document where tokens may start and stop. -/
  At : Nat → Prop
  /-- Whether a text shows something that only the second document has. -/
  Marked : String → Bool
  /-- Whether this is about one document only. -/
  same : Prop
  same_eq : same → doc' = doc ∧ shift = id ∧ ∀ text, Marked text = false
  /-- A text is the same in both documents, or marked. -/
  texts : ∀ first last : Cursor, first.Stands At → last.Stands At →
    doc.textBetween first last =
        doc'.textBetween (first.mapOffsets shift) (last.mapOffsets shift) ∨
      Marked (doc'.textBetween (first.mapOffsets shift) (last.mapOffsets shift))
  items : ∀ first last : Cursor, first.Stands At → last.Stands At →
    ItemAlike Marked ("".intercalate (Text.fields (doc.textBetween first last)))
      ("".intercalate (Text.fields
        (doc'.textBetween (first.mapOffsets shift) (last.mapOffsets shift))))
  /-- The dimensions behind a made-up name do not hide a mark. -/
  marked_withDimensions : ∀ name dimensions,
    Marked dimensions → Marked (Reading.withDimensions name dimensions)

namespace Twin

/-- A document is the twin of itself. -/
def refl (doc : Document) : Twin where
  doc := doc
  doc' := doc
  shift := id
  At _ := True
  Marked _ := false
  same := True
  same_eq _ := ⟨rfl, rfl, fun _ => rfl⟩
  texts first last _ _ := by simp
  items first last _ _ := .inl (by simp)
  marked_withDimensions _ _ h := h

variable (w : Twin)

/-! ### What can differ -/

/-- Whether a text is the same for both twins or else marked. -/
def TextAlike (text text' : String) : Prop := text = text' ∨ w.Marked text'

/-- Whether kinds have the same tag, or the tag of the second one shows a mark. -/
structure KindAlike (kind kind' : SymbolKind) : Prop where
  isContainer : kind.isContainer = kind'.isContainer
  tag : kind.tag = kind'.tag ∨ kind'.tag.any w.Marked
  eq : w.same → kind = kind'

structure SymbolAlike (s s' : Symbol) : Prop where
  name : s.name = s'.name
  path : s.containerPath = s'.containerPath
  kind : w.KindAlike s.kind s'.kind
  eq : w.same → s = s'

/-- Acts side by side. The second reading can do more than the first one only with a mark. -/
inductive ActsAlike : List Act → List Act → Prop
  | nil : ActsAlike [] []
  | declare {s s' : Symbol} {acts acts' : List Act} (hsymbol : w.SymbolAlike s s')
      (rest : ActsAlike acts acts') : ActsAlike (.declare s :: acts) (.declare s' :: acts')
  | importing {name name' : String} {acts acts' : List Act} (hname : w.TextAlike name name')
      (rest : ActsAlike acts acts') :
      ActsAlike (.importing name :: acts) (.importing name' :: acts')
  | exporting {name name' : String} {acts acts' : List Act} (hname : w.TextAlike name name')
      (rest : ActsAlike acts acts') :
      ActsAlike (.exporting name :: acts) (.exporting name' :: acts')
  | moreImporting {name' : String} {acts acts' : List Act} (hname : w.Marked name')
      (rest : ActsAlike acts acts') : ActsAlike acts (.importing name' :: acts')
  | moreExporting {name' : String} {acts acts' : List Act} (hname : w.Marked name')
      (rest : ActsAlike acts acts') : ActsAlike acts (.exporting name' :: acts')
  | countAnonymous {acts acts' : List Act} (rest : ActsAlike acts acts') :
      ActsAlike (.countAnonymous :: acts) (.countAnonymous :: acts')
  | container {s s' : Symbol} {inner inner' acts acts' : List Act} {d d' : Definition}
      (hsymbol : w.SymbolAlike s s') (hinner : ActsAlike inner inner') (hdef : w.same → d = d')
      (rest : ActsAlike acts acts') :
      ActsAlike (.container s inner d :: acts) (.container s' inner' d' :: acts')

/-- Whether two readings have come to the same place in twins. Their tables may differ, but not in
the number of bodies without a name. -/
structure Meets (r r' : Reading) : Prop where
  cursor : r'.cursor = r.cursor.mapOffsets w.shift
  stands : r.cursor.Stands w.At
  packages : EqualUnless w.Marked r.packages r'.packages
  skipped : w.same → r.skipped = r'.skipped
  anonymous : r.table.anonymous = r'.table.anonymous
  inScope : r.scopes ≠ []
  inScope' : r'.scopes ≠ []

/-- Whether two readings of twins, from where they stood on, have done the same acts and come to the
same place. -/
structure Tracks (r₀ r₀' r r' : Reading) : Prop where
  meets : w.Meets r r'
  acts : ∃ acts acts', w.ActsAlike acts acts' ∧ r₀.Does acts r ∧ r₀'.Does acts' r'

/-- Whether readings of twins by two rules keep side by side. -/
def Match (rule rule' : Reading → Reading) : Prop :=
  ∀ r r', w.Meets r r' → w.Tracks r r' (rule r) (rule' r')

/-- Whether they do, and the results are related. -/
def MatchWith {α : Type} (R : α → α → Prop) (rule rule' : Reading → α × Reading) : Prop :=
  ∀ r r', w.Meets r r' → R (rule r).1 (rule' r').1 ∧ w.Tracks r r' (rule r).2 (rule' r').2

/-- Whether either both rules apply, and the readings keep side by side, or none does. -/
def MatchIf (rule rule' : Reading → Option Reading) : Prop :=
  ∀ r r', w.Meets r r' → Option.Rel (w.Tracks r r') (rule r) (rule' r')

variable {w}

/-! ### Texts, kinds and symbols -/

theorem TextAlike.refl (text : String) : w.TextAlike text text := .inl rfl

theorem TextAlike.eq {text text' : String} (h : w.TextAlike text text') (hsame : w.same) :
    text = text' :=
  h.resolve_right (by simp [(w.same_eq hsame).2.2 text'])

theorem TextAlike.withDimensions {dimensions dimensions' : String}
    (h : w.TextAlike dimensions dimensions') (name : String) :
    w.TextAlike (Reading.withDimensions name dimensions)
      (Reading.withDimensions name dimensions') := by
  rcases h with rfl | hmarked
  · exact .refl _
  · exact .inr (w.marked_withDimensions name dimensions' hmarked)

namespace KindAlike

theorem refl (kind : SymbolKind) : w.KindAlike kind kind := ⟨rfl, .inl rfl, fun _ => rfl⟩

/-- Kinds with a text that is part of the tag. -/
theorem of_text {text text' : String} (h : w.TextAlike text text') (kind : String → SymbolKind)
    (hkind : ∀ text, (kind text).tag = [(kind "").discriminator, text]) :
    w.KindAlike (kind text) (kind text') := by
  have hname (text : String) : (kind text).discriminator = (kind "").discriminator :=
    (List.cons.inj (hkind text)).1
  refine ⟨?_, ?_, fun hsame => congrArg kind (h.eq hsame)⟩
  · rw [SymbolKind.isContainer_eq, SymbolKind.isContainer_eq, hname text, hname text']
  · rcases h with rfl | hmarked
    · exact .inl rfl
    · exact .inr (by simp [hkind text', hmarked])

/-- Kinds with a text that is a detail. -/
theorem of_detail {text text' : Option String} (h : w.same → text = text')
    (kind : Option String → SymbolKind) (hkind : ∀ text, (kind text).tag = (kind none).tag) :
    w.KindAlike (kind text) (kind text') := by
  have htag := (hkind text).trans (hkind text').symm
  exact ⟨SymbolKind.isContainer_of_tag_eq htag, .inl htag, fun hsame => congrArg kind (h hsame)⟩

theorem ite {a a' b b' : SymbolKind} (ha : w.KindAlike a a') (hb : w.KindAlike b b') (c : Bool) :
    w.KindAlike (if c then a else b) (if c then a' else b') := by
  cases c
  · exact hb
  · exact ha

end KindAlike

/-- Symbols that tokens of twins declare. -/
theorem SymbolAlike.named {kind kind' : SymbolKind} (h : w.KindAlike kind kind')
    (name : OutlineToken) :
    w.SymbolAlike (w.doc.named name kind) (w.doc'.named (name.mapOffsets w.shift) kind') where
  name := rfl
  path := rfl
  kind := h
  eq hsame := by
    obtain ⟨hdoc, hshift, -⟩ := w.same_eq hsame
    rw [hdoc, hshift, h.eq hsame, name.mapOffsets_id]

theorem SymbolAlike.rename {s s' : Symbol} (h : w.SymbolAlike s s') (name : String) :
    w.SymbolAlike { s with name } { s' with name } :=
  { h with name := rfl, eq := fun hsame => by rw [h.eq hsame] }

theorem definition_eq (hsame : w.same) (start stop : Nat) :
    w.doc.origins.definition start stop =
      w.doc'.origins.definition (w.shift start) (w.shift stop) := by
  obtain ⟨hdoc, hshift, -⟩ := w.same_eq hsame
  rw [hdoc, hshift]
  rfl

theorem SymbolAlike.symbol {kind kind' : SymbolKind} (h : w.KindAlike kind kind')
    (name : OutlineToken) (start stop : Nat) :
    w.SymbolAlike (w.doc.symbol name kind start stop)
      (w.doc'.symbol (name.mapOffsets w.shift) kind' (w.shift start) (w.shift stop)) where
  name := rfl
  path := rfl
  kind := h
  eq hsame := by
    rw [Document.symbol, Document.symbol, (SymbolAlike.named h name).eq hsame,
      w.definition_eq hsame]

/-! ### Acts -/

namespace ActsAlike

theorem append {a a' b b' : List Act} (ha : w.ActsAlike a a') (hb : w.ActsAlike b b') :
    w.ActsAlike (a ++ b) (a' ++ b') := by
  induction ha with
  | nil => exact hb
  | declare hsymbol _ ih => exact .declare hsymbol ih
  | importing hname _ ih => exact .importing hname ih
  | exporting hname _ ih => exact .exporting hname ih
  | moreImporting hname _ ih => exact .moreImporting hname ih
  | moreExporting hname _ ih => exact .moreExporting hname ih
  | countAnonymous _ ih => exact .countAnonymous ih
  | container hsymbol hinner hdef _ _ ih => exact .container hsymbol hinner hdef ih

theorem anonymousCount {acts acts' : List Act} (h : w.ActsAlike acts acts') :
    Act.anonymousCountAll acts = Act.anonymousCountAll acts' := by
  induction h with
  | nil => rfl
  | declare _ _ ih => exact congrArg (0 + ·) ih
  | importing _ _ ih => exact congrArg (0 + ·) ih
  | exporting _ _ ih => exact congrArg (0 + ·) ih
  | moreImporting _ _ ih => exact ih.trans (Nat.zero_add _).symm
  | moreExporting _ _ ih => exact ih.trans (Nat.zero_add _).symm
  | countAnonymous _ ih => exact congrArg (1 + ·) ih
  | container _ _ _ _ hinner ih =>
    show Act.anonymousCountAll _ + _ = Act.anonymousCountAll _ + _
    rw [hinner, ih]

/-- A document and itself have the same acts. -/
theorem eq {acts acts' : List Act} (h : w.ActsAlike acts acts') (hsame : w.same) :
    acts = acts' := by
  have hmarked := (w.same_eq hsame).2.2
  induction h with
  | nil => rfl
  | declare hsymbol _ ih => rw [hsymbol.eq hsame, ih]
  | importing hname _ ih => rw [hname.eq hsame, ih]
  | exporting hname _ ih => rw [hname.eq hsame, ih]
  | moreImporting hname _ _ => simp [hmarked] at hname
  | moreExporting hname _ _ => simp [hmarked] at hname
  | countAnonymous _ ih => rw [ih]
  | container hsymbol _ hdef _ hinner ih => rw [hsymbol.eq hsame, hinner, hdef hsame, ih]

end ActsAlike

/-! ### Readings side by side -/

namespace Meets

variable {r r' s s' : Reading}

theorem is (h : w.Meets r r') (role : Role) : r'.is role = r.is role := by
  rw [Reading.is, Reading.is, h.cursor, Cursor.is_mapOffsets]

theorem isText (h : w.Meets r r') (text : String) :
    r'.cursor.isText text = r.cursor.isText text := by
  rw [h.cursor, Cursor.isText_mapOffsets]

theorem nextText (h : w.Meets r r') : r'.cursor.nextText = r.cursor.nextText := by
  rw [h.cursor, Cursor.nextText_mapOffsets]

theorem pos (h : w.Meets r r') : r'.cursor.pos = r.cursor.pos := by
  rw [h.cursor, Cursor.mapOffsets_pos]

theorem rest (h : w.Meets r r') :
    r'.cursor.rest = r.cursor.rest.map (·.mapOffsets w.shift) := by
  rw [h.cursor, Cursor.mapOffsets_rest]

theorem nextStart (h : w.Meets r r') : r'.cursor.nextStart = w.shift r.cursor.nextStart := by
  rw [h.cursor, Cursor.nextStart_mapOffsets]

theorem identifier? (h : w.Meets r r') :
    r'.cursor.identifier? = r.cursor.identifier?.map (·.mapOffsets w.shift) := by
  rw [h.cursor, Cursor.identifier?_mapOffsets]

/-- The text between two places that the readings have met at. -/
theorem textAlike (h : w.Meets r r') (h' : w.Meets s s') :
    w.TextAlike (w.doc.textBetween r.cursor s.cursor)
      (w.doc'.textBetween r'.cursor s'.cursor) := by
  rw [h.cursor, h'.cursor]
  exact w.texts _ _ h.stands h'.stands

end Meets

namespace Tracks

variable {r₀ r₀' r r' s s' : Reading}

theorem refl (h : w.Meets r r') : w.Tracks r r' r r' :=
  ⟨h, [], [], .nil, ⟨rfl, rfl, trivial, trivial⟩, ⟨rfl, rfl, trivial, trivial⟩⟩

theorem trans (h : w.Tracks r₀ r₀' r r') (h' : w.Tracks r r' s s') : w.Tracks r₀ r₀' s s' := by
  obtain ⟨-, acts, acts', halike, ha, ha'⟩ := h
  obtain ⟨hs, more, more', halike', hb, hb'⟩ := h'
  exact ⟨hs, acts ++ more, acts' ++ more', halike.append halike', ha.trans hb, ha'.trans hb'⟩

theorem is (h : w.Tracks r₀ r₀' r r') (role : Role) : r'.is role = r.is role := h.meets.is role

/-- Both readings go on, each with its rule. -/
theorem next (h : w.Tracks r₀ r₀' r r') {rule rule' : Reading → Reading}
    (hr : w.Match rule rule') : w.Tracks r₀ r₀' (rule r) (rule' r') := h.trans (hr r r' h.meets)

theorem nextWith (h : w.Tracks r₀ r₀' r r') {α : Type} {R : α → α → Prop}
    {rule rule' : Reading → α × Reading} (hr : w.MatchWith R rule rule') :
    ∃ a a' s s', rule r = (a, s) ∧ rule' r' = (a', s') ∧ R a a' ∧ w.Tracks r₀ r₀' s s' := by
  obtain ⟨hresult, hnext⟩ := hr r r' h.meets
  exact ⟨_, _, _, _, rfl, rfl, hresult, h.trans hnext⟩

theorem nextIf (h : w.Tracks r₀ r₀' r r') {rule rule' : Reading → Option Reading}
    (hr : w.MatchIf rule rule') : Option.Rel (w.Tracks r₀ r₀') (rule r) (rule' r') := by
  have hrel := hr r r' h.meets
  generalize rule r = o at hrel ⊢
  generalize rule' r' = o' at hrel ⊢
  cases hrel with
  | none => exact .none
  | some hs => exact .some (h.trans hs)

/-- Both readings make the same choice. -/
theorem ite (h : w.Tracks r₀ r₀' r r') (h' : w.Tracks r₀ r₀' s s') {b b' : Bool} (hb : b' = b) :
    w.Tracks r₀ r₀' (if b then r else s) (if b' then r' else s') := by
  subst hb
  split
  · exact h
  · exact h'

/-- Where a rule does not apply, both readings go on without it. -/
theorem getD (h : w.Tracks r₀ r₀' r r') {o o' : Option Reading}
    (ho : Option.Rel (w.Tracks r₀ r₀') o o') : w.Tracks r₀ r₀' (o.getD r) (o'.getD r') := by
  cases ho with
  | none => exact h
  | some hs => exact hs

/-! ### Single moves -/

/-- The same acts, and another place. -/
theorem relocate (h : w.Tracks r₀ r₀' r r') (hs : w.Meets s s') (ht : s.table = r.table)
    (hscopes : s.scopes = r.scopes) (ht' : s'.table = r'.table) (hscopes' : s'.scopes = r'.scopes) :
    w.Tracks r₀ r₀' s s' := by
  obtain ⟨-, acts, acts', halike, ha, ha'⟩ := h
  exact ⟨hs, acts, acts', halike,
    ⟨hscopes.trans ha.scopes, ht.trans ha.table, ha.extents, ha.kinds⟩,
    ⟨hscopes'.trans ha'.scopes, ht'.trans ha'.table, ha'.extents, ha'.kinds⟩⟩

theorem move (h : w.Tracks r₀ r₀' r r') (f : Cursor → Cursor) (hf : Cursor.Commutes f) :
    w.Tracks r₀ r₀' (r.move f) (r'.move f) := by
  refine h.relocate ?_ rfl rfl rfl rfl
  refine { h.meets with cursor := ?_, stands := h.meets.stands.of_commutes hf }
  show f r'.cursor = _
  rw [h.meets.cursor, hf]
  rfl

theorem bump (h : w.Tracks r₀ r₀' r r') : w.Tracks r₀ r₀' r.bump r'.bump :=
  h.move _ Cursor.bump_mapOffsets

theorem eat (h : w.Tracks r₀ r₀' r r') (role : Role) :
    w.Tracks r₀ r₀' (r.eat role) (r'.eat role) :=
  h.move _ fun f c => c.eat_mapOffsets f role

theorem skipWhile (h : w.Tracks r₀ r₀' r r') (test : OutlineToken → Bool)
    (htest : OutlineToken.IgnoresOffsets test) :
    w.Tracks r₀ r₀' (r.move (·.skipWhile test)) (r'.move (·.skipWhile test)) :=
  h.move _ fun f c => c.skipWhile_mapOffsets f htest

theorem skipModifiers (h : w.Tracks r₀ r₀' r r') :
    w.Tracks r₀ r₀' (r.move (·.skipWhile (·.role == .modifier)))
      (r'.move (·.skipWhile (·.role == .modifier))) :=
  h.skipWhile _ fun _ _ => rfl

theorem skipUntil (h : w.Tracks r₀ r₀' r r') (stop : OutlineToken → Bool)
    (hstop : OutlineToken.IgnoresOffsets stop) :
    w.Tracks r₀ r₀' (r.move (·.skipUntil stop)) (r'.move (·.skipUntil stop)) :=
  h.move _ fun f c => c.skipUntil_mapOffsets f hstop

theorem bumpIfAt (h : w.Tracks r₀ r₀' r r') {c c' : Cursor} (hc : c'.pos = c.pos) :
    w.Tracks r₀ r₀' (r.bumpIfAt c) (r'.bumpIfAt c') := by
  unfold Reading.bumpIfAt
  rw [h.meets.cursor, Cursor.mapOffsets_pos, hc]
  split
  · exact h.bump
  · exact h

theorem skipUnexpected (h : w.Tracks r₀ r₀' r r') :
    w.Tracks r₀ r₀' (r.skipUnexpected w.doc) (r'.skipUnexpected w.doc') := by
  unfold Reading.skipUnexpected
  rw [h.meets.rest]
  cases r.cursor.rest with
  | nil => exact h
  | cons t rest =>
    refine h.relocate { h.bump.meets with skipped := fun hsame => ?_ } rfl rfl rfl rfl
    obtain ⟨hdoc, hshift, -⟩ := w.same_eq hsame
    show r.skipped.push _ = r'.skipped.push _
    rw [h.meets.skipped hsame, hdoc, hshift]
    rfl

theorem addPackage (h : w.Tracks r₀ r₀' r r') (package : String) :
    w.Tracks r₀ r₀' (r.addPackage package) (r'.addPackage package) := by
  refine h.relocate { h.meets with packages := ?_ } rfl rfl rfl rfl
  rcases h.meets.packages with heq | hmarked
  · exact .inl (congrArg (insertSorted package) heq)
  · exact .inr (any_insertSorted (.inl hmarked))

/-- Once there is a package with a mark, nothing is known of the others. -/
theorem addMarked (h : w.Tracks r₀ r₀' r r') (packages : List String) {package' : String}
    (hmarked : w.Marked package') :
    w.Tracks r₀ r₀' { r with packages } (r'.addPackage package') :=
  h.relocate { h.meets with packages := .inr (any_insertSorted (.inr hmarked)) } rfl rfl rfl rfl

/-! ### Acts -/

/-- Acts of both readings that leave them at the same place. -/
theorem act (h : w.Tracks r₀ r₀' r r') {acts acts' : List Act} (halike : w.ActsAlike acts acts')
    (hextents : Act.HaveExtent acts) (hextents' : Act.HaveExtent acts')
    (hkinds : Act.RespectKinds acts) (hkinds' : Act.RespectKinds acts') :
    w.Tracks r₀ r₀' { r with table := Act.performAll r.scope acts r.table }
      { r' with table := Act.performAll r'.scope acts' r'.table } := by
  refine h.trans ⟨{ h.meets with anonymous := ?_ }, acts, acts', halike,
    ⟨rfl, rfl, hextents, hkinds⟩, ⟨rfl, rfl, hextents', hkinds'⟩⟩
  show (Act.performAll _ _ _).anonymous = (Act.performAll _ _ _).anonymous
  rw [Act.anonymous_performAll, Act.anonymous_performAll, h.meets.anonymous, halike.anonymousCount]

theorem declare (h : w.Tracks r₀ r₀' r r') (name : OutlineToken) {kind kind' : SymbolKind}
    (hkind : w.KindAlike kind kind') (hleaf : kind.isContainer = false) (start : Nat) :
    w.Tracks r₀ r₀' (r.declare w.doc name kind start)
      (r'.declare w.doc' (name.mapOffsets w.shift) kind' (w.shift start)) := by
  have hact := h.act (.declare (.symbol hkind name start r.cursor.stop) .nil)
    ⟨w.doc.origins.definition_ne _ _, trivial⟩ ⟨w.doc'.origins.definition_ne _ _, trivial⟩
    ⟨hleaf, trivial⟩ ⟨hkind.isContainer.symm.trans hleaf, trivial⟩
  have hstop : r'.cursor.stop = w.shift r.cursor.stop := by rw [h.meets.cursor]; rfl
  rw [← hstop] at hact
  exact hact

end Tracks

/-! ### Containers -/

theorem Meets.enter {r r' : Reading} (h : w.Meets r r') (symbol symbol' : Symbol) :
    w.Meets (r.enter symbol) (r'.enter symbol') := by
  refine { h with anonymous := ?_, inScope := List.cons_ne_nil _ _, inScope' := List.cons_ne_nil _ _ }
  show (r.table.openContainer r.scope symbol).1.anonymous =
    (r'.table.openContainer r'.scope symbol').1.anonymous
  rw [SymbolTable.anonymous_openContainer, SymbolTable.anonymous_openContainer, h.anonymous]

theorem match_within {symbol symbol' : Symbol} (hsymbol : w.SymbolAlike symbol symbol')
    (hkind : symbol.kind.isContainer = true) {start start' : Nat} (hstart : start' = w.shift start)
    {body body' : Reading → Reading} (hbody : w.Match body body') :
    w.Match (Reading.within w.doc symbol start body)
      (Reading.within w.doc' symbol' start' body') := by
  intro r r' h
  subst hstart
  obtain ⟨hs, acts, acts', halike, hd, hd'⟩ := hbody _ _ (h.enter symbol symbol')
  have hdoes := Reading.does_within w.doc symbol start hkind h.inScope hd
  have hdoes' := Reading.does_within w.doc' symbol' (w.shift start)
    (hsymbol.kind.isContainer.symm.trans hkind) h.inScope' hd'
  have hl := Reading.leave_eq w.doc start hd.scopes h.inScope
  have hl' := Reading.leave_eq w.doc' (w.shift start) hd'.scopes h.inScope'
  have hstop : (body' (r'.enter symbol')).cursor.stop =
      w.shift (body (r.enter symbol)).cursor.stop := by rw [hs.cursor]; rfl
  have hacts := ActsAlike.container hsymbol halike
    (fun hsame => w.definition_eq hsame start (body (r.enter symbol)).cursor.stop) .nil
  rw [← hstop] at hacts
  refine ⟨⟨?_, ?_, ?_, ?_, ?_, ?_, ?_⟩, _, _, hacts, hdoes, hdoes'⟩
  · rw [Reading.within, Reading.within, hl, hl']
    exact hs.cursor
  · rw [Reading.within, hl]
    exact hs.stands
  · rw [Reading.within, Reading.within, hl, hl']
    exact hs.packages
  · rw [Reading.within, Reading.within, hl, hl']
    exact hs.skipped
  · rw [hdoes.table, hdoes'.table, Act.anonymous_performAll, Act.anonymous_performAll, h.anonymous,
      hacts.anonymousCount]
  · rw [hdoes.scopes]
    exact h.inScope
  · rw [hdoes'.scopes]
    exact h.inScope'

/-! ### Combinations of rules -/

theorem match_id : w.Match id id := fun _ _ h => .refl h

theorem match_iterate {step step' : Reading → Option Reading} (hs : w.MatchIf step step')
    (bound : List OutlineToken) :
    w.Match (iterate step bound) (iterate step' (bound.map (·.mapOffsets w.shift))) := by
  intro r r' h
  rw [iterate_map]
  exact iterate_rel (fun _ _ hr => hr.nextIf hs) bound r r' (.refl h)

theorem match_whileNext (test : OutlineToken → Bool) (htest : OutlineToken.IgnoresOffsets test)
    {step step' : Reading → Reading} (hs : w.Match step step') :
    w.Match (Reading.whileNext test step) (Reading.whileNext test step') := by
  intro r r' h
  unfold Reading.whileNext
  rw [h.rest]
  refine match_iterate ?_ _ r r' h
  intro r r' h
  dsimp only
  rw [h.cursor, Cursor.nextIs_mapOffsets _ _ htest]
  split
  · exact .some (hs r r' h)
  · exact .none

theorem match_nameList {entry entry' : OutlineToken → Nat → Reading → Reading}
    (he : ∀ name start, w.Match (entry name start)
      (entry' (name.mapOffsets w.shift) (w.shift start)))
    (bound : List OutlineToken) (first : Option Nat) :
    w.Match (Reading.nameList entry bound first)
      (Reading.nameList entry' (bound.map (·.mapOffsets w.shift)) (first.map w.shift)) := by
  induction bound generalizing first with
  | nil => exact match_id
  | cons _ bound ih =>
    intro r r' h
    rw [List.map_cons, Reading.nameList, Reading.nameList, h.identifier?]
    cases r.cursor.identifier? with
    | none => exact .refl h
    | some name =>
      have hstart : (first.map w.shift).getD (name.mapOffsets w.shift).start =
          w.shift (first.getD name.start) := by cases first <;> rfl
      have hentry := (Tracks.refl h).bump.next (he name (first.getD name.start))
      rw [← hstart] at hentry
      dsimp only [Option.map_some]
      rw [hentry.is]
      split
      · exact hentry.bump.next (ih none)
      · exact hentry

/-! ### One document -/

section One

open Reading

variable {doc : Document}

theorem meets_of_agrees {r r' : Reading} (h : Agrees r r') : (Twin.refl doc).Meets r r' where
  cursor := h.cursor.symm.trans (r.cursor.mapOffsets_id).symm
  stands := ⟨trivial, fun _ _ => ⟨trivial, trivial⟩⟩
  packages := .inl h.packages
  skipped _ := h.skipped
  anonymous := h.anonymous
  inScope := h.inScope
  inScope' := h.inScope'

theorem Meets.agrees {r r' : Reading} (h : (Twin.refl doc).Meets r r') : Agrees r r' where
  cursor := (h.cursor.trans (r.cursor.mapOffsets_id)).symm
  packages := h.packages.eq (List.any_eq_false.2 fun _ _ => Bool.false_ne_true)
  skipped := h.skipped trivial
  anonymous := h.anonymous
  inScope := h.inScope
  inScope' := h.inScope'

theorem Tracks.inStep {r₀ r₀' r r' : Reading} (h : (Twin.refl doc).Tracks r₀ r₀' r r') :
    InStep r₀ r₀' r r' := by
  obtain ⟨hmeets, acts, acts', halike, hd, hd'⟩ := h
  obtain rfl := halike.eq trivial
  exact ⟨hmeets.agrees, acts, hd, hd'⟩

/-- Rules that match for a document and itself keep its readings in step. -/
theorem Match.uniform {rule : Reading → Reading} (h : (Twin.refl doc).Match rule rule) :
    Uniform rule := fun r r' hr => (h r r' (meets_of_agrees hr)).inStep

theorem MatchWith.uniformWith {α : Type} {R : α → α → Prop} (hR : ∀ a b, R a b → a = b)
    {rule : Reading → α × Reading} (h : (Twin.refl doc).MatchWith R rule rule) :
    UniformWith rule := by
  intro r r' hr
  obtain ⟨hresult, hnext⟩ := h r r' (meets_of_agrees hr)
  exact ⟨hR _ _ hresult, hnext.inStep⟩

theorem MatchIf.uniformIf {rule : Reading → Option Reading} (h : (Twin.refl doc).MatchIf rule rule) :
    UniformIf rule := by
  intro r r' hr
  have hrel := h r r' (meets_of_agrees hr)
  generalize rule r = o at hrel ⊢
  generalize rule r' = o' at hrel ⊢
  cases hrel with
  | none => exact .none
  | some hs => exact .some hs.inStep

end One

end Twin

end HdlIndex
