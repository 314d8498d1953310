import HdlIndex.Outline.Item
import HdlIndex.Proofs.Outline.Twins

/-! Every rule reads twins side by side: its choices look at the roles and the texts of the tokens
only, and it opens scopes for symbols of those kinds only that have one. -/

namespace HdlIndex

namespace Reading

/-- The made-up name of a body tells how many there were before it. -/
theorem anonymousAggregate_eq (doc : Document) (dataType : Reading → String × Reading) {r : Reading}
    {keyword : OutlineToken} {rest : List OutlineToken} (h : r.cursor.rest = keyword :: rest) :
    anonymousAggregate doc dataType r =
      ((r.table.anonymousName keyword.text).2,
        within doc
          { doc.named keyword (aggregateKind keyword.text) with
            name := (r.table.anonymousName keyword.text).2 }
          keyword.start (aggregateBody doc dataType)
          { r with table := Act.performAll r.scope [.countAnonymous] r.table }) := by
  rw [anonymousAggregate, h]
  rfl

theorem isContainer_aggregateKind (keyword : String) :
    (aggregateKind keyword).isContainer = true := by
  unfold aggregateKind
  split <;> rfl

theorem isContainer_of_constructKind? {keyword : String} {kind : SymbolKind}
    (h : constructKind? keyword = some kind) : kind.isContainer = false := by
  unfold constructKind? at h
  split at h <;> cases h <;> rfl

theorem isContainer_containerKind (keyword : String) :
    (containerKind keyword).isContainer = true := by
  unfold containerKind
  split <;> rfl

/-- Notes the package in front of the colons of an item. -/
def noteItem (package : List Char) (r : Reading) : Reading :=
  if package = ['*'] then r else r.addPackage (.ofList package)

/-- What it is to take in or to pass on an item. -/
def Transfer.act : Transfer → String → Act
  | importing, item => .importing item
  | exporting, item => .exporting item

section Item

variable (transfer : Transfer) {item : String} {r : Reading}

theorem packageItem_of_none (h : beforeColons item.toList = none) :
    packageItem transfer item r = r := by
  rw [packageItem, h]

theorem packageItem_of_some {package : List Char} (h : beforeColons item.toList = some package) :
    packageItem transfer item r =
      { r.noteItem package with
        table := Act.performAll (r.noteItem package).scope [transfer.act item]
          (r.noteItem package).table } := by
  rw [packageItem, h]
  cases transfer <;> rfl

end Item

/-! ### Tests and moves that do not look at offsets -/

section Offsets

variable (f : Nat → Nat) (c : Cursor)

theorem looksLikeDeclaration_mapOffsets :
    looksLikeDeclaration (c.mapOffsets f) = looksLikeDeclaration c := by
  simp only [looksLikeDeclaration, Cursor.skipTypeReference_mapOffsets,
    Cursor.skipDimensions_mapOffsets, Cursor.is_mapOffsets, Cursor.bump_mapOffsets]
  rw [Cursor.nextIs_mapOffsets _ _ fun _ _ => rfl]

theorem skipCaseLabels_mapOffsets :
    skipCaseLabels (c.mapOffsets f) = (skipCaseLabels c).mapOffsets f := by
  unfold skipCaseLabels
  rw [c.skipUntil_mapOffsets f fun _ _ => rfl, Cursor.isText_mapOffsets, Cursor.bump_mapOffsets,
    Cursor.eat_mapOffsets, Cursor.eat_mapOffsets, Cursor.ite_mapOffsets]

theorem routineName?_mapOffsets :
    routineName? (c.mapOffsets f) = (routineName? c).map (·.mapOffsets f) :=
  Cursor.lastOutside_mapOffsets f (fun _ _ => rfl) (fun _ _ => rfl) 0 none c.rest

end Offsets

end Reading

namespace Twin

open Reading

variable {w : Twin}

theorem returnType_eq (hsame : w.same) (c : Cursor) (name : OutlineToken) :
    returnType w.doc c name = returnType w.doc' (c.mapOffsets w.shift) (name.mapOffsets w.shift) := by
  obtain ⟨hdoc, hshift, -⟩ := w.same_eq hsame
  rw [hdoc, hshift, c.mapOffsets_id, name.mapOffsets_id]

namespace Tracks

variable {r₀ r₀' r r' : Reading} (h : w.Tracks r₀ r₀' r r') (transfer : Transfer)
  {name name' : String}
include h

theorem noteItem (hname : w.TextAlike name name') :
    w.Tracks r₀ r₀' { r with table := Act.performAll r.scope [transfer.act name] r.table }
      { r' with table := Act.performAll r'.scope [transfer.act name'] r'.table } := by
  cases transfer with
  | importing =>
    exact h.act (.importing hname .nil) ⟨trivial, trivial⟩ ⟨trivial, trivial⟩ ⟨trivial, trivial⟩
      ⟨trivial, trivial⟩
  | exporting =>
    exact h.act (.exporting hname .nil) ⟨trivial, trivial⟩ ⟨trivial, trivial⟩ ⟨trivial, trivial⟩
      ⟨trivial, trivial⟩

theorem noteMore (hmarked : w.Marked name') :
    w.Tracks r₀ r₀' r
      { r' with table := Act.performAll r'.scope [transfer.act name'] r'.table } := by
  cases transfer with
  | importing =>
    exact h.act (.moreImporting hmarked .nil) trivial ⟨trivial, trivial⟩ trivial ⟨trivial, trivial⟩
  | exporting =>
    exact h.act (.moreExporting hmarked .nil) trivial ⟨trivial, trivial⟩ trivial ⟨trivial, trivial⟩

end Tracks

/-! ### Data types -/

theorem match_declarators {kind kind' : SymbolKind} (hkind : w.KindAlike kind kind')
    (hleaf : kind.isContainer = false) (first : Nat) :
    w.Match (declarators w.doc first kind) (declarators w.doc' (w.shift first) kind') := by
  intro r r' h
  unfold declarators
  rw [h.rest]
  refine ((Tracks.refl h).next (match_nameList ?_ _ (some first))).move _
    Cursor.skipToSemicolon_mapOffsets
  intro name start r r' h
  exact ((Tracks.refl h).move _ Cursor.skipDeclarator_mapOffsets).declare name hkind hleaf start

theorem match_enumMembers : w.Match (enumMembers w.doc) (enumMembers w.doc') := by
  intro r r' h
  unfold enumMembers
  rw [h.rest]
  refine ((Tracks.refl h).next (match_nameList ?_ _ none)).skipUntil _ fun _ _ => rfl
  intro name start r r' h
  exact ((Tracks.refl h).move _ Cursor.skipDeclarator_mapOffsets).declare name (.refl _) rfl start

section Types

variable {dataType dataType' : Reading → String × Reading}
  (hd : w.MatchWith w.TextAlike dataType dataType')
include hd

theorem match_fieldDeclaration :
    w.Match (fieldDeclaration w.doc dataType) (fieldDeclaration w.doc' dataType') := by
  intro r r' h
  obtain ⟨type, type', next, next', hn, hn', htype, hnext⟩ :=
    (Tracks.refl h).skipModifiers.nextWith hd
  have hkind := KindAlike.of_text htype .field fun _ => rfl
  simp only [fieldDeclaration, hn, hn', hnext.is, h.nextStart]
  refine Tracks.bumpIfAt ?_ h.pos
  split
  · exact hnext.next (match_declarators hkind rfl _)
  · exact hnext.move _ Cursor.skipToSemicolon_mapOffsets

theorem match_fields : w.Match (fields w.doc dataType) (fields w.doc' dataType') :=
  match_whileNext _ (fun _ _ => rfl) (match_fieldDeclaration hd)

theorem match_aggregateBody :
    w.Match (aggregateBody w.doc dataType) (aggregateBody w.doc' dataType') := by
  intro r r' h
  have hinside := (Tracks.refl h).bump.skipUntil
    (fun t => t.role == .braceOpen || t.role == .semicolon || t.isRegionEnd) fun _ _ => rfl
  unfold aggregateBody
  dsimp only
  rw [hinside.is, h.is]
  split
  · refine Tracks.eat ?_ _
    split
    · exact hinside.bump.next match_enumMembers
    · exact hinside.bump.next (match_fields hd)
  · exact hinside

theorem match_anonymousAggregate :
    w.MatchWith Eq (anonymousAggregate w.doc dataType) (anonymousAggregate w.doc' dataType') := by
  intro r r' h
  cases hrest : r.cursor.rest with
  | nil =>
    have hrest' : r'.cursor.rest = [] := by rw [h.rest, hrest, List.map_nil]
    simp only [anonymousAggregate, hrest, hrest']
    exact ⟨trivial, .refl h⟩
  | cons keyword rest =>
    have hrest' : r'.cursor.rest = keyword.mapOffsets w.shift :: rest.map (·.mapOffsets w.shift) := by
      rw [h.rest, hrest, List.map_cons]
    have hname : (r'.table.anonymousName keyword.text).2 =
        (r.table.anonymousName keyword.text).2 := by
      rw [SymbolTable.anonymousName, SymbolTable.anonymousName, h.anonymous]
    rw [anonymousAggregate_eq w.doc dataType hrest, anonymousAggregate_eq w.doc' dataType' hrest',
      OutlineToken.mapOffsets_text, hname]
    refine ⟨rfl, ?_⟩
    have hcount := (Tracks.refl h).act (.countAnonymous .nil) ⟨trivial, trivial⟩ ⟨trivial, trivial⟩
      ⟨trivial, trivial⟩ ⟨trivial, trivial⟩
    exact hcount.next (match_within ((SymbolAlike.named (.refl _) keyword).rename _)
      (isContainer_aggregateKind _) rfl (match_aggregateBody hd))

end Types

theorem match_dataTypeWithin (bound : List OutlineToken) :
    w.MatchWith w.TextAlike (dataTypeWithin w.doc bound)
      (dataTypeWithin w.doc' (bound.map (·.mapOffsets w.shift))) := by
  induction bound with
  | nil => exact fun r r' h => ⟨.refl "", .refl h⟩
  | cons _ bound ih =>
    intro r r' h
    have hlead := (Tracks.refl h).move (·.skipTypeLead) Cursor.skipTypeLead_mapOffsets
    rw [List.map_cons, dataTypeWithin, dataTypeWithin]
    dsimp only
    rw [hlead.is, hlead.is]
    split
    · obtain ⟨name, name', body, body', hb, hb', rfl, hbody⟩ :=
        hlead.nextWith (match_anonymousAggregate ih)
      have hnext := hbody.move (·.skipPackedDimensions) Cursor.skipPackedDimensions_mapOffsets
      simp only [hb, hb']
      exact ⟨(hbody.meets.textAlike hnext.meets).withDimensions name, hnext⟩
    · have hnext := hlead.move (·.skipTypeName.skipPackedDimensions) fun f c => by
        simp only [Cursor.skipTypeName_mapOffsets, Cursor.skipPackedDimensions_mapOffsets]
      dsimp only
      exact ⟨h.textAlike hnext.meets, hnext⟩

theorem match_dataType : w.MatchWith w.TextAlike (dataType w.doc) (dataType w.doc') := by
  intro r r' h
  unfold dataType
  rw [h.rest]
  exact match_dataTypeWithin _ r r' h

/-! ### Data and instances -/

theorem match_dataDeclaration? : w.MatchIf (dataDeclaration? w.doc) (dataDeclaration? w.doc') := by
  intro r r' h
  have hlead := (Tracks.refl h).skipWhile
    (fun t => t.role == .modifier && t.text != "signed" && t.text != "unsigned") fun _ _ => rfl
  obtain ⟨type, type', next, next', hn, hn', htype, hnext⟩ := hlead.nextWith match_dataType
  have hkind (net : Bool) : w.KindAlike (if net then .net type else .dataVariable type)
      (if net then .net type' else .dataVariable type') :=
    (KindAlike.of_text htype .net fun _ => rfl).ite
      (KindAlike.of_text htype .dataVariable fun _ => rfl) net
  simp only [dataDeclaration?, hn, hn', hnext.is, hlead.is, hnext.meets.pos, h.pos, h.nextStart]
  split
  · refine .some (hnext.next (match_declarators (hkind _) ?_ _))
    split <;> rfl
  · split
    · exact .none
    · exact .some (hnext.move _ Cursor.skipToSemicolon_mapOffsets)

theorem match_instances? : w.MatchIf (instances? w.doc) (instances? w.doc') := by
  intro r r' h
  have htype := (Tracks.refl h).move (·.skipPackages) Cursor.skipPackages_mapOffsets
  have hnext := htype.bump
  have hgroup := (hnext.bump.move (·.skipGroup) Cursor.skipGroup_mapOffsets).ite hnext
    (hnext.is .hash)
  have hkind := KindAlike.of_text (h.textAlike hnext.meets) .moduleInstance fun _ => rfl
  simp only [instances?, htype.is, hgroup.meets.rest, h.nextStart]
  split
  · refine .some ((hgroup.next (match_nameList ?_ _ (some _))).move _
      Cursor.skipToSemicolon_mapOffsets)
    intro name start r r' h
    exact ((Tracks.refl h).move _ fun f c => by
      simp only [Cursor.skipDimensions_mapOffsets,
        Cursor.skipBalanced_mapOffsets]).declare name hkind rfl start
  · exact .none

theorem match_identifierItem? : w.MatchIf (identifierItem? w.doc) (identifierItem? w.doc') := by
  intro r r' h
  simp only [identifierItem?, h.is, h.cursor, Cursor.nthIs_mapOffsets,
    Cursor.skipTypeReference_mapOffsets, Cursor.skipDimensions_mapOffsets, Cursor.is_mapOffsets,
    Cursor.bump_mapOffsets]
  split
  · exact .some (Tracks.refl h).bump.bump
  · split
    · exact .none
    · split
      · exact match_instances? r r' h
      · exact match_dataDeclaration? r r' h

/-! ### Ports and parameters -/

theorem match_portDeclaration : w.Match (portDeclaration w.doc) (portDeclaration w.doc') := by
  intro r r' h
  obtain ⟨type, type', next, next', hn, hn', htype, hnext⟩ :=
    (Tracks.refl h).bump.nextWith match_dataType
  simp only [portDeclaration, hn, hn', h.nextStart]
  exact hnext.next (match_declarators
    (.of_detail (fun hsame => congrArg nonEmpty (htype.eq hsame)) .port fun _ => rfl) rfl _)

theorem match_portEntry {inherited inherited' : Option String}
    (hinherited : w.same → inherited = inherited') :
    w.MatchWith (fun type type' => w.same → type = type') (portEntry w.doc inherited)
      (portEntry w.doc' inherited') := by
  intro r r' h
  obtain ⟨written, written', next, next', hn, hn', hwritten, hnext⟩ :=
    ((Tracks.refl h).eat .direction).nextWith match_dataType
  have hname := hnext.eat .dot
  have hbehind := ((hname.eat .identifier).move (·.skipBalanced)
    Cursor.skipBalanced_mapOffsets).ite (hname.eat .identifier) (hnext.is .dot)
  have htype : w.same →
      (if r.is .direction || !written.isEmpty then nonEmpty written else inherited) =
        (if r.is .direction || !written'.isEmpty then nonEmpty written' else inherited') :=
    fun hsame => by rw [hwritten.eq hsame, hinherited hsame]
  simp only [portEntry, hn, hn', hname.meets.identifier?, h.is, h.nextStart]
  refine ⟨htype, (Tracks.move ?_ _ fun f c => by
    simp only [Cursor.skipExpression_mapOffsets, Cursor.eat_mapOffsets]).bumpIfAt h.pos⟩
  cases (next.eat .dot).cursor.identifier? with
  | none => exact hbehind
  | some name =>
    exact (hbehind.move _ Cursor.skipDeclarator_mapOffsets).declare name
      (.of_detail htype .port fun _ => rfl) rfl _

/-- The type that ports without one of their own have is handed on, so the repetition goes over a
type and a reading. -/
theorem match_portList : w.Match (portList w.doc) (portList w.doc') := by
  intro r r' h
  unfold portList
  dsimp only
  rw [h.rest, iterate_map]
  refine Tracks.eat ?_ _
  refine (iterate_rel (R := fun p p' : Option String × Reading =>
    (w.same → p.1 = p'.1) ∧ w.Tracks r r' p.2 p'.2) ?_ r.cursor.rest (none, r.bump) (none, r'.bump)
    ⟨fun _ => rfl, (Tracks.refl h).bump⟩).2
  rintro ⟨type, s⟩ ⟨type', s'⟩ ⟨htype, hs⟩
  dsimp only at htype hs ⊢
  rw [hs.meets.cursor, Cursor.nextIs_mapOffsets _ _ fun _ _ => rfl]
  split
  · obtain ⟨next, next', t, t', hn, hn', hnext, ht⟩ := hs.nextWith (match_portEntry htype)
    rw [hn, hn']
    exact .some ⟨hnext, ht⟩
  · exact .none

theorem match_parameterEntry : w.Match (parameterEntry w.doc) (parameterEntry w.doc') := by
  intro r r' h
  obtain ⟨type, type', next, next', hn, hn', -, hnext⟩ :=
    ((Tracks.refl h).move (fun c => (c.eat .parameter).eatText "type") fun f c => by
      simp only [Cursor.eat_mapOffsets, Cursor.eatText_mapOffsets]).nextWith match_dataType
  simp only [parameterEntry, hn, hn', hnext.meets.identifier?, h.nextStart]
  refine (Tracks.move ?_ _ fun f c => by
    simp only [Cursor.skipExpression_mapOffsets, Cursor.eat_mapOffsets]).bumpIfAt h.pos
  cases next.cursor.identifier? with
  | none => exact hnext
  | some name =>
    exact (hnext.bump.move _ Cursor.skipDeclarator_mapOffsets).declare name (.refl _) rfl _

theorem match_parameterPortList :
    w.Match (parameterPortList w.doc) (parameterPortList w.doc') := by
  intro r r' h
  have hopen := (Tracks.refl h).bump
  simp only [parameterPortList, hopen.is]
  split
  · exact (hopen.bump.next (match_whileNext _ (fun _ _ => rfl) match_parameterEntry)).eat _
  · exact hopen

theorem match_parameterDeclaration :
    w.Match (parameterDeclaration w.doc) (parameterDeclaration w.doc') := by
  intro r r' h
  obtain ⟨type, type', next, next', hn, hn', -, hnext⟩ :=
    ((Tracks.refl h).bump.move (·.eatText "type") fun f c =>
      c.eatText_mapOffsets f _).nextWith match_dataType
  simp only [parameterDeclaration, hn, hn', h.nextStart, h.isText]
  refine hnext.next (match_declarators (.refl _) ?_ _)
  split <;> rfl

/-! ### Type aliases -/

theorem match_declareAlias (name : OutlineToken) {aliased aliased' : String}
    (haliased : w.TextAlike aliased aliased') (start : Nat) {body body' : Reading → Reading}
    (hbody : w.Match body body') :
    w.Match (declareAlias w.doc name aliased start body)
      (declareAlias w.doc' (name.mapOffsets w.shift) aliased' (w.shift start) body') :=
  match_within (.named (.of_text haliased .typeAlias fun _ => rfl) name) rfl rfl hbody

theorem match_finishAlias {aliased aliased' : String} (haliased : w.TextAlike aliased aliased')
    (start : Nat) :
    w.Match (finishAlias w.doc aliased start) (finishAlias w.doc' aliased' (w.shift start)) := by
  intro r r' h
  unfold finishAlias
  rw [h.identifier?]
  cases r.cursor.identifier? with
  | none => exact (Tracks.refl h).move _ Cursor.skipToSemicolon_mapOffsets
  | some name =>
    exact ((Tracks.refl h).bump.move _ Cursor.skipToSemicolon_mapOffsets).next
      (match_declareAlias name haliased start match_id)

theorem match_aggregateAlias (start : Nat) :
    w.Match (aggregateAlias w.doc start) (aggregateAlias w.doc' (w.shift start)) := by
  intro r r' h
  unfold aggregateAlias
  rw [h.cursor, Cursor.bump_mapOffsets, Cursor.skipUntil_mapOffsets _ _ fun _ _ => rfl,
    Cursor.nextText_mapOffsets]
  dsimp only
  rw [Cursor.skipBalanced_mapOffsets, Cursor.skipDimensions_mapOffsets,
    Cursor.identifier?_mapOffsets, Cursor.nextIs_mapOffsets _ _ fun _ _ => rfl]
  split
  · next hnone =>
    rw [hnone]
    exact (Tracks.refl h).move _ Cursor.skipToSemicolon_mapOffsets
  · next name hname =>
    rw [hname]
    refine match_declareAlias name (.refl _) _ ?_ r r' h
    intro r r' h
    exact (((Tracks.refl h).next (match_aggregateBody match_dataType)).ite (.refl h) rfl).move _
      Cursor.skipToSemicolon_mapOffsets

theorem match_typeAlias : w.Match (typeAlias w.doc) (typeAlias w.doc') := by
  intro r r' h
  have htype := (Tracks.refl h).bump
  have hforward := htype.skipWhile isForward fun _ _ => rfl
  obtain ⟨aliased, aliased', next, next', hn, hn', haliased, hnext⟩ := htype.nextWith match_dataType
  have hnextIs : r'.bump.cursor.nextIs isForward = r.bump.cursor.nextIs isForward := by
    rw [htype.meets.cursor, Cursor.nextIs_mapOffsets _ _ fun _ _ => rfl]
  simp only [typeAlias, hn, hn', htype.is, hnextIs, h.nextStart]
  split
  · exact htype.next (match_aggregateAlias _)
  · split
    · exact hforward.next (match_finishAlias (htype.meets.textAlike hforward.meets) _)
    · exact hnext.next (match_finishAlias haliased _)

/-! ### Modports, imports and exports -/

theorem match_modportDeclaration :
    w.Match (modportDeclaration w.doc) (modportDeclaration w.doc') := by
  intro r r' h
  unfold modportDeclaration
  rw [h.rest, h.nextStart]
  refine ((Tracks.refl h).bump.next (match_nameList ?_ _ (some _))).move _
    Cursor.skipToSemicolon_mapOffsets
  intro name start r r' h
  exact ((Tracks.refl h).move _ Cursor.skipBalanced_mapOffsets).declare name (.refl _) rfl start

theorem match_genvarDeclaration : w.Match (genvarDeclaration w.doc) (genvarDeclaration w.doc') := by
  intro r r' h
  unfold genvarDeclaration
  rw [h.nextStart]
  exact (Tracks.refl h).bump.next (match_declarators (.refl _) rfl _)

theorem match_packageItem (transfer : Transfer) {item item' : String}
    (hitem : ItemAlike w.Marked item item') :
    w.Match (packageItem transfer item) (packageItem transfer item') := by
  intro r r' h
  have hsame (package : List Char) :
      w.Tracks r r' (r.noteItem package) (r'.noteItem package) := by
    unfold noteItem
    split
    · exact .refl h
    · exact (Tracks.refl h).addPackage _
  have hmatch (hname : w.TextAlike item item')
      (hcolons : beforeColons item.toList = beforeColons item'.toList) :
      w.Tracks r r' (packageItem transfer item r) (packageItem transfer item' r') := by
    cases hpackage : beforeColons item'.toList with
    | none =>
      rw [packageItem_of_none transfer hpackage, packageItem_of_none transfer (hcolons.trans hpackage)]
      exact .refl h
    | some package =>
      rw [packageItem_of_some transfer hpackage, packageItem_of_some transfer (hcolons.trans hpackage)]
      exact (hsame package).noteItem transfer hname
  rcases hitem with rfl | ⟨hmarked, hcolons | ⟨package', hpackage', hstar, hname⟩⟩
  · exact hmatch (.refl item) rfl
  · exact hmatch (.inr hmarked) hcolons
  · rw [packageItem_of_some transfer hpackage', noteItem, if_neg hstar]
    cases hpackage : beforeColons item.toList with
    | none =>
      rw [packageItem_of_none transfer hpackage]
      exact ((Tracks.refl h).addMarked r.packages hname).noteMore transfer hmarked
    | some package =>
      rw [packageItem_of_some transfer hpackage]
      have hnote : r.noteItem package = { r with packages := (r.noteItem package).packages } := by
        unfold noteItem
        split <;> rfl
      rw [hnote]
      exact ((Tracks.refl h).addMarked _ hname).noteItem transfer (.inr hmarked)

theorem match_packageItems (transfer : Transfer) (bound : List OutlineToken) :
    w.Match (packageItems w.doc transfer bound)
      (packageItems w.doc' transfer (bound.map (·.mapOffsets w.shift))) := by
  induction bound with
  | nil => exact match_id
  | cons _ bound ih =>
    intro r r' h
    have hbehind := (Tracks.refl h).move (·.skipExpression) Cursor.skipExpression_mapOffsets
    have hitem := w.items _ _ h.stands hbehind.meets.stands
    rw [← h.cursor, ← hbehind.meets.cursor] at hitem
    have hnext := hbehind.next (match_packageItem transfer hitem)
    rw [List.map_cons, packageItems, packageItems]
    exact (hnext.bump.next ih).ite (hnext.move _ Cursor.skipToSemicolon_mapOffsets) (hnext.is .comma)

theorem match_exportItems : w.Match (exportItems w.doc) (exportItems w.doc') := by
  intro r r' h
  have hnext := (Tracks.refl h).bump
  simp only [exportItems, hnext.meets.rest]
  exact (hnext.move _ Cursor.skipToSemicolon_mapOffsets).ite
    (hnext.next (match_packageItems _ _)) (hnext.is .string)

/-! ### Lets and net types -/

theorem match_letDeclaration : w.Match (letDeclaration w.doc) (letDeclaration w.doc') := by
  intro r r' h
  have hnext := (Tracks.refl h).bump
  simp only [letDeclaration, hnext.meets.identifier?, h.nextStart]
  cases r.bump.cursor.identifier? with
  | none => exact hnext.move _ Cursor.skipToSemicolon_mapOffsets
  | some name =>
    exact (hnext.bump.move _ Cursor.skipToSemicolon_mapOffsets).declare name (.refl _) rfl _

theorem match_nettypeDeclaration :
    w.Match (nettypeDeclaration w.doc) (nettypeDeclaration w.doc') := by
  intro r r' h
  have hbehind := (Tracks.refl h).bump
  have hstop : OutlineToken.IgnoresOffsets fun t =>
    t.role == .semicolon || t.text == "with" || t.isRegionEnd := fun _ _ => rfl
  have hmark : OutlineToken.IgnoresOffsets (·.role == .identifier) := fun _ _ => rfl
  have hnext := (hbehind.skipUntil _ hstop).move (·.skipToSemicolon)
    Cursor.skipToSemicolon_mapOffsets
  have hname := Cursor.lastOutside_mapOffsets w.shift hstop hmark 0 none r.bump.cursor.rest
  simp only [nettypeDeclaration, hbehind.meets.rest, h.nextStart]
  rw [Option.map_none] at hname
  rw [hname]
  cases Cursor.lastOutside _ (·.role == .identifier) 0 none r.bump.cursor.rest with
  | none => exact hnext
  | some name => exact hnext.declare name (.refl _) rfl _

/-! ### Routines and constructs -/

theorem match_routine (start : Nat) {body body' : Reading → Reading} (hbody : w.Match body body') :
    w.Match (routine w.doc start body) (routine w.doc' (w.shift start) body') := by
  intro r r' h
  have hheader := (Tracks.refl h).bump.skipModifiers
  have hnext := hheader.skipUntil stopsRoutineHeader fun _ _ => rfl
  simp only [routine, hheader.meets.cursor, routineName?_mapOffsets, h.isText]
  cases routineName? (r.bump.move (·.skipWhile (·.role == .modifier))).cursor with
  | none => exact hnext.move _ Cursor.skipToSemicolon_mapOffsets
  | some name =>
    have hreturn (hsame : w.same) :=
      returnType_eq hsame (r.bump.move (·.skipWhile (·.role == .modifier))).cursor name
    have hkind := KindAlike.ite (.refl .task) (.of_detail hreturn .function fun _ => rfl)
      (r.cursor.isText "task")
    refine hnext.next (match_within (.named hkind name) ?_ rfl ?_)
    · show (if _ then _ else _ : SymbolKind).isContainer = true
      split <;> rfl
    · intro r r' h
      have hports := ((Tracks.refl h).next match_portList).ite (.refl h) (h.is .parenOpen)
      exact (hports.eat _).next hbody

theorem match_importItems : w.Match (importItems w.doc) (importItems w.doc') := by
  intro r r' h
  have hnext := (Tracks.refl h).bump
  have hroutine := hnext.bump.skipWhile (fun t =>
    t.role == .modifier || t.role == .identifier || t.role == .equals) fun _ _ => rfl
  simp only [importItems, hnext.meets.rest, h.nextStart]
  refine Tracks.ite ?_ (hnext.next (match_packageItems _ _)) (hnext.is .string)
  exact (hroutine.next (match_routine _ match_id)).ite
    (hroutine.move _ Cursor.skipToSemicolon_mapOffsets) (hroutine.is .routine)

theorem match_routineItem : w.Match (routineItem w.doc) (routineItem w.doc') := by
  intro r r' h
  have hdata := (Tracks.refl h).getD (match_dataDeclaration? r r' h)
  have hskip := (Tracks.refl h).move (·.skipStatement) Cursor.skipStatement_mapOffsets
  have hrole : r'.cursor.rest.head?.map (·.role) = r.cursor.rest.head?.map (·.role) := by
    rw [h.rest, List.head?_map, Option.map_map]
    rfl
  have hlooks : looksLikeDeclaration r'.cursor = looksLikeDeclaration r.cursor := by
    rw [h.cursor, looksLikeDeclaration_mapOffsets]
  unfold routineItem
  rw [hrole]
  refine Tracks.bumpIfAt ?_ h.pos
  split
  · exact match_portDeclaration r r' h
  · exact match_parameterDeclaration r r' h
  · exact match_typeAlias r r' h
  · exact match_importItems r r' h
  · exact hdata
  · exact hdata
  · exact hdata
  · exact hdata
  · exact hdata
  · exact hdata.ite hskip hlooks
  · exact hdata.ite hskip hlooks
  · exact hskip

theorem match_routineBody : w.Match (routineBody w.doc) (routineBody w.doc') := by
  intro r r' h
  have hnext := (Tracks.refl h).next (match_whileNext (!endsRoutineBody ·)
    (fun _ _ => rfl) match_routineItem)
  exact (hnext.bump.move _ Cursor.eatLabel_mapOffsets).ite hnext (hnext.is _)

theorem match_construct (start : Nat) :
    w.Match (construct w.doc start) (construct w.doc' (w.shift start)) := by
  intro r r' h
  have hheader := (Tracks.refl h).bump.skipModifiers
  have hnext := (hheader.eat .identifier).move
    (fun c => (c.skipPast (constructEnd r.cursor.nextText)).eatLabel) fun f c => by
      simp only [Cursor.skipPast_mapOffsets, Cursor.eatLabel_mapOffsets]
  simp only [construct, hheader.meets.identifier?, h.nextText]
  cases hkind : constructKind? r.cursor.nextText with
  | none => exact hnext
  | some kind =>
    cases (r.bump.move (·.skipWhile (·.role == .modifier))).cursor.identifier? with
    | none => exact hnext
    | some name =>
      exact hnext.declare name (.refl _) (isContainer_of_constructKind? hkind) _

theorem match_otherItem? (keyword : String) :
    w.MatchIf (otherItem? w.doc · keyword) (otherItem? w.doc' · keyword) := by
  intro r r' h
  have hnext := (Tracks.refl h).bump
  have hlead : Option.Rel (w.Tracks r r')
      (if r.bump.is .construct then some (r.bump.construct w.doc r.cursor.nextStart)
        else some (r.bump.move (·.skipToSemicolon)))
      (if r'.bump.is .construct then some (r'.bump.construct w.doc' r'.cursor.nextStart)
        else some (r'.bump.move (·.skipToSemicolon))) := by
    rw [hnext.is, h.nextStart]
    split
    · exact .some (hnext.next (match_construct _))
    · exact .some (hnext.move _ Cursor.skipToSemicolon_mapOffsets)
  have hskip := (Tracks.refl h).move (·.skipToSemicolon) Cursor.skipToSemicolon_mapOffsets
  dsimp only
  unfold otherItem?
  split
  · exact .some (match_letDeclaration r r' h)
  · exact .some (match_nettypeDeclaration r r' h)
  · exact hlead
  · exact hlead
  · exact .some hskip
  · exact .some hskip
  · exact .some hskip
  · exact .some hskip
  · exact .some hskip
  · exact .none

/-! ### Containers -/

theorem match_headerPart? : w.MatchIf (headerPart? w.doc) (headerPart? w.doc') := by
  intro r r' h
  simp only [headerPart?, h.is]
  split
  · exact .some (match_importItems r r' h)
  · split
    · exact .some (match_parameterPortList r r' h)
    · split
      · exact .some (match_portList r r' h)
      · exact .none

theorem match_header : w.Match (header w.doc) (header w.doc') := by
  intro r r' h
  unfold header
  rw [h.rest]
  exact ((Tracks.refl h).next (match_iterate match_headerPart? _)).eat _

section Items

variable {item item' : Reading → Reading} (hitem : w.Match item item')
include hitem

theorem match_itemsUntil (closing : Role) :
    w.Match (itemsUntil item closing) (itemsUntil item' closing) := by
  intro r r' h
  have hnext := (Tracks.refl h).next (match_whileNext (·.role != closing)
    (fun _ _ => rfl) hitem)
  exact (hnext.bump.move _ Cursor.eatLabel_mapOffsets).ite hnext (hnext.is _)

theorem match_container (start : Nat) (prototype : Bool) :
    w.Match (container w.doc item start prototype)
      (container w.doc' item' (w.shift start) prototype) := by
  intro r r' h
  have hnext := (Tracks.refl h).bump.skipModifiers
  simp only [container, (Tracks.refl h).bump.is, hnext.meets.identifier?, h.nextText]
  split
  · exact (Tracks.refl h).bump.next (match_construct _)
  · cases (r.bump.move (·.skipWhile (·.role == .modifier))).cursor.identifier? with
    | none => exact hnext
    | some name =>
      refine hnext.bump.next (match_within (.named (.refl _) name)
        (isContainer_containerKind _) rfl ?_)
      intro r r' h
      have hheader := match_header r r' h
      exact hheader.ite (hheader.next (match_itemsUntil hitem _)) rfl

theorem match_packageContainer :
    w.Match (packageContainer w.doc item) (packageContainer w.doc' item') := by
  intro r r' h
  have hnext := (Tracks.refl h).bump.skipModifiers
  simp only [packageContainer, hnext.meets.identifier?, h.nextStart]
  cases (r.bump.move (·.skipWhile (·.role == .modifier))).cursor.identifier? with
  | none => exact hnext.move _ Cursor.skipToSemicolon_mapOffsets
  | some name =>
    refine hnext.bump.next (match_within (.named (.refl _) name) rfl rfl ?_)
    intro r r' h
    exact ((Tracks.refl h).eat _).next (match_itemsUntil hitem _)

/-! ### Generate constructs -/

theorem match_generateBlock : w.Match (generateBlock w.doc item) (generateBlock w.doc' item') := by
  intro r r' h
  have hitems := ((Tracks.refl h).bump.move (·.eatLabel) Cursor.eatLabel_mapOffsets).next
    (match_whileNext (!·.isRegionEnd) (fun _ _ => rfl) hitem)
  have hnext := (hitems.bump.move (·.eatLabel) Cursor.eatLabel_mapOffsets).ite hitems
    (hitems.is .blockEnd)
  simp only [generateBlock, (Tracks.refl h).bump.meets.cursor, Cursor.label?_mapOffsets, h.nextStart]
  cases r.bump.cursor.label? with
  | none => exact hnext
  | some name => exact hnext.declare name (.refl _) rfl _

theorem match_generateBody : w.Match (generateBody w.doc item) (generateBody w.doc' item') := by
  intro r r' h
  simp only [generateBody, h.is, h.cursor]
  rw [Cursor.nextIs_mapOffsets _ _ fun _ _ => rfl]
  split
  · exact match_generateBlock hitem r r' h
  · exact (hitem r r' h).ite (.refl h) rfl

theorem match_generateIf : w.Match (generateIf w.doc item) (generateIf w.doc' item') := by
  intro r r' h
  have hnext := ((Tracks.refl h).bump.move (·.skipBalanced) Cursor.skipBalanced_mapOffsets).next
    (match_generateBody hitem)
  exact (hnext.bump.next (match_generateBody hitem)).ite hnext (hnext.meets.isText "else")

theorem match_generateFor : w.Match (generateFor w.doc item) (generateFor w.doc' item') := by
  intro r r' h
  exact ((Tracks.refl h).bump.move _ Cursor.skipBalanced_mapOffsets).next (match_generateBody hitem)

theorem match_caseItem : w.Match (caseItem w.doc item) (caseItem w.doc' item') := by
  intro r r' h
  exact (((Tracks.refl h).move _ skipCaseLabels_mapOffsets).next
    (match_generateBody hitem)).bumpIfAt h.pos

theorem match_generateCase : w.Match (generateCase w.doc item) (generateCase w.doc' item') := by
  intro r r' h
  exact (((Tracks.refl h).bump.move _ Cursor.skipBalanced_mapOffsets).next
    (match_whileNext _ (fun _ _ => rfl) (match_caseItem hitem))).eat _

/-! ### Items -/

theorem match_qualifiedItem? : w.MatchIf (qualifiedItem? w.doc item) (qualifiedItem? w.doc' item') := by
  intro r r' h
  have hnext := (Tracks.refl h).skipModifiers
  have hmodifiers : r'.cursor.rest.takeWhile (·.role == .modifier) =
      (r.cursor.rest.takeWhile (·.role == .modifier)).map (·.mapOffsets w.shift) := by
    rw [h.rest, List.takeWhile_map]
    rfl
  simp only [qualifiedItem?, hmodifiers, List.any_map, Function.comp_def,
    OutlineToken.mapOffsets_text, hnext.is, hnext.meets.isText, h.nextStart]
  split
  · exact .some (hnext.next (match_container hitem _ _))
  · split
    · refine .some (hnext.next (match_routine _ ?_))
      split
      · exact match_id
      · exact match_routineBody
    · split
      · exact .some (hnext.next (match_construct _))
      · exact match_dataDeclaration? r r' h

theorem match_itemWith? : w.MatchIf (itemWith? w.doc item) (itemWith? w.doc' item') := by
  intro r r' h
  have hdata := match_dataDeclaration? r r' h
  have hnamed := match_identifierItem? r r' h
  have hbump := (Tracks.refl h).bump
  have hskip := (Tracks.refl h).move (·.skipToSemicolon) Cursor.skipToSemicolon_mapOffsets
  have hstatement := Cursor.skipStatement_mapOffsets
  unfold itemWith?
  rw [h.rest]
  cases r.cursor.rest with
  | nil => exact .none
  | cons t rest =>
    rw [List.map_cons]
    dsimp only
    rw [OutlineToken.mapOffsets_role, OutlineToken.mapOffsets_text, OutlineToken.mapOffsets_start]
    split
    · exact .some (match_container hitem _ _ r r' h)
    · exact .some (match_packageContainer hitem r r' h)
    · exact .some (match_routine _ match_routineBody r r' h)
    · exact .some (match_portDeclaration r r' h)
    · exact .some (match_parameterDeclaration r r' h)
    · exact .some (match_typeAlias r r' h)
    · exact .some (match_modportDeclaration r r' h)
    · exact .some (match_importItems r r' h)
    · exact .some (match_exportItems r r' h)
    · exact .some (match_genvarDeclaration r r' h)
    · exact .some hbump
    · exact .some hbump
    · exact .some hbump
    · exact hdata
    · exact hdata
    · exact hdata
    · exact hdata
    · exact match_qualifiedItem? hitem r r' h
    · exact hnamed
    · exact hnamed
    · exact .some hskip
    · exact .some hskip
    · exact .some (hbump.move _ hstatement)
    · exact .some ((Tracks.refl h).move _ hstatement)
    · exact .some (match_construct _ r r' h)
    · exact match_otherItem? _ r r' h
    · split
      · exact .some (match_generateIf hitem r r' h)
      · exact .some (match_generateFor hitem r r' h)
      · exact .none
    · exact .some (match_generateCase hitem r r' h)
    · exact .some (match_generateBlock hitem r r' h)
    · exact .none

end Items

theorem match_itemOrSkip {item? item?' : Reading → Option Reading} (hi : w.MatchIf item? item?') :
    w.Match (itemOrSkip w.doc item?) (itemOrSkip w.doc' item?') := by
  intro r r' h
  exact (Tracks.refl h).skipUnexpected.getD (hi r r' h)

theorem match_itemWithin? (bound : List OutlineToken) :
    w.MatchIf (itemWithin? w.doc bound)
      (itemWithin? w.doc' (bound.map (·.mapOffsets w.shift))) := by
  induction bound with
  | nil => exact fun r r' h => .none
  | cons _ bound ih => exact match_itemWith? (match_itemOrSkip ih)

theorem match_item : w.Match (item w.doc) (item w.doc') := by
  intro r r' h
  unfold item
  rw [h.rest]
  exact match_itemOrSkip (match_itemWithin? _) r r' h

theorem match_run : w.Match (run w.doc) (run w.doc') := match_whileNext _ (fun _ _ => rfl) match_item

end Twin

end HdlIndex
