import HdlIndex.Proofs.Outline.Aliases

/-! Every rule is a stretch. A rule that starts at a keyword reads it, whatever follows; a rule that
looks for what it can take gives nothing unless it reads the next token. -/

namespace HdlIndex

namespace Reading

variable {doc : Document} {front start : Cursor} {r s next : Reading}

/-! ### Data and instances -/

theorem passes_dataDeclaration? (h : r.dataDeclaration? doc = some s) : Passes doc r s := by
  have hnext := ((Leads.here doc r).skipWhile fun t =>
    t.role == .modifier && t.text != "signed" && t.text != "unsigned").follow (leads_dataType _)
  unfold dataDeclaration? at h
  dsimp only at h
  split at h
  · next hname =>
    cases h
    exact hnext.passes_of_leads (Cursor.rest_ne_nil_of_is hname)
      (leads_declarators_bump hnext.behind hname _)
  · split at h
    · cases h
    · next hpos =>
      cases h
      refine ⟨hnext.skipToSemicolon, ?_⟩
      exact (hnext.ahead.behind_next (hnext.ahead.left_lt_of_pos_ne hpos)).skipToSemicolon

theorem passes_instances? (h : r.instances? doc = some s) : Passes doc r s := by
  have htype : Leads doc r.cursor r (r.move (·.skipPackages)) :=
    (Leads.here _ _).move fun c => (Cursor.Ahead.refl c).skipPackages
  have hentry := leads_declared doc
    (fun c => (Cursor.Ahead.refl c).skipDimensions.skipBalanced)
    (.moduleInstance (doc.textBetween r.cursor (r.move (·.skipPackages)).bump.cursor))
  unfold instances? at h
  dsimp only at h
  split at h
  · next hname =>
    cases h
    refine htype.passes_of_leads (Cursor.rest_ne_nil_of_is hname) (Leads.skipToSemicolon ?_)
    have hgroup := (Leads.refl doc htype.bump.behind).bump.move
      fun c => (Cursor.Ahead.refl c).skipGroup
    have hbehind := hgroup.ite (Leads.refl _ htype.bump.behind)
      (b := (r.move (·.skipPackages)).bump.is .hash)
    refine hbehind.next (leads_nameList hentry _ ?_ ?_) (.refl _)
    · exact hbehind.behind
    · simp
  · cases h

theorem passes_identifierItem? (h : r.identifierItem? doc = some s) : Passes doc r s := by
  unfold identifierItem? at h
  dsimp only at h
  split at h
  · cases h
    exact (Leads.bumped _ r).bump.passes
  · split at h
    · cases h
    · split at h
      · exact passes_instances? h
      · exact passes_dataDeclaration? h

/-! ### Ports and parameters -/

theorem leads_portDeclaration (r : Reading) :
    Leads doc r.cursor r.bump (portDeclaration doc r) := by
  have hnext := (Leads.bumped doc r).follow
    (leads_dataType _)
  exact hnext.next (leads_declarators hnext.behind _) (.refl _)

theorem passes_portEntry (inherited : Option String) (r : Reading) :
    Passes doc r (portEntry doc inherited r).2 := by
  have hname := (((Leads.here doc r).eat .direction).follow
    (leads_dataType _)).eat .dot
  unfold portEntry
  dsimp only
  refine Leads.passes_bumpIfAt (Leads.move ?_ fun c => (Cursor.Ahead.refl c).skipExpression.eat _)
  split
  · exact (hname.eat _).skipBalanced.ite (hname.eat _)
  · next name hsome =>
    have hbetween := (Cursor.between_eat_identifier hsome)
    refine Leads.declare ((hname.eat _).skipBalanced.ite (hname.eat _)).skipDeclarator _ (.refl _) ?_
    refine .after hname.ahead (hbetween.trans ?_)
    split
    · exact (Cursor.Ahead.refl _).skipBalanced.skipDeclarator
    · exact (Cursor.Ahead.refl _).skipDeclarator

/-- The type that ports without one of their own have is handed on with the reading. -/
theorem leads_portList (r : Reading) : Leads doc r.cursor r.bump (portList doc r) := by
  unfold portList
  refine Leads.eat ?_ _
  refine iterate_induction (P := fun p : Option String × Reading => Leads doc r.cursor r.bump p.2)
    ?_ r.cursor.rest (none, r.bump) (.refl _ (Cursor.Ahead.refl _).bump)
  rintro ⟨type, s⟩ p hs hp
  dsimp only at hs hp
  split at hp
  · cases hp
    exact hs.follow (passes_portEntry type s).leads
  · cases hp

theorem passes_parameterEntry (r : Reading) : Passes doc r (parameterEntry doc r) := by
  have hnext := ((Leads.here doc r).move fun c =>
    ((Cursor.Ahead.refl c).eat .parameter).eatText "type").follow (leads_dataType _)
  unfold parameterEntry
  dsimp only
  refine Leads.passes_bumpIfAt (Leads.move ?_ fun c => (Cursor.Ahead.refl c).skipExpression.eat _)
  split
  · exact hnext
  · next name hsome =>
    refine Leads.declare hnext.bump.skipDeclarator _ (.refl _) (.after hnext.ahead ?_)
    exact (Cursor.between_identifier? hsome).trans (Cursor.Ahead.refl _).skipDeclarator

theorem leads_parameterPortList (r : Reading) :
    Leads doc r.cursor r.bump (parameterPortList doc r) := by
  have hopen := Leads.bumped doc r
  exact ((hopen.bump.whileNext _ fun s => (passes_parameterEntry s).leads).eat _).ite hopen

theorem leads_parameterDeclaration (r : Reading) :
    Leads doc r.cursor r.bump (parameterDeclaration doc r) := by
  have hnext := ((Leads.bumped doc r).move
    fun c => (Cursor.Ahead.refl c).eatText "type").follow (leads_dataType _)
  exact hnext.next (leads_declarators hnext.behind _) (.refl _)

/-! ### Type aliases -/

theorem leads_finishAlias (aliased : String) (hstart : start.Ahead r.cursor) :
    Leads doc start r (finishAlias doc aliased start.nextStart r) := by
  unfold finishAlias
  split
  · next name hname =>
    have hbetween := Cursor.Between.after hstart (Cursor.between_identifier? hname)
    refine (Leads.refl _ hstart).bump.skipToSemicolon.within_named _ (.refl _) ?_ ?_
    · exact hbetween.trans (Cursor.Ahead.refl _).skipToSemicolon
    · exact fun s => .here _ s
  · exact (Leads.refl _ hstart).skipToSemicolon

theorem leads_aliasBody {body : Cursor} (hbody : body.is .braceOpen = true) (r : Reading) :
    Leads doc r.cursor r.bump (aliasBody doc body r) := by
  rw [aliasBody_eq hbody]
  exact (leads_aggregateBody leads_dataType r).skipToSemicolon

/-- The name of an alias is among the tokens that are read of it, unless one of them misleads. -/
theorem leads_aggregateAlias (hstart : start.Ahead r.cursor)
    (hr : r.is .aggregate = true ∨ r.is .enumeration = true) :
    Leads doc start r (aggregateAlias doc start.nextStart r) := by
  unfold aggregateAlias
  dsimp only
  split
  · exact (Leads.refl _ hstart).skipToSemicolon
  · next name hname =>
    have hread (s : Reading) : Passes doc s (aliasBody doc r.cursor.bodyFrom s) :=
      (leads_aliasBody (Cursor.is_bodyFrom r.cursor hname) s).passes
    refine Leads.within (Leads.refl _ hstart) rfl (.refl _) hstart
      ((hread (r.enter _)).leads.weaken hstart) ?_
    by_cases hclear : ∀ t, r.cursor.bump.Between t r.cursor.behindBody → t.misleads = false
    · exact .inl (.after hstart (between_aliasBody (r := r.enter _) hname hclear))
    · simp only [Classical.not_forall, Bool.not_eq_false] at hclear
      obtain ⟨t, ⟨body, hbody, ht⟩, hmisleads⟩ := hclear
      obtain ⟨keyword, rest, hrest, hrole⟩ : ∃ keyword rest, r.cursor.rest = keyword :: rest ∧
          (keyword.role = .aggregate ∨ keyword.role = .enumeration) := by
        rcases hr with hr | hr
        · obtain ⟨keyword, rest, hrest, hrole⟩ := Cursor.exists_next_of_is hr
          exact ⟨keyword, rest, hrest, .inl hrole⟩
        · obtain ⟨keyword, rest, hrest, hrole⟩ := Cursor.exists_next_of_is hr
          exact ⟨keyword, rest, hrest, .inr hrole⟩
      have hreads := (Cursor.bump_eq hrest ▸ Cursor.Reads.next hrest).append hbody
      have htext : r.cursor.nextText = keyword.text := by rw [Cursor.nextText, hrest]
      refine .inr ⟨keyword, body, r.cursor, hstart, hreads, hname, hrole, ?_, ⟨t, ht, hmisleads⟩,
        (hread (r.enter _)).ahead⟩
      exact congrArg SymbolKind.typeAlias htext

theorem leads_typeAlias (r : Reading) : Leads doc r.cursor r.bump (typeAlias doc r) := by
  have htype := Leads.bumped doc r
  unfold typeAlias
  dsimp only
  split
  · next hr =>
    exact htype.next (leads_aggregateAlias htype.behind (by simpa using hr)) (.refl _)
  · split
    · have hforward := htype.skipWhile isForward
      exact hforward.next (leads_finishAlias _ hforward.behind) (.refl _)
    · have hnext := htype.follow (leads_dataType _)
      exact hnext.next (leads_finishAlias _ hnext.behind) (.refl _)

/-! ### Modports, imports and exports -/

theorem leads_modportDeclaration (r : Reading) :
    Leads doc r.cursor r.bump (modportDeclaration doc r) := by
  have hentry := leads_declared doc (fun c => (Cursor.Ahead.refl c).skipBalanced) .modport
  exact (leads_nameList hentry _ (Cursor.Ahead.refl r.cursor).bump (by simp)).skipToSemicolon

theorem leads_genvarDeclaration (r : Reading) :
    Leads doc r.cursor r.bump (genvarDeclaration doc r) :=
  leads_declarators (Cursor.Ahead.refl r.cursor).bump _

theorem leads_packageItem (transfer : Transfer) (item : String) (r : Reading) :
    Leads doc r.cursor r (packageItem transfer item r) := by
  have hr := Leads.here doc r
  unfold packageItem
  split
  · exact hr
  · next package _ =>
    have hnoted : Leads doc r.cursor r
        (if package = ['*'] then r else r.addPackage (.ofList package)) := by
      split
      · exact hr
      · exact hr.addPackage _
    cases transfer with
    | importing => exact hnoted.note (a := .importing item) trivial
    | exporting => exact hnoted.note (a := .exporting item) trivial

theorem leads_packageItems (transfer : Transfer) (bound : List OutlineToken) (r : Reading) :
    Leads doc r.cursor r (packageItems doc transfer bound r) := by
  induction bound generalizing r with
  | nil => exact .here _ _
  | cons _ bound ih =>
    have hbehind : Leads doc r.cursor r (r.move (·.skipExpression)) :=
      (Leads.here _ _).move fun c => (Cursor.Ahead.refl c).skipExpression
    rw [packageItems]
    generalize "".intercalate _ = item
    have hnext := hbehind.follow (leads_packageItem transfer item _)
    exact (hnext.bump.follow (ih _)).ite hnext.skipToSemicolon

theorem leads_exportItems (r : Reading) : Leads doc r.cursor r.bump (exportItems doc r) := by
  have hnext := Leads.bumped doc r
  exact hnext.skipToSemicolon.ite (hnext.follow (leads_packageItems _ _ _))

/-! ### Lets and net types -/

theorem leads_letDeclaration (r : Reading) :
    Leads doc r.cursor r.bump (letDeclaration doc r) := by
  have hnext := Leads.bumped doc r
  unfold letDeclaration
  dsimp only
  split
  · exact hnext.skipToSemicolon
  · next name hname =>
    refine hnext.bump.skipToSemicolon.declare _ (.refl _) (.after hnext.behind ?_)
    exact (Cursor.between_identifier? hname).trans (Cursor.Ahead.refl _).skipToSemicolon

theorem leads_nettypeDeclaration (r : Reading) :
    Leads doc r.cursor r.bump (nettypeDeclaration doc r) := by
  have hnext := Leads.bumped doc r
  unfold nettypeDeclaration
  dsimp only
  split
  · exact (hnext.skipUntil _).skipToSemicolon
  · next name hname =>
    refine (hnext.skipUntil _).skipToSemicolon.declare _ (.refl _) (.after hnext.behind ?_)
    exact (Cursor.between_lastOutside hname).trans (Cursor.Ahead.refl _).skipToSemicolon

/-! ### Routines and constructs -/

theorem leads_routine {body : Reading → Reading} (hbody : ∀ r, Leads doc r.cursor r (body r))
    (hstart : start.Ahead r.cursor) :
    Leads doc start r.bump (routine doc start.nextStart body r) := by
  have hheader := (Leads.refl doc (r := r.bump) hstart.bump).skipWhile
    (·.role == .modifier)
  have hnext := hheader.skipUntil stopsRoutineHeader
  unfold routine
  dsimp only
  split
  · exact hnext.skipToSemicolon
  · next name hname =>
    have hbetween : start.Between name _ := .after hheader.behind (Cursor.between_lastOutside hname)
    have hread (s : Reading) : Leads doc s.cursor s
        (body ((if s.is .parenOpen then s.portList doc else s).eat .semicolon)) := by
      have hs := Leads.here doc s
      have hports := hs.bump.next (leads_portList s) (.refl _)
      exact ((hports.ite hs).eat _).follow (hbody _)
    exact hnext.within_named _ (.refl _) hbetween hread

theorem leads_importItems (r : Reading) : Leads doc r.cursor r.bump (importItems doc r) := by
  have hnext := Leads.bumped doc r
  have hroutine := hnext.bump.skipWhile fun t =>
    t.role == .modifier || t.role == .identifier || t.role == .equals
  have hid (r : Reading) : Leads doc r.cursor r (id r) := .here _ r
  unfold importItems
  dsimp only
  split
  · exact (hroutine.bump.next (leads_routine hid hroutine.behind) (.refl _)).ite
      hroutine.skipToSemicolon
  · exact hnext.follow (leads_packageItems _ _ _)

theorem leads_construct (hstart : start.Ahead r.cursor) :
    Leads doc start r.bump (construct doc start.nextStart r) := by
  have hheader := (Leads.refl doc (r := r.bump) hstart.bump).skipWhile
    (·.role == .modifier)
  have hpast (end' : String) (c : Cursor) : c.Ahead (c.skipPast end').eatLabel :=
    ((Cursor.Ahead.refl c).skipPast _).eatLabel
  have hnext := (hheader.eat .identifier).move (hpast (constructEnd r.cursor.nextText))
  unfold construct
  dsimp only
  split
  · next name _ hname =>
    refine hnext.declare _ (.refl _) (.after hheader.behind ?_)
    exact (Cursor.between_eat_identifier hname).trans (hpast _ _)
  · exact hnext

theorem leads_getD (r : Reading) : Leads doc r.cursor r ((r.dataDeclaration? doc).getD r) := by
  cases h : r.dataDeclaration? doc with
  | none => exact .here _ _
  | some s => exact (passes_dataDeclaration? h).leads

theorem passes_routineItem (r : Reading) : Passes doc r (routineItem doc r) := by
  have hbump := (Leads.here doc r).bump
  have hskip : Leads doc r.cursor r (r.move (·.skipStatement)) :=
    (Leads.here _ _).move fun c => (Cursor.Ahead.refl c).skipStatement
  unfold routineItem
  refine Leads.passes_bumpIfAt ?_
  split
  · exact hbump.next (leads_portDeclaration r) (.refl _)
  · exact hbump.next (leads_parameterDeclaration r) (.refl _)
  · exact hbump.next (leads_typeAlias r) (.refl _)
  · exact hbump.next (leads_importItems r) (.refl _)
  · exact leads_getD r
  · exact leads_getD r
  · exact leads_getD r
  · exact leads_getD r
  · exact leads_getD r
  · exact (leads_getD r).ite hskip
  · exact (leads_getD r).ite hskip
  · exact hskip

theorem leads_routineBody (r : Reading) : Leads doc r.cursor r (routineBody doc r) := by
  have hnext := (Leads.here doc r).whileNext (!endsRoutineBody ·)
    fun s => (passes_routineItem s).leads
  exact hnext.bump.eatLabel.ite hnext

/-- A keyword without a role of its own is no semicolon and ends no region. -/
theorem passes_otherItem? {t : OutlineToken} {rest : List OutlineToken}
    (hrest : r.cursor.rest = t :: rest) (hrole : t.role = .otherKeyword)
    (h : r.otherItem? doc t.text = some s) : Passes doc r s := by
  have hbump := Leads.bumped doc r
  have hlead (h : (if r.bump.is .construct then
        some (r.bump.construct doc r.cursor.nextStart)
      else some (r.bump.move (·.skipToSemicolon))) = some s) : Passes doc r s := by
    split at h
    · cases h
      exact (hbump.bump.next (leads_construct hbump.behind) (.refl _)).passes
    · cases h
      exact hbump.skipToSemicolon.passes
  have hskip (h : some (r.move (·.skipToSemicolon)) = some s) : Passes doc r s := by
    cases h
    refine ⟨(Leads.here _ _).skipToSemicolon, ?_⟩
    exact Cursor.ahead_skipToSemicolon hrest (by simp [hrole])
      (by simp [OutlineToken.isRegionEnd, hrole])
  unfold otherItem? at h
  split at h
  · cases h
    exact (leads_letDeclaration r).passes
  · cases h
    exact (leads_nettypeDeclaration r).passes
  · exact hlead h
  · exact hlead h
  · exact hskip h
  · exact hskip h
  · exact hskip h
  · exact hskip h
  · exact hskip h
  · cases h

/-! ### Containers -/

theorem leads_headerPart? (h : headerPart? doc r = some s) : Leads doc r.cursor r s := by
  have hbump := (Leads.here doc r).bump
  unfold headerPart? at h
  split at h
  · cases h
    exact hbump.next (leads_importItems r) (.refl _)
  · split at h
    · cases h
      exact hbump.next (leads_parameterPortList r) (.refl _)
    · split at h
      · cases h
        exact hbump.next (leads_portList r) (.refl _)
      · cases h

theorem leads_header (doc : Document) (r : Reading) : Leads doc r.cursor r (header doc r) :=
  ((Leads.here _ _).iterate (fun _ _ => leads_headerPart?) _).eat _

section Items

variable {item : Reading → Reading} (hitem : ∀ r, Leads doc r.cursor r (item r))
include hitem

theorem leads_itemsUntil (closing : Role) (r : Reading) :
    Leads doc r.cursor r (itemsUntil item closing r) := by
  have hnext := (Leads.here doc r).whileNext (·.role != closing) hitem
  exact hnext.bump.eatLabel.ite hnext

theorem leads_container (prototype : Bool) (hstart : start.Ahead r.cursor) :
    Leads doc start r.bump (container doc item start.nextStart prototype r) := by
  have hbump := Leads.refl doc (r := r.bump) hstart.bump
  have hnext := hbump.skipWhile (·.role == .modifier)
  unfold container
  dsimp only
  split
  · exact hbump.bump.next (leads_construct hbump.behind) (.refl _)
  · split
    · exact hnext
    · next name hname =>
      have hbetween : start.Between name _ :=
        .after hnext.behind (Cursor.between_identifier? hname)
      have hread (s : Reading) : Leads doc s.cursor s
          (if prototype then s.header doc else (s.header doc).itemsUntil item .endContainer) := by
        have hheader := leads_header doc s
        exact hheader.ite (hheader.follow (leads_itemsUntil hitem _ _))
      exact hnext.bump.within_named _ (.refl _) hbetween hread

theorem leads_packageContainer (r : Reading) :
    Leads doc r.cursor r.bump (packageContainer doc item r) := by
  have hnext := (Leads.bumped doc r).skipWhile (·.role == .modifier)
  unfold packageContainer
  dsimp only
  split
  · exact hnext.skipToSemicolon
  · next name hname =>
    have hbetween : r.cursor.Between name _ :=
      .after hnext.behind (Cursor.between_identifier? hname)
    have hread (s : Reading) :
        Leads doc s.cursor s ((s.eat .semicolon).itemsUntil item .endPackage) :=
      ((Leads.here _ _).eat _).follow (leads_itemsUntil hitem _ _)
    exact hnext.bump.within_named _ (.refl _) hbetween hread

/-! ### Generate constructs -/

theorem leads_generateBlock (r : Reading) :
    Leads doc r.cursor r.bump (generateBlock doc item r) := by
  have hlabel := (Leads.bumped doc r).eatLabel
  have hitems := (Leads.refl doc hlabel.behind).whileNext (!·.isRegionEnd) hitem
  have hnext := hitems.bump.eatLabel.ite hitems
    (b := ((r.bump.move (·.eatLabel)).whileNext (!·.isRegionEnd) item).is .blockEnd)
  unfold generateBlock
  dsimp only
  split
  · exact hlabel.next hnext (.refl _)
  · next name hname =>
    refine (hlabel.next hnext (.refl _)).declare _ (.refl _) ?_
    exact .after (Cursor.Ahead.refl _).bump ((Cursor.between_label? hname).trans hnext.ahead)

theorem leads_generateBody (r : Reading) : Leads doc r.cursor r (generateBody doc item r) := by
  have hr := Leads.here doc r
  exact (hr.bump.next (leads_generateBlock hitem r) (.refl _)).ite ((hitem r).ite hr)

theorem leads_generateIf (r : Reading) : Leads doc r.cursor r.bump (generateIf doc item r) := by
  have hnext := (Leads.bumped doc r).skipBalanced.follow (leads_generateBody hitem _)
  exact (hnext.bump.follow (leads_generateBody hitem _)).ite hnext

theorem leads_generateFor (r : Reading) : Leads doc r.cursor r.bump (generateFor doc item r) :=
  (Leads.bumped _ _).skipBalanced.follow (leads_generateBody hitem _)

omit hitem in
theorem ahead_skipCaseLabels (c : Cursor) : c.Ahead (skipCaseLabels c) :=
  ((Cursor.Ahead.refl c).bump.eat _).ite (((Cursor.Ahead.refl c).skipUntil _).eat _)

theorem passes_caseItem (r : Reading) : Passes doc r (caseItem doc item r) :=
  (((Leads.here _ _).move ahead_skipCaseLabels).follow
    (leads_generateBody hitem _)).passes_bumpIfAt

theorem leads_generateCase (r : Reading) :
    Leads doc r.cursor r.bump (generateCase doc item r) :=
  ((Leads.bumped _ _).skipBalanced.whileNext _
    fun s => (passes_caseItem hitem s).leads).eat _

/-! ### Items -/

theorem passes_qualifiedItem? (h : r.qualifiedItem? doc item = some s) : Passes doc r s := by
  have hnext := (Leads.here doc r).skipWhile (·.role == .modifier)
  have hbody (prototype : Bool) (s : Reading) :
      Leads doc s.cursor s ((if prototype then id else routineBody doc) s) := by
    cases prototype
    · exact leads_routineBody s
    · exact .here _ _
  unfold qualifiedItem? at h
  dsimp only at h
  split at h
  · next hrole =>
    cases h
    have hrole := (Bool.and_eq_true_iff.1 hrole).1
    exact hnext.passes_of_leads (Cursor.rest_ne_nil_of_is hrole)
      (leads_container hitem _ hnext.behind)
  · split at h
    · next hrole =>
      cases h
      exact hnext.passes_of_leads (Cursor.rest_ne_nil_of_is hrole)
        (leads_routine (hbody _) hnext.behind)
    · split at h
      · next hrole =>
        cases h
        exact hnext.passes_of_leads (Cursor.rest_ne_nil_of_is hrole)
          (leads_construct hnext.behind)
      · exact passes_dataDeclaration? h

theorem passes_itemWith? (h : itemWith? doc item r = some s) : Passes doc r s := by
  have hbump := Leads.bumped doc r
  unfold itemWith? at h
  split at h
  · cases h
  · next t rest hrest =>
    have hskip (hsemicolon : t.role ≠ .semicolon) (hend : t.isRegionEnd = false) :
        Passes doc r (r.move (·.skipToSemicolon)) :=
      ⟨(Leads.here _ _).skipToSemicolon, Cursor.ahead_skipToSemicolon hrest hsemicolon hend⟩
    have hstatement (hend : t.isRegionEnd = false) : Passes doc r (r.move (·.skipStatement)) :=
      ⟨(Leads.here _ _).move fun c => (Cursor.Ahead.refl c).skipStatement,
        Cursor.ahead_skipStatement hrest hend⟩
    rw [← Cursor.nextStart_of_rest hrest] at h
    split at h
    · cases h
      exact (leads_container hitem _ (.refl _)).passes
    · cases h
      exact (leads_packageContainer hitem r).passes
    · cases h
      exact (leads_routine leads_routineBody (.refl _)).passes
    · cases h
      exact (leads_portDeclaration r).passes
    · cases h
      exact (leads_parameterDeclaration r).passes
    · cases h
      exact (leads_typeAlias r).passes
    · cases h
      exact (leads_modportDeclaration r).passes
    · cases h
      exact (leads_importItems r).passes
    · cases h
      exact (leads_exportItems r).passes
    · cases h
      exact (leads_genvarDeclaration r).passes
    · cases h
      exact hbump.passes
    · cases h
      exact hbump.passes
    · cases h
      exact hbump.passes
    · exact passes_dataDeclaration? h
    · exact passes_dataDeclaration? h
    · exact passes_dataDeclaration? h
    · exact passes_dataDeclaration? h
    · exact passes_qualifiedItem? hitem h
    · exact passes_identifierItem? h
    · exact passes_identifierItem? h
    · next hrole =>
      cases h
      exact hskip (by simp [hrole]) (by simp [OutlineToken.isRegionEnd, hrole])
    · next hrole =>
      cases h
      exact hskip (by simp [hrole]) (by simp [OutlineToken.isRegionEnd, hrole])
    · cases h
      exact (hbump.move fun c => (Cursor.Ahead.refl c).skipStatement).passes
    · next hrole =>
      cases h
      exact hstatement (by simp [OutlineToken.isRegionEnd, hrole])
    · cases h
      exact (leads_construct (.refl _)).passes
    · next hrole => exact passes_otherItem? hrest hrole h
    · split at h
      · cases h
        exact (leads_generateIf hitem r).passes
      · cases h
        exact (leads_generateFor hitem r).passes
      · cases h
    · cases h
      exact (leads_generateCase hitem r).passes
    · cases h
      exact (leads_generateBlock hitem r).passes
    · cases h

end Items

/-- A token that no rule takes is passed over. -/
theorem passes_skipUnexpected (r : Reading) : Passes doc r (r.skipUnexpected doc) := by
  unfold skipUnexpected
  split
  · next hrest =>
    refine ⟨.refl _ (.refl _), ?_⟩
    rw [Cursor.bump_of_rest_eq_nil hrest]
    exact .refl _
  · refine Leads.passes (Leads.relocate (s := r.bump) ?_ (.refl _) rfl rfl)
    exact .refl _ (Cursor.Ahead.refl r.cursor).bump

theorem passes_itemOrSkip {item? : Reading → Option Reading}
    (hitem : ∀ s, item? r = some s → Passes doc r s) : Passes doc r (itemOrSkip doc item? r) := by
  unfold itemOrSkip
  cases h : item? r with
  | none => exact passes_skipUnexpected r
  | some s => exact hitem s h

theorem passes_itemWithin? (bound : List OutlineToken)
    (h : itemWithin? doc bound r = some s) : Passes doc r s := by
  induction bound generalizing r s with
  | nil => cases h
  | cons _ bound ih =>
    exact passes_itemWith? (fun r => (passes_itemOrSkip fun s => ih).leads) h

/-- An item is a stretch that reads the next token, if there is one. -/
theorem passes_item (doc : Document) (r : Reading) : Passes doc r (r.item doc) :=
  passes_itemOrSkip fun _ => passes_itemWithin? _

theorem leads_run (r : Reading) : Leads doc r.cursor r (r.run doc) :=
  (Leads.here _ _).whileNext _ fun s => (passes_item doc s).leads

end Reading

end HdlIndex
