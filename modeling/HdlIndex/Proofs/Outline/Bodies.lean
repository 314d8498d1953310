import HdlIndex.Proofs.Outline.Rules
import HdlIndex.Proofs.Outline.Stretch

/-! Data types and bodies are stretches. The members of a body are declared in the scope of the body,
and a body is read from its keyword on. -/

namespace HdlIndex

namespace Cursor

variable {c d : Cursor} {t : OutlineToken}

theorem exists_next_of_is {role : Role} (h : c.is role = true) :
    ∃ t rest, c.rest = t :: rest ∧ t.role = role := by
  cases hc : c.rest with
  | nil => simp [is, nextIs, hc] at h
  | cons t rest => exact ⟨t, rest, rfl, by simpa [is, nextIs, hc] using h⟩

theorem rest_ne_nil_of_is {role : Role} (h : c.is role = true) : c.rest ≠ [] := by
  obtain ⟨t, rest, hc, -⟩ := exists_next_of_is h
  simp [hc]

theorem exists_identifier? (h : c.is .identifier = true) : ∃ t, c.identifier? = some t := by
  obtain ⟨t, rest, hc, hrole⟩ := exists_next_of_is h
  exact ⟨t, by simp [identifier?, hc, hrole]⟩

theorem between_eat_identifier (h : c.identifier? = some t) : c.Between t (c.eat .identifier) := by
  rw [eat, if_pos (is_of_identifier? h)]
  exact between_identifier? h

/-- A token that starts where the next one does. -/
theorem nextStart_of_rest {rest : List OutlineToken} (h : c.rest = t :: rest) :
    c.nextStart = t.start := by
  rw [nextStart, h]

end Cursor

namespace Reading

variable {doc : Document} {front start : Cursor} {r s next : Reading}

/-- Whether a stretch leads from one reading to another and reads the next token. -/
structure Passes (doc : Document) (r s : Reading) : Prop where
  leads : Leads doc r.cursor r s
  ahead : r.cursor.bump.Ahead s.cursor

/-- A rule that goes on behind the next token reads it. -/
theorem Leads.passes (h : Leads doc r.cursor r.bump s) : Passes doc r s where
  leads := (Leads.here _ _).bump.next h (.refl _)
  ahead := h.ahead

/-- A rule that goes on behind a token further ahead reads the next one. -/
theorem Leads.passes_of_leads (h : Leads doc r.cursor r next) (hnext : next.cursor.rest ≠ [])
    (h' : Leads doc r.cursor next.bump s) : Passes doc r s where
  leads := h.bump.next h' (.refl _)
  ahead := by
    refine (h.bump.ahead.trans h'.ahead).behind_next ?_
    exact Nat.lt_of_lt_of_le (h'.ahead.left_lt hnext) h.ahead.left_le

theorem Leads.passes_bumpIfAt (h : Leads doc r.cursor r s) :
    Passes doc r (s.bumpIfAt r.cursor) := ⟨h.bumpIfAt _, ahead_bumpIfAt h.ahead⟩

/-! ### Names with commas between them -/

section NameList

variable {entry : OutlineToken → Nat → Reading → Reading}
  (hentry : ∀ (start : Cursor) (name : OutlineToken) (s : Reading),
    start.Between name s.cursor → Leads doc start s (entry name start.nextStart s))
include hentry

/-- The first name is read. The first declaration starts at `start`, or else at the name. -/
theorem leads_nameList_cons {bound : List OutlineToken}
    (htail : ∀ s : Reading, Leads doc s.cursor s (nameList entry bound none s))
    {first : Option Nat} (hstart : start.Ahead r.cursor) (hfirst : ∀ n ∈ first, n = start.nextStart)
    (hr : r.is .identifier = true) (t : OutlineToken) :
    Leads doc start r.bump (nameList entry (t :: bound) first r) := by
  obtain ⟨name, hname⟩ := Cursor.exists_identifier? hr
  have hbetween : r.cursor.Between name r.bump.cursor := Cursor.between_identifier? hname
  have hbehind : Leads doc start r.bump (entry name (first.getD name.start) r.bump) := by
    refine (Leads.refl _ (hstart.trans hbetween.ahead)).next ?_ (.refl start)
    cases first with
    | none =>
      obtain ⟨rest, hrest⟩ := Cursor.rest_of_identifier? hname
      rw [Option.getD_none, ← Cursor.nextStart_of_rest hrest]
      have hentered := hentry r.cursor name r.bump hbetween
      exact (Leads.refl _ (hstart.trans hbetween.ahead)).next hentered hstart
    | some n =>
      rw [Option.getD_some, hfirst n rfl]
      exact hentry start name r.bump (.after hstart hbetween)
  rw [nameList, hname]
  dsimp only
  split
  · exact hbehind.bump.follow (htail _)
  · exact hbehind

theorem leads_nameList (bound : List OutlineToken) {first : Option Nat}
    (hstart : start.Ahead r.cursor) (hfirst : ∀ n ∈ first, n = start.nextStart) :
    Leads doc start r (nameList entry bound first r) := by
  induction bound generalizing first start r with
  | nil => exact .refl _ hstart
  | cons t bound ih =>
    by_cases hr : r.is .identifier = true
    · have htail (s : Reading) : Leads doc s.cursor s (nameList entry bound none s) :=
        ih (.refl _) (by simp)
      exact (Leads.refl _ hstart).bump.next
        (leads_nameList_cons hentry htail hstart hfirst hr t) (.refl _)
    · have hnone : r.cursor.identifier? = none := by
        rcases hname : r.cursor.identifier? with _ | name
        · rfl
        · exact absurd (Cursor.is_of_identifier? hname) hr
      rw [nameList, hnone]
      exact .refl _ hstart

end NameList

/-! ### Data types -/

/-- A name and what follows it is declared as a whole. -/
theorem leads_declared (doc : Document) {f : Cursor → Cursor} (hf : ∀ c : Cursor, c.Ahead (f c))
    (kind : SymbolKind) (start : Cursor) (name : OutlineToken) (s : Reading)
    (h : start.Between name s.cursor) :
    Leads doc start s ((s.move f).declare doc name kind start.nextStart) :=
  ((Leads.refl _ h.ahead).move hf).declare kind (.refl _) (h.trans (hf s.cursor))

theorem ahead_skipDeclarator (c : Cursor) : c.Ahead c.skipDeclarator :=
  (Cursor.Ahead.refl c).skipDeclarator

theorem leads_declarators (hstart : start.Ahead r.cursor) (kind : SymbolKind) :
    Leads doc start r (declarators doc start.nextStart kind r) := by
  refine Leads.skipToSemicolon ?_
  refine leads_nameList (leads_declared doc ahead_skipDeclarator kind) _ hstart ?_
  simp

theorem leads_declarators_bump (hstart : start.Ahead r.cursor) (hr : r.is .identifier = true)
    (kind : SymbolKind) : Leads doc start r.bump (declarators doc start.nextStart kind r) := by
  obtain ⟨t, rest, hrest, -⟩ := Cursor.exists_next_of_is hr
  have hentry := leads_declared doc ahead_skipDeclarator kind
  unfold declarators
  rw [hrest]
  refine Leads.skipToSemicolon ?_
  refine leads_nameList_cons hentry (fun s => ?_) hstart (by simp) hr t
  exact leads_nameList hentry _ (.refl _) (by simp)

theorem leads_enumMembers (r : Reading) : Leads doc r.cursor r (enumMembers doc r) := by
  refine Leads.skipUntil ?_ _
  exact leads_nameList (leads_declared doc ahead_skipDeclarator .enumMember) _ (.refl _) (by simp)

section Bodies

variable {dataType : Reading → String × Reading}
  (hd : ∀ r : Reading, Leads doc r.cursor r (dataType r).2)
include hd

theorem passes_fieldDeclaration (r : Reading) :
    Passes doc r (fieldDeclaration doc dataType r) := by
  have hnext := ((Leads.here doc r).skipWhile (·.role == .modifier)).follow
    (hd _)
  unfold fieldDeclaration
  refine Leads.passes_bumpIfAt ?_
  split
  · exact hnext.next (leads_declarators hnext.behind _) (.refl _)
  · exact hnext.skipToSemicolon

theorem leads_aggregateBody (r : Reading) :
    Leads doc r.cursor r.bump (aggregateBody doc dataType r) := by
  have hinside := (Leads.bumped doc r).skipUntil
    (s := r.bump) (fun t => t.role == .braceOpen || t.role == .semicolon || t.isRegionEnd)
  unfold aggregateBody
  dsimp only
  split
  · refine Leads.eat ?_ _
    split
    · exact hinside.bump.follow (leads_enumMembers _)
    · exact hinside.bump.whileNext _ fun s => (passes_fieldDeclaration hd s).leads
  · exact hinside

theorem leads_anonymousAggregate (r : Reading) :
    Leads doc r.cursor r (anonymousAggregate doc dataType r).2 := by
  cases hrest : r.cursor.rest with
  | nil =>
    rw [anonymousAggregate, hrest]
    exact .here _ _
  | cons keyword rest =>
    rw [anonymousAggregate_eq doc dataType hrest, ← Cursor.nextStart_of_rest hrest]
    have hbody (s : Reading) (hs : s.cursor = r.cursor) :
        Leads doc r.cursor s (aggregateBody doc dataType s) ∧
          r.cursor.bump.Ahead (aggregateBody doc dataType s).cursor := by
      have hpasses := (leads_aggregateBody hd s).passes
      exact hs ▸ ⟨hpasses.leads, hpasses.ahead⟩
    have hcounted := (Leads.here doc r).note (a := .countAnonymous) trivial
    refine hcounted.within rfl (.refl _) (.refl _) ?_ (.inl ?_)
    · exact (hbody _ (by rfl)).1
    · exact (Cursor.Between.next hrest).trans (hbody _ (by rfl)).2

end Bodies

theorem leads_dataTypeWithin (bound : List OutlineToken) (r : Reading) :
    Leads doc r.cursor r (dataTypeWithin doc bound r).2 := by
  induction bound generalizing r with
  | nil => exact .here _ _
  | cons _ bound ih =>
    have hlead : Leads doc r.cursor r (r.move (·.skipTypeLead)) :=
      (Leads.here _ _).move fun c => (Cursor.Ahead.refl c).skipTypeLead
    rw [dataTypeWithin]
    dsimp only
    split
    · exact (hlead.follow (leads_anonymousAggregate ih _)).move fun c =>
        (Cursor.Ahead.refl c).skipPackedDimensions
    · exact hlead.move fun c => (Cursor.Ahead.refl c).skipTypeName.skipPackedDimensions

theorem leads_dataType (r : Reading) : Leads doc r.cursor r (dataType doc r).2 :=
  leads_dataTypeWithin _ r

end Reading

end HdlIndex
