import HdlIndex.Grammar.Directive
import HdlIndex.Grammar.Structural
import HdlIndex.Proofs.Grammar.Built
import HdlIndex.Proofs.Grammar.Coverage

/-! The contract of the two grammars. Main statement: no text breaks it, so every text is cut into
tokens without a rest. The patterns are read from their sources, letter by letter, and checked for
their form; what the form means for all texts was proved of patterns in general. -/

namespace HdlIndex

namespace Grammar

/-- Whether an entry refers to known names only and is read as a pattern of the form that the
contract asks for. -/
def Entry.isTidy (names : List String) : Entry → Bool
  | .splice target => names.contains target
  | .rule source scopes action _ =>
    (action.bind (·.target?)).all (fun
      | .named name => names.contains name
      | .inPlace _ _ => false) &&
    (Pattern.ofChars? source.toList).any fun p =>
      p.groups + 1 == scopes.length && p.isTidy scopes.length

theorem Entry.resolves_of_isTidy {names : List String} {e : Entry} (h : e.isTidy names) :
    e.Resolves names := by
  cases e with
  | splice target => exact List.contains_iff_mem.1 h
  | rule source scopes action snapshot =>
    rw [isTidy, Bool.and_eq_true] at h
    obtain ⟨htargets, hpattern⟩ := h
    obtain ⟨p, hp, hgroups⟩ := (Option.any_eq_true _ _).1 hpattern
    refine ⟨fun name hname => ?_, p, hp, ?_⟩
    · exact List.contains_iff_mem.1 ((Option.all_eq_true _ _).1 htargets _ hname)
    · exact beq_iff_eq.1 (Bool.and_eq_true _ _ ▸ hgroups).1

/-- Whether all entries of contexts are tidy. -/
def areTidy (contexts : List ContextDef) : Bool :=
  contexts.all fun c => c.entries.all (Entry.isTidy (contexts.map (·.name)))

section

variable {contexts : List ContextDef} (h : areTidy contexts)
include h

theorem isTidy_of_mem {c : ContextDef} (hc : c ∈ contexts) {e : Entry} (he : e ∈ c.entries) :
    e.isTidy (contexts.map (·.name)) :=
  List.all_eq_true.1 (List.all_eq_true.1 h c hc) e he

theorem isTidy_of_written {e : Entry} (he : Written contexts e) :
    e.isTidy (contexts.map (·.name)) := by
  induction he with
  | listed hc he => exact isTidy_of_mem h hc he
  | inPlace _ htarget _ ih =>
    rw [Entry.isTidy, Option.bind_some, htarget] at ih
    cases ih

theorem resolves_of_written {e : Entry} (he : Written contexts e) :
    e.Resolves (contexts.map (·.name)) :=
  Entry.resolves_of_isTidy (isTidy_of_written h he)

/-- The rules of a grammar with tidy entries are tidy. -/
theorem isTidy_ofDefs : ∀ rule ∈ (ofDefs contexts).rules, rule.pattern.isTidy rule.scopes.length := by
  intro rule hrule
  rw [ofDefs] at hrule
  split at hrule
  · next g hg =>
    obtain ⟨c, hc, hrule⟩ := List.mem_flatMap.1 hrule
    obtain ⟨scopes, action, hwritten, hpattern, hscopes, -⟩ :=
      ((comesFrom_of_build hg).1 c hc).2 rule hrule
    have htidy := isTidy_of_written h hwritten
    rw [Pattern.compile?] at hpattern
    simp only [Entry.isTidy, hpattern, Option.any_some, Bool.and_eq_true] at htidy
    rw [hscopes, List.length_map]
    exact htidy.2.2
  · cases hrule

theorem isAnchored_ofDefs : ∀ rule ∈ (ofDefs contexts).rules, rule.pattern.IsAnchored := by
  intro rule hrule
  have htidy := isTidy_ofDefs h rule hrule
  simp only [Pattern.isTidy, Bool.and_eq_true] at htidy
  exact Pattern.isAnchored_of_isTied htidy.1.1.1

/-- The rules of a grammar with tidy entries keep the contract. -/
theorem keepsContract_ofDefs :
    ∀ rule ∈ (ofDefs contexts).rules, rule.KeepsContract ∧ rule.IsFaithful := fun rule hrule =>
  ⟨Rule.keepsContract_of_isTidy (isTidy_ofDefs h rule hrule),
    Rule.isFaithful_of_isAnchored (isAnchored_ofDefs h rule hrule)⟩

theorem tiling_tokenize_ofDefs (text : String) (scopes : Option (List String)) :
    (ofDefs contexts).scan text scopes = .ok ((ofDefs contexts).tokenize text scopes) ∧
      Tiling text ((ofDefs contexts).tokenize text scopes) :=
  tiling_tokenize (fun rule hrule => (keepsContract_ofDefs h rule hrule).1)
    (isAnchored_ofDefs h) text scopes

end

/-! ### The two grammars

Sources are put together from pieces. Their letters are those of the pieces, which keeps the texts
short that have to be taken apart. -/

theorem areTidy_directives : areTidy [Directive.top, Directive.comment] := by
  simp only [areTidy, Directive.top, Directive.comment, List.all_cons, List.all_nil,
    Entry.isTidy, plain, acting, marking]
  -- Long texts are unfolded in place: to state them as equations first takes very long.
  unfold identifierPattern numberPattern
  simp only [String.toList_append, String.reduceToList, -String.reduceAppend]
  decide +kernel

theorem areTidy_structural :
    areTidy [Structural.top, Structural.keywordRules, Structural.punctuation,
      Structural.stringBody, Structural.commentBody, Structural.attributeBody] := by
  simp only [areTidy, Structural.top, Structural.keywordRules, Structural.punctuation,
    Structural.stringBody, Structural.commentBody, Structural.attributeBody, Structural.keywords,
    Structural.opening, Structural.closing, List.all_cons, List.all_nil, Entry.isTidy, plain,
    acting]
  unfold identifierPattern numberPattern Structural.operatorPattern Structural.wordsPattern
  simp only [String.toList_append, String.toList_intercalate, List.map_cons, List.map_nil,
    String.reduceToList, -String.reduceAppend]
  decide +kernel

/-- The context whose rules are spliced in. -/
def Entry.splice? : Entry → Option String
  | .rule _ _ _ _ => none
  | .splice context => some context

/-- A grammar can be built from tidy entries if only its first context has splices. -/
theorem build_of_areTidy {contexts : List ContextDef} (h : areTidy contexts)
    (hnames : (contexts.map (·.name)).Nodup) (hmain : mainName ∈ contexts.map (·.name))
    (hsplice : ∀ c ∈ contexts, ∀ e ∈ c.entries, ∀ target ∈ e.splice?,
      c.name = mainName ∧ target ≠ mainName) :
    build contexts none = .ok (ofDefs contexts) := by
  have hacyclic : ¬∃ c, Relation.TransGen (Splices contexts) c c :=
    not_transGen_splices fun c hc target htarget => hsplice c hc _ htarget target rfl
  obtain ⟨g, hg⟩ :=
    exists_build_eq_ok none hnames hmain (fun e he => resolves_of_written h he) hacyclic
  rw [ofDefs, hg]

theorem build_directives : build [Directive.top, Directive.comment] none = .ok directives :=
  build_of_areTidy areTidy_directives (by decide) (by decide) (by decide)

theorem build_structural :
    build [Structural.top, Structural.keywordRules, Structural.punctuation,
      Structural.stringBody, Structural.commentBody, Structural.attributeBody] none =
      .ok structural :=
  build_of_areTidy areTidy_structural (by decide) (by decide) (by decide)

/-- No text breaks the contract of the grammar of directives or of that of declarations: both can be
built, their rules match something wherever they match and cover it with their groups, no scan of a
text fails, and the tokens of a scan are the text cut into pieces. -/
theorem scan_directives_and_structural :
    (build [Directive.top, Directive.comment] none = .ok directives ∧
      build [Structural.top, Structural.keywordRules, Structural.punctuation,
        Structural.stringBody, Structural.commentBody, Structural.attributeBody] none =
        .ok structural) ∧
    (∀ rule ∈ directives.rules ++ structural.rules, rule.KeepsContract ∧ rule.IsFaithful) ∧
    ∀ (text : String) (scopes : Option (List String)),
      (directives.scan text scopes = .ok (directives.tokenize text scopes) ∧
        Tiling text (directives.tokenize text scopes)) ∧
      structural.scan text scopes = .ok (structural.tokenize text scopes) ∧
        Tiling text (structural.tokenize text scopes) := by
  refine ⟨⟨build_directives, build_structural⟩, ?_, ?_⟩
  · intro rule hrule
    rcases List.mem_append.1 hrule with hrule | hrule
    · exact keepsContract_ofDefs areTidy_directives rule hrule
    · exact keepsContract_ofDefs areTidy_structural rule hrule
  · intro text scopes
    exact ⟨tiling_tokenize_ofDefs areTidy_directives text scopes,
      tiling_tokenize_ofDefs areTidy_structural text scopes⟩

end Grammar

end HdlIndex
