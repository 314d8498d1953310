import HdlIndex.Proofs.Grammar.Pieces
import HdlIndex.Proofs.Preprocess.Contributors
import HdlIndex.Proofs.Preprocess.Execution
import HdlIndex.Proofs.Preprocess.Groups

/-! The extents of tokens. Each token of a stream names, with its file, a part of a text: its own, if
it was put out as it stands, that of the definition that it was taken from, or the two ends of tokens
that were pasted. Definitions and streams outlive the file that they were read in, as they are kept
for other files, so what is shown is that all that a run holds marks parts of texts that are known.
Main statement (`Reads.sound`): a derivation keeps this, as long as no file of the run goes by the name
of the document without being the document. -/

namespace HdlIndex

/-! ### Definitions -/

namespace Item

variable {text : String}

theorem mem_of_mem_defaultTokens {depth : Nat} {tokens : List Lexeme} {t : Lexeme}
    (h : t ∈ (defaultTokens depth tokens).1) : t ∈ tokens := by
  induction tokens generalizing depth with
  | nil => exact h
  | cons u rest ih =>
    have hkeep {n : Nat} (h : t ∈ u :: (defaultTokens n rest).1) : t ∈ u :: rest :=
      (List.mem_cons.1 h).elim (fun h => h ▸ List.mem_cons_self)
        fun h => List.mem_cons_of_mem u (ih h)
    simp only [defaultTokens] at h
    split at h
    · cases h
    · split at h
      · cases h
      · cases h
      · exact hkeep h
      · exact hkeep h
      · exact hkeep h

/-- What is glued to the equals sign in front of a default starts behind the sign. -/
theorem spans_parameterDefault {sign : Lexeme} {tokens : List Lexeme} (hsign : sign.Literal text)
    (hequals : sign.text.toList.head? = some '=') (htokens : ∀ t ∈ tokens, t.Literal text) :
    ∀ b ∈ parameterDefault sign tokens, Text.Spans text b.start b.stop := by
  intro b hb
  rcases List.mem_append.1 (Expansion.mem_of_mem_trimBoth hb) with hb | hb
  · split at hb
    · obtain ⟨cs, hcs⟩ := List.head?_eq_some_iff.1 hequals
      have htext : sign.text = .ofList ('=' :: cs) := by rw [← hcs, String.ofList_toList]
      obtain ⟨hoccurs, hstop⟩ := hsign
      rw [htext] at hoccurs hstop
      have hsize : (String.ofList ('=' :: cs)).utf8ByteSize =
          '='.utf8Size + (String.ofList cs).utf8ByteSize := by
        rw [Text.utf8ByteSize_ofList, Text.utf8ByteSize_ofList, Text.byteSize]
      cases List.mem_singleton.1 hb
      have hspans : Text.Spans text (sign.start + 1) _ := hoccurs.tail.spans
      rwa [Nat.add_assoc, ← hsize, ← hstop] at hspans
    · cases hb
  · obtain ⟨t, ht, rfl⟩ := List.mem_map.1 hb
    exact (htokens t (List.mem_filter.1 ht).1).spans

theorem spans_parameters {tokens : List Lexeme} (htokens : ∀ t ∈ tokens, t.Literal text) :
    ∀ p ∈ (parameters tokens).1, ∀ b ∈ p.default.getD [], Text.Spans text b.start b.stop := by
  fun_induction parameters tokens with
  | case1 | case6 | case7 | case8 => simp
  | case2 t rest _ ih | case3 t rest _ ih | case4 t rest _ ih | case5 t rest _ ih =>
    exact ih fun u hu => htokens u (List.mem_cons_of_mem t hu)
  | case9 t rest _ sign more hsign hequals written params diagnostics behind hparams ih =>
    have hskip : ∀ u ∈ sign :: more, u.Literal text := fun u hu =>
      htokens u (List.mem_cons_of_mem t ((skipInline_suffix rest).subset (hsign ▸ hu)))
    obtain ⟨hsign, hmore⟩ := List.forall_mem_cons.1 hskip
    have hbehind := ih fun u hu => hmore u ((defaultTokens_suffix 0 more).subset hu)
    rw [hparams] at hbehind
    refine List.forall_mem_cons.2 ⟨?_, hbehind⟩
    exact spans_parameterDefault hsign hequals fun u hu => hmore u (mem_of_mem_defaultTokens hu)
  | case10 t rest _ sign more hsign _ params diagnostics behind hparams ih =>
    have hbehind := ih fun u hu =>
      htokens u (List.mem_cons_of_mem t ((skipInline_suffix rest).subset (hsign ▸ hu)))
    rw [hparams] at hbehind
    exact List.forall_mem_cons.2 ⟨by simp, hbehind⟩
  | case11 => simp
  | case12 t rest params diagnostics behind hparams _ _ _ _ _ _ _ _ ih =>
    have hbehind := ih fun u hu => htokens u (List.mem_cons_of_mem t hu)
    rwa [hparams] at hbehind

end Item

namespace Preprocess

/-- A token that an item puts out is its own, and the tokens of a definition that it makes mark parts
of a text. -/
def Effect.SpansIn (text : String) (t : Lexeme) : Effect → Prop
  | .emit u => u = t
  | .define d => ∀ b ∈ d.tokens, Text.Spans text b.start b.stop
  | _ => True

theorem spansIn_define {text : String} (t : Lexeme) {rest : List Lexeme}
    (hrest : ∀ u ∈ rest, u.Literal text) : Effect.SpansIn text t (Item.define t rest).effect := by
  have hskip : ∀ u ∈ Item.skipInline rest, u.Literal text := fun u hu =>
    hrest u ((Item.skipInline_suffix rest).subset hu)
  unfold Item.define
  split
  · trivial
  · next name behind hname =>
    rw [hname] at hskip
    have hbehind : ∀ u ∈ behind, u.Literal text := (List.forall_mem_cons.1 hskip).2
    split
    · trivial
    · split
      next params diagnostics tail hparts =>
      have hall : (∀ p ∈ params.getD [], ∀ b ∈ p.default.getD [], Text.Spans text b.start b.stop) ∧
          ∀ u ∈ tail, u.Literal text := by
        split at hparts
        · next bracket more =>
          have hmore : ∀ u ∈ more, u.Literal text := (List.forall_mem_cons.1 hbehind).2
          split at hparts
          · cases hparts
            exact ⟨Item.spans_parameters hmore,
              fun u hu => hmore u ((Item.parameters_suffix more).subset hu)⟩
          · cases hparts
            exact ⟨by simp, hbehind⟩
        · cases hparts
          exact ⟨by simp, hbehind⟩
      obtain ⟨hparams, htail⟩ := hall
      refine List.forall_mem_append.2 ⟨fun b hb => ?_, List.forall_mem_flatMap.2 hparams⟩
      obtain ⟨u, hu, rfl⟩ := List.mem_map.1 (Expansion.mem_of_mem_trimBoth hb)
      exact (htail u ((List.takeWhile_prefix _).subset (List.mem_filter.1 hu).1)).spans

theorem spansIn_read {text : String} (env : Expansion.Env) (conditions : List Bool) (t : Lexeme)
    {rest : List Lexeme} (hrest : ∀ u ∈ rest, u.Literal text) :
    Effect.SpansIn text t (Item.read env conditions t rest).effect := by
  rcases Item.effect_read env conditions t rest with h | h | h | h
  · rw [h]
    rfl
  · rw [h]
    exact spansIn_define t hrest
  · rw [h]
    trivial
  · generalize (Item.read env conditions t rest).effect = effect at h
    cases effect with
    | define | emit => exact h.elim
    | _ => trivial

/-! ### Places in texts -/

/-- Two offsets mark a part of the text of a file. -/
def PlacedIn (texts : String → Option String) (file : String) (start stop : Nat) : Prop :=
  ∃ source, texts file = some source ∧ Text.Spans source start stop

/-- A token marks a part of the text of its file. -/
def Stands (texts : String → Option String) (t : Lexeme) : Prop :=
  PlacedIn texts t.file t.start t.stop

theorem isPlacing_stands (texts : String → Option String) : Expansion.IsPlacing (Stands texts) where
  withText h _ _ := h
  paste {a b} ha hb := by
    obtain ⟨source, hsource, hspans⟩ := ha
    refine ⟨source, hsource, ?_⟩
    simp only [Expansion.paste]
    split
    · next h =>
      obtain ⟨source', hsource', hspans'⟩ := hb
      rw [h.1, hsource] at hsource'
      cases hsource'
      exact hspans.join hspans' h.2
    · exact hspans

end Preprocess

open Preprocess (PlacedIn)

/-- A stream whose tokens mark parts of the texts of the files they come from. -/
def TokenStream.PlacedIn (texts : String → Option String) (s : TokenStream) : Prop :=
  ∃ groups, s.Grouped groups ∧
    ∀ g ∈ groups, ∀ t ∈ g.tokens, Preprocess.PlacedIn texts g.file t.start t.stop

theorem TokenStream.PlacedIn.exists_source {texts : String → Option String} {s : TokenStream}
    (h : s.PlacedIn texts) {index : Nat} {token : PostToken}
    (htoken : s.tokens[index]? = some token) :
    ∃ origin source, s.originOf? index = some origin ∧ texts origin = some source ∧
      Text.Spans source token.start token.stop := by
  obtain ⟨groups, hgrouped, hplaced⟩ := h
  obtain ⟨front, g, behind, offset, rfl, -, hoffset, -, horigin⟩ := hgrouped.exists_group htoken
  obtain ⟨source, hsource, hspans⟩ := hplaced g (by simp) token (List.mem_of_getElem? hoffset)
  exact ⟨g.file, source, horigin, hsource, hspans⟩

namespace Emitter

variable {texts : String → Option String} {e : Emitter}

theorem placedIn_push (h : e.stream.PlacedIn texts) {file : String} {token : PostToken}
    (htoken : PlacedIn texts file token.start token.stop) :
    (e.push file token).stream.PlacedIn texts := by
  obtain ⟨groups, hgrouped, hplaced⟩ := h
  rcases grouped_push hgrouped file token with ⟨front, g, rfl, -, rfl, hpushed⟩ | hpushed
  · obtain ⟨hfront, hlast⟩ := List.forall_mem_append.1 hplaced
    refine ⟨_, hpushed, List.forall_mem_append.2 ⟨hfront, List.forall_mem_singleton.2 ?_⟩⟩
    exact List.forall_mem_append.2
      ⟨List.forall_mem_singleton.1 hlast, List.forall_mem_singleton.2 htoken⟩
  · refine ⟨_, hpushed, List.forall_mem_append.2 ⟨hplaced, List.forall_mem_singleton.2 ?_⟩⟩
    exact List.forall_mem_singleton.2 htoken

theorem placedIn_append (h : e.stream.PlacedIn texts) {s : TokenStream} (hs : s.PlacedIn texts) :
    (e.append s).stream.PlacedIn texts := by
  obtain ⟨groups, hgrouped, hplaced⟩ := h
  obtain ⟨more, hmore, hplaced'⟩ := hs
  exact ⟨_, grouped_append hgrouped hmore, List.forall_mem_append.2 ⟨hplaced, hplaced'⟩⟩

end Emitter

namespace Preprocess

open Expansion (DefinedOver)

theorem placedIn_emitExpansion {texts : String → Option String} {out : Emitter}
    (h : out.stream.PlacedIn texts) {tokens : List Lexeme}
    (htokens : Expansion.Over (Stands texts) tokens) :
    (emitExpansion out tokens).stream.PlacedIn texts := by
  have hpushed := List.foldlRecOn (motive := fun out : Emitter => out.stream.PlacedIn texts) tokens
    (fun out t => out.push t.file ⟨t.text, t.start, t.stop⟩) (b := out.split) h
    fun out hout t ht => Emitter.placedIn_push hout (htokens t ht)
  exact hpushed

/-! ### What is kept of files -/

section Sound

variable (texts : String → Option String)

/-- Tokens, edits and texts that stand in known texts. -/
structure Sound (stream : TokenStream) (log : MacroLog) (sources : Sources) : Prop where
  stream : stream.PlacedIn texts
  log : ∀ d, .add d ∈ log → DefinedOver (Stands texts) d
  sources : ∀ f source, sources.get? f = some source → texts f = some source

/-- All that is kept of a file stands in known texts. -/
abbrev SoundFile (file : IncludedFile) : Prop := Sound texts file.stream file.log file.sources

/-- All that a file has put out, defined and included so far stands in known texts. -/
abbrev SoundState (st : FileState) : Prop := Sound texts st.out.stream st.log st.sources

/-- All that a run keeps stands in known texts. -/
structure SoundRun (run : RunState) : Prop where
  macros : ∀ d ∈ run.macros.entries, DefinedOver (Stands texts) d
  sources : ∀ f source, run.sources.get? f = some source → texts f = some source
  files : run.Keeps (SoundFile texts)

variable {texts} {st : FileState} {run other : RunState} {file : IncludedFile}

theorem SoundRun.of_holdsSame (h : SoundRun texts run) (hother : other.HoldsSame run) :
    SoundRun texts other :=
  ⟨hother.macros ▸ h.macros, hother.sources ▸ h.sources, h.files.of_get? hother.files⟩

theorem SoundRun.noting (h : SoundRun texts run) (diagnostics : List Diagnostic) :
    SoundRun texts (run.noting diagnostics) := h.of_holdsSame ⟨fun _ => rfl, rfl, rfl⟩

theorem SoundRun.enter (h : SoundRun texts run) {name text : String}
    (htext : texts name = some text) : SoundRun texts (run.enter name text) where
  macros := by rw [macros_enter]; exact h.macros
  files := h.files.of_get? fun path => by rw [cache_enter]
  sources f source hsource := by
    rw [sources_enter, Sources.get?_insert] at hsource
    split at hsource
    · next hf => rw [hf, htext, hsource]
    · exact h.sources f source hsource

theorem SoundRun.adopt (h : SoundRun texts run) (hfile : SoundFile texts file) :
    SoundRun texts (run.adopt file) where
  macros d hd := (MacroTable.mem_replay hd).elim (h.macros d) (hfile.log d)
  files := h.files
  sources f source hsource := by
    rw [RunState.adopt, Sources.get?_merge, Option.or_eq_some_iff] at hsource
    rcases hsource with hsource | ⟨-, hsource⟩
    · exact h.sources f source hsource
    · exact hfile.sources f source hsource

theorem SoundRun.store (h : SoundRun texts run) (path : Path) (hfile : SoundFile texts file) :
    SoundRun texts (run.store path file) where
  macros := h.macros
  sources := h.sources
  files := h.files.store path hfile

/-- Nothing is put out, defined or included yet. -/
theorem sound_empty : SoundState texts {} :=
  ⟨⟨[], .empty, by simp⟩, by simp, fun _ _ h => by cases h⟩

theorem Sound.splice (h : SoundState texts st) (path : Path) (hfile : SoundFile texts file) :
    SoundState texts (st.splice path file) where
  stream := Emitter.placedIn_append h.stream hfile.stream
  log d hd := (List.mem_append.1 hd).elim (h.log d) (hfile.log d)
  sources f source hsource := by
    rw [FileState.splice, Sources.get?_merge, Option.or_eq_some_iff] at hsource
    rcases hsource with hsource | ⟨-, hsource⟩
    · exact h.sources f source hsource
    · exact hfile.sources f source hsource

theorem Sound.contents (h : SoundState texts st) {name text : String}
    (htext : texts name = some text) : SoundFile texts (st.contents name text) where
  stream := h.stream
  log := h.log
  sources f source hsource := by
    rw [FileState.contents, Sources.get?_insert] at hsource
    split at hsource
    · next hf => rw [hf, htext, hsource]
    · exact h.sources f source hsource

/-- An item that includes no file keeps to the text of its file and to those of definitions. -/
theorem Sound.applyEffect {env : Env} {site : Site} (htext : texts site.file = some site.text)
    (hst : SoundState texts st) (hrun : SoundRun texts run) {t : Lexeme} {rest : List Lexeme}
    (htokens : t :: rest <:+ site.tokens) {effect : Effect}
    (heffect : (Item.read (run.expansionEnv env.options.limits) st.conditions t rest).effect = effect)
    (hplain : ∀ spec offset, effect ≠ .inclusion spec offset) :
    SoundState texts
        (Preprocess.applyEffect env none site.chain site.file site.text st run effect).1 ∧
      SoundRun texts
        (Preprocess.applyEffect env none site.chain site.file site.text st run effect).2 := by
  have hliteral : ∀ u ∈ t :: rest, u.Literal site.text := fun u hu =>
    Lexeme.literal_of_mem_lex (htokens.subset hu)
  have hfile : ∀ u ∈ t :: rest, u.file = site.file := fun u hu =>
    file_of_mem_lex (htokens.subset hu)
  have hstands : ∀ u ∈ t :: rest, Stands texts u := fun u hu =>
    ⟨site.text, hfile u hu ▸ htext, (hliteral u hu).spans⟩
  have hread := standsAt_read (run.expansionEnv env.options.limits) t rest st.conditions
  have hspans := spansIn_read (run.expansionEnv env.options.limits) st.conditions t
    (List.forall_mem_cons.1 hliteral).2
  rw [heffect] at hread hspans
  cases effect with
  | nothing | conditions => exact ⟨hst, hrun⟩
  | emit u =>
    cases hspans
    have hu : PlacedIn texts site.file t.start t.stop :=
      ⟨site.text, htext, (hliteral t List.mem_cons_self).spans⟩
    exact ⟨⟨Emitter.placedIn_push hst.stream hu, hst.log, hst.sources⟩, hrun⟩
  | expansion tokens =>
    obtain ⟨hcall, hrest⟩ := List.forall_mem_cons.1 hstands
    have hmacros : ∀ d ∈ (run.expansionEnv env.options.limits).macros.entries,
        DefinedOver (Stands texts) d := hrun.macros
    have hover := Expansion.over_expandInvocation (isPlacing_stands texts) hmacros hcall hrest
    rw [← show tokens = _ from hread] at hover
    exact ⟨⟨placedIn_emitExpansion hst.stream hover, hst.log, hst.sources⟩, hrun⟩
  | define d =>
    have hd : DefinedOver (Stands texts) d := by
      intro f hf b hb
      rw [hread, hfile t List.mem_cons_self] at hf
      cases hf
      exact ⟨site.text, htext, hspans b hb⟩
    refine ⟨⟨hst.stream, fun d' hd' => ?_, hst.sources⟩, fun d' hd' => ?_, hrun.sources, hrun.files⟩
    · rcases List.mem_append.1 hd' with hd' | hd'
      · rcases List.mem_append.1 hd' with hd' | hd'
        · exact hst.log d' hd'
        · split at hd' <;> simp at hd'
      · cases List.mem_singleton.1 hd'
        exact hd
    · rcases List.mem_append.1 hd' with hd' | hd'
      · exact hrun.macros d' (List.mem_filter.1 hd').1
      · cases List.mem_singleton.1 hd'
        exact hd
  | undef name =>
    exact ⟨⟨hst.stream, fun d hd => hst.log d (mem_log_of_delete (by simp) hd), hst.sources⟩,
      fun d hd => hrun.macros d (List.mem_filter.1 hd).1, hrun.sources, hrun.files⟩
  | undefineAll =>
    exact ⟨⟨hst.stream, fun d hd => hst.log d (mem_log_of_delete (by simp) hd), hst.sources⟩,
      by simp [Preprocess.applyEffect, MacroTable.empty], hrun.sources, hrun.files⟩
  | inclusion spec offset => exact absurd rfl (hplain spec offset)

end Sound

/-! ### Runs -/

/-- The text that a run has of a file: that of the document, or what can be read. -/
def textOf (env : Env) (file text name : String) : Option String :=
  if name = file then some text else (env.provider.read ⟨name⟩).toOption

/-- A path is named like the document only if it is the path of the document. -/
def NamedApart (file : String) (path : Path) : Prop :=
  path.text = file → (Path.normalize ⟨file⟩).same path

/-- A file that is read in the run of a document: its text is known, and the document is in progress. -/
def Site.Of (env : Env) (file text : String) (site : Site) : Prop :=
  textOf env file text site.file = some site.text ∧ Path.normalize ⟨file⟩ ∈ site.chain

section Runs

variable {env : Env} {file text : String} {site : Site}

theorem of_documentSite : (documentSite env file text).Of env file text :=
  ⟨if_pos rfl, List.mem_singleton.2 rfl⟩

/-- A file that is processed is not named like the document, for that would be a cycle. -/
theorem Site.Of.inside (h : site.Of env file text) {path : Path} (hpath : NamedApart file path)
    {found : RunState} {source : String} (hsource : unread env site.chain path found = some source)
    (depth : Nat) : (site.inside depth path source).Of env file text := by
  obtain ⟨hchain, -, hread, -⟩ := unread_eq_some env hsource
  have hname : path.text ≠ file := fun heq =>
    hchain (List.any_eq_true.2 ⟨_, h.2, hpath heq⟩)
  refine ⟨?_, List.mem_cons_of_mem path h.2⟩
  rw [Site.file_inside, Site.text_inside, textOf, if_neg hname, hread]
  rfl

/-- A listing that does not show the document under another spelling of its path. -/
theorem resolvesTo_namedApart
    (h : ∀ suffix, ⟨file⟩ ∈ env.provider.endingIn suffix → (Path.normalize ⟨file⟩).same ⟨file⟩) :
    env.ResolvesTo fun _ => NamedApart file := by
  intro spec including path hpath hname
  unfold resolve at hpath
  split at hpath
  · next found _ =>
    cases hpath
    have hfile : (⟨file⟩ : Path) = found.normalize := by rw [← hname]
    rw [hfile, Path.normalize_normalize]
    exact Path.same_refl _
  · split at hpath
    · cases hpath
    · have hfile : (⟨file⟩ : Path) = path := by rw [← hname]
      exact hfile ▸ h _ (hfile ▸ List.mem_of_mem_head? hpath)

theorem soundRun_startState (env : Env) (texts : String → Option String) :
    SoundRun texts (startState env .empty) where
  macros d hd f hf := (originIn_ofDefines (fun _ => False) _ d hd f hf).elim
  sources _ _ h := by cases h
  files _ _ h := by cases h

theorem Reads.sound (henv : env.ResolvesTo fun _ => NamedApart file) {st last : FileState}
    {run final : RunState} {tokens invoked : List Lexeme}
    (h : Reads env site st run tokens last final invoked) (hsite : site.Of env file text)
    (hpaths : run.cache.ResolvesTo fun _ => NamedApart file)
    (hst : SoundState (textOf env file text) st)
    (hrun : SoundRun (textOf env file text) run) :
    SoundState (textOf env file text) last ∧ SoundRun (textOf env file text) final := by
  induction h with
  | finish site st run =>
    exact ⟨hst, hrun.of_holdsSame (run.holdsSame_close site.file st.conditions)⟩
  | @plain site st next last run after final t rest invoked htokens item hitem hplain happly _ ih =>
    have hnoted := hrun.noting item.diagnostics
    obtain ⟨hnext, hafter⟩ := hst.applyEffect hsite.1 hnoted htokens (congrArg Item.effect hitem) hplain
    obtain ⟨-, -, hcache, -⟩ := frame_applyEffect env none site.chain site.file site.text st
      (run.noting item.diagnostics) hplain
    rw [happly] at hnext hafter hcache
    exact ih hsite (by rw [hcache]; exact hpaths) hnext hafter
  | @refused site st last run after final t rest invoked item _ spec offset _ problem hrefused _ ih =>
    have hnoted := hrun.noting item.diagnostics
    have hafter := hrefused.resolvesTo henv hpaths
    exact ih hsite hafter hst ((hnoted.of_holdsSame hrefused.frame).noting _)
  | @cached site st last run found final t rest invoked item _ spec offset _ depth _ path hlocated _
      cached hcached _ ih =>
    have hnoted := hrun.noting item.diagnostics
    have hfound := hnoted.of_holdsSame (locate_frame hlocated)
    have hfile := hfound.files path cached hcached
    exact ih hsite (resolvesTo_locate henv hlocated hpaths).1 (hst.splice path hfile)
      (hfound.adopt hfile)
  | @processed site st inner last run found left final t rest within invoked item _ spec offset _
      depth _ path hlocated source hsource hinner _ ihinner ih =>
    have hnoted := hrun.noting item.diagnostics
    obtain ⟨hfound, hpath⟩ := resolvesTo_locate henv hlocated hpaths
    have hinside := hsite.inside (hpath path rfl) hsource depth
    have hreading : SoundRun (textOf env file text) (found.reading path) :=
      (hnoted.of_holdsSame (locate_frame hlocated)).of_holdsSame ⟨fun _ => rfl, rfl, rfl⟩
    have hread : (found.reading path).cache.ResolvesTo fun _ => NamedApart file := hfound
    have hpaths' := resolvesTo_enter hread path.text source
    obtain ⟨hstate, hleft⟩ := ihinner hinside hpaths' sound_empty (hreading.enter hinside.1)
    have hfile : SoundFile (textOf env file text) (inner.contents path.text source) :=
      hstate.contents hinside.1
    exact ih hsite (hinner.resolvesTo henv hpaths') (hst.splice path hfile) (hleft.store path hfile)

end Runs

end Preprocess

end HdlIndex
