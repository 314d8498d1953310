import HdlIndex.Proofs.Preprocess.Spans

/-! Tokens that stand in the texts of their files. As long as no invocation is expanded, what is put
out are the tokens of files as they were read, and since a new run starts behind each file that is
included, those of one run stand one behind another in one text. Main statement: each token of a
document marks a part of a text among the sources, and without expansions it is that part, with the
tokens of one run in the order of the text. -/

namespace HdlIndex

open Preprocess

namespace TokenStream

/-- The tokens of a group stand in the text of their file as they are, one behind another. -/
structure Group.ReadOff (texts : String → Option String) (g : Group) : Prop where
  literal : ∀ t ∈ g.tokens, ∃ source, texts g.file = some source ∧
    Text.slice source t.start t.stop = t.text
  ordered : g.tokens.Pairwise fun t u => t.stop ≤ u.start

def ReadOff (texts : String → Option String) (s : TokenStream) : Prop :=
  ∃ groups, s.Grouped groups ∧ ∀ g ∈ groups, g.ReadOff texts

end TokenStream

namespace Emitter

open TokenStream

variable {texts : String → Option String} {e : Emitter} {tokens : List Lexeme}

/-- What has been written is read off, and a group that may be continued stands in front of the tokens
that are left. -/
def ReadOff (texts : String → Option String) (tokens : List Lexeme) (e : Emitter) : Prop :=
  ∃ groups, e.stream.Grouped groups ∧ (∀ g ∈ groups, g.ReadOff texts) ∧
    (e.splitNext = false → ∀ g ∈ groups.getLast?, ∀ t ∈ g.tokens, ∀ u ∈ tokens, t.stop ≤ u.start)

theorem ReadOff.stream (h : e.ReadOff texts tokens) : e.stream.ReadOff texts := by
  obtain ⟨groups, hgrouped, hread, -⟩ := h
  exact ⟨groups, hgrouped, hread⟩

theorem ReadOff.mono {rest : List Lexeme} (h : e.ReadOff texts tokens) (hrest : rest ⊆ tokens) :
    e.ReadOff texts rest := by
  obtain ⟨groups, hgrouped, hread, hlast⟩ := h
  exact ⟨groups, hgrouped, hread, fun hsplit g hg t ht u hu => hlast hsplit g hg t ht u (hrest hu)⟩

theorem readOff_empty : ({} : Emitter).ReadOff texts tokens :=
  ⟨[], .empty, by simp, by simp⟩

theorem ReadOff.push {t : Lexeme} {rest : List Lexeme} {file source : String}
    (h : e.ReadOff texts (t :: rest)) (hfile : texts file = some source) (ht : t.Literal source)
    (hrest : ∀ u ∈ rest, t.stop ≤ u.start) :
    (e.push file ⟨t.text, t.start, t.stop⟩).ReadOff texts rest := by
  obtain ⟨groups, hgrouped, hread, hlast⟩ := h
  have hliteral : ∃ source, texts file = some source ∧ Text.slice source t.start t.stop = t.text :=
    ⟨source, hfile, ht.slice_eq⟩
  rcases grouped_push hgrouped file ⟨t.text, t.start, t.stop⟩ with
    ⟨front, g, rfl, hsplit, rfl, hpushed⟩ | hpushed
  · obtain ⟨hfront, hg⟩ := List.forall_mem_append.1 hread
    have hg := List.forall_mem_singleton.1 hg
    have hbefore := hlast hsplit g (by simp)
    refine ⟨_, hpushed, List.forall_mem_append.2 ⟨hfront, List.forall_mem_singleton.2 ⟨?_, ?_⟩⟩, ?_⟩
    · exact List.forall_mem_append.2 ⟨hg.literal, List.forall_mem_singleton.2 hliteral⟩
    · refine List.pairwise_append.2 ⟨hg.ordered, List.pairwise_singleton _ _, fun u hu v hv => ?_⟩
      cases List.mem_singleton.1 hv
      exact hbefore u hu t List.mem_cons_self
    · intro _ g' hg' u hu v hv
      rw [List.getLast?_concat, Option.mem_some_iff] at hg'
      subst hg'
      rcases List.mem_append.1 hu with hu | hu
      · exact hbefore u hu v (List.mem_cons_of_mem t hv)
      · cases List.mem_singleton.1 hu
        exact hrest v hv
  · refine ⟨_, hpushed, List.forall_mem_append.2 ⟨hread, List.forall_mem_singleton.2 ⟨?_, ?_⟩⟩, ?_⟩
    · exact List.forall_mem_singleton.2 hliteral
    · exact List.pairwise_singleton _ _
    · intro _ g' hg' u hu v hv
      rw [List.getLast?_concat, Option.mem_some_iff] at hg'
      subst hg'
      cases List.mem_singleton.1 hu
      exact hrest v hv

/-- Behind another stream a new run starts, whatever file the next token comes from. -/
theorem ReadOff.append (h : e.ReadOff texts tokens) {s : TokenStream} (hs : s.ReadOff texts) :
    (e.append s).ReadOff texts tokens := by
  obtain ⟨groups, hgrouped, hread, hlast⟩ := h
  obtain ⟨more, hmore, hread'⟩ := hs
  have happend := grouped_append hgrouped hmore
  by_cases hempty : s.tokens.isEmpty
  · simp only [Emitter.append, if_pos hempty] at happend ⊢
    exact ⟨groups, hgrouped, hread, hlast⟩
  · refine ⟨_, happend, List.forall_mem_append.2 ⟨hread, hread'⟩, fun hsplit => ?_⟩
    simp only [Emitter.append, if_neg hempty] at hsplit
    cases hsplit

end Emitter

namespace Preprocess

variable {env : Env} {file text : String} {site : Site}

/-- The files that a run knows are read off. -/
abbrev RunState.ReadOff (texts : String → Option String) (run : RunState) : Prop :=
  run.Keeps (·.stream.ReadOff texts)

/-- An item that expands nothing and includes no file puts out at most its own token. -/
theorem readOff_applyEffect {texts : String → Option String}
    (htext : texts site.file = some site.text) {st : FileState} {t : Lexeme} {rest : List Lexeme}
    (hst : st.out.ReadOff texts (t :: rest)) (htokens : t :: rest <:+ site.tokens) {run : RunState}
    {effect : Effect}
    (heffect : (Item.read (run.expansionEnv env.options.limits) st.conditions t rest).effect = effect)
    (hplain : ∀ spec offset, effect ≠ .inclusion spec offset)
    (hnone : Effect.invocations t effect = []) :
    (applyEffect env none site.chain site.file site.text st run effect).1.out.ReadOff texts rest := by
  have hliteral : ∀ u ∈ t :: rest, u.Literal site.text := fun u hu =>
    Lexeme.literal_of_mem_lex (htokens.subset hu)
  have hspans := spansIn_read (run.expansionEnv env.options.limits) st.conditions t
    (List.forall_mem_cons.1 hliteral).2
  rw [heffect] at hspans
  have hsame := hst.mono (List.subset_cons_self t rest)
  cases effect with
  | emit u =>
    cases hspans
    have hordered := (Lexeme.pairwise_lex site.file site.text).sublist htokens.sublist
    exact hst.push htext (hliteral t List.mem_cons_self) (List.pairwise_cons.1 hordered).1
  | expansion tokens => cases hnone
  | inclusion spec offset => exact absurd rfl (hplain spec offset)
  | nothing | conditions | define | undef | undefineAll => exact hsame

/-- As long as no invocation is expanded, all that is put out is read off. -/
theorem Reads.readOff (henv : env.ResolvesTo fun _ => NamedApart file) {st last : FileState}
    {run final : RunState} {tokens invoked : List Lexeme}
    (h : Reads env site st run tokens last final invoked) (hinvoked : invoked = [])
    (hsite : site.Of env file text) (hpaths : run.cache.ResolvesTo fun _ => NamedApart file)
    (hst : st.out.ReadOff (textOf env file text) tokens)
    (hrun : run.ReadOff (textOf env file text)) :
    last.out.stream.ReadOff (textOf env file text) ∧ final.ReadOff (textOf env file text) := by
  have hrest (env : Expansion.Env) (conditions : List Bool) (t : Lexeme) (rest : List Lexeme) :
      (Item.read env conditions t rest).rest ⊆ t :: rest :=
    ((Item.read_suffix env conditions t rest).trans (List.suffix_cons t rest)).subset
  induction h with
  | finish site st run =>
    exact ⟨hst.stream, hrun.of_get? (run.holdsSame_close site.file st.conditions).files⟩
  | @plain site st next last run after final t rest invoked htokens item hitem hplain happly _ ih =>
    obtain ⟨hnone, hinvoked⟩ := List.append_eq_nil_iff.1 hinvoked
    have heffect : (Item.read ((run.noting item.diagnostics).expansionEnv env.options.limits)
        st.conditions t rest).effect = item.effect := congrArg Item.effect hitem
    have hnext := readOff_applyEffect hsite.1 hst htokens heffect hplain hnone
    obtain ⟨-, -, hcache, -⟩ := frame_applyEffect env none site.chain site.file site.text st
      (run.noting item.diagnostics) hplain
    rw [happly] at hnext hcache
    have hbehind : item.rest ⊆ rest := hitem ▸ (Item.read_suffix _ _ t rest).subset
    exact ih hinvoked hsite (by rw [hcache]; exact hpaths) (hnext.mono hbehind)
      (hrun.of_get? fun path => by rw [hcache]; rfl)
  | refused hitem _ hrefused _ ih =>
    have hafter := hrefused.resolvesTo henv hpaths
    exact ih hinvoked hsite hafter (hst.mono (hitem ▸ hrest _ _ _ _))
      (hrun.of_get? hrefused.frame.files)
  | @cached site st last run found final t rest invoked item hitem spec offset _ depth _ path
      hlocated _ cached hcached _ ih =>
    have hfound : found.ReadOff (textOf env file text) :=
      hrun.of_get? (locate_frame hlocated).files
    exact ih hinvoked hsite (resolvesTo_locate henv hlocated hpaths).1
      ((hst.append (hfound path cached hcached)).mono (hitem ▸ hrest _ _ _ _)) hfound
  | @processed site st inner last run found left final t rest within invoked item hitem spec offset _
      depth _ path hlocated source hsource hinner _ ihinner ih =>
    obtain ⟨hwithin, hinvoked⟩ := List.append_eq_nil_iff.1 hinvoked
    obtain ⟨hfound, hpath⟩ := resolvesTo_locate henv hlocated hpaths
    have hinside := hsite.inside (hpath path rfl) hsource depth
    have hread : (found.reading path).cache.ResolvesTo fun _ => NamedApart file := hfound
    have hpaths' := resolvesTo_enter hread path.text source
    have hknown : found.ReadOff (textOf env file text) :=
      hrun.of_get? (locate_frame hlocated).files
    have henter : ((found.reading path).enter path.text source).ReadOff (textOf env file text) :=
      hknown.of_get? fun p => by rw [cache_enter]; rfl
    obtain ⟨hstream, hleft⟩ := ihinner hwithin hinside hpaths' Emitter.readOff_empty henter
    exact ih hinvoked hsite (hinner.resolvesTo henv hpaths')
      ((hst.append hstream).mono (hitem ▸ hrest _ _ _ _)) (hleft.store path hstream)

end Preprocess

namespace TokenStream

/-- Of two tokens of one run that is read off, the first ends in front of the second. -/
theorem ReadOff.stop_le_start {texts : String → Option String} {s : TokenStream}
    (h : s.ReadOff texts) {i j : Nat} (hij : i < j) (hrun : s.runOf? i = s.runOf? j)
    {t u : PostToken} (ht : s.tokens[i]? = some t) (hu : s.tokens[j]? = some u) :
    t.stop ≤ u.start := by
  obtain ⟨groups, hgrouped, hread⟩ := h
  obtain ⟨front, g, behind, m, rfl, rfl, hm, hfront, -⟩ := hgrouped.exists_group ht
  obtain ⟨front', g', behind', n, heq, rfl, hn, hfront', -⟩ := hgrouped.exists_group hu
  rw [hfront, hfront', Option.some.injEq] at hrun
  obtain ⟨rfl, hcons⟩ := List.append_inj heq hrun
  obtain ⟨rfl, rfl⟩ := List.cons.inj hcons
  obtain ⟨hmlt, rfl⟩ := List.getElem?_eq_some_iff.1 hm
  obtain ⟨hnlt, rfl⟩ := List.getElem?_eq_some_iff.1 hn
  have hordered := (hread g (by simp)).ordered
  exact List.pairwise_iff_getElem.1 hordered m n hmlt hnlt (by omega)

theorem exists_run_of_originOf? {s : TokenStream} {index : Nat} {file : String}
    (h : s.originOf? index = some file) : ∃ run ∈ s.runs, run.file = file := by
  obtain ⟨number, -, hrun⟩ := Option.bind_eq_some_iff.1 h
  obtain ⟨run, hmem, hfile⟩ := Option.map_eq_some_iff.1 hrun
  exact ⟨run, Array.mem_of_getElem? hmem, hfile⟩

end TokenStream

namespace Preprocess

/-- Every token of a document comes from a file whose text is among the sources, and its extent there
is in order, within the text and between characters. If no invocation is expanded, in the document or
in a file that it includes, then the token is what stands there, and the tokens of one run follow one
another. A provider may list the document, but not by another spelling of its path, under which a
second text would be kept. -/
theorem tokens_stand_in_sources (env : Env) (file text : String)
    (hlisted : ∀ suffix, ⟨file⟩ ∈ env.provider.endingIn suffix →
      (Path.normalize ⟨file⟩).same ⟨file⟩) :
    let p := (document env .empty file text).1
    (∀ i token, p.stream.tokens[i]? = some token → ∃ origin source,
      p.stream.originOf? i = some origin ∧ p.sources.get? origin = some source ∧
      Text.Spans source token.start token.stop ∧
      (documentInvocations env .empty file text = [] →
        token.text = Text.slice source token.start token.stop)) ∧
    (documentInvocations env .empty file text = [] →
      ∀ i j t u, i < j → p.stream.runOf? i = p.stream.runOf? j →
        p.stream.tokens[i]? = some t → p.stream.tokens[j]? = some u → t.stop ≤ u.start) := by
  by_cases hsize : env.options.limits.fileSize < text.utf8ByteSize
  · simp [document, hsize]
  · have hattributed : Attributed .empty := by simp [Attributed]
    have hwithin := within_document env hattributed (by simp) file text
    obtain ⟨last, final, hreads, hdocument⟩ := reads_document env .empty hsize
    have henv := resolvesTo_namedApart hlisted
    have hstart : (startState env .empty).cache.ResolvesTo fun _ => NamedApart file :=
      IncludeCache.resolvesTo_empty _
    have hpaths := resolvesTo_enter hstart file text
    obtain ⟨⟨hplaced, -, -⟩, hfinal⟩ :=
      hreads.sound henv of_documentSite hpaths sound_empty
        ((soundRun_startState env _).enter of_documentSite.1)
    have hreadOff (hnone : documentInvocations env .empty file text = []) :=
      (hreads.readOff henv hnone of_documentSite hpaths Emitter.readOff_empty
        (fun path file h => by simp [startState] at h)).1
    rw [hdocument] at hwithin ⊢
    refine ⟨fun i token htoken => ?_, fun hnone i j t u hij hrun ht hu =>
      (hreadOff hnone).stop_le_start hij hrun ht hu⟩
    obtain ⟨origin, source, horigin, hsource, hspans⟩ := hplaced.exists_source htoken
    obtain ⟨run, hrun, rfl⟩ := TokenStream.exists_run_of_originOf? horigin
    obtain ⟨kept, hkept⟩ := Option.isSome_iff_exists.1 (hwithin run hrun)
    obtain rfl : kept = source :=
      Option.some.inj ((hfinal.sources run.file kept hkept).symm.trans hsource)
    refine ⟨run.file, kept, horigin, hkept, hspans, fun hnone => ?_⟩
    obtain ⟨groups, hgrouped, hread⟩ := hreadOff hnone
    obtain ⟨front, g, behind, offset, rfl, -, hoffset, -, hg⟩ := hgrouped.exists_group htoken
    obtain ⟨text, htext, hslice⟩ :=
      (hread g (by simp)).literal token (List.mem_of_getElem? hoffset)
    rw [Option.some.inj (hg.symm.trans horigin), hsource] at htext
    cases htext
    exact hslice.symm

set_option maxRecDepth 100000 in
/-- A file that is included defines a name by two tokens that are pasted, and the document goes by a path
that is not normal. -/
theorem tokens_stand_in_sources_pasted :
    let env : Env := ⟨(Files.ofList [(⟨"/h"⟩, "`define M y``x")]).provider, {}⟩
    let p := (document env .empty "/d/../a" "`include </h>`M").1
    p.stream.tokens.toList = [⟨"yx", 10, 14⟩] ∧
      ∀ i token, p.stream.tokens[i]? = some token → ∃ origin source,
        p.stream.originOf? i = some origin ∧ p.sources.get? origin = some source ∧
        Text.Spans source token.start token.stop := by
  refine ⟨by decide +kernel, fun i token htoken => ?_⟩
  obtain ⟨origin, source, horigin, hsource, hspans, -⟩ :=
    (tokens_stand_in_sources _ "/d/../a" "`include </h>`M" (fun suffix h => by
      have hnormal : Path.normalize ⟨"/d/../a"⟩ = ⟨"/d/../a"⟩ := (Files.holds_ofList _).listed h
      rw [hnormal]
      exact Path.same_refl _)).1 i token htoken
  exact ⟨origin, source, horigin, hsource, hspans⟩

set_option maxRecDepth 100000 in
/-- Listed by another spelling of its path, the document is included in itself as a file with another
text, which takes the place of its own among the sources. Its token then lies in no text. -/
theorem not_within_respelled :
    let provider : Provider := ⟨fun _ => .ok "", fun _ => false, fun _ => [⟨"/d/../a"⟩]⟩
    let p := (document ⟨provider, {}⟩ .empty "/d/../a" "`include <h>x").1
    p.stream.tokens.toList = [⟨"x", 12, 13⟩] ∧ p.sources.get? "/d/../a" = some "" ∧
      ¬∀ i token, p.stream.tokens[i]? = some token → ∃ origin source,
        p.stream.originOf? i = some origin ∧ p.sources.get? origin = some source ∧
        Text.Spans source token.start token.stop := by
  intro provider p
  obtain ⟨htokens, horigin, hsource⟩ : p.stream.tokens.toList = [⟨"x", 12, 13⟩] ∧
      p.stream.originOf? 0 = some "/d/../a" ∧ p.sources.get? "/d/../a" = some "" := by
    decide +kernel
  refine ⟨htokens, hsource, fun hwithin => ?_⟩
  have htoken : p.stream.tokens[0]? = some ⟨"x", 12, 13⟩ := by
    rw [← Array.getElem?_toList, htokens]
    rfl
  obtain ⟨origin, source, hfile, hkept, hspans⟩ := hwithin 0 _ htoken
  obtain rfl : origin = "/d/../a" := Option.some.inj (hfile.symm.trans horigin)
  obtain rfl : source = "" := Option.some.inj (hkept.symm.trans hsource)
  exact absurd hspans.within (by decide)

end Preprocess

end HdlIndex
