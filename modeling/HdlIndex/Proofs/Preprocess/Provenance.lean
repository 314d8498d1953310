import HdlIndex.Proofs.Preprocess.Remainder

/-! Where the tokens of an expansion come from. An expansion makes no places up: each of its tokens has
the place of the invocation, of a token behind it or of a token of a definition in force, or reaches
from one such place to another. So a statement about places that these have is one about all tokens of
the expansion; in particular each of them stands in a file of the invocation, of an argument or of a
definition in force. -/

namespace HdlIndex

/-- The tokens of a definition: its body and the defaults of its parameters. -/
def MacroDef.tokens (d : MacroDef) : List BodyToken :=
  d.body ++ (d.params.getD []).flatMap fun p => p.default.getD []

namespace Expansion

/-- A statement about the place of a token, which the text does not matter to, and which holds of two
tokens that are joined if it holds of each. -/
structure IsPlacing (P : Lexeme → Prop) : Prop where
  withText {t : Lexeme} (h : P t) (text : String) (kind : LexKind) : P (t.withText text kind)
  paste {a b : Lexeme} (ha : P a) (hb : P b) : P (paste a b)

/-- Tokens of each of which something holds. -/
def Over (P : Lexeme → Prop) (tokens : List Lexeme) : Prop := ∀ t ∈ tokens, P t

/-- A definition of each token of which something holds at its place, or which comes from outside. -/
def DefinedOver (P : Lexeme → Prop) (d : MacroDef) : Prop :=
  ∀ file, d.origin = some file → ∀ t ∈ d.tokens, P ⟨t.text, t.kind, t.start, t.stop, file⟩

section

variable {P : Lexeme → Prop} {env : Env} {d : MacroDef} {call : Lexeme} {tokens rest : List Lexeme}

theorem Over.cons {t : Lexeme} (ht : P t) (h : Over P tokens) : Over P (t :: tokens) :=
  List.forall_mem_cons.2 ⟨ht, h⟩

theorem Over.append (h : Over P tokens) (h' : Over P rest) : Over P (tokens ++ rest) :=
  List.forall_mem_append.2 ⟨h, h'⟩

theorem Over.suffix (h : Over P tokens) (hs : rest <:+ tokens) : Over P rest :=
  fun t ht => h t (hs.subset ht)

theorem over_nil : Over P [] := by simp [Over]

theorem mem_of_mem_trimBoth {α : Type} {p : α → Bool} {items : List α} {a : α}
    (h : a ∈ trimBoth p items) : a ∈ items := by
  have hfront := (List.dropWhile_suffix _).subset h
  have hback := (List.dropWhile_suffix _).subset (List.mem_reverse.1 hfront)
  exact List.mem_reverse.1 hback

theorem Over.trimBoth (p : Lexeme → Bool) (h : Over P tokens) :
    Over P (HdlIndex.trimBoth p tokens) := fun t ht => h t (mem_of_mem_trimBoth ht)

/-! ### Arguments -/

theorem over_splitArguments {depth : Nat} {current : List Lexeme}
    {found : List (List Lexeme) × List Lexeme} (hcurrent : Over P current)
    (htokens : Over P tokens) (h : splitArguments depth current tokens = some found) :
    ∀ argument ∈ found.1, Over P argument := by
  induction tokens generalizing depth current found with
  | nil => cases h
  | cons t rest ih =>
    obtain ⟨ht, hrest⟩ := List.forall_mem_cons.1 htokens
    have hargument : Over P (HdlIndex.trimBoth Lexeme.isTrivia current.reverse) :=
      Over.trimBoth _ fun u hu => hcurrent u (List.mem_reverse.1 hu)
    have hnext : Over P (t :: current) := hcurrent.cons ht
    simp only [splitArguments] at h
    split at h
    · exact ih hnext hrest h
    · split at h
      · cases h
        simpa using hargument
      · exact ih hnext hrest h
    · split at h
      · obtain ⟨inner, hinner, rfl⟩ := Option.map_eq_some_iff.1 h
        exact List.forall_mem_cons.2 ⟨hargument, ih over_nil hrest hinner⟩
      · exact ih hnext hrest h
    · exact ih hnext hrest h

theorem over_arguments? {found : List (List Lexeme) × List Lexeme} (htokens : Over P tokens)
    (h : arguments? tokens = some found) : ∀ argument ∈ found.1, Over P argument := by
  have hskip := htokens.suffix (List.dropWhile_suffix Lexeme.isTrivia)
  unfold arguments? at h
  split at h
  · next t rest ht =>
    rw [ht] at hskip
    split at h
    · exact over_splitArguments over_nil (hskip.suffix (List.suffix_cons t rest)) h
    · cases h
  · cases h

theorem bodyTest_suffix (macros : MacroTable) (t : Lexeme) (rest : List Lexeme) :
    (bodyTest macros t rest).2 <:+ rest := by
  have hskip : rest.dropWhile Lexeme.isTrivia <:+ rest := List.dropWhile_suffix _
  unfold bodyTest
  split
  · simp only [bodyOperand]
    split
    · next u more hu =>
      rw [hu] at hskip
      split
      · exact (List.suffix_cons u more).trans hskip
      · exact hskip
    · exact List.nil_suffix
  · exact List.suffix_refl _

/-! ### Bodies -/

/-- An expander that keeps to places of which something holds. -/
def Keeps (P : Lexeme → Prop) (inner : Expander) : Prop :=
  ∀ tokens w, Over P tokens → Over P (inner tokens w).1

/-- Something holds of all that an invocation asks for. -/
def CallOver (P : Lexeme → Prop) : Call → Prop
  | .literal t => P t
  | .problem _ => True
  | .definition d arguments => DefinedOver P d ∧ ∀ argument ∈ arguments, Over P argument

section

variable (hP : IsPlacing P)
include hP

theorem over_bodyLexeme (hd : DefinedOver P d) (hcall : P call) {t : BodyToken} (ht : t ∈ d.tokens) :
    P (bodyLexeme d call t) := by
  unfold bodyLexeme
  split
  · next file horigin => exact hd file horigin t ht
  · exact hP.withText hcall t.text t.kind

theorem over_bindParameters {inner : Expander} (hinner : Keeps P inner)
    (hd : DefinedOver P d) (hcall : P call) (given index : Nat) {params : List Parameter}
    (hparams : ∀ p ∈ params, p ∈ d.params.getD []) {arguments : List (List Lexeme)}
    (harguments : ∀ argument ∈ arguments, Over P argument) (w : Work) :
    ∀ value ∈ (bindParameters inner d call given index params arguments w).1,
      Over P value.2 := by
  induction params generalizing index arguments w with
  | nil => simp [bindParameters]
  | cons p params ih =>
    have hhead : Over P (arguments.headD []) := by
      cases arguments with
      | nil => exact over_nil
      | cons argument _ => exact harguments argument List.mem_cons_self
    have htail : ∀ argument ∈ arguments.tail, Over P argument := fun argument h =>
      harguments argument (List.mem_of_mem_tail h)
    obtain ⟨hp, hparams⟩ := List.forall_mem_cons.1 hparams
    rw [bindParameters]
    refine List.forall_mem_cons.2 ⟨?_, ih (index + 1) hparams htail _⟩
    split
    · next tokens _ hdefault =>
      refine List.forall_mem_map.2 fun t ht => over_bodyLexeme hP hd hcall ?_
      refine List.mem_append_right _ (List.mem_flatMap.2 ⟨p, hp, ?_⟩)
      rwa [hdefault]
    · exact over_nil
    · exact hinner _ w hhead

theorem over_replaceParameters (hd : DefinedOver P d) (hcall : P call)
    {values : List (String × List Lexeme)} (hvalues : ∀ value ∈ values, Over P value.2) :
    Over P (replaceParameters d call values) := by
  intro t ht
  obtain ⟨b, hb, ht⟩ := List.mem_flatMap.1 ht
  split at ht
  · next value _ hvalue =>
    obtain ⟨entry, hentry, rfl⟩ := Option.map_eq_some_iff.1 hvalue
    exact hvalues entry (List.mem_reverse.1 (List.mem_of_find?_eq_some hentry)) t ht
  · cases List.mem_singleton.1 ht
    exact over_bodyLexeme hP hd hcall (List.mem_append_left _ hb)

theorem over_substitute {inner : Expander} (hinner : Keeps P inner) (hd : DefinedOver P d)
    (hcall : P call) {arguments : List (List Lexeme)}
    (harguments : ∀ argument ∈ arguments, Over P argument) (w : Work) :
    ∀ body ∈ (substitute inner d arguments call w).1, Over P body := by
  have hgiven : ∀ argument ∈ (if (d.params.getD []).isEmpty && arguments == [[]] then []
      else arguments), Over P argument := by
    split
    · simp
    · exact harguments
  simp only [substitute]
  generalize (if (d.params.getD []).isEmpty && arguments == [[]] then [] else arguments) = given
    at hgiven ⊢
  split
  · simp
  · rintro body ⟨⟩
    exact over_replaceParameters hP hd hcall
      (over_bindParameters hP hinner hd hcall _ _ (fun _ => id) hgiven w)

/-! ### Escapes -/

theorem over_resolveEscapesFrom {done : List Lexeme} (hdone : Over P done)
    (htokens : Over P tokens) : Over P (resolveEscapesFrom done tokens) := by
  fun_induction resolveEscapesFrom done tokens with
  | case1 done => exact fun t ht => hdone t (List.mem_reverse.1 ht)
  | case2 done t rest _ ih | case3 done t rest _ ih | case4 done t rest _ ih =>
    obtain ⟨ht, hrest⟩ := List.forall_mem_cons.1 htokens
    exact ih (hdone.cons (hP.withText ht _ _)) hrest
  | case5 t _ a done b rest ih =>
    obtain ⟨ha, hdone⟩ := List.forall_mem_cons.1 hdone
    have hb : P b := htokens b (by simp)
    exact ih (Over.cons (hP.paste ha hb) hdone) fun u hu => htokens u (by simp [hu])
  | case6 t _ done => exact fun t ht => hdone t (List.mem_reverse.1 ht)
  | case7 t _ b rest ih =>
    exact ih (fun u hu => htokens u (by simp_all)) fun u hu => htokens u (by simp [hu])
  | case8 done t rest _ _ _ _ ih =>
    obtain ⟨ht, hrest⟩ := List.forall_mem_cons.1 htokens
    exact ih (hdone.cons ht) hrest

theorem over_resolveEscapes (htokens : Over P tokens) : Over P (resolveEscapes tokens) :=
  over_resolveEscapesFrom hP over_nil htokens

/-! ### Invocations -/

theorem callOver_readCall (hmacros : ∀ d ∈ env.macros.entries, DefinedOver P d)
    (hcall : P call) (hrest : Over P rest) :
    CallOver P (readCall env call rest).1 := by
  simp only [readCall]
  split
  · exact hP.withText hcall _ _
  · split
    · exact hP.withText hcall _ _
    · split
      · trivial
      · next d hd =>
        have horigin : DefinedOver P d := hmacros d (List.mem_of_find?_eq_some hd)
        split
        · split
          · trivial
          · next arguments behind harguments =>
            exact ⟨horigin, over_arguments? hrest harguments⟩
        · exact ⟨horigin, by simp⟩

theorem over_expandCall (env : Env) {inner : Option Expander} (hinner : ∀ i ∈ inner, Keeps P i)
    (hcall : P call) {c : Call} (hc : CallOver P c) (w : Work) :
    Over P (expandCall env inner call c w).1 := by
  cases c with
  | literal t => exact Over.cons hc over_nil
  | problem p => exact over_nil
  | definition d arguments =>
    simp only [expandCall, expandDefinition]
    split
    · exact over_nil
    · next inner =>
      have hkeeps := hinner inner rfl
      split
      · exact over_nil
      · have hbody :=
          over_substitute hP hkeeps hc.1 hcall hc.2 { w with expansions := w.expansions + 1 }
        split
        · exact over_nil
        · next body w' hsubstitute =>
          rw [hsubstitute] at hbody
          exact hkeeps _ _ (over_resolveEscapes hP (hbody body rfl))

theorem over_expandFrom (hmacros : ∀ d ∈ env.macros.entries, DefinedOver P d)
    {inner : Option Expander} (hinner : ∀ i ∈ inner, Keeps P i) (branches : Branches) (w : Work)
    (htokens : Over P tokens) : Over P (expandFrom env inner branches w tokens).1 := by
  fun_induction expandFrom env inner branches w tokens with
  | case1 | case2 => exact over_nil
  | case3 branches w t rest _ test branches' hstep ih =>
    exact ih ((htokens.suffix (List.suffix_cons t rest)).suffix (bodyTest_suffix _ _ _))
  | case4 branches w t rest _ test hstep ih =>
    exact ih ((htokens.suffix (List.suffix_cons t rest)).suffix (bodyTest_suffix _ _ _))
  | case5 branches w t rest _ _ ih => exact ih (htokens.suffix (List.suffix_cons t rest))
  | case6 branches w t rest _ _ _ call expanded w' hexpanded behind w'' hbehind ih =>
    obtain ⟨ht, hrest⟩ := List.forall_mem_cons.1 htokens
    have hcall := over_expandCall hP env hinner ht (callOver_readCall hP hmacros ht hrest) w
    have hafter := ih (Over.suffix hrest (readCall_suffix env t rest))
    rw [hexpanded] at hcall
    rw [hbehind] at hafter
    exact hcall.append hafter
  | case7 branches w t rest _ _ _ behind w' hbehind ih =>
    obtain ⟨ht, hrest⟩ := List.forall_mem_cons.1 htokens
    have hafter := ih hrest
    rw [hbehind] at hafter
    exact hafter.cons ht

theorem keeps_expand (hmacros : ∀ d ∈ env.macros.entries, DefinedOver P d) (depth : Nat) :
    Keeps P (expand env depth) := by
  induction depth with
  | zero => exact fun tokens w h => over_expandFrom hP hmacros (by simp) [] w h
  | succ depth ih =>
    refine fun tokens w h => over_expandFrom hP hmacros ?_ [] w h
    rintro inner ⟨⟩
    exact ih

/-- What holds of the place of the invocation, of those of the tokens behind it and of those of the
definitions in force holds of the place of every token of the expansion. -/
theorem over_expandInvocation (hmacros : ∀ d ∈ env.macros.entries, DefinedOver P d)
    (hcall : P call) (hrest : Over P rest) :
    Over P (expandInvocation env call rest).1 := by
  refine over_expandCall hP env ?_ hcall (callOver_readCall hP hmacros hcall hrest) {}
  intro inner h
  split at h
  · cases h
  · cases h
    exact keeps_expand hP hmacros _

end

end

/-! ### Files -/

/-- Tokens that stand in files of which something is known. -/
def From (known : String → Prop) (tokens : List Lexeme) : Prop := ∀ t ∈ tokens, known t.file

/-- A definition that stands in a file of which something is known, or comes from outside. -/
def OriginIn (known : String → Prop) (d : MacroDef) : Prop := ∀ file, d.origin = some file → known file

/-- Every token of an expansion stands in a file of the invocation, of a token behind it or of a
definition in force. -/
theorem from_expandInvocation {known : String → Prop} {env : Env} {call : Lexeme}
    {rest : List Lexeme} (hmacros : ∀ d ∈ env.macros.entries, OriginIn known d)
    (hcall : known call.file) (hrest : From known rest) :
    From known (expandInvocation env call rest).1 := by
  have hP : IsPlacing fun t => known t.file := ⟨fun h _ _ => h, fun ha _ => ha⟩
  exact over_expandInvocation hP (fun d hd file hfile _ _ => hmacros d hd file hfile) hcall hrest

end Expansion

end HdlIndex
