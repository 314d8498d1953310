import HdlIndex.Proofs.Grammar.Points
import HdlIndex.Proofs.Pattern.Extents

/-! What of a text the tokens of a scan hold. A match of a rule without groups is one token, which
holds what stands behind the start of the match; what stands in front of it is in no token. Main
statements: a step over any other match keeps all characters, such a step loses some, and so the
tokens of a scan that does not fail tile the text exactly if the scan comes to no such match. -/

namespace HdlIndex.Grammar

/-! ### Tokens of a match -/

theorem drop_take_append {α : Type} (text : List α) {start middle stop : Nat} (h : start ≤ middle)
    (h' : middle ≤ stop) : (text.take middle).drop start ++ (text.take stop).drop middle =
      (text.take stop).drop start := by
  have hlength : stop - start = (middle - start) + (stop - middle) := by omega
  have hmiddle : start + (middle - start) = middle := by omega
  rw [List.drop_take, List.drop_take, List.drop_take, hlength, List.take_add, List.drop_drop,
    hmiddle]

/-- Groups that are accepted are tokens that tile the match. -/
theorem tiles_of_groupTokens {text : List Char} {m : Match} (hm : m.Within text) {base : Nat}
    {scopes : List String} {pos : Nat} {groups : List (Nat × Option String)} {tokens : List Token}
    (h : groupTokens base text scopes m pos groups = some tokens) :
    Tiles (base + Text.byteSize (text.take pos)) ((text.take m.stop).drop pos) tokens := by
  induction groups generalizing pos tokens with
  | nil =>
    rw [groupTokens] at h
    split at h
    · next hpos =>
      obtain rfl := Option.some.inj h
      rw [hpos, List.drop_eq_nil_of_le (List.length_take_le _ _)]
      exact .nil _
    · cases h
  | cons group rest ih =>
    obtain ⟨index, scope⟩ := group
    rw [groupTokens] at h
    split at h
    · exact ih h
    · next c hc =>
      obtain ⟨hstart, hstop⟩ := hm.extents c (List.mem_of_find?_eq_some hc)
      split at h
      · exact ih h
      · next hempty =>
        split at h
        · cases h
        · next hpos =>
          obtain rfl : c.start = pos := not_not.1 hpos
          obtain ⟨more, hmore, rfl⟩ := Option.map_eq_some_iff.1 h
          have hpiece : (text.take c.stop).drop c.start ≠ [] := by
            have hle := hm.le
            rw [← List.length_pos_iff, List.length_drop, List.length_take]
            omega
          have hfront := drop_take_append text (Nat.zero_le c.start) hstart
          rw [List.drop_zero, List.drop_zero] at hfront
          rw [← drop_take_append text hstart hstop]
          refine .cons hpiece ?_
          rw [Nat.add_assoc, ← Text.byteSize_append, hfront]
          exact ih hmore

/-- The tokens of a match tile what it reads, unless it has no groups and starts further on. -/
theorem tiles_of_matchTokens {text : List Char} {m : Match} (hm : m.Within text)
    (hstop : 0 < m.stop) {rule : Rule} (hstart : rule.scopes.tail = [] → m.start = 0) {base : Nat}
    {scopes : List String} {tokens : List Token}
    (h : matchTokens base text scopes rule m = some tokens) :
    Tiles base (text.take m.stop) tokens := by
  rw [matchTokens] at h
  split at h
  · next hgroups =>
    obtain rfl := Option.some.inj h
    have hread : text.take m.stop ≠ [] := by
      have hle := hm.le
      rw [← List.length_pos_iff, List.length_take]
      omega
    rw [hstart hgroups, List.drop_zero]
    exact .single hread _ _
  · have htiles := tiles_of_groupTokens hm h
    rwa [List.take_zero, List.drop_zero] at htiles

theorem Rule.isFaithful_of_isAnchored {rule : Rule} (h : rule.pattern.IsAnchored) :
    rule.IsFaithful := by
  intro text m hm hstop
  have hwithin := Pattern.within_match? hm
  exact ⟨hwithin.le, fun base scopes tokens htokens =>
    tiles_of_matchTokens hwithin hstop (fun _ => h text m hm) htokens⟩

/-- Whether a scan skips characters at a point: the rule that matches has no groups, and the match
does not start where the rest does. -/
def SkipsAt (g : Grammar) (p : ScanPoint) : Prop :=
  p.rest ≠ [] ∧ ∃ rule m, firstMatch (g.rulesIn p.state.current) p.rest = some (rule, m) ∧
    rule.scopes.tail = [] ∧ m.start ≠ 0

variable {g : Grammar} {p q : ScanPoint}

theorem not_skipsAt_of_isAnchored (h : ∀ rule ∈ g.rules, rule.pattern.IsAnchored) :
    ¬g.SkipsAt p := by
  rintro ⟨-, rule, m, hfirst, -, hstart⟩
  obtain ⟨hrule, hm⟩ := firstMatch_eq_some hfirst
  exact hstart (h rule (mem_rules_of_mem_rulesIn hrule) _ m hm)

theorem start_eq_zero (hskips : ¬g.SkipsAt p) (hne : p.rest ≠ []) {rule : Rule} {m : Match}
    (h : firstMatch (g.rulesIn p.state.current) p.rest = some (rule, m))
    (hgroups : rule.scopes.tail = []) : m.start = 0 :=
  not_not.1 fun hstart => hskips ⟨hne, rule, m, h, hgroups, hstart⟩

/-! ### Points without a loss -/

/-- Whether the tokens in front of a point tile the text up to the characters that no rule has
matched yet. -/
def ScanPoint.IsTiled (text : List Char) (p : ScanPoint) : Prop :=
  ∃ front, text = front ++ p.pending.reverse ++ p.rest ∧
    p.offset = Text.byteSize front + Text.byteSize p.pending ∧ Tiles 0 front p.out.toList

theorem ScanPoint.IsTiled.flushed {text : List Char} (h : p.IsTiled text) :
    ∃ read, text = read ++ p.rest ∧ p.offset = Text.byteSize read ∧
      Tiles 0 read (g.flushed p).toList := by
  obtain ⟨front, htext, hoffset, hout⟩ := h
  refine ⟨front ++ p.pending.reverse, htext, ?_, ?_⟩
  · rw [hoffset, Text.byteSize_append, Text.byteSize_reverse]
  · rw [Grammar.flushed, Array.toList_appendList, hoffset]
    refine hout.append ?_
    rw [Nat.zero_add]
    exact g.tiles_unmatchedToken _ _ _

theorem ScanPoint.IsTiled.step {text : List Char} (hp : p.IsTiled text) (h : g.Stepped p q)
    (hskips : ¬g.SkipsAt p) : q.IsTiled text := by
  cases h with
  | @unmatched c cs hrest hfirst =>
    obtain ⟨front, htext, hoffset, hout⟩ := hp
    refine ⟨front, ?_, ?_, hout⟩
    · simp [htext, hrest]
    · simp only [hoffset, Text.byteSize]
      omega
  | @matched rule m tokens hne hfirst hstop htokens =>
    obtain ⟨read, htext, hoffset, hread⟩ := hp.flushed (g := g)
    have hm := Pattern.within_match? (firstMatch_eq_some hfirst).2
    have hstart := start_eq_zero hskips hne hfirst
    refine ⟨read ++ p.rest.take m.stop, ?_, ?_, ?_⟩
    · simp [htext]
    · simp [hoffset, Text.byteSize_append, Text.byteSize]
    · rw [Array.toList_appendList]
      refine hread.append ?_
      rw [Nat.zero_add, ← hoffset]
      exact tiles_of_matchTokens hm hstop hstart htokens

/-- A scan that skips nothing on its way loses nothing. -/
theorem ScanPoint.IsTiled.leads {text : List Char} (hp : p.IsTiled text) (h : g.Leads p q)
    (hskips : ∀ r, g.Leads p r → ¬g.SkipsAt r) : q.IsTiled text := by
  induction h with
  | refl => exact hp
  | tail hlead hstep ih => exact ih.step (stepped_of_step? hstep) (hskips _ hlead)

theorem isTiled_startPoint (text : String) (scopes : Option (List String)) :
    (g.startPoint text scopes).IsTiled text.toList := ⟨[], rfl, rfl, .nil 0⟩

/-! ### Points with a loss -/

/-- The number of characters in tokens. -/
def textLength (tokens : List Token) : Nat := (String.join (tokens.map (·.text))).length

theorem textLength_append (a b : List Token) :
    textLength (a ++ b) = textLength a + textLength b := by
  rw [textLength, List.map_append, String.join_append, String.length_append]
  rfl

theorem Tiles.textLength_eq {offset : Nat} {text : List Char} {tokens : List Token}
    (h : Tiles offset text tokens) : textLength tokens = text.length := by
  rw [textLength, h.join_text, String.length_ofList]

theorem Tiling.textLength_eq {text : String} {tokens : List Token} (h : Tiling text tokens) :
    textLength tokens = text.length := congrArg String.length h.text

/-- The characters in front of a point that are in tokens or will be, and those that are still to be
read, by number. -/
def ScanPoint.kept (p : ScanPoint) : Nat :=
  textLength p.out.toList + p.pending.length + p.rest.length

theorem textLength_flushed (p : ScanPoint) :
    textLength (g.flushed p).toList = textLength p.out.toList + p.pending.length := by
  have htoken := (g.tiles_unmatchedToken p.state.current.scopes.reverse
    (p.offset - Text.byteSize p.pending) p.pending).textLength_eq
  rw [Grammar.flushed, Array.toList_appendList, textLength_append]
  unfold unmatchedToken at htoken ⊢
  split
  · next hempty =>
    rw [List.isEmpty_iff.1 hempty]
    rfl
  · simp [textLength]

/-- The token of a match that skips characters is too short. -/
theorem textLength_matchTokens_lt {text : List Char} {m : Match} (hm : m.Within text)
    (hstop : 0 < m.stop) {rule : Rule} (hgroups : rule.scopes.tail = []) (hstart : m.start ≠ 0)
    {base : Nat} {scopes : List String} {tokens : List Token}
    (h : matchTokens base text scopes rule m = some tokens) :
    textLength tokens < (text.take m.stop).length := by
  rw [matchTokens, hgroups] at h
  obtain rfl := Option.some.inj h
  have hle := hm.le
  simp [textLength]
  omega

/-- A step over a match exchanges the characters that it reads for those in its tokens. -/
theorem kept_matched (g : Grammar) (p : ScanPoint) (rule : Rule) (m : Match) (tokens : List Token) :
    (⟨g.applyRule p.state rule, p.offset + Text.byteSize (p.rest.take m.stop), [],
      g.flushed p ++ tokens, p.rest.drop m.stop⟩ : ScanPoint).kept + (p.rest.take m.stop).length =
      p.kept + textLength tokens := by
  simp only [ScanPoint.kept, Array.toList_appendList, textLength_append, textLength_flushed,
    List.length_nil, List.length_take, List.length_drop]
  omega

theorem kept_lt_of_skipsAt (h : g.Stepped p q) (hskips : g.SkipsAt p) : q.kept < p.kept := by
  obtain ⟨-, rule, m, hfirst, hgroups, hstart⟩ := hskips
  cases h with
  | unmatched _ hnone => cases hnone.symm.trans hfirst
  | @matched _ _ tokens hne hmatch hstop htokens =>
    cases hmatch.symm.trans hfirst
    have hm := Pattern.within_match? (firstMatch_eq_some hfirst).2
    have hlt := textLength_matchTokens_lt hm hstop hgroups hstart htokens
    have hkept := kept_matched g p rule m tokens
    omega

theorem kept_le_of_stepped (h : g.Stepped p q) : q.kept ≤ p.kept := by
  by_cases hskips : g.SkipsAt p
  · exact (kept_lt_of_skipsAt h hskips).le
  cases h with
  | unmatched hrest =>
    simp only [ScanPoint.kept, hrest, List.length_cons]
    omega
  | @matched rule m tokens hne hfirst hstop htokens =>
    have hm := Pattern.within_match? (firstMatch_eq_some hfirst).2
    have hstart := start_eq_zero hskips hne hfirst
    have heq := (tiles_of_matchTokens hm hstop hstart htokens).textLength_eq
    have hkept := kept_matched g p rule m tokens
    omega

theorem Leads.kept_le (h : g.Leads p q) : q.kept ≤ p.kept := by
  induction h with
  | refl => exact Nat.le_refl _
  | tail _ hstep ih => exact (kept_le_of_stepped (stepped_of_step? hstep)).trans ih

/-! ### Tokens of a text -/

/-- The tokens of a scan that does not fail tile the text exactly if the scan skips nothing. -/
theorem tiling_iff {text : String} {scopes : Option (List String)} {tokens : List Token}
    (h : g.scan text scopes = .ok tokens) :
    Tiling text tokens ↔ ∀ p, g.Leads (g.startPoint text scopes) p → ¬g.SkipsAt p := by
  obtain ⟨out, hout, rfl⟩ : ∃ out, g.result (g.startPoint text scopes) = .ok out ∧
      out.toList = tokens := by
    rw [result_startPoint] at h
    rcases hresult : g.result (g.startPoint text scopes) with violation | out
    · rw [hresult] at h
      cases h
    · rw [hresult] at h
      exact ⟨out, rfl, Except.ok.inj h⟩
  constructor
  · intro htiling p hp hskips
    have hresult := hp.result_eq.symm.trans hout
    obtain ⟨q, hstep⟩ := exists_step?_of_result hresult hskips.1
    obtain ⟨last, hlast, hrest, rfl⟩ :=
      exists_leads_of_result ((result_of_step? hstep).symm.trans hresult)
    have hlength : last.kept = text.length := by
      rw [ScanPoint.kept, hrest, ← htiling.textLength_eq, textLength_flushed]
      rfl
    have hlt := calc
      last.kept ≤ q.kept := hlast.kept_le
      _ < p.kept := kept_lt_of_skipsAt (stepped_of_step? hstep) hskips
      _ ≤ (g.startPoint text scopes).kept := hp.kept_le
    have hstart : (g.startPoint text scopes).kept = text.length := by
      simp [ScanPoint.kept, startPoint, textLength, String.length_toList]
    omega
  · intro hskips
    obtain ⟨last, hlast, hrest, rfl⟩ := exists_leads_of_result hout
    obtain ⟨read, htext, -, htiles⟩ :=
      ((isTiled_startPoint text scopes).leads hlast hskips).flushed (g := g)
    rw [hrest, List.append_nil] at htext
    exact (htext ▸ htiles).tiling

/-- A scan with rules that keep the contract and match where the text starts cuts the whole text
into tokens. -/
theorem tiling_tokenize (hcontract : ∀ rule ∈ g.rules, rule.KeepsContract)
    (hanchored : ∀ rule ∈ g.rules, rule.pattern.IsAnchored) (text : String)
    (scopes : Option (List String)) :
    g.scan text scopes = .ok (g.tokenize text scopes) ∧
      Tiling text (g.tokenize text scopes) := by
  obtain ⟨result, hresult⟩ :=
    exists_scanFrom_eq_ok hcontract (g.startState scopes) 0 [] #[] text.toList
  have hscan : g.scan text scopes = .ok result.toList := by
    rw [scan, hresult]
    rfl
  have htokenize : g.tokenize text scopes = result.toList := by
    rw [tokenize, hscan]
  rw [htokenize]
  exact ⟨hscan, (tiling_iff hscan).2 fun p _ => not_skipsAt_of_isAnchored hanchored⟩

end HdlIndex.Grammar
