import HdlIndex.Grammar.Scan
import HdlIndex.Proofs.Pattern.Row
import Mathlib.Data.List.Chain

/-! Tokens that tile a text. A rule keeps the contract with the scanner if a match always reads
something and its groups always cover it. Main statements: rules of a certain form keep the contract,
and a scan with rules that keep it does not fail. -/

namespace HdlIndex

theorem Text.utf8ByteSize_ofList (cs : List Char) :
    (String.ofList cs).utf8ByteSize = byteSize cs := by
  induction cs with
  | nil => rfl
  | cons c cs ih =>
    rw [← List.singleton_append, String.ofList_append, String.utf8ByteSize_append, ih,
      ← String.singleton_eq_ofList, String.utf8ByteSize_singleton]
    rfl

theorem Text.byteSize_reverse (cs : List Char) : byteSize cs.reverse = byteSize cs := by
  induction cs with
  | nil => rfl
  | cons c cs ih =>
    rw [List.reverse_cons, byteSize_append, ih, byteSize, byteSize, byteSize]
    omega

/-- What can be seen from the form of a pattern: a match starts where the text does and reads on,
and the groups, if there is a scope for any, are all that it reads. -/
def Pattern.isTidy (scopes : Nat) (p : Pattern) : Bool :=
  p.isTied && p.isSteady && p.consumes && (scopes == 1 || p.rowEnd? 1 == some scopes)

namespace Grammar

/-- Whether tokens cut a text that starts at an offset into pieces, none of them empty. -/
inductive Tiles : Nat → List Char → List Token → Prop
  | nil (offset : Nat) : Tiles offset [] []
  | cons {offset : Nat} {piece rest : List Char} {scopes : List String} {tokens : List Token}
      (hpiece : piece ≠ []) (htokens : Tiles (offset + Text.byteSize piece) rest tokens) :
      Tiles offset (piece ++ rest) (⟨.ofList piece, offset, scopes⟩ :: tokens)

namespace Tiles

theorem append {offset : Nat} {text more : List Char} {tokens others : List Token}
    (h : Tiles offset text tokens) (h' : Tiles (offset + Text.byteSize text) more others) :
    Tiles offset (text ++ more) (tokens ++ others) := by
  induction h with
  | nil offset => exact h'
  | cons hpiece _ ih =>
    rw [Text.byteSize_append, ← Nat.add_assoc] at h'
    rw [List.append_assoc]
    exact .cons hpiece (ih h')

theorem single {piece : List Char} (h : piece ≠ []) (offset : Nat) (scopes : List String) :
    Tiles offset piece [⟨.ofList piece, offset, scopes⟩] := by
  have htiles : Tiles offset (piece ++ []) [⟨.ofList piece, offset, scopes⟩] := .cons h (.nil _)
  rwa [List.append_nil] at htiles

end Tiles

/-- What it is for tokens to be a text cut into pieces: none of them is empty, the first one starts
where the text does, each one starts where the one in front of it stops, and together they are the
text. -/
structure Tiling (text : String) (tokens : List Token) : Prop where
  nonempty : ∀ t ∈ tokens, t.text ≠ ""
  first : ∀ t ∈ tokens.head?, t.offset = 0
  adjacent : tokens.IsChain fun t u => u.offset = t.stop
  text : String.join (tokens.map (·.text)) = text

namespace Tiles

theorem offset_head? {offset : Nat} {text : List Char} {tokens : List Token}
    (h : Tiles offset text tokens) : ∀ t ∈ tokens.head?, t.offset = offset := by
  cases h with
  | nil => simp
  | cons => simp

theorem text_ne_empty {offset : Nat} {text : List Char} {tokens : List Token}
    (h : Tiles offset text tokens) : ∀ t ∈ tokens, t.text ≠ "" := by
  induction h with
  | nil => simp
  | cons hpiece _ ih =>
    intro t ht
    rcases List.mem_cons.1 ht with rfl | ht
    · intro hempty
      exact hpiece (by simpa using hempty)
    · exact ih t ht

theorem isChain {offset : Nat} {text : List Char} {tokens : List Token}
    (h : Tiles offset text tokens) : tokens.IsChain fun t u => u.offset = t.stop := by
  induction h with
  | nil => exact .nil
  | cons _ htokens ih =>
    refine ih.cons ?_
    intro u hu
    rw [Token.stop, Text.utf8ByteSize_ofList]
    exact htokens.offset_head? u hu

theorem join_text {offset : Nat} {text : List Char} {tokens : List Token}
    (h : Tiles offset text tokens) : String.join (tokens.map (·.text)) = .ofList text := by
  induction h with
  | nil => rfl
  | cons _ _ ih => rw [List.map_cons, String.join_cons, ih, String.ofList_append]

theorem tiling {text : String} {tokens : List Token} (h : Tiles 0 text.toList tokens) :
    Tiling text tokens where
  nonempty := h.text_ne_empty
  first := h.offset_head?
  adjacent := h.isChain
  text := h.join_text.trans String.ofList_toList

end Tiles

/-! ### Tokens of a match -/

/-- Whether a rule keeps the contract with the scanner: its matches are not empty, and the groups
cover them piece by piece. -/
structure Rule.KeepsContract (rule : Rule) : Prop where
  consumes : ∀ text m, rule.pattern.match? text = some m → 0 < m.stop
  covers : ∀ text m, rule.pattern.match? text = some m →
    ∀ base scopes, (matchTokens base text scopes rule m).isSome

/-- Whether the tokens of a match that is not empty tile what the match reads. -/
def Rule.IsFaithful (rule : Rule) : Prop :=
  ∀ text m, rule.pattern.match? text = some m → 0 < m.stop → m.stop ≤ text.length ∧
    ∀ base scopes tokens, matchTokens base text scopes rule m = some tokens →
      Tiles base (text.take m.stop) tokens

/-- Groups that are a row are accepted. -/
theorem exists_groupTokens {text : List Char} {m : Match} (base : Nat) (scopes : List String)
    {next pos : Nat} {row : List Capture} {groups : List (Option String)}
    (hrow : Capture.Row next pos m.stop row) (hcapture : ∀ c ∈ row, m.capture? c.group = some c)
    (hgroups : groups.length = row.length) :
    ∃ tokens, groupTokens base text scopes m pos ((List.range' next groups.length).zip groups) =
      some tokens := by
  induction row generalizing next pos groups with
  | nil =>
    obtain rfl := List.length_eq_zero_iff.1 hgroups
    exact ⟨[], if_pos hrow⟩
  | cons c row ih =>
    obtain ⟨scope, groups, rfl⟩ := List.exists_cons_of_length_eq_add_one hgroups
    obtain ⟨rfl, rfl, hstop, hrow⟩ := hrow
    have hc := hcapture c List.mem_cons_self
    obtain ⟨tokens, htokens⟩ := ih hrow (fun d hd => hcapture d (List.mem_cons_of_mem c hd))
      (Nat.succ.inj hgroups)
    rw [List.length_cons, List.range'_succ, List.zip_cons_cons, groupTokens]
    dsimp only
    rw [hc]
    dsimp only
    by_cases hempty : c.start = c.stop
    · rw [if_pos hempty, hempty]
      exact ⟨tokens, htokens⟩
    · rw [if_neg hempty, if_neg (by simp), htokens]
      exact ⟨_, rfl⟩

/-- A match of a tidy rule reads something, and its groups are accepted. -/
theorem Rule.keepsContract_of_isTidy {rule : Rule}
    (h : rule.pattern.isTidy rule.scopes.length) : rule.KeepsContract := by
  simp only [Pattern.isTidy, Bool.and_eq_true, Bool.or_eq_true, beq_iff_eq] at h
  obtain ⟨⟨⟨htied, hsteady⟩, hconsumes⟩, hgroups⟩ := h
  refine ⟨fun text m hm => ?_, fun text m hm base scopes => ?_⟩
  · obtain ⟨t, ht, rfl⟩ := Pattern.matches_of_match? htied hsteady hm
    exact ht.pos_lt hconsumes
  · obtain ⟨t, ht, rfl⟩ := Pattern.matches_of_match? htied hsteady hm
    rcases hgroups with hone | hrow
    · obtain ⟨scope, hscope⟩ := List.length_eq_one_iff.1 hone
      simp only [matchTokens, hscope, List.tail_cons, Option.isSome_some]
    · obtain ⟨row, hcaptures, hrow, hcount⟩ := ht.row hrow
      rw [List.append_nil] at hcaptures
      have htail : rule.scopes.tail.length = row.length := by
        rw [List.length_tail]
        omega
      have hcapture : ∀ c ∈ row, Match.capture? ⟨0, t.pos, t.captures⟩ c.group = some c := by
        intro c hc
        rw [Match.capture?, hcaptures]
        exact hrow.find?_reverse hc
      obtain ⟨tokens, htokens⟩ := exists_groupTokens base
        (scopes ++ (rule.scopes.headD none).toList) hrow hcapture htail
      rw [matchTokens]
      split
      · rfl
      · rw [htokens]
        rfl

/-! ### Scans -/

/-- The rules of all contexts. -/
def rules (g : Grammar) : List Rule := g.contexts.flatMap (·.rules)

theorem firstMatch_eq_some {rules : List Rule} {text : List Char} {rule : Rule} {m : Match}
    (h : firstMatch rules text = some (rule, m)) :
    rule ∈ rules ∧ rule.pattern.match? text = some m := by
  induction rules with
  | nil => cases h
  | cons r rules ih =>
    rw [firstMatch] at h
    split at h
    · next hm =>
      obtain ⟨rfl, rfl⟩ := Prod.mk.inj (Option.some.inj h)
      exact ⟨List.mem_cons_self, hm⟩
    · exact (ih h).imp_left (List.mem_cons_of_mem r)

/-- The rules that a scan tries in a state. -/
def rulesIn (g : Grammar) (s : Stacks) : List Rule := ((g.currentContext s).map (·.rules)).getD []

theorem mem_rules_of_mem_rulesIn {g : Grammar} {s : Stacks} {rule : Rule}
    (h : rule ∈ g.rulesIn s) : rule ∈ g.rules := by
  rw [rulesIn] at h
  rcases hcontext : g.currentContext s with _ | context
  · rw [hcontext] at h
    cases h
  · rw [hcontext] at h
    exact List.mem_flatMap.2 ⟨context, List.mem_of_getElem? hcontext, h⟩

section Scan

variable {g : Grammar} {st : ScanState} {offset : Nat} {pending : List Char} {out : Array Token}
  {c : Char} {cs : List Char}

theorem scanFrom_of_unmatched (h : firstMatch (g.rulesIn st.current) (c :: cs) = none) :
    g.scanFrom st offset pending out (c :: cs) =
      g.scanFrom st (offset + c.utf8Size) (c :: pending) out cs := by
  rw [rulesIn] at h
  rw [scanFrom]
  dsimp only
  rw [h]

theorem scanFrom_of_match {rule : Rule} {m : Match} {tokens : List Token}
    (h : firstMatch (g.rulesIn st.current) (c :: cs) = some (rule, m)) (hstop : 0 < m.stop)
    (htokens : matchTokens offset (c :: cs) st.current.scopes.reverse rule m = some tokens) :
    g.scanFrom st offset pending out (c :: cs) =
      g.scanFrom (g.applyRule st rule) (offset + Text.byteSize ((c :: cs).take m.stop)) []
        (out ++ g.unmatchedToken st.current.scopes.reverse offset pending ++ tokens)
        ((c :: cs).drop m.stop) := by
  rw [rulesIn] at h
  rw [scanFrom]
  dsimp only
  rw [h]
  dsimp only
  rw [dif_neg (Nat.ne_of_gt hstop), htokens]

/-- What the first step of a scan that does not fail can be. -/
theorem step_of_scanFrom_ok {result : Array Token}
    (h : g.scanFrom st offset pending out (c :: cs) = .ok result) :
    (firstMatch (g.rulesIn st.current) (c :: cs) = none) ∨
      ∃ rule m tokens, firstMatch (g.rulesIn st.current) (c :: cs) = some (rule, m) ∧
        0 < m.stop ∧
        matchTokens offset (c :: cs) st.current.scopes.reverse rule m = some tokens := by
  rcases hfirst : firstMatch (g.rulesIn st.current) (c :: cs) with _ | ⟨rule, m⟩
  · exact .inl rfl
  · rw [rulesIn] at hfirst
    rw [scanFrom] at h
    dsimp only at h
    rw [hfirst] at h
    dsimp only at h
    split at h
    · cases h
    · next hstop =>
      rcases htokens : matchTokens offset (c :: cs) st.current.scopes.reverse rule m with
        _ | tokens
      · rw [htokens] at h
        cases h
      · exact .inr ⟨rule, m, tokens, rfl, Nat.pos_of_ne_zero hstop, htokens⟩

end Scan

/-- A scan with rules that keep the contract does not fail. -/
theorem exists_scanFrom_eq_ok {g : Grammar} (h : ∀ rule ∈ g.rules, rule.KeepsContract)
    (st : ScanState) (offset : Nat) (pending : List Char) (out : Array Token)
    (text : List Char) : ∃ tokens, g.scanFrom st offset pending out text = .ok tokens := by
  -- A match takes several characters off at once, so the induction is on the length.
  induction hn : text.length using Nat.strong_induction_on
    generalizing st offset pending out text with
  | _ n ih =>
    subst hn
    cases text with
    | nil =>
      rw [scanFrom]
      exact ⟨_, rfl⟩
    | cons c cs =>
      rcases hfirst : firstMatch (g.rulesIn st.current) (c :: cs) with _ | ⟨rule, m⟩
      · rw [scanFrom_of_unmatched hfirst]
        exact ih cs.length (Nat.lt_succ_self _) _ _ _ _ cs rfl
      · obtain ⟨hrule, hm⟩ := firstMatch_eq_some hfirst
        have hcontract := h rule (mem_rules_of_mem_rulesIn hrule)
        have hstop := hcontract.consumes _ m hm
        obtain ⟨tokens, htokens⟩ := Option.isSome_iff_exists.1
          (hcontract.covers _ m hm offset st.current.scopes.reverse)
        rw [scanFrom_of_match hfirst hstop htokens]
        refine ih _ ?_ _ _ _ _ _ rfl
        rw [List.length_drop, List.length_cons]
        omega

theorem tiles_unmatchedToken (g : Grammar) (scopes : List String) (offset : Nat)
    (pending : List Char) :
    Tiles offset pending.reverse
      (g.unmatchedToken scopes (offset + Text.byteSize pending) pending) := by
  rcases pending with _ | ⟨c, pending⟩
  · exact .nil offset
  · rw [unmatchedToken, if_neg (by simp), Nat.add_sub_cancel_right]
    exact .single (by simp) _ _

end Grammar

end HdlIndex
