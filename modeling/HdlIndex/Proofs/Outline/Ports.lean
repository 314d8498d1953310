import HdlIndex.Proofs.Grammar.Spelled
import HdlIndex.Proofs.Outline.Constructs
import HdlIndex.Proofs.Outline.Declarators
import HdlIndex.Proofs.Outline.Progress
import HdlIndex.Proofs.Outline.Tokens
import HdlIndex.Proofs.Text.Fields

/-! Lists of ports as they are written. A lone identifier is the name of a port and not its type, which
shows only behind its dimensions; what a port does not write of its type it takes over from the port in
front of it. Main statement: each port of a list is declared in its turn with the type it writes, with
none behind a mere direction, and otherwise with that of the port in front of it, and reading ends behind
the list. -/

namespace HdlIndex

open OutlineToken (InRole Word BracketBalanced)

namespace Declaration

/-- The keywords for data types. -/
def typeWords : List String :=
  ["logic", "bit", "reg", "byte", "shortint", "longint", "integer", "int", "time", "shortreal", "realtime",
    "real", "string", "chandle", "event", "void", "var"]

/-- A port: a direction, a keyword for its type, packed dimensions, and a name with what follows it. A
name is no keyword. -/
structure Port where
  direction : Option (InRole .direction)
  keyword : Option (Word .dataType typeWords)
  packed : List OutlineToken
  balanced : BracketBalanced (·.role = .bracketOpen) packed
  declarator : Declarator
  named : declarator.name.1.text ≠ "var"

namespace Port

/-- What the port writes of its type. -/
def typeTokens (p : Port) : List OutlineToken := (p.keyword.map (·.1)).toList ++ p.packed

def tokens (p : Port) : List OutlineToken :=
  (p.direction.map (·.1)).toList ++ (p.typeTokens ++ p.declarator.tokens)

/-- Where the first token starts. -/
def start (p : Port) : Nat := (p.tokens.head?.getD p.declarator.name.1).start

/-- The type as the port writes it, with single spaces for blanks. -/
def written? (doc : Document) (p : Port) : Option String :=
  p.typeTokens.head?.map fun first =>
    " ".intercalate (Text.fields (Text.slice doc.text first.start
      (p.typeTokens.getLast?.getD first).stop))

/-- The type of the port behind one with the type `inherited`. -/
def typeIn (doc : Document) (inherited : Option String) (p : Port) : Option String :=
  match p.written? doc, p.direction with
  | some type, _ => some type
  | none, some _ => none
  | none, none => inherited

/-- The symbol that is declared. -/
def symbol (doc : Document) (type : Option String) (p : Port) : Symbol :=
  p.declarator.symbol doc (.port type) p.start

end Port

/-- A list of ports in parentheses. All ports but the last one have a comma behind them; a list without a
last one is empty or ends with a comma. -/
structure PortList where
  opener : InRole .parenOpen
  ports : List (Port × InRole .comma)
  last : Option Port
  closer : InRole .parenClose

namespace PortList

def entryTokens (entry : Port × InRole .comma) : List OutlineToken := entry.1.tokens ++ [entry.2.1]

def tokens (l : PortList) : List OutlineToken :=
  l.opener.1 :: (l.ports.flatMap entryTokens ++ ((l.last.map Port.tokens).getD [] ++ [l.closer.1]))

/-- The symbols of ports behind one with the type `inherited`. -/
def symbolsFrom (doc : Document) : (inherited : Option String) → List Port → List Symbol
  | _, [] => []
  | inherited, p :: ports =>
    p.symbol doc (p.typeIn doc inherited) :: symbolsFrom doc (p.typeIn doc inherited) ports

/-- The symbols that the list declares. -/
def symbols (l : PortList) (doc : Document) : List Symbol :=
  symbolsFrom doc none (l.ports.map (·.1) ++ l.last.toList)

end PortList

end Declaration

namespace Text

variable {piece text : String} {start stop : Nat} {c : Char}

/-- A part of a text starts with the piece that stands there. -/
theorem Occurs.head?_slice (h : Occurs piece text start) (hc : piece.toList.head? = some c)
    (hstop : start + piece.utf8ByteSize ≤ stop) : (slice text start stop).toList.head? = some c := by
  obtain ⟨before, behind, rfl, rfl⟩ := h
  obtain ⟨cs, hpiece⟩ := List.head?_eq_some_iff.1 hc
  rw [← byteSize_toList piece, hpiece, byteSize] at hstop
  rw [slice, String.toList_ofList, String.append_assoc, String.toList_append, ← byteSize_toList before,
    dropBytes_append, String.toList_append, hpiece, List.cons_append, takeBytes, if_pos]
  · rfl
  · rw [byteSize_toList]
    omega

end Text

namespace OutlineToken

variable {text : String} {t : OutlineToken}

/-- A token that is no string literal stands in the text where its extent says. -/
theorem occurs_significant (ht : t ∈ significant (Grammar.structural.tokenize text))
    (h : t.role ≠ .string) :
    Text.Occurs t.text text t.start ∧ t.stop = t.start + t.text.utf8ByteSize := by
  have htiling := (Grammar.tiling_tokenize_ofDefs Grammar.areTidy_structural text none).2
  obtain ⟨piece, hpiece, rfl⟩ := (isRead_significant t ht).resolve_left h
  exact ⟨htiling.occurs hpiece, rfl⟩

/-- What plays the part of an opening bracket is no word that the reading of types looks for. -/
theorem text_not_mem_of_isOpen (ht : t ∈ significant (Grammar.structural.tokenize text))
    (h : t.isOpen = true) : t.text ∉ ["var", "interface", "type"] := by
  intro hword
  have hmisleads : t.misleads = true :=
    Bool.or_eq_true_iff.2 (.inr (Bool.and_eq_true_iff.2 ⟨h, List.contains_iff_mem.2 hword⟩))
  have hend := isRegionEnd_of_misleads ht hmisleads
  rw [isRegionEnd_of_isOpen h] at hend
  cases hend

end OutlineToken

namespace Cursor

open Declaration

variable {c d e : Cursor} {t : OutlineToken} {rest packed : List OutlineToken}

/-- Whether the tokens from a place on are the last ones of a document. -/
structure StandsIn (c : Cursor) (doc : Document) : Prop where
  inOrder : c.InOrder doc.text.utf8ByteSize
  subset : c.rest ⊆ OutlineToken.significant (Grammar.structural.tokenize doc.text)

theorem StandsIn.ahead {doc : Document} (h : c.StandsIn doc) (hd : c.Ahead d) : d.StandsIn doc := by
  refine ⟨h.inOrder.ahead hd, ?_⟩
  obtain ⟨tokens, htokens⟩ := hd
  exact fun t ht => h.subset (htokens.rest ▸ List.mem_append_right _ ht)

/-- Behind the first of them, the last tokens of a document stand in order. -/
theorem standsIn_bump {doc : Document}
    (hdoc : c.rest <:+ OutlineToken.significant (Grammar.structural.tokenize doc.text))
    (hrest : c.rest = t :: rest) : c.bump.StandsIn doc := by
  obtain ⟨front, hfront⟩ := hdoc
  have horder := OutlineToken.inOrder_significant doc.text
  rw [← hfront, hrest] at horder
  rw [bump_eq hrest]
  exact ⟨horder.cut.2.2.2, fun u hu => hfront ▸
    List.mem_append_right _ (hrest ▸ List.mem_cons_of_mem _ hu)⟩

/-! ### Types in front of a name -/

theorem role_of_dimensions (h : BracketBalanced (·.role = .bracketOpen) (t :: rest)) :
    t.role = .bracketOpen := by
  cases h with
  | token _ _ ht _ => exact ht
  | group _ ht _ _ _ _ => exact ht

theorem skipPackedDimensions_of_balanced (h : BracketBalanced (·.role = .bracketOpen) packed)
    (hreads : c.Reads packed d) (hrest : d.rest = t :: rest) (ht : t.role = .identifier) :
    c.skipPackedDimensions = d := by
  rw [skipPackedDimensions, skipUntil_of_balanced h (by simp +contextual) hreads,
    skipUntil_of_stop hrest (by simp [OutlineToken.isTypeQualifier, ht])]

/-- What stands behind a name: dimensions, a value or the token behind the declarator. -/
theorem exists_behind (n : Declarator) (hreads : c.Reads n.behind d) (hrest : d.rest = t :: rest)
    (ht : IsBehind t) :
    ∃ u more, c.rest = u :: more ∧ (u.role = .bracketOpen ∨ u.role = .equals ∨ IsBehind u) := by
  obtain ⟨e, hdimensions, hvalue⟩ := hreads.split
  cases hbrackets : n.dimensions with
  | cons u brackets =>
    have hu := role_of_dimensions (hbrackets ▸ n.balanced)
    exact ⟨u, _, hdimensions.rest.trans (by rw [hbrackets, List.cons_append]), .inl hu⟩
  | nil =>
    rw [hbrackets] at hdimensions
    obtain rfl := hdimensions.eq
    cases hinit : n.initializer with
    | none =>
      rw [hinit] at hvalue
      obtain rfl := Reads.eq hvalue
      exact ⟨t, rest, hrest, .inr (.inr ht)⟩
    | some i =>
      rw [hinit] at hvalue
      exact ⟨i.sign.1, _, (Reads.cons hvalue).1, .inr (.inl i.sign.2)⟩

/-- No identifier stands behind the dimensions of a name. -/
theorem is_identifier_skipDimensions (n : Declarator) (hreads : c.Reads n.behind d)
    (hrest : d.rest = t :: rest) (ht : IsBehind t) : c.skipDimensions.is .identifier = false := by
  obtain ⟨e, hskip, hvalue⟩ := exists_skipDimensions_eq n hreads hrest ht
  rw [hskip]
  cases hinit : n.initializer with
  | none =>
    rw [hinit] at hvalue
    obtain rfl := Reads.eq hvalue
    rcases ht with ht | ht | ht <;> simp [is, nextIs, hrest, ht]
  | some i =>
    rw [hinit] at hvalue
    simp [is, nextIs, (Reads.cons hvalue).1, i.sign.2]

/-- The name of a port is not its type: where the name is looked at as a reference to a type, no name
follows. -/
theorem skipTypeName_of_name (n : Declarator) (hreads : c.Reads n.tokens d) (hrest : d.rest = t :: rest)
    (ht : IsBehind t) : c.skipTypeName = c := by
  obtain ⟨hname, hbehind⟩ := Reads.cons hreads
  have hrole := n.name.2
  obtain ⟨u, more, hu, hurole⟩ := exists_behind n hbehind hrest ht
  have hpackages : c.skipPackages = c := by
    rw [skipPackages, hname, iterate, if_neg (by simp [is, nextIs, hname, hrole])]
  have hidentifier : c.is .identifier = true := by simp [is, nextIs, hname, hrole]
  have hreference : c.skipTypeReference = c.bump := by
    have hnext : c.bump.is .hash = false ∧ c.bump.is .scopeResolution = false ∧
        c.bump.is .dot = false := by
      rcases hurole with h | h | h | h | h <;> simp [is, nextIs, hu, h]
    obtain ⟨hhash, hscope, hdot⟩ := hnext
    rw [skipTypeReference, hname, skipTypePath, hpackages]
    simp [hidentifier, hhash, hscope, hdot, skipModport]
  have hdata : c.is .dataType = false := by simp [is, nextIs, hname, hrole]
  have hpackage : c.is .packageName = false := by simp [is, nextIs, hname, hrole]
  have hunnamed := is_identifier_skipDimensions n hbehind hrest ht
  rw [skipTypeName, hreference]
  simp [hdata, hpackage, hidentifier, hunnamed]

/-- Without a keyword no name of a type is read in front of the packed dimensions. -/
theorem skipTypeName_of_packed (hpacked : BracketBalanced (·.role = .bracketOpen) packed)
    (hwords : ∀ u ∈ packed, u.isOpen = true → u.text ∉ ["var", "interface", "type"]) (n : Declarator)
    (hnamed : n.name.1.text ≠ "var") (hreads : c.Reads packed e) (hname : e.Reads n.tokens d)
    (hrest : d.rest = t :: rest) (ht : IsBehind t) :
    c.skipTypeName = c ∧ ∃ u more, c.rest = u :: more ∧ u.text ≠ "var" ∧
      (u.role = .bracketOpen ∨ u.role = .identifier) := by
  cases packed with
  | nil =>
    obtain rfl := hreads.eq
    exact ⟨skipTypeName_of_name n hname hrest ht, _, _, (Reads.cons hname).1, hnamed, .inr n.name.2⟩
  | cons u packed =>
    have hu := role_of_dimensions hpacked
    have hopen : u.isOpen = true := by simp [OutlineToken.isOpen, hu]
    have htext := hwords u List.mem_cons_self hopen
    simp only [List.mem_cons, List.not_mem_nil, or_false, not_or] at htext
    refine ⟨?_, u, _, hreads.rest, htext.1, .inl hu⟩
    simp [skipTypeName, is, isText, nextIs, hreads.rest, hu, htext]

/-- Of what stands in front of a type, only the word `var` is read here. -/
theorem skipTypeLead_eq (hrest : c.rest = t :: rest)
    (ht : t.role = .bracketOpen ∨ t.role = .identifier ∨ t.role = .dataType) (hvar : t.text ≠ "var") :
    c.skipTypeLead = c := by
  have heat : c.eatText "var" = c := if_neg (by simp [isText, nextIs, hrest, hvar])
  have hnet : c.is .netType = false := by
    rcases ht with ht | ht | ht <;> simp [is, nextIs, hrest, ht]
  rw [skipTypeLead, heat]
  dsimp only
  rw [hnet, if_neg Bool.false_ne_true]
  refine skipWhile_eq (.refl c) (by simp) ?_
  rcases ht with ht | ht | ht <;> simp [nextIs, hrest, OutlineToken.isTypeQualifier, ht]

/-- What a port writes of its type is read, up to its name. -/
theorem skipType_eq (p : Port) (hwords : ∀ u ∈ p.packed, u.isOpen = true →
      u.text ∉ ["var", "interface", "type"])
    (hreads : c.Reads p.typeTokens e) (hname : e.Reads p.declarator.tokens d)
    (hrest : d.rest = t :: rest) (ht : IsBehind t) :
    c.skipTypeLead.is .aggregate = false ∧ c.skipTypeLead.is .enumeration = false ∧
      c.skipTypeLead.skipTypeName.skipPackedDimensions = e := by
  have hpacked {c : Cursor} (hc : c.Reads p.packed e) : c.skipPackedDimensions = e :=
    skipPackedDimensions_of_balanced p.balanced hc (Reads.cons hname).1 p.declarator.name.2
  have huntyped {c : Cursor} (hc : c.Reads p.packed e) :=
    skipTypeName_of_packed p.balanced hwords p.declarator p.named hc hname hrest ht
  rw [Port.typeTokens] at hreads
  cases hkeyword : p.keyword with
  | none =>
    rw [hkeyword] at hreads
    obtain ⟨hskip, u, more, hu, hvar, hrole⟩ := huntyped hreads
    have hlead : c.skipTypeLead = c := skipTypeLead_eq hu (by tauto) hvar
    rw [hlead, hskip, hpacked hreads]
    rcases hrole with hrole | hrole <;> simp [is, nextIs, hu, hrole]
  | some k =>
    rw [hkeyword] at hreads
    obtain ⟨hk, hbehind⟩ := Reads.cons hreads
    obtain ⟨hskip, u, more, hu, hvar, hrole⟩ := huntyped hbehind
    by_cases hkvar : k.1.text = "var"
    · -- The word stands in front of a type that is not written.
      have hlead : c.skipTypeLead = c.bump := by
        have heat : c.eatText "var" = c.bump := if_pos (by simp [isText, nextIs, hk, hkvar])
        have hnext : c.bump.eatText "var" = c.bump := if_neg (by simp [isText, nextIs, hu, hvar])
        rw [← skipTypeLead_eq hu (by tauto) hvar, skipTypeLead, skipTypeLead, heat, hnext]
      rw [hlead, hskip, hpacked hbehind]
      rcases hrole with hrole | hrole <;> simp [is, nextIs, hu, hrole]
    · have hlead : c.skipTypeLead = c := skipTypeLead_eq hk (by simp [k.2.1]) hkvar
      have hbump : c.skipTypeName = c.bump := if_pos (by simp [is, nextIs, hk, k.2.1])
      rw [hlead, hbump, hpacked hbehind]
      simp [is, nextIs, hk, k.2.1]

theorem InOrder.stop_le_nextStart {size : Nat} (h : c.InOrder size) : c.stop ≤ c.nextStart := by
  rw [nextStart]
  split
  · exact Nat.le_refl _
  · next hrest =>
    rw [InOrder, hrest] at h
    exact h.1

end Cursor

namespace Declaration.Port

variable {doc : Document} {p : Port} {first : OutlineToken}

/-- The first token of a type that is written does not start with a blank. -/
theorem exists_head (hfirst : p.typeTokens.head? = some first)
    (hmem : first ∈ OutlineToken.significant (Grammar.structural.tokenize doc.text)) :
    first.role ≠ .string ∧ ∃ c, first.text.toList.head? = some c ∧ Text.isBlank c = false := by
  rw [typeTokens] at hfirst
  cases hkeyword : p.keyword with
  | some k =>
    rw [hkeyword] at hfirst
    obtain rfl := Option.some.inj hfirst
    have hwords : typeWords.all fun word => word.toList.head?.any (!Text.isBlank ·) := by decide
    obtain ⟨c, hc, hblank⟩ :=
      (Option.any_eq_true _ _).1 (List.all_eq_true.1 hwords _ k.2.2)
    exact ⟨by simp [k.2.1], c, hc, by simpa using hblank⟩
  | none =>
    rw [hkeyword, Option.map_none, Option.toList_none, List.nil_append] at hfirst
    obtain ⟨others, hpacked⟩ := List.head?_eq_some_iff.1 hfirst
    have hrole : first.role = .bracketOpen := Cursor.role_of_dimensions (hpacked ▸ p.balanced)
    have hbrackets : ['(', '[', '\x7b'].all (!Text.isBlank ·) := by decide
    obtain ⟨c, hc, hhead⟩ :=
      OutlineToken.head?_of_isOpen hmem (by simp [OutlineToken.isOpen, hrole])
    exact ⟨by simp [hrole], c, hhead, by simpa using List.all_eq_true.1 hbrackets c hc⟩

/-- A port without a direction starts with its type or its name. -/
theorem exists_first (p : Port) : ∃ u more, p.typeTokens ++ p.declarator.tokens = u :: more ∧
    (u.role = .dataType ∨ u.role = .bracketOpen ∨ u.role = .identifier) := by
  rw [typeTokens]
  cases p.keyword with
  | some k => exact ⟨k.1, _, rfl, .inl k.2.1⟩
  | none =>
    cases hpacked : p.packed with
    | nil => exact ⟨p.declarator.name.1, _, rfl, .inr (.inr p.declarator.name.2)⟩
    | cons u packed =>
      exact ⟨u, _, rfl, .inr (.inl (Cursor.role_of_dimensions (hpacked ▸ p.balanced)))⟩

theorem tokens_ne_nil (p : Port) : p.tokens ≠ [] := by
  simp [tokens, Declarator.tokens]

end Declaration.Port

namespace Reading

open Declaration Cursor

variable {doc : Document} {c d e : Cursor} {t : OutlineToken} {rest : List OutlineToken}

/-- The text that is read of a type is there exactly if a token of the type is. -/
theorem nonEmpty_textBetween (p : Port) (hstands : c.StandsIn doc) (hreads : c.Reads p.typeTokens e) :
    nonEmpty (doc.textBetween c e) = p.written? doc := by
  cases htype : p.typeTokens with
  | nil =>
    rw [htype] at hreads
    obtain rfl := hreads.eq
    rw [textBetween_self hstands.inOrder.stop_le_nextStart, Port.written?, htype]
    rfl
  | cons first others =>
    have hrest : c.rest = first :: (others ++ e.rest) := by rw [hreads.rest, htype, List.cons_append]
    have hmem := hstands.subset (hrest ▸ List.mem_cons_self)
    obtain ⟨hrole, char, hhead, hblank⟩ :=
      Port.exists_head (p := p) (by rw [htype]; rfl) hmem
    obtain ⟨hoccurs, hsize⟩ := OutlineToken.occurs_significant hmem hrole
    have hstart : c.nextStart = first.start := by rw [nextStart, hrest]
    have hstop : first.stop ≤ e.stop := by
      have hbetween := hstands.inOrder.between ⟨_, hreads, htype ▸ List.mem_cons_self⟩
      exact hbetween.2.2
    have hslice := hoccurs.head?_slice hhead (hsize ▸ hstop)
    have htext : doc.textBetween c e ≠ "" := by
      have hinfix : [char] <:+: (Text.slice doc.text first.start e.stop).toList := by
        obtain ⟨more, hmore⟩ := List.head?_eq_some_iff.1 hslice
        exact ⟨[], more, hmore.symm⟩
      have hjoin := Text.infix_join_fields (by simpa using hblank) (List.cons_ne_nil _ _) hinfix " "
      intro hempty
      rw [Document.textBetween, hstart] at hempty
      rw [hempty] at hjoin
      simp at hjoin
    have hlast : e.stop = (p.typeTokens.getLast?.getD first).stop := by
      rw [hreads.stop, htype, List.getLast?_cons]
      rfl
    rw [nonEmpty, if_neg (by simpa using htext), Port.written?, Document.textBetween, hstart, hlast, htype]
    rfl

theorem dataType_port (p : Port) (r : Reading) (hstands : r.cursor.StandsIn doc)
    (hreads : r.cursor.Reads p.typeTokens e) (hname : e.Reads p.declarator.tokens d)
    (hrest : d.rest = t :: rest) (ht : IsBehind t) :
    r.dataType doc = (doc.textBetween r.cursor e, { r with cursor := e }) := by
  have hwords : ∀ u ∈ p.packed, u.isOpen = true → u.text ∉ ["var", "interface", "type"] := by
    intro u hu hopen
    have hmem : u ∈ r.cursor.rest := by
      rw [hreads.rest, Port.typeTokens]
      exact List.mem_append_left _ (List.mem_append_right _ hu)
    exact OutlineToken.text_not_mem_of_isOpen (hstands.subset hmem) hopen
  obtain ⟨haggregate, henumeration, hskip⟩ := skipType_eq p hwords hreads hname hrest ht
  rw [dataType_eq, dataTypeWith]
  simp only [move, is, haggregate, henumeration, hskip, Bool.or_self, Bool.false_eq_true, if_false]

/-- The direction of a port is read, if it has one. -/
theorem eat_direction (p : Port) (hreads : c.Reads p.tokens d) :
    c.is .direction = p.direction.isSome ∧
      ∃ e, c.eat .direction = e ∧ e.Reads (p.typeTokens ++ p.declarator.tokens) d := by
  rw [Port.tokens] at hreads
  cases hdirection : p.direction with
  | some direction =>
    rw [hdirection] at hreads
    obtain ⟨hrest, hbump⟩ := Reads.cons hreads
    have his : c.is .direction = true := by simp [Cursor.is, nextIs, hrest, direction.2]
    exact ⟨his, c.bump, if_pos his, hbump⟩
  | none =>
    rw [hdirection] at hreads
    have his : c.is .direction = false := by
      obtain ⟨u, more, hu, hrole⟩ := p.exists_first
      have hrest : c.rest = u :: (more ++ d.rest) := by rw [← List.cons_append, ← hu]; exact hreads.rest
      rcases hrole with h | h | h <;> simp [Cursor.is, nextIs, hrest, h]
    exact ⟨his, c, if_neg (by simp [his]), hreads⟩

/-- A list goes on with a port. -/
theorem nextIs_listGoesOn (p : Port) (hreads : c.Reads p.tokens d) : c.nextIs listGoesOn = true := by
  obtain ⟨u, more, hu, hrole⟩ := p.exists_first
  have hrest := hreads.rest
  rw [Port.tokens, hu] at hrest
  cases hdirection : p.direction with
  | some direction =>
    rw [hdirection] at hrest
    simp [nextIs, hrest, listGoesOn, OutlineToken.isRegionEnd, direction.2]
  | none =>
    rw [hdirection] at hrest
    rcases hrole with h | h | h <;> simp [nextIs, hrest, listGoesOn, OutlineToken.isRegionEnd, h]

/-- The type that is handed on behind a port, from the text that was read of its type. -/
theorem typeIn_eq (p : Port) (inherited : Option String) {written : String}
    (h : nonEmpty written = p.written? doc) :
    (if p.direction.isSome || !written.isEmpty then nonEmpty written else inherited) =
      p.typeIn doc inherited := by
  rw [Port.typeIn, ← h, nonEmpty]
  cases written.isEmpty <;> cases p.direction <;> rfl

/-- A port is declared with the type it writes or takes over, and reading goes on behind its comma. -/
theorem portEntry_port (p : Port) (inherited : Option String) (r : Reading)
    (hstands : r.cursor.StandsIn doc) (hreads : r.cursor.Reads p.tokens d) (hrest : d.rest = t :: rest)
    (ht : t.role = .comma ∨ t.role = .parenClose) :
    portEntry doc inherited r = (p.typeIn doc inherited,
      { r with
        cursor := d.eat .comma
        table := (r.table.addSymbol r.scope (p.symbol doc (p.typeIn doc inherited))).1 }) := by
  have hbehind : IsBehind t := ht.imp_right .inr
  obtain ⟨hdirected, e, heat, htyped⟩ := eat_direction p hreads
  obtain ⟨f, htype, hname⟩ := htyped.split
  have hahead : r.cursor.Ahead e := heat ▸ (Ahead.refl _).eat _
  have hdata := dataType_port p { r with cursor := e } (hstands.ahead hahead) htype hname hrest hbehind
  have htypeIn := typeIn_eq p inherited (nonEmpty_textBetween p (hstands.ahead hahead) htype)
  have hfrest := (Reads.cons hname).1
  have hnodot : f.is .dot = false := by simp [Cursor.is, nextIs, hfrest, p.declarator.name.2]
  have hdot : f.eat .dot = f := if_neg (by simp [hnodot])
  have hbump : f.eat .identifier = f.bump :=
    if_pos (by simp [Cursor.is, nextIs, hfrest, p.declarator.name.2])
  have hfound : f.identifier? = some p.declarator.name.1 := by
    simp [identifier?, hfrest, p.declarator.name.2]
  have hstart : r.cursor.nextStart = p.start := by
    obtain ⟨u, more, hu⟩ := List.exists_cons_of_ne_nil p.tokens_ne_nil
    rw [nextStart, hreads.rest, Port.start, hu]
    rfl
  have hdeclare := declare_declarator p.declarator doc (.port (p.typeIn doc inherited)) p.start
    { r with cursor := f } hname hrest hbehind
  have hstop : d.skipExpression = d := by
    refine skipUntil_of_stop hrest ?_
    rcases ht with ht | ht <;> simp [OutlineToken.isClose, ht]
  have hpos : (d.eat .comma).pos ≠ r.cursor.pos := by
    have hlength := List.length_pos_iff.2 p.tokens_ne_nil
    have hread := hreads.pos
    obtain ⟨more, hmore⟩ := (Ahead.refl d).eat .comma
    have heaten := hmore.pos
    omega
  rw [portEntry, Reading.eat, move, heat, hdata]
  simp only [is, hdirected, htypeIn, hnodot, Reading.eat, move, hdot, hfound, hbump, hstart,
    Bool.false_eq_true, if_false]
  simp only [Reading.bump, move] at hdeclare
  rw [hdeclare]
  simp only [hstop]
  rw [bumpIfAt, if_neg hpos, Port.symbol]
  rfl

/-- Ports are declared one after another, up to the parenthesis behind them. The induction is on the
ports with a comma; the type that is handed on and what was declared before are arbitrary. -/
theorem ends_stepPort (doc : Document) (ports : List (Port × InRole .comma)) (last : Option Port)
    (inherited : Option String) (r : Reading) (hstands : r.cursor.StandsIn doc)
    (hreads : r.cursor.Reads
      (ports.flatMap PortList.entryTokens ++ (last.map Port.tokens).getD []) d)
    (hrest : d.rest = t :: rest) (ht : t.role = .parenClose) :
    ∃ type, Ends (stepPort doc) (inherited, r) (type,
      { r with
        cursor := d
        table := (PortList.symbolsFrom doc inherited (ports.map (·.1) ++ last.toList)).foldl
          (fun table s => (table.addSymbol r.scope s).1) r.table }) := by
  have hstep (p : Port) (inherited : Option String) {r : Reading} {d : Cursor} {t : OutlineToken}
      {rest : List OutlineToken} (hstands : r.cursor.StandsIn doc) (hreads : r.cursor.Reads p.tokens d)
      (hrest : d.rest = t :: rest) (ht : t.role = .comma ∨ t.role = .parenClose) :
      stepPort doc (inherited, r) = some (p.typeIn doc inherited,
        { r with
          cursor := d.eat .comma
          table := (r.table.addSymbol r.scope (p.symbol doc (p.typeIn doc inherited))).1 }) := by
    rw [stepPort, if_pos (nextIs_listGoesOn p hreads), portEntry_port p inherited r hstands hreads hrest ht]
  have hend : d.nextIs listGoesOn = false := by simp [nextIs, hrest, listGoesOn, ht]
  induction ports generalizing inherited r with
  | nil =>
    cases last with
    | none =>
      obtain rfl := Reads.eq hreads
      exact ⟨inherited, .stop (if_neg (by simp [hend]))⟩
    | some p =>
      have hcomma : d.eat .comma = d := if_neg (by simp [Cursor.is, nextIs, hrest, ht])
      have hport := hstep p inherited hstands hreads hrest (.inr ht)
      rw [hcomma] at hport
      exact ⟨_, .step hport (.stop (if_neg (by simp [hend])))⟩
  | cons entry ports ih =>
    rw [List.flatMap_cons, List.append_assoc, PortList.entryTokens, List.append_assoc,
      List.singleton_append] at hreads
    obtain ⟨e, hport, hothers⟩ := hreads.split
    obtain ⟨herest, hbump⟩ := Reads.cons hothers
    have hcomma : e.eat .comma = e.bump := if_pos (by simp [Cursor.is, nextIs, herest, entry.2.2])
    have hnext := hstep entry.1 inherited hstands hport herest (.inl entry.2.2)
    rw [hcomma] at hnext
    have hahead : r.cursor.Ahead e.bump := Ahead.bump ⟨_, hport⟩
    let type := entry.1.typeIn doc inherited
    let next : Reading := { r with
      cursor := e.bump
      table := (r.table.addSymbol r.scope (entry.1.symbol doc type)).1 }
    obtain ⟨handed, hends⟩ := ih type next (hstands.ahead hahead) hbump
    exact ⟨handed, .step hnext hends⟩

/-- A list of ports is read exactly: its ports are declared in the scope that is open, in their order, each
with its type, and reading ends behind the closing parenthesis. Nothing else of the reading changes. -/
theorem portList_eq (l : PortList) (doc : Document) (r : Reading)
    (hdoc : r.cursor.rest <:+ OutlineToken.significant (Grammar.structural.tokenize doc.text))
    (h : r.cursor.Reads l.tokens d) :
    r.portList doc =
      { r with
        cursor := d
        table := (l.symbols doc).foldl (fun table s => (table.addSymbol r.scope s).1) r.table } := by
  obtain ⟨hrest, hbump⟩ := Reads.cons h
  rw [← List.append_assoc] at hbump
  obtain ⟨e, hports, hend⟩ := hbump.split
  obtain ⟨hcloser, hbehind⟩ := hend.cons
  have hstands : r.cursor.bump.StandsIn doc := standsIn_bump hdoc hrest
  obtain ⟨type, hends⟩ := ends_stepPort doc l.ports l.last none r.bump hstands hports hcloser l.closer.2
  obtain ⟨p, hp, hlist⟩ := (getsOn doc).portList r
  have hclose : e.eat .parenClose = d :=
    (if_pos (by simp [Cursor.is, nextIs, hcloser, l.closer.2])).trans hbehind.eq
  rw [hlist, hp.unique hends, Reading.eat, move, hclose]
  rfl

/-! ### Two lists -/

/-- A list with a semicolon in a value, and one in which a type is handed on. -/
def twoLists : Document where
  origins := default
  text := "(input a=c;d,b)(var[n]x,y[k]=f(u,v),ref z)"

def semicolonValue : List OutlineToken :=
  [⟨"c", .identifier, 9, 10⟩, ⟨";", .semicolon, 10, 11⟩, ⟨"d", .identifier, 11, 12⟩]

/-- `(input a=c;d,b)`. -/
def semicolonList : List OutlineToken :=
  [⟨"(", .parenOpen, 0, 1⟩, ⟨"input", .direction, 1, 6⟩, ⟨"a", .identifier, 7, 8⟩, ⟨"=", .equals, 8, 9⟩] ++
    semicolonValue ++ [⟨",", .comma, 12, 13⟩, ⟨"b", .identifier, 13, 14⟩, ⟨")", .parenClose, 14, 15⟩]

/-- No dimensions. -/
theorem balanced_nil : BracketBalanced (·.role = .bracketOpen) [] := .nil

/-- `(var[n]x,y[k]=f(u,v),ref z)`. -/
def handedOn : PortList where
  opener := ⟨⟨"(", .parenOpen, 15, 16⟩, rfl⟩
  ports :=
    [(⟨none, some ⟨⟨"var", .dataType, 16, 19⟩, rfl, by decide⟩,
        ⟨"[", .bracketOpen, 19, 20⟩ ::
          ([⟨"n", .identifier, 20, 21⟩] ++ [⟨"]", .bracketClose, 21, 22⟩]),
        .group rfl rfl rfl rfl (.token rfl rfl trivial .nil) .nil,
        ⟨⟨⟨"x", .identifier, 22, 23⟩, rfl⟩, [], balanced_nil, none⟩, by decide⟩,
      ⟨⟨",", .comma, 23, 24⟩, rfl⟩),
    (⟨none, none, [], balanced_nil,
        ⟨⟨⟨"y", .identifier, 24, 25⟩, rfl⟩,
          ⟨"[", .bracketOpen, 25, 26⟩ ::
            ([⟨"k", .identifier, 26, 27⟩] ++ [⟨"]", .bracketClose, 27, 28⟩]),
          .group rfl rfl rfl rfl (.token rfl rfl trivial .nil) .nil,
          some ⟨⟨⟨"=", .equals, 28, 29⟩, rfl⟩,
            ⟨"f", .identifier, 29, 30⟩ :: ⟨"(", .parenOpen, 30, 31⟩ ::
              ([⟨"u", .identifier, 31, 32⟩, ⟨",", .comma, 32, 33⟩, ⟨"v", .identifier, 33, 34⟩] ++
                [⟨")", .parenClose, 34, 35⟩]),
            .token rfl rfl (by decide) (.group rfl (by decide) rfl rfl
              (.token rfl rfl trivial (.token rfl rfl trivial (.token rfl rfl trivial .nil))) .nil)⟩⟩,
        by decide⟩,
      ⟨⟨",", .comma, 35, 36⟩, rfl⟩)]
  last := some ⟨some ⟨⟨"ref", .direction, 36, 39⟩, rfl⟩, none, [], balanced_nil,
    ⟨⟨⟨"z", .identifier, 40, 41⟩, rfl⟩, [], balanced_nil, none⟩, by decide⟩
  closer := ⟨⟨")", .parenClose, 41, 42⟩, rfl⟩

theorem significant_twoLists :
    OutlineToken.significant (Grammar.structural.tokenize twoLists.text) =
      semicolonList ++ handedOn.tokens := by
  rw [Grammar.structural_eq_inPieces]
  decide +kernel

theorem portList_eq_handedOn :
    handedOn.tokens <:+ OutlineToken.significant (Grammar.structural.tokenize twoLists.text) ∧
      (start handedOn.tokens).Reads handedOn.tokens ⟨22, 42, []⟩ ∧
      Reading.portList twoLists ⟨start handedOn.tokens, .empty, [0], [], #[]⟩ =
        ⟨⟨22, 42, []⟩, (handedOn.symbols twoLists).foldl (fun table s => (table.addSymbol 0 s).1) .empty,
          [0], [], #[]⟩ := by
  have hdoc : handedOn.tokens <:+
      OutlineToken.significant (Grammar.structural.tokenize twoLists.text) :=
    ⟨semicolonList, significant_twoLists.symm⟩
  have hreads : (start handedOn.tokens).Reads handedOn.tokens ⟨22, 42, []⟩ := ⟨rfl, rfl, rfl⟩
  exact ⟨hdoc, hreads, portList_eq handedOn twoLists _ hdoc hreads⟩

/-- The second port takes over what the first one writes, and nothing comes behind a direction. -/
example : (handedOn.symbols twoLists).map (fun s => (s.name, s.kind)) =
    [("x", .port (some "var[n]")), ("y", .port (some "var[n]")), ("z", .port none)] := by
  decide

/-- A semicolon outside of brackets ends the reading of a list, also in the value of a port. -/
theorem portList_semicolonList_ne :
    (BracketBalanced (fun t => t.role ≠ .comma ∧ t.isRegionEnd = false) semicolonValue ∧
      semicolonList ++ handedOn.tokens <:+
        OutlineToken.significant (Grammar.structural.tokenize twoLists.text) ∧
      (start (semicolonList ++ handedOn.tokens)).Reads semicolonList ⟨10, 15, handedOn.tokens⟩) ∧
    let r := Reading.portList twoLists
      ⟨start (semicolonList ++ handedOn.tokens), .empty, [0], [], #[]⟩
    r.cursor ≠ ⟨10, 15, handedOn.tokens⟩ ∧ (r.table.scope 0).symbols.map (·.name) = ["a"] := by
  refine ⟨⟨?_, ⟨[], significant_twoLists.symm⟩, ⟨rfl, rfl, rfl⟩⟩, ?_⟩
  · exact .token rfl rfl (by decide) (.token rfl rfl (by decide) (.token rfl rfl (by decide) .nil))
  · decide

end Reading

end HdlIndex
