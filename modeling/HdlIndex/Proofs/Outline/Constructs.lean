import HdlIndex.Outline.Routine
import HdlIndex.Proofs.Outline.Procedure

/-! Constructs that are noted by name as they are written. The body is not read; its end is the first
keyword with the text that ends such a construct, and constructs of the same kind inside are not counted.
Main statement: a construct is read over from its keyword to its label, and only its own name is
declared, exactly if its body has no construct of the same kind. -/

namespace HdlIndex

open OutlineToken (InRole Word)
open Procedure (Label labelTokens)

namespace Construct

/-- The keywords that open a construct. -/
def words : List String :=
  ["class", "covergroup", "property", "sequence", "checker", "clocking", "specify", "config",
   "primitive"]

/-- What stands in the body of a construct, without regard to anything but the constructs in it. A
keyword that opens a construct may also stand alone. -/
inductive Body where
  | nil
  | token (t : OutlineToken) (endsNone : t.text ∉ words.map Reading.constructEnd) (rest : Body)
  | construct (keyword : Word .construct words) (body : Body) (closer : InRole .endConstruct)
      (closes : closer.1.text = Reading.constructEnd keyword.1.text) (rest : Body)

namespace Body

def tokens : Body → List OutlineToken
  | nil => []
  | token t _ rest => t :: rest.tokens
  | construct keyword body closer _ rest => keyword.1 :: (body.tokens ++ closer.1 :: rest.tokens)

/-- The keywords of the constructs inside, at any depth. -/
def keywords : Body → List String
  | nil => []
  | token _ _ rest => rest.keywords
  | construct keyword body _ _ rest => keyword.1.text :: (body.keywords ++ rest.keywords)

end Body

end Construct

/-- A construct from its keyword to its label. -/
structure Construct where
  keyword : Word .construct Construct.words
  modifiers : List (InRole .modifier)
  name : Option (InRole .identifier)
  body : Construct.Body
  closer : InRole .endConstruct
  closes : closer.1.text = Reading.constructEnd keyword.1.text
  label : Option Label
  /-- What follows in place of a name is not taken for one. -/
  unnamed : name = none → ∀ t ∈ body.tokens.head?, t.role ≠ .modifier ∧ t.role ≠ .identifier

namespace Construct

def nameTokens (k : Construct) : List OutlineToken := (k.name.map (·.1)).toList

def tokens (k : Construct) : List OutlineToken :=
  k.keyword.1 :: (k.modifiers.map (·.1) ++
    (k.nameTokens ++ (k.body.tokens ++ k.closer.1 :: labelTokens k.label)))

/-- The reading with the name of the construct declared, if there is one and constructs of this kind
are noted. -/
def noted (k : Construct) (doc : Document) (start : Nat) (r : Reading) : Reading :=
  match Reading.constructKind? k.keyword.1.text, k.name with
  | some kind, some name => r.declare doc name.1 kind start
  | _, _ => r

theorem cursor_noted (k : Construct) (doc : Document) (start : Nat) (r : Reading) :
    (k.noted doc start r).cursor = r.cursor := by
  unfold noted
  split <;> rfl

/-! ### End keywords -/

/-- Every kind of construct has an end keyword of its own, and no keyword opens one construct and ends
another. -/
theorem constructEnd_inj : ∀ word ∈ words, ∀ other ∈ words,
    Reading.constructEnd word = Reading.constructEnd other → word = other := by
  decide

theorem constructEnd_not_mem : ∀ word ∈ words, Reading.constructEnd word ∉ words := by
  decide

/-- The end keyword stands in a body if and only if a construct of the kind does. -/
theorem Body.exists_constructEnd_iff (body : Body) {word : String} (hword : word ∈ words) :
    (∃ t ∈ body.tokens, t.text = Reading.constructEnd word) ↔ word ∈ body.keywords := by
  induction body with
  | nil => simp [tokens, keywords]
  | token t endsNone rest ih =>
    have hne : t.text ≠ Reading.constructEnd word := by
      rintro heq
      exact endsNone (heq ▸ List.mem_map_of_mem hword)
    simp [tokens, keywords, hne, ih]
  | construct keyword body closer closes rest ihbody ihrest =>
    have hopener : keyword.1.text ≠ Reading.constructEnd word := by
      rintro heq
      exact constructEnd_not_mem word hword (heq ▸ keyword.2.2)
    have hcloser : closer.1.text = Reading.constructEnd word ↔ word = keyword.1.text := by
      rw [closes]
      constructor
      · intro heq
        exact (constructEnd_inj _ keyword.2.2 word hword heq).symm
      · rintro rfl
        rfl
    simp only [tokens, keywords, List.mem_cons, List.mem_append, ← ihbody, ← ihrest, ← hcloser]
    grind

end Construct

namespace Cursor

variable {c d : Cursor} {t : OutlineToken} {tokens more : List OutlineToken}

/-! ### Stretches of tokens that satisfy a test -/

theorem ends_skipWhile (test : OutlineToken → Bool) (c : Cursor) :
    Ends (fun c : Cursor => if c.nextIs test then some c.bump else none) c (c.skipWhile test) := by
  refine ends_iterate left ?_ c.rest c (Nat.le_refl _)
  intro d e he
  split at he
  · next hnext =>
    cases he
    refine left_bump_lt ?_
    rintro hnil
    simp [nextIs, hnil] at hnext
  · cases he

/-- Tokens that satisfy the test are read, and the next one that does not ends the stretch. -/
theorem skipWhile_eq {test : OutlineToken → Bool} (h : c.Reads tokens d)
    (htokens : ∀ t ∈ tokens, test t = true) (hstop : d.nextIs test = false) :
    c.skipWhile test = d := by
  refine (ends_skipWhile test c).unique ?_
  induction tokens generalizing c with
  | nil =>
    rw [h.eq]
    exact .stop (if_neg (by simp [hstop]))
  | cons t tokens ih =>
    obtain ⟨hrest, hbump⟩ := h.cons
    obtain ⟨hfirst, hothers⟩ := List.forall_mem_cons.1 htokens
    exact .step (if_pos (by simp [nextIs, hrest, hfirst])) (ih hbump hothers)

/-- A search ends behind the first token with the text. -/
theorem skipPast_eq {text : String} (h : c.Reads (tokens ++ [t]) d)
    (htokens : ∀ t ∈ tokens, t.text ≠ text) (ht : t.text = text) : c.skipPast text = d := by
  obtain ⟨e, he, hend⟩ := h.split
  obtain ⟨hrest, hbump⟩ := hend.cons
  have hskip : c.skipWhile (·.text != text) = e :=
    skipWhile_eq he (by simpa using htokens) (by simp [nextIs, hrest, ht])
  rw [skipPast, hskip]
  exact hbump.eq

theorem left_lt_of_reads (h : c.Reads (tokens ++ t :: more) d) : d.left < c.left := by
  rw [left, left, h.rest]
  simp only [List.length_append, List.length_cons]
  omega

/-- Reading a label leaves a token to be read that is in no label. -/
theorem left_lt_eatLabel (h : c.Reads (tokens ++ t :: more) d) (hcolon : t.role ≠ .colon)
    (hname : t.role ≠ .identifier) : d.left < c.eatLabel.left := by
  cases hlabel : c.label? with
  | none =>
    rw [eatLabel, hlabel]
    exact left_lt_of_reads h
  | some name =>
    rw [eatLabel, hlabel]
    -- A label is two tokens, and `t` is neither the first nor the second of them.
    rcases tokens with _ | ⟨u, _ | ⟨v, tokens⟩⟩
    · obtain ⟨hrest, -⟩ := Reads.cons h
      rw [label?_of_role hrest hcolon] at hlabel
      cases hlabel
    · obtain ⟨-, hbump⟩ := Reads.cons h
      obtain ⟨hrest, -⟩ := Reads.cons hbump
      have hnone : c.bump.identifier? = none := by simp [identifier?, hrest, hname]
      simp [label?, hnone] at hlabel
    · obtain ⟨-, hbump⟩ := Reads.cons h
      exact left_lt_of_reads (Reads.cons hbump).2

end Cursor

namespace Construct

open Cursor

variable {d : Cursor}

/-- What a construct is read as: its header up to the name, and then everything up to the end keyword
and a label. -/
theorem exists_construct_eq (k : Construct) (doc : Document) (start : Nat) (r : Reading)
    (h : r.cursor.Reads k.tokens d) :
    ∃ e : Cursor, e.Reads (k.body.tokens ++ k.closer.1 :: labelTokens k.label) d ∧
      r.construct doc start = k.noted doc start
        { r with cursor := (e.skipPast (Reading.constructEnd k.keyword.1.text)).eatLabel } := by
  obtain ⟨hrest, hbump⟩ := Reads.cons h
  obtain ⟨e, hmodifiers, hbehind⟩ := hbump.split
  have hnext : e.nextIs (·.role == .modifier) = false ∧ e.identifier? = k.name.map (·.1) ∧
      (e.eat .identifier).Reads (k.body.tokens ++ k.closer.1 :: labelTokens k.label) d := by
    cases hname : k.name with
    | some name =>
      rw [nameTokens, hname] at hbehind
      obtain ⟨hrest, hbump⟩ := Reads.cons hbehind
      refine ⟨by simp [nextIs, hrest, name.2], by simp [identifier?, hrest, name.2], ?_⟩
      rwa [eat, if_pos (by simp [is, nextIs, hrest, name.2])]
    | none =>
      rw [nameTokens, hname] at hbehind
      have hhead : ∃ t rest, e.rest = t :: rest ∧ t.role ≠ .modifier ∧ t.role ≠ .identifier := by
        cases hbody : k.body.tokens with
        | nil =>
          rw [hbody] at hbehind
          exact ⟨_, _, (Reads.cons hbehind).1, by simp [k.closer.2], by simp [k.closer.2]⟩
        | cons t rest =>
          rw [hbody] at hbehind
          have hfirst := k.unnamed hname t (by simp [hbody])
          exact ⟨t, _, (Reads.cons hbehind).1, hfirst⟩
      obtain ⟨t, rest, hrest, hmodifier, hidentifier⟩ := hhead
      refine ⟨by simp [nextIs, hrest, hmodifier], by simp [identifier?, hrest, hidentifier], ?_⟩
      rwa [eat, if_neg (by simp [is, nextIs, hrest, hidentifier])]
  obtain ⟨hmodifier, hidentifier, hbody⟩ := hnext
  refine ⟨e.eat .identifier, hbody, ?_⟩
  have hskip : r.cursor.bump.skipWhile (·.role == .modifier) = e :=
    skipWhile_eq hmodifiers (List.forall_mem_map.2 fun word _ => by simp [word.2]) hmodifier
  have hkeyword : r.cursor.nextText = k.keyword.1.text := by rw [nextText, hrest]
  simp only [Reading.construct, Reading.bump, Reading.move, Reading.eat, hskip, hkeyword, hidentifier,
    noted]
  cases Reading.constructKind? k.keyword.1.text <;> cases k.name <;> rfl

/-- A construct is skipped as a whole, and only its own name is declared, if and only if its body has no
construct of the same kind. Otherwise it ends at the end of the first one. -/
theorem construct_eq_iff (k : Construct) (doc : Document) (start : Nat) (r : Reading)
    (h : r.cursor.Reads k.tokens d) (hlabel : d.label? = none) :
    r.construct doc start = k.noted doc start { r with cursor := d } ↔
      k.keyword.1.text ∉ k.body.keywords := by
  obtain ⟨e, he, hconstruct⟩ := k.exists_construct_eq doc start r h
  have hbody := k.body.exists_constructEnd_iff k.keyword.2.2
  rw [hconstruct, ← hbody]
  constructor
  · rintro heq ⟨u, hu, htext⟩
    have hfound : (k.body.tokens.find? (·.text == Reading.constructEnd k.keyword.1.text)).isSome :=
      List.find?_isSome.2 ⟨u, hu, by simpa using htext⟩
    obtain ⟨t, ht⟩ := Option.isSome_iff_exists.1 hfound
    obtain ⟨hend, before, behind, hsplit, hbefore⟩ := List.find?_eq_some_iff_append.1 ht
    rw [hsplit, List.append_assoc, List.cons_append, ← List.singleton_append,
      ← List.append_assoc] at he
    obtain ⟨f, hf, hbehind⟩ := he.split
    have hskip : e.skipPast (Reading.constructEnd k.keyword.1.text) = f :=
      skipPast_eq hf (by simpa using hbefore) (by simpa using hend)
    -- The end keyword of the construct itself is still to be read.
    have hlt := left_lt_eatLabel hbehind (by simp [k.closer.2]) (by simp [k.closer.2])
    have hcursor := congrArg (·.cursor) heq
    simp only [cursor_noted, hskip] at hcursor
    rw [hcursor] at hlt
    exact absurd hlt (Nat.lt_irrefl _)
  · intro hnone
    rw [← List.singleton_append, ← List.append_assoc] at he
    obtain ⟨f, hf, hbehind⟩ := he.split
    have hskip : e.skipPast (Reading.constructEnd k.keyword.1.text) = f :=
      skipPast_eq hf (fun t ht htext => hnone ⟨t, ht, htext⟩) k.closes
    rw [hskip, eatLabel_tokens k.label hbehind hlabel]

/-- `class automatic a; property p; endproperty endclass : a`. -/
def withProperty : Construct where
  keyword := ⟨⟨"class", .construct, 0, 5⟩, by decide⟩
  modifiers := [⟨⟨"automatic", .modifier, 6, 15⟩, rfl⟩]
  name := some ⟨⟨"a", .identifier, 16, 17⟩, rfl⟩
  body := .token ⟨";", .semicolon, 17, 18⟩ (by decide)
    (.construct ⟨⟨"property", .construct, 19, 27⟩, by decide⟩
      (.token ⟨"p", .identifier, 28, 29⟩ (by decide)
        (.token ⟨";", .semicolon, 29, 30⟩ (by decide) .nil))
      ⟨⟨"endproperty", .endConstruct, 31, 42⟩, rfl⟩ (by decide) .nil)
  closer := ⟨⟨"endclass", .endConstruct, 43, 51⟩, rfl⟩
  closes := by decide
  label := some ⟨⟨⟨":", .colon, 52, 53⟩, rfl⟩, ⟨⟨"a", .identifier, 54, 55⟩, rfl⟩⟩
  unnamed := nofun

theorem construct_eq_iff_property :
    Reading.construct default 0 ⟨.start withProperty.tokens, .empty, [0], [], #[]⟩ =
      withProperty.noted default 0 ⟨⟨11, 55, []⟩, .empty, [0], [], #[]⟩ :=
  (construct_eq_iff withProperty default 0 _ ⟨rfl, rfl, rfl⟩ rfl).2 (by decide)

/-- `class a; class b; endclass x; endclass`. -/
def withClass : Construct where
  keyword := ⟨⟨"class", .construct, 0, 5⟩, by decide⟩
  modifiers := []
  name := some ⟨⟨"a", .identifier, 6, 7⟩, rfl⟩
  body := .token ⟨";", .semicolon, 7, 8⟩ (by decide)
    (.construct ⟨⟨"class", .construct, 9, 14⟩, by decide⟩
      (.token ⟨"b", .identifier, 15, 16⟩ (by decide)
        (.token ⟨";", .semicolon, 16, 17⟩ (by decide) .nil))
      ⟨⟨"endclass", .endConstruct, 18, 26⟩, rfl⟩ (by decide)
      (.token ⟨"x", .identifier, 27, 28⟩ (by decide)
        (.token ⟨";", .semicolon, 28, 29⟩ (by decide) .nil)))
  closer := ⟨⟨"endclass", .endConstruct, 30, 38⟩, rfl⟩
  closes := by decide
  label := none
  unnamed := nofun

/-- The rest of the outer class is left for the enclosing scope. -/
theorem cursor_construct_withClass :
    (Cursor.start withClass.tokens).Reads withClass.tokens ⟨10, 38, []⟩ ∧
      (Reading.construct default 0 ⟨.start withClass.tokens, .empty, [0], [], #[]⟩).cursor =
        ⟨7, 26, withClass.tokens.drop 7⟩ :=
  ⟨⟨rfl, rfl, rfl⟩, by decide⟩

end Construct

end HdlIndex
