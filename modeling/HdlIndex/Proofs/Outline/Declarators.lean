import HdlIndex.Outline.DataType
import HdlIndex.Proofs.Outline.Balance

/-! Lists of declared names as they are written. What follows a name is passed over by counting brackets,
so neither the commas of a dimension nor those of a value part the list. Main statement: each name of the
list is declared in its turn, with the extent of its own declaration, and reading ends behind the
semicolon. -/

namespace HdlIndex

open OutlineToken (InRole BracketBalanced)

namespace Declaration

/-- An equals sign and a value. -/
structure Initializer where
  sign : InRole .equals
  value : List OutlineToken
  balanced : BracketBalanced
    (fun t => t.role ≠ .comma ∧ t.role ≠ .semicolon ∧ t.isRegionEnd = false) value

def Initializer.tokens (i : Initializer) : List OutlineToken := i.sign.1 :: i.value

/-- A name with dimensions in square brackets and a value. -/
structure Declarator where
  name : InRole .identifier
  dimensions : List OutlineToken
  balanced : BracketBalanced (·.role = .bracketOpen) dimensions
  initializer : Option Initializer

namespace Declarator

/-- What follows the name. -/
def behind (n : Declarator) : List OutlineToken :=
  n.dimensions ++ (n.initializer.map Initializer.tokens).getD []

def tokens (n : Declarator) : List OutlineToken := n.name.1 :: n.behind

/-- Where the last token stops. -/
def stop (n : Declarator) : Nat := (n.behind.getLast?.getD n.name.1).stop

/-- The symbol that is declared, from `start` on. -/
def symbol (n : Declarator) (doc : Document) (kind : SymbolKind) (start : Nat) : Symbol :=
  doc.symbol n.name.1 kind start n.stop

end Declarator

/-- Whether a token can stand behind a declarator. -/
def IsBehind (t : OutlineToken) : Prop := t.role = .comma ∨ t.role = .semicolon ∨ t.role = .parenClose

/-- A declarator behind a comma. -/
abbrev Further := InRole .comma × Declarator

def Further.tokens (f : Further) : List OutlineToken := f.1.1 :: f.2.tokens

/-- One or more declarators with commas between them, up to a semicolon. -/
structure Row where
  first : Declarator
  others : List Further
  semicolon : InRole .semicolon

namespace Row

def tokens (l : Row) : List OutlineToken :=
  l.first.tokens ++ l.others.flatMap Further.tokens ++ [l.semicolon.1]

/-- The symbols that the row declares. The first declaration starts at `start`, any other at its own
name. -/
def symbols (l : Row) (doc : Document) (kind : SymbolKind) (start : Nat) : List Symbol :=
  l.first.symbol doc kind start ::
    l.others.map fun f => f.2.symbol doc kind f.2.name.1.start

end Row

end Declaration

namespace Cursor

open Declaration

variable {c d : Cursor} {t : OutlineToken} {rest : List OutlineToken}

theorem skipDimensions_of_balanced {dimensions : List OutlineToken}
    (h : BracketBalanced (·.role = .bracketOpen) dimensions) (hreads : c.Reads dimensions d)
    (hrest : d.rest = t :: rest) (ht : t.role ≠ .bracketOpen) : c.skipDimensions = d := by
  rw [skipDimensions, skipUntil_of_balanced h (by simp) hreads, skipUntil_of_stop hrest (by simpa)]

theorem skipExpression_of_balanced {value : List OutlineToken}
    (h : BracketBalanced (fun t => t.role ≠ .comma ∧ t.role ≠ .semicolon ∧ t.isRegionEnd = false) value)
    (hreads : c.Reads value d) (hrest : d.rest = t :: rest) (ht : IsBehind t) :
    c.skipExpression = d := by
  have hstop : (t.role == .comma || t.role == .semicolon || t.isClose || t.isRegionEnd) = true := by
    rcases ht with ht | ht | ht <;> simp [OutlineToken.isClose, ht]
  rw [skipExpression, skipUntil_of_balanced h ?_ hreads, skipUntil_of_stop hrest hstop]
  rintro t - hclose ⟨hcomma, hsemicolon, hregion⟩
  simp [hcomma, hsemicolon, hclose, hregion]

/-- The dimensions behind a name end in front of the value. -/
theorem exists_skipDimensions_eq (n : Declarator) (hreads : c.Reads n.behind d)
    (hrest : d.rest = t :: rest) (ht : IsBehind t) :
    ∃ e, c.skipDimensions = e ∧ e.Reads ((n.initializer.map Initializer.tokens).getD []) d := by
  obtain ⟨e, hdimensions, hvalue⟩ := hreads.split
  refine ⟨e, ?_, hvalue⟩
  cases hinit : n.initializer with
  | none =>
    rw [hinit] at hvalue
    obtain rfl := Reads.eq hvalue
    refine skipDimensions_of_balanced n.balanced hdimensions hrest ?_
    rcases ht with ht | ht | ht <;> simp [ht]
  | some i =>
    rw [hinit] at hvalue
    exact skipDimensions_of_balanced n.balanced hdimensions (Reads.cons hvalue).1 (by simp [i.sign.2])

/-- What follows a name is read up to the token behind it. -/
theorem skipDeclarator_of_reads (n : Declarator) (hreads : c.Reads n.behind d)
    (hrest : d.rest = t :: rest) (ht : IsBehind t) : c.skipDeclarator = d := by
  obtain ⟨e, hskip, hvalue⟩ := exists_skipDimensions_eq n hreads hrest ht
  cases hinit : n.initializer with
  | none =>
    rw [hinit] at hvalue
    obtain rfl := Reads.eq hvalue
    rw [skipDeclarator, hskip]
    refine if_neg ?_
    rcases ht with ht | ht | ht <;> simp [is, nextIs, hrest, ht]
  | some i =>
    rw [hinit] at hvalue
    obtain ⟨hrest', hbump⟩ := Reads.cons hvalue
    have hequals : e.is .equals = true := by simp [is, nextIs, hrest', i.sign.2]
    rw [skipDeclarator, hskip]
    exact (if_pos hequals).trans (skipExpression_of_balanced i.balanced hbump hrest ht)

end Cursor

namespace Reading

open Declaration Cursor

variable {d : Cursor} {t : OutlineToken} {rest : List OutlineToken}

theorem stop_of_reads (n : Declarator) {c : Cursor} (h : c.Reads n.tokens d) : d.stop = n.stop := by
  rw [h.stop, Declarator.tokens, List.getLast?_cons, Declarator.stop]
  rfl

/-- One declarator is declared from where its declaration starts to its last token. -/
theorem declare_declarator (n : Declarator) (doc : Document) (kind : SymbolKind) (start : Nat)
    (r : Reading) (h : r.cursor.Reads n.tokens d) (hrest : d.rest = t :: rest) (ht : IsBehind t) :
    (r.bump.move (·.skipDeclarator)).declare doc n.name.1 kind start =
      { r with
        cursor := d
        table := (r.table.addSymbol r.scope (n.symbol doc kind start)).1 } := by
  obtain ⟨-, hbump⟩ := Reads.cons h
  have hskip : r.cursor.bump.skipDeclarator = d := skipDeclarator_of_reads n hbump hrest ht
  rw [Declarator.symbol, ← stop_of_reads n h, ← hskip]
  rfl

/-- The names of a row are declared one after another, up to the token behind them. -/
theorem nameList_row (doc : Document) (kind : SymbolKind) (first : Declarator)
    (others : List Further) {bound : List OutlineToken} (hbound : others.length < bound.length)
    (start? : Option Nat) (r : Reading)
    (h : r.cursor.Reads (first.tokens ++ others.flatMap Further.tokens) d)
    (hrest : d.rest = t :: rest) (ht : t.role = .semicolon) :
    nameList (fun name start r => (r.move (·.skipDeclarator)).declare doc name kind start) bound
        start? r =
      { r with
        cursor := d
        table := (first.symbol doc kind (start?.getD first.name.1.start) ::
            others.map fun f => f.2.symbol doc kind f.2.name.1.start).foldl
          (fun table s => (table.addSymbol r.scope s).1) r.table } := by
  induction others generalizing first start? r bound with
  | nil =>
    cases bound with
    | nil => cases hbound
    | cons _ bound =>
      rw [List.flatMap_nil, List.append_nil] at h
      have hname : r.cursor.identifier? = some first.name.1 := by
        simp [identifier?, (Reads.cons h).1, first.name.2]
      rw [nameList, hname]
      dsimp only
      rw [declare_declarator first doc kind _ r h hrest (.inr (.inl ht))]
      exact if_neg (by simp [is, Cursor.is, nextIs, hrest, ht])
  | cons f others ih =>
    cases bound with
    | nil => cases hbound
    | cons _ bound =>
      obtain ⟨e, hfirst, hothers⟩ := h.split
      obtain ⟨hrest', hbump⟩ := Reads.cons hothers
      have hname : r.cursor.identifier? = some first.name.1 := by
        simp [identifier?, (Reads.cons h).1, first.name.2]
      rw [nameList, hname]
      dsimp only
      rw [declare_declarator first doc kind _ r hfirst hrest' (.inl f.1.2),
        if_pos (by simp [is, Cursor.is, nextIs, hrest', f.1.2])]
      exact ih f.2 (Nat.lt_of_succ_lt_succ hbound) none _ hbump

theorem length_le_flatMap (others : List Further) :
    others.length ≤ (others.flatMap Further.tokens).length := by
  induction others with
  | nil => exact Nat.le_refl 0
  | cons f others ih =>
    simp only [List.flatMap_cons, List.length_append, List.length_cons, Further.tokens]
    omega

/-- A row of declarators is read exactly: its names are declared in the scope that is open, in their
order, and reading ends behind the semicolon. Nothing else of the reading changes. -/
theorem declarators_eq (l : Row) (doc : Document) (start : Nat) (kind : SymbolKind) (r : Reading)
    (h : r.cursor.Reads l.tokens d) :
    r.declarators doc start kind =
      { r with
        cursor := d
        table := (l.symbols doc kind start).foldl (fun table s => (table.addSymbol r.scope s).1)
          r.table } := by
  obtain ⟨e, hnames, hend⟩ := h.split
  obtain ⟨hrest, hbump⟩ := hend.cons
  have hbound : l.others.length < r.cursor.rest.length := by
    have := length_le_flatMap l.others
    rw [hnames.rest, Declarator.tokens]
    simp only [List.length_append, List.length_cons]
    omega
  have hskip : e.skipToSemicolon = d :=
    skipToSemicolon_of_balanced .nil (by simp) l.semicolon.2 hend
  rw [declarators, nameList_row doc kind l.first l.others hbound (some start) r hnames hrest
    l.semicolon.2, move, hskip]
  rfl

/-- `a[1] = f(x, y), b, a;`. -/
def repeatedName : Row where
  first := ⟨⟨⟨"a", .identifier, 4, 5⟩, rfl⟩,
    ⟨"[", .bracketOpen, 5, 6⟩ :: ([⟨"1", .number, 6, 7⟩] ++ [⟨"]", .bracketClose, 7, 8⟩]),
    .group rfl rfl rfl rfl (.token rfl rfl trivial .nil) .nil,
    some ⟨⟨⟨"=", .equals, 9, 10⟩, rfl⟩,
      ⟨"f", .identifier, 11, 12⟩ :: ⟨"(", .parenOpen, 12, 13⟩ ::
        ([⟨"x", .identifier, 13, 14⟩, ⟨",", .comma, 14, 15⟩, ⟨"y", .identifier, 16, 17⟩] ++
          [⟨")", .parenClose, 17, 18⟩]),
      .token rfl rfl (by decide) (.group rfl (by decide) rfl rfl
        (.token rfl rfl trivial (.token rfl rfl trivial (.token rfl rfl trivial .nil))) .nil)⟩⟩
  others :=
    [(⟨⟨",", .comma, 18, 19⟩, rfl⟩, ⟨⟨⟨"b", .identifier, 20, 21⟩, rfl⟩, [], .nil, none⟩),
      (⟨⟨",", .comma, 21, 22⟩, rfl⟩, ⟨⟨⟨"a", .identifier, 23, 24⟩, rfl⟩, [], .nil, none⟩)]
  semicolon := ⟨⟨";", .semicolon, 24, 25⟩, rfl⟩

theorem declarators_eq_repeatedName :
    Reading.declarators default 0 .genvar ⟨.start repeatedName.tokens, .empty, [0], [], #[]⟩ =
      ⟨⟨16, 25, []⟩, (repeatedName.symbols default .genvar 0).foldl
        (fun table s => (table.addSymbol 0 s).1) .empty, [0], [], #[]⟩ :=
  declarators_eq repeatedName default 0 .genvar _ ⟨rfl, rfl, rfl⟩

/-- The second declaration of a name takes the place of the first. -/
example : (((repeatedName.symbols default .genvar 0).foldl
    (fun table s => (table.addSymbol 0 s).1) SymbolTable.empty).scope 0).symbols.map (·.name) =
      ["a", "b"] := by
  decide

end Reading

end HdlIndex
