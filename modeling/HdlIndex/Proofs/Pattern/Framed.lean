import HdlIndex.Pattern.SetReader

/-! Parts of patterns in a frame. A source is read between `^(?:` and a parenthesis, so behind each
part of it stands one character more than in the source by itself. Main statements: escapes and sets
in brackets that can be read of a source by itself are read of it in the frame, and the same is left
but for the parenthesis, which may go with a comment. -/

namespace HdlIndex.Pattern

/-- What is left of a source, and of the source in its frame: the parenthesis that closes the frame
stands behind it, unless it went with a comment. -/
inductive Framed (cs : List Char) : List Char → Prop
  | closed : Framed cs (cs ++ [')'])
  | swallowed : Framed cs cs

/-- Whether two results of readers are the same but for what is left. -/
def Alike {α β : Type} (R : β → β → Prop) (x y : α × β) : Prop := x.1 = y.1 ∧ R x.2 y.2

/-- Whether what is read of a source, if it can be read, is also read of another one. -/
def Agrees {α : Type} (R : α → α → Prop) (r r' : Option α) : Prop :=
  ∀ x, r = some x → ∃ y, r' = some y ∧ R x y

theorem Agrees.cases {α : Type} {R : α → α → Prop} {r r' : Option α} (h : Agrees R r r') :
    r = none ∨ ∃ x y, r = some x ∧ r' = some y ∧ R x y := by
  cases r with
  | none => exact .inl rfl
  | some x =>
    obtain ⟨y, hy, hxy⟩ := h x rfl
    exact .inr ⟨x, y, rfl, hy, hxy⟩

namespace Agrees

variable {α β : Type} {R : α → α → Prop} {S : β → β → Prop}

theorem none (r' : Option α) : Agrees R none r' := nofun

theorem some {x y : α} (h : R x y) : Agrees R (some x) (some y) := by
  intro z hz
  cases hz
  exact ⟨y, rfl, h⟩

theorem bind {r r' : Option α} {k k' : α → Option β} (h : Agrees R r r')
    (hk : ∀ x y, R x y → Agrees S (k x) (k' y)) : Agrees S (r >>= k) (r' >>= k') := by
  intro z hz
  obtain ⟨x, rfl, hx⟩ := Option.bind_eq_some_iff.1 hz
  obtain ⟨y, rfl, hxy⟩ := h x rfl
  exact hk x y hxy z hx

theorem map {r r' : Option α} {k k' : α → β} (h : Agrees R r r')
    (hk : ∀ x y, R x y → S (k x) (k' y)) : Agrees S (r.map k) (r'.map k') := by
  intro z hz
  obtain ⟨x, rfl, rfl⟩ := Option.map_eq_some_iff.1 hz
  obtain ⟨y, rfl, hxy⟩ := h x rfl
  exact ⟨k' y, rfl, hk x y hxy⟩

/-- Something that does not depend on the source may come first. -/
theorem bind_same {r : Option α} {k k' : α → Option β} (hk : ∀ x, Agrees S (k x) (k' x)) :
    Agrees S (r >>= k) (r >>= k') :=
  bind (R := Eq) (fun x hx => ⟨x, hx, rfl⟩) fun x _ hxy => hxy ▸ hk x

theorem ite {c : Prop} [Decidable c] {r s r' s' : Option α} (h : Agrees R r r')
    (h' : Agrees R s s') : Agrees R (if c then r else s) (if c then r' else s') := by
  split
  · exact h
  · exact h'

end Agrees

namespace Framed

variable {cs cs' : List Char}

theorem exists_cons {c : Char} (h : Framed (c :: cs) cs') :
    ∃ rest, cs' = c :: rest ∧ Framed cs rest := by
  cases h with
  | closed => exact ⟨_, rfl, .closed⟩
  | swallowed => exact ⟨_, rfl, .swallowed⟩

/-- Both start with a character that is not the parenthesis, or none of them does. -/
theorem cases_cons (h : Framed cs cs') {c : Char} (hc : c ≠ ')') :
    (∃ rest rest', cs = c :: rest ∧ cs' = c :: rest' ∧ Framed rest rest') ∨
      (∀ rest, cs ≠ c :: rest) ∧ ∀ rest, cs' ≠ c :: rest := by
  cases cs with
  | nil =>
    refine .inr ⟨by simp, ?_⟩
    cases h with
    | closed => simp [hc.symm]
    | swallowed => simp
  | cons d cs =>
    obtain ⟨cs', rfl, hrest⟩ := h.exists_cons
    by_cases hd : d = c
    · subst hd
      exact .inl ⟨cs, cs', rfl, rfl, hrest⟩
    · exact .inr ⟨by simp [hd], by simp [hd]⟩

theorem cases_cons_cons (h : Framed cs cs') {c d : Char} (hc : c ≠ ')') (hd : d ≠ ')') :
    (∃ rest rest', cs = c :: d :: rest ∧ cs' = c :: d :: rest' ∧ Framed rest rest') ∨
      (∀ rest, cs ≠ c :: d :: rest) ∧ ∀ rest, cs' ≠ c :: d :: rest := by
  rcases h.cases_cons hc with ⟨more, more', rfl, rfl, hmore⟩ | ⟨hne, hne'⟩
  · rcases hmore.cases_cons hd with ⟨rest, rest', rfl, rfl, hrest⟩ | ⟨hne, hne'⟩
    · exact .inl ⟨rest, rest', rfl, rfl, hrest⟩
    · exact .inr ⟨by simpa using hne, by simpa using hne'⟩
  · exact .inr ⟨fun rest => hne _, fun rest => hne' _⟩

theorem length_le (h : Framed cs cs') : cs.length ≤ cs'.length := by
  cases h with
  | closed => simp
  | swallowed => exact Nat.le_refl _

/-! ### White space -/

theorem dropSpace (inComment : Bool) (cs : List Char) :
    Framed (dropSpace inComment cs) (dropSpace inComment (cs ++ [')'])) := by
  fun_induction Pattern.dropSpace inComment cs with
  | case1 inComment =>
    cases inComment with
    | false => exact .closed
    | true => exact .swallowed
  | case2 c cs ih =>
    rw [List.cons_append, Pattern.dropSpace, if_pos rfl]
    exact ih
  | case3 inComment c cs hcomment hblank ih =>
    rw [List.cons_append, Pattern.dropSpace, if_neg hcomment, if_pos hblank]
    exact ih
  | case4 inComment c cs hcomment hblank hsharp ih =>
    rw [List.cons_append, Pattern.dropSpace, if_neg hcomment, if_neg hblank, if_pos hsharp]
    exact ih
  | case5 inComment c cs hcomment hblank hsharp =>
    rw [List.cons_append, Pattern.dropSpace, if_neg hcomment, if_neg hblank, if_neg hsharp]
    exact .closed

theorem skip (f : Flags) (h : Framed cs cs') : Framed (f.skip cs) (f.skip cs') := by
  cases h with
  | swallowed => exact .swallowed
  | closed =>
    unfold Flags.skip
    split
    · exact dropSpace false cs
    · exact .closed

theorem dropBlank (h : Framed cs cs') :
    Framed (cs.dropWhile Text.isBlank) (cs'.dropWhile Text.isBlank) := by
  cases h with
  | swallowed => exact .swallowed
  | closed =>
    rw [List.dropWhile_append]
    split
    · next hempty =>
      rw [List.isEmpty_iff.1 hempty]
      exact .closed
    · exact .closed

theorem length_dropSpace_le (inComment : Bool) (cs : List Char) :
    (Pattern.dropSpace inComment cs).length ≤ cs.length := by
  fun_induction Pattern.dropSpace inComment cs with
  | case1 => exact Nat.le_refl _
  | case2 _ _ ih | case3 _ _ _ _ _ ih | case4 _ _ _ _ _ _ ih => exact Nat.le_succ_of_le ih
  | case5 => exact Nat.le_refl _

theorem length_skip_le (f : Flags) (cs : List Char) : (f.skip cs).length ≤ cs.length := by
  unfold Flags.skip
  split
  · exact length_dropSpace_le false cs
  · exact Nat.le_refl _

/-! ### Escapes -/

variable (f : Flags)

theorem takeChars (n : Nat) (h : Framed cs cs') :
    Agrees (Alike Framed) (takeChars f n cs) (takeChars f n cs') := by
  induction n generalizing cs cs' with
  | zero => exact .some ⟨rfl, h⟩
  | succ n ih =>
    have hskip := h.skip f
    rw [Pattern.takeChars, Pattern.takeChars]
    generalize f.skip cs = ds at hskip
    generalize f.skip cs' = ds' at hskip
    cases ds with
    | nil => exact .none _
    | cons c ds =>
      obtain ⟨ds', rfl, hrest⟩ := hskip.exists_cons
      exact (ih hrest).map fun x y hxy => ⟨congrArg (c :: ·) hxy.1, hxy.2⟩

/-- More steps do no harm. -/
theorem takeToBrace {n n' : Nat} (hle : n ≤ n') (h : Framed cs cs') :
    Agrees (Alike Framed) (takeToBrace f n cs) (takeToBrace f n' cs') := by
  induction n generalizing n' cs cs' with
  | zero => exact .none _
  | succ n ih =>
    obtain ⟨n', rfl⟩ : ∃ m, n' = m + 1 := ⟨n' - 1, by omega⟩
    have hskip := h.skip f
    rw [Pattern.takeToBrace, Pattern.takeToBrace]
    generalize f.skip cs = ds at hskip
    generalize f.skip cs' = ds' at hskip
    cases ds with
    | nil => exact .none _
    | cons c ds =>
      obtain ⟨ds', rfl, hrest⟩ := hskip.exists_cons
      by_cases hbrace : c = '\x7d'
      · subst hbrace
        exact .some ⟨rfl, hrest⟩
      · simp only
        exact (ih (Nat.le_of_succ_le_succ hle) hrest).map fun x y hxy =>
          ⟨congrArg (c :: ·) hxy.1, hxy.2⟩

theorem readHex (size : Nat) (h : Framed cs cs') :
    Agrees (Alike Framed) (readHex f size cs) (readHex f size cs') := by
  have hskip := h.skip f
  unfold Pattern.readHex
  generalize f.skip cs = ds at hskip
  generalize f.skip cs' = ds' at hskip
  rcases hskip.cases_cons (c := '\x7b') (by decide) with
    ⟨rest, rest', rfl, rfl, hrest⟩ | ⟨hne, hne'⟩
  · refine (hrest.takeToBrace f (Nat.succ_le_succ hrest.length_le)).bind ?_
    rintro ⟨digits, rest⟩ ⟨_, rest'⟩ ⟨rfl, hrest⟩
    exact .ite (.none _) (.bind_same fun n => .bind_same fun c => .some ⟨rfl, hrest.skip f⟩)
  · simp only
    refine (hskip.takeChars f size).bind ?_
    rintro ⟨digits, rest⟩ ⟨_, rest'⟩ ⟨rfl, hrest⟩
    exact .bind_same fun code => .ite (.none _) (.bind_same fun c => .some ⟨rfl, hrest.skip f⟩)

theorem readDescribed (negated : Bool) (h : Framed cs cs') :
    Agrees (Alike Framed) (readDescribed f negated cs) (readDescribed f negated cs') := by
  have hskip := h.skip f
  unfold Pattern.readDescribed
  generalize f.skip cs = ds at hskip
  generalize f.skip cs' = ds' at hskip
  cases ds with
  | nil => exact .none _
  | cons c ds =>
    obtain ⟨ds', rfl, hrest⟩ := hskip.exists_cons
    by_cases hbrace : c = '\x7b'
    · subst hbrace
      refine (hrest.takeToBrace f (Nat.succ_le_succ hrest.length_le)).bind ?_
      rintro ⟨text, rest⟩ ⟨_, rest'⟩ ⟨rfl, hrest⟩
      exact .bind_same fun found => .ite (.none _) (.some ⟨rfl, hrest⟩)
    · simp only
      exact .ite (.none _) (.bind_same fun found => .ite (.none _) (.some ⟨rfl, hrest.skip f⟩))

theorem readBoundary (h : Framed cs cs') :
    Agrees (Alike Framed) (readBoundary f cs) (readBoundary f cs') := by
  have hplain : Agrees (Alike Framed)
      (some (Escape.edge (.word f.ascii .boundary), cs))
      (some (Escape.edge (.word f.ascii .boundary), cs')) := .some ⟨rfl, h⟩
  unfold Pattern.readBoundary
  rcases h.cases_cons (c := '\x7b') (by decide) with ⟨inner, inner', rfl, rfl, hinner⟩ | ⟨hne, hne'⟩
  · have hskip := hinner.skip f
    simp only
    generalize f.skip inner = ds at hskip
    generalize f.skip inner' = ds' at hskip
    cases ds with
    | nil => exact .none _
    | cons d ds =>
      obtain ⟨ds', rfl, hmore⟩ := hskip.exists_cons
      refine .ite ?_ hplain
      refine (hskip.takeToBrace f (Nat.succ_le_succ (Nat.succ_le_succ hmore.length_le))).bind ?_
      rintro ⟨name, rest⟩ ⟨_, rest'⟩ ⟨rfl, hrest⟩
      exact .bind_same fun e => .some ⟨rfl, hrest⟩
  · simp only
    exact hplain

theorem readEscape (h : Framed cs cs') :
    Agrees (Alike Framed) (readEscape f cs) (readEscape f cs') := by
  cases cs with
  | nil => exact .none _
  | cons c cs =>
    obtain ⟨cs', rfl, hrest⟩ := h.exists_cons
    by_cases hx : c = 'x'
    · subst hx; exact hrest.readHex f 2
    by_cases hu : c = 'u'
    · subst hu; exact hrest.readHex f 4
    by_cases hU : c = 'U'
    · subst hU; exact hrest.readHex f 8
    by_cases hp : c = 'p'
    · subst hp; exact hrest.readDescribed f false
    by_cases hP : c = 'P'
    · subst hP; exact hrest.readDescribed f true
    by_cases hb : c = 'b'
    · subst hb; exact hrest.readBoundary f
    unfold Pattern.readEscape
    simp only
    exact .map (R := Eq) (fun e he => ⟨e, he, rfl⟩) fun e e' he => ⟨he, hrest⟩

/-! ### Sets -/

theorem peekBehind (h : Framed cs cs') {c : Char} (hc : c ≠ ')') :
    (peekBehind f cs' == some c) = (peekBehind f cs == some c) := by
  have hhead {ds ds' : List Char} (h : Framed ds ds') :
      (ds'.head? == some c) = (ds.head? == some c) := by
    cases h with
    | swallowed => rfl
    | closed =>
      cases ds with
      | nil => simp [hc.symm]
      | cons d ds => rfl
  unfold Pattern.peekBehind
  split
  · have hblank := h.dropBlank
    generalize cs.dropWhile Text.isBlank = ds at hblank
    generalize cs'.dropWhile Text.isBlank = ds' at hblank
    rcases hblank.cases_cons (c := '#') (by decide) with
      ⟨rest, rest', rfl, rfl, hrest⟩ | ⟨hne, hne'⟩
    · exact hhead hrest.dropBlank
    · simp only
      exact hhead hblank
  · exact hhead h

/-- What stands in front of the first character that is not of a kind stays the same. -/
theorem cut (p : Char → Bool) (cs : List Char) :
    cs.dropWhile p = [] ∧ (cs ++ [')']).dropWhile p = [')'].dropWhile p ∨
      ∃ c rest, ¬p c ∧ cs.dropWhile p = c :: rest ∧
        (cs ++ [')']).dropWhile p = c :: (rest ++ [')']) ∧
        (cs ++ [')']).takeWhile p = cs.takeWhile p := by
  induction cs with
  | nil => exact .inl ⟨rfl, rfl⟩
  | cons c cs ih =>
    by_cases hc : p c
    · simpa [List.dropWhile_cons, List.takeWhile_cons, hc] using ih
    · exact .inr ⟨c, cs, hc, by simp [hc], by simp [hc], by simp [hc]⟩

theorem readClassName_append (negated : Bool) (cs : List Char) :
    readClassName f negated (cs ++ [')']) =
      (readClassName f negated cs).map fun (set, rest) => (set, rest ++ [')']) := by
  unfold Pattern.readClassName
  rcases cut (· != ':') cs with ⟨hdrop, hdrop'⟩ | ⟨c, rest, hc, hdrop, hdrop', htake⟩
  · rw [hdrop, hdrop']
    rfl
  · obtain rfl : c = ':' := by simpa using hc
    rw [hdrop, hdrop', htake]
    rcases rest with _ | ⟨d, rest⟩
    · rfl
    · by_cases hbracket : d = ']'
      · subst hbracket
        simp [Function.comp_def]
      · simp [hbracket]

theorem readNamedClass_append (cs : List Char) :
    Pattern.readNamedClass f (cs ++ [')']) =
      (Pattern.readNamedClass f cs).map fun (set, rest) => (set, rest ++ [')']) := by
  rcases cs with _ | ⟨c, cs⟩
  · rfl
  by_cases hcolon : c = ':'
  · subst hcolon
    rw [List.cons_append]
    rcases (closed : Framed cs _).cases_cons (c := '^') (by decide) with
      ⟨rest, _, rfl, -, -⟩ | ⟨hne, hne'⟩
    · exact readClassName_append f true rest
    · simp only [Pattern.readNamedClass]
      exact readClassName_append f false cs
  · simp [Pattern.readNamedClass, hcolon]

/-- What is no class is none in the frame, either. -/
theorem readNamedClass (h : Framed cs cs') :
    Option.Rel (Alike Framed) (readNamedClass f cs) (readNamedClass f cs') := by
  cases h with
  | closed =>
    rw [readNamedClass_append]
    rcases Pattern.readNamedClass f cs with _ | ⟨set, rest⟩
    · exact .none
    · exact .some ⟨rfl, .closed⟩
  | swallowed =>
    rcases Pattern.readNamedClass f cs with _ | ⟨set, rest⟩
    · exact .none
    · exact .some ⟨rfl, .swallowed⟩

theorem readItem (h : Framed cs cs') :
    Agrees (Alike (Alike Framed)) (readItem f cs) (readItem f cs') := by
  cases cs with
  | nil => exact .none _
  | cons c cs =>
    obtain ⟨cs', rfl, hrest⟩ := h.exists_cons
    by_cases hescape : c = '\\'
    · subst hescape
      unfold Pattern.readItem
      simp only
      rcases (hrest.readEscape f).cases with
        hread | ⟨⟨e, rest⟩, ⟨_, rest'⟩, hread, hread', rfl, hmore⟩
      · rw [hread]
        exact .none _
      · rw [hread, hread']
        cases e with
        | char c => exact .ite (.none _) (.some ⟨rfl, rfl, hmore⟩)
        | set s => exact .some ⟨rfl, rfl, hmore⟩
        | edge e => exact .none _
    · unfold Pattern.readItem
      simp only
      exact .ite (.none _) (.some ⟨rfl, rfl, hrest⟩)

theorem readRange (h : Framed cs cs') :
    Agrees (Alike Framed) (readRange f cs) (readRange f cs') := by
  unfold Pattern.readRange
  refine (h.readItem f).bind ?_
  rintro ⟨set, first, rest⟩ ⟨_, _, rest'⟩ ⟨rfl, rfl, hrest⟩
  have hskip := hrest.skip f
  simp only
  generalize f.skip rest = ds at hskip
  generalize f.skip rest' = ds' at hskip
  rcases hskip.cases_cons (c := '-') (by decide) with ⟨more, more', rfl, rfl, hmore⟩ | ⟨hne, hne'⟩
  · simp only
    rw [hmore.peekBehind f (by decide), hmore.peekBehind f (by decide)]
    refine .ite (.some ⟨rfl, hrest⟩) ?_
    refine ((hmore.skip f).readItem f).bind ?_
    rintro ⟨set, last, rest⟩ ⟨_, _, rest'⟩ ⟨rfl, rfl, hrest⟩
    rcases first with _ | lo
    · exact .none _
    · rcases last with _ | hi
      · exact .none _
      · exact .ite (.some ⟨rfl, hrest⟩) (.none _)
  · cases ds with
    | nil => exact .none _
    | cons c ds =>
      obtain ⟨ds', rfl, -⟩ := hskip.exists_cons
      simp only
      exact .some ⟨rfl, hrest⟩

theorem readHyphens_of_ne {cs : List Char} (h : ∀ rest, cs ≠ '-' :: rest) (items : List SetPart)
    (n : Nat) : Pattern.readHyphens f items cs n = (items, cs) := by
  rw [Pattern.readHyphens]
  exact fun rest _ hrest _ => h rest hrest

/-- The bounds are the lengths of the texts, and each hyphen takes one off both. -/
theorem readHyphens {n n' : Nat} (h : Framed cs cs') (hn : cs.length ≤ n)
    (hn' : cs'.length ≤ n') (items : List SetPart) :
    Alike Framed (readHyphens f items cs n) (readHyphens f items cs' n') := by
  induction n generalizing n' cs cs' items with
  | zero =>
    rcases h.cases_cons (c := '-') (by decide) with ⟨rest, _, rfl, -, -⟩ | ⟨hne, hne'⟩
    · cases hn
    · rw [readHyphens_of_ne f hne, readHyphens_of_ne f hne']
      exact ⟨rfl, h⟩
  | succ n ih =>
    rcases h.cases_cons (c := '-') (by decide) with ⟨rest, rest', rfl, rfl, hrest⟩ | ⟨hne, hne'⟩
    · rw [List.length_cons] at hn hn'
      obtain ⟨n', rfl⟩ : ∃ m, n' = m + 1 := ⟨n' - 1, by omega⟩
      have hskip := length_skip_le f rest
      have hskip' := length_skip_le f rest'
      exact ih (hrest.skip f) (by omega) (by omega) _
    · rw [readHyphens_of_ne f hne, readHyphens_of_ne f hne']
      exact ⟨rfl, h⟩

theorem readFront (negated : Bool) (h : Framed cs cs') :
    Alike Framed (readFront f negated cs) (readFront f negated cs') := by
  obtain ⟨hitems, hrest⟩ := h.readHyphens f (Nat.le_refl _) (Nat.le_refl _) []
  unfold Pattern.readFront
  generalize Pattern.readHyphens f [] cs cs.length = x at hitems hrest
  generalize Pattern.readHyphens f [] cs' cs'.length = y at hitems hrest
  obtain ⟨items, rest⟩ := x
  obtain ⟨_, rest'⟩ := y
  obtain rfl := hitems
  dsimp only at hrest
  cases items with
  | nil =>
    rcases hrest.cases_cons (c := ']') (by decide) with ⟨more, more', rfl, rfl, hmore⟩ | ⟨hne, hne'⟩
    · exact ⟨rfl, hmore⟩
    · simp [Alike, hne, hne', hrest]
  | cons item items => exact ⟨rfl, hrest⟩

theorem readOpen (h : Framed cs cs') :
    Alike Framed (readOpen f cs) (readOpen f cs') := by
  have hskip := h.skip f
  unfold Pattern.readOpen
  generalize f.skip cs = ds at hskip
  generalize f.skip cs' = ds' at hskip
  rcases hskip.cases_cons (c := '^') (by decide) with ⟨rest, rest', rfl, rfl, hrest⟩ | ⟨hne, hne'⟩
  · exact (hrest.skip f).readFront f true
  · simp only
    exact hskip.readFront f false

theorem readItems {n n' : Nat} (hle : n ≤ n') (h : Framed cs cs')
    (s : OpenSet) (around : List OpenSet) :
    Agrees (Alike Framed) (readItems f n s around cs) (readItems f n' s around cs') := by
  induction n generalizing n' cs cs' s around with
  | zero => exact .none _
  | succ n ih =>
    obtain ⟨n', rfl⟩ : ∃ m, n' = m + 1 := ⟨n' - 1, by omega⟩
    replace hle : n ≤ n' := Nat.le_of_succ_le_succ hle
    have hskip := h.skip f
    rw [Pattern.readItems, Pattern.readItems]
    generalize f.skip cs = ds at hskip
    generalize f.skip cs' = ds' at hskip
    rcases hskip.cases_cons (c := '[') (by decide) with
      ⟨rest, rest', rfl, rfl, hrest⟩ | ⟨hset, hset'⟩
    · simp only
      have hclass := hrest.readNamedClass f
      generalize Pattern.readNamedClass f rest = r at hclass
      generalize Pattern.readNamedClass f rest' = r' at hclass
      rcases hclass with @⟨⟨set, more⟩, ⟨_, more'⟩, ⟨rfl, hmore⟩⟩ | _
      · rcases set with _ | set
        · exact .none _
        · exact ih hle hmore _ _
      · obtain ⟨hinner, hmore⟩ := hrest.readOpen f
        simp only
        rw [← hinner]
        exact ih hle hmore _ _
    rcases hskip.cases_cons (c := ']') (by decide) with
      ⟨rest, rest', rfl, rfl, hrest⟩ | ⟨hend, hend'⟩
    · simp only
      rcases s.close? f with _ | part
      · exact .none _
      · rcases around with _ | ⟨outer, around⟩
        · exact .some ⟨rfl, hrest⟩
        · exact ih hle hrest _ _
    rcases hskip.cases_cons_cons (c := '&') (d := '&') (by decide) (by decide) with
      ⟨rest, rest', rfl, rfl, hrest⟩ | ⟨hboth, hboth'⟩
    · exact ih hle hrest _ _
    rcases hskip.cases_cons_cons (c := '-') (d := '-') (by decide) (by decide) with
      ⟨rest, rest', rfl, rfl, hrest⟩ | ⟨hless, hless'⟩
    · exact ih hle hrest _ _
    rcases hskip.cases_cons_cons (c := '~') (d := '~') (by decide) (by decide) with
      ⟨rest, rest', rfl, rfl, hrest⟩ | ⟨heither, heither'⟩
    · exact ih hle hrest _ _
    cases ds with
    | nil => exact .none _
    | cons c ds =>
      obtain ⟨ds', rfl, -⟩ := hskip.exists_cons
      simp only
      rcases (hskip.readRange f).cases with
        hread | ⟨⟨part, rest⟩, ⟨_, rest'⟩, hread, hread', rfl, hrest⟩
      · rw [hread]
        exact .none _
      · rw [hread, hread']
        exact ih hle hrest _ _

theorem readSet (h : Framed cs cs') :
    Agrees (Alike Framed) (readSet f cs) (readSet f cs') := by
  obtain ⟨hset, hrest⟩ := h.readOpen f
  unfold Pattern.readSet
  simp only
  rw [← hset]
  exact hrest.readItems f (Nat.succ_le_succ h.length_le) _ _

end Framed

end HdlIndex.Pattern
