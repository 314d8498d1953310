import HdlIndex.Pattern.Reader
import HdlIndex.Proofs.Pattern.Framed

/-! Sources that are patterns by themselves. Main statements: the reader comes to the same state in
the frame as without it, and then the parenthesis closes the frame, so the pattern of such a source
is tied to the start of the text. A source that closes a group that it did not open is none of them:
of `a)|(?:b` the frame holds the first choice only, and the second one is not tied. -/

namespace HdlIndex.Pattern

namespace Framed

variable (f : Flags) {cs cs' : List Char}

/-! ### Repetitions -/

theorem digitsOf {n n' : Nat} (h : Framed cs cs') (hn : cs.length < n)
    (hn' : cs'.length < n') :
    Alike Framed (readNumber.digitsOf f n cs) (readNumber.digitsOf f n' cs') := by
  induction n generalizing n' cs cs' with
  | zero => cases hn
  | succ n ih =>
    obtain ⟨n', rfl⟩ : ∃ m, n' = m + 1 := ⟨n' - 1, by omega⟩
    cases cs with
    | nil =>
      have hdigits : readNumber.digitsOf f (n' + 1) cs' = ([], cs') := by
        cases h with
        | closed => rfl
        | swallowed => rfl
      rw [hdigits]
      exact ⟨rfl, h⟩
    | cons c cs =>
      obtain ⟨cs', rfl, hrest⟩ := h.exists_cons
      rw [List.length_cons] at hn hn'
      rw [readNumber.digitsOf, readNumber.digitsOf]
      split
      · have hlt : (f.skip cs).length < n :=
          Nat.lt_of_le_of_lt (length_skip_le f cs) (Nat.lt_of_succ_lt_succ hn)
        have hlt' : (f.skip cs').length < n' :=
          Nat.lt_of_le_of_lt (length_skip_le f cs') (Nat.lt_of_succ_lt_succ hn')
        obtain ⟨hdigits, hmore⟩ := ih (hrest.skip f) hlt hlt'
        exact ⟨congrArg (c :: ·) hdigits, hmore⟩
      · exact ⟨rfl, h⟩

theorem readNumber (h : Framed cs cs') :
    Agrees (Alike Framed) (readNumber f cs) (readNumber f cs') := by
  have hblank (cs : List Char) : (cs.dropWhile Text.isBlank).length < cs.length + 1 :=
    Nat.lt_succ_of_le (List.dropWhile_suffix _).length_le
  obtain ⟨hdigits, hrest⟩ := h.dropBlank.digitsOf f (hblank cs) (hblank cs')
  unfold Pattern.readNumber
  simp only
  rw [← hdigits]
  exact .ite (.none _) (.some ⟨rfl, hrest.dropBlank.skip f⟩)

theorem readBounds (h : Framed cs cs') :
    Agrees (Alike (Alike Framed)) (readBounds f cs) (readBounds f cs') := by
  unfold Pattern.readBounds
  rcases ((h.skip f).readNumber f).cases with
    hleast | ⟨⟨least, rest⟩, ⟨_, rest'⟩, hleast, hleast', rfl, hrest⟩
  · rw [hleast]
    exact .none _
  rw [hleast, hleast']
  dsimp only at hrest
  rcases hrest.cases_cons (c := '\x7d') (by decide) with
    ⟨more, more', rfl, rfl, hmore⟩ | ⟨hend, hend'⟩
  · exact .some ⟨rfl, rfl, hmore⟩
  rcases hrest.cases_cons (c := ',') (by decide) with
    ⟨more, more', rfl, rfl, hmore⟩ | ⟨hcomma, hcomma'⟩
  · have hskip := hmore.skip f
    simp only
    generalize f.skip more = ds at hskip
    generalize f.skip more' = ds' at hskip
    rcases hskip.cases_cons (c := '\x7d') (by decide) with
      ⟨more, more', rfl, rfl, hmore⟩ | ⟨hend, hend'⟩
    · exact .some ⟨rfl, rfl, hmore⟩
    simp only
    rcases (hskip.readNumber f).cases with
      hmost | ⟨⟨most, rest⟩, ⟨_, rest'⟩, hmost, hmost', rfl, hrest⟩
    · rw [hmost]
      exact .none _
    rw [hmost, hmost']
    dsimp only at hrest
    rcases hrest.cases_cons (c := '\x7d') (by decide) with
      ⟨more, more', rfl, rfl, hmore⟩ | ⟨hend, hend'⟩
    · exact .ite (.some ⟨rfl, rfl, hmore⟩) (.none _)
    · intro x hx
      simp [hend] at hx
  · intro x hx
    simp [hend, hcomma] at hx

theorem readGreedy (h : Framed cs cs') :
    Alike Framed (readGreedy f cs) (readGreedy f cs') := by
  rcases h.cases_cons (c := '?') (by decide) with ⟨rest, rest', rfl, rfl, hrest⟩ | ⟨hne, hne'⟩
  · exact ⟨rfl, hrest⟩
  · simp [Alike, Pattern.readGreedy, h]

/-! ### Groups -/

/-- A name ends at an angle, so the parenthesis does not come to it. -/
theorem readName (h : Framed cs cs') :
    Agrees (Alike Framed) (readName cs) (readName cs') := by
  unfold Pattern.readName
  extract_lets first inner
  cases h with
  | swallowed =>
    intro x hx
    exact ⟨x, hx, rfl, .swallowed⟩
  | closed =>
    rcases cut inner cs with ⟨hdrop, -⟩ | ⟨c, rest, -, hdrop, hdrop', htake⟩
    · rw [hdrop]
      intro x hx
      simp at hx
    · rw [hdrop, hdrop', htake]
      generalize cs.takeWhile inner = name
      cases name with
      | nil => exact .none _
      | cons d name =>
        by_cases hangle : c = '>'
        · subst hangle
          exact .ite (.some ⟨rfl, .closed⟩) (.none _)
        · intro x hx
          simp [hangle] at hx

theorem readFlags (h : Framed cs cs') (flags : Flags) (on : Bool)
    (seen : List Char) :
    Agrees (Alike (Alike Framed)) (readFlags flags on seen cs) (readFlags flags on seen cs') := by
  induction cs generalizing cs' flags on seen with
  | nil => exact .none _
  | cons c cs ih =>
    obtain ⟨cs', rfl, hrest⟩ := h.exists_cons
    rw [Pattern.readFlags, Pattern.readFlags]
    refine .ite (.ite (.none _) (.some ⟨rfl, rfl, h⟩)) (.ite (.none _) (.ite (ih hrest _ _ _) ?_))
    cases flags.set? on c with
    | none => exact .none _
    | some flags => exact ih hrest _ _ _

end Framed

/-! ### Reading in a frame -/

namespace ReadState

/-- The state of a reader with another group around all others. -/
def within (g : OpenGroup) (st : ReadState) : ReadState := { st with around := st.around ++ [g] }

variable (g : OpenGroup) (st : ReadState)

@[simp] theorem flags_within : (st.within g).flags = st.flags := rfl

theorem closeGroup_within {st st' : ReadState} (h : st.closeGroup = some st') :
    (st.within g).closeGroup = some (st'.within g) := by
  obtain ⟨current, around, count, names, flags⟩ := st
  cases around with
  | nil => cases h
  | cons outer around =>
    cases h
    rfl

end ReadState

/-- Whether two readers stand at the same place of a source, the second one in the frame. -/
def Inside (g : OpenGroup) (x y : ReadState × List Char) : Prop :=
  y.1 = x.1.within g ∧ Framed x.2 y.2

namespace Framed

variable (g : OpenGroup) (st : ReadState)

theorem repeatLast (least : Nat) (most : Option Nat) (h : Framed cs cs') :
    Agrees (Inside g) (st.repeatLast least most cs) ((st.within g).repeatLast least most cs') := by
  obtain ⟨hgreedy, hrest⟩ := h.readGreedy st.flags
  unfold ReadState.repeatLast
  simp only [ReadState.flags_within]
  rw [← hgreedy]
  exact .map (R := Eq) (fun x hx => ⟨x, hx, rfl⟩) fun x y hxy => ⟨hxy ▸ rfl, hrest⟩

theorem readNamed (h : Framed cs cs') :
    Agrees (Inside g) (readNamed st cs) (readNamed (st.within g) cs') := by
  unfold Pattern.readNamed
  rcases h.readName.cases with hname | ⟨⟨name, rest⟩, ⟨_, rest'⟩, hname, hname', rfl, hrest⟩
  · rw [hname]
    exact .none _
  · rw [hname, hname']
    exact .ite (.none _) (.some ⟨rfl, hrest⟩)

theorem readOpening (h : Framed cs cs') :
    Agrees (Inside g) (readOpening st cs) (readOpening (st.within g) cs') := by
  have hskip := h.skip st.flags
  unfold Pattern.readOpening
  rw [ReadState.flags_within]
  generalize st.flags.skip cs = ds at hskip
  generalize st.flags.skip cs' = ds' at hskip
  rcases hskip.cases_cons (c := '?') (by decide) with ⟨rest, rest', rfl, rfl, hrest⟩ | ⟨hne, hne'⟩
  · rcases hrest.cases_cons_cons (c := 'P') (d := '<') (by decide) (by decide) with
      ⟨more, more', rfl, rfl, hmore⟩ | ⟨hpython, hpython'⟩
    · exact hmore.readNamed g st
    rcases hrest.cases_cons (c := '<') (by decide) with
      ⟨more, more', rfl, rfl, hmore⟩ | ⟨hangle, hangle'⟩
    · exact hmore.readNamed g st
    simp only
    rcases (hrest.readFlags st.flags true []).cases with
      hflags | ⟨⟨flags, seen, more⟩, ⟨_, _, more'⟩, hflags, hflags', rfl, rfl, hmore⟩
    · rw [hflags]
      exact .none _
    rw [hflags, hflags']
    dsimp only at hmore
    rcases more with _ | ⟨c, more⟩
    · intro x hx
      simp at hx
    obtain ⟨more', rfl, hbehind⟩ := hmore.exists_cons
    by_cases hcolon : c = ':'
    · subst hcolon
      exact .some ⟨rfl, hbehind⟩
    by_cases hclose : c = ')'
    · subst hclose
      cases seen with
      | nil =>
        intro x hx
        simp at hx
      | cons flag seen => exact .some ⟨rfl, hbehind⟩
    · intro x hx
      simp [hcolon, hclose] at hx
  · simp [hne, hne']
    exact .some ⟨rfl, hskip⟩

theorem readElement (h : Framed cs cs') :
    Agrees (Inside g) (readElement st cs) (readElement (st.within g) cs') := by
  cases cs with
  | nil => exact .none _
  | cons c cs =>
    obtain ⟨cs', rfl, hrest⟩ := h.exists_cons
    by_cases hopen : c = '('
    · subst hopen
      exact hrest.readOpening g st
    by_cases hclose : c = ')'
    · subst hclose
      refine .map (R := fun x y => y = x.within g) (fun x hx => ?_) fun x y hxy => ⟨hxy, hrest⟩
      exact ⟨x.within g, ReadState.closeGroup_within g hx, rfl⟩
    by_cases hbar : c = '|'
    · subst hbar
      exact .some ⟨rfl, hrest⟩
    by_cases hstar : c = '*'
    · subst hstar
      exact hrest.repeatLast g st 0 none
    by_cases hplus : c = '+'
    · subst hplus
      exact hrest.repeatLast g st 1 none
    by_cases hquestion : c = '?'
    · subst hquestion
      exact hrest.repeatLast g st 0 (some 1)
    by_cases hbrace : c = '\x7b'
    · subst hbrace
      unfold Pattern.readElement
      simp only [ReadState.flags_within]
      rcases (hrest.readBounds st.flags).cases with
        hbounds | ⟨⟨least, most, rest⟩, ⟨_, _, rest'⟩, hbounds, hbounds', rfl, rfl, hmore⟩
      · rw [hbounds]
        exact .none _
      · rw [hbounds, hbounds']
        exact (hmore.skip st.flags).repeatLast g st _ _
    by_cases hset : c = '['
    · subst hset
      refine (hrest.readSet st.flags).map ?_
      rintro ⟨part, rest⟩ ⟨_, rest'⟩ ⟨rfl, hmore⟩
      exact ⟨rfl, hmore⟩
    by_cases hdot : c = '.'
    · subst hdot
      exact .map (R := Eq) (fun x hx => ⟨x, hx, rfl⟩) fun x y hxy => ⟨hxy ▸ rfl, hrest⟩
    by_cases hfront : c = '^'
    · subst hfront
      exact .some ⟨rfl, hrest⟩
    by_cases hend : c = '$'
    · subst hend
      exact .some ⟨rfl, hrest⟩
    by_cases hescape : c = '\\'
    · subst hescape
      unfold Pattern.readElement
      simp only [ReadState.flags_within]
      rcases (hrest.readEscape st.flags).cases with
        hread | ⟨⟨e, rest⟩, ⟨_, rest'⟩, hread, hread', rfl, hmore⟩
      · rw [hread]
        exact .none _
      · rw [hread, hread']
        cases e with
        | char c => exact .some ⟨rfl, hmore⟩
        | set s => exact .some ⟨rfl, hmore⟩
        | edge e => exact .some ⟨rfl, hmore⟩
    unfold Pattern.readElement
    simp only
    exact .some ⟨rfl, hrest⟩

end Framed

/-! ### Whole sources -/

section

variable (g : OpenGroup) {st : ReadState} {cs : List Char}

theorem readAll_of_nil (h : st.flags.skip cs = []) (n : Nat) : readAll n st cs = some st := by
  unfold readAll
  rw [h]

theorem readAll_of_cons {c : Char} {rest : List Char} (h : st.flags.skip cs = c :: rest) (n : Nat) :
    readAll (n + 1) st cs = (readElement st (c :: rest)).bind fun read => readAll n read.1 read.2 := by
  conv =>
    lhs
    unfold readAll
    rw [h]
  dsimp only
  cases readElement st (c :: rest) with
  | none => rfl
  | some read => rfl

/-- Where a source ends, the parenthesis closes the frame, unless it went with a comment. -/
theorem readAll_end (h : Framed [] ((st.within g).flags.skip cs)) (n : Nat) :
    readAll (n + 1) (st.within g) cs = some (st.within g) ∨
      readAll (n + 1) (st.within g) cs = (st.within g).closeGroup := by
  generalize hskip : (st.within g).flags.skip cs = ds at h
  cases h with
  | swallowed => exact .inl (readAll_of_nil hskip _)
  | closed =>
    rw [readAll_of_cons hskip, readElement]
    cases (st.within g).closeGroup with
    | none => exact .inr rfl
    | some closed =>
      refine .inr (readAll_of_nil ?_ n)
      unfold Flags.skip
      split <;> rfl

/-- In the frame the reader of a source comes to the same state. Then the parenthesis closes the
frame, unless it went with a comment. -/
theorem readAll_within {n n' : Nat} (hle : n < n') {st' : ReadState} {cs' : List Char}
    (hframed : Framed cs cs') (h : readAll n st cs = some st') :
    readAll n' (st.within g) cs' = some (st'.within g) ∨
      readAll n' (st.within g) cs' = (st'.within g).closeGroup := by
  induction n generalizing n' st cs cs' with
  | zero =>
    obtain ⟨n', rfl⟩ : ∃ m, n' = m + 1 := ⟨n' - 1, by omega⟩
    have hskip := hframed.skip st.flags
    rcases hcs : st.flags.skip cs with _ | ⟨c, rest⟩
    · rw [readAll_of_nil hcs] at h
      cases h
      exact readAll_end g (hcs ▸ hskip) n'
    · unfold readAll at h
      rw [hcs] at h
      cases h
  | succ n ih =>
    obtain ⟨n', rfl⟩ : ∃ m, n' = m + 1 := ⟨n' - 1, by omega⟩
    have hskip := hframed.skip st.flags
    rcases hcs : st.flags.skip cs with _ | ⟨c, rest⟩
    · rw [readAll_of_nil hcs] at h
      cases h
      exact readAll_end g (hcs ▸ hskip) n'
    · rw [hcs] at hskip
      rw [readAll_of_cons hcs] at h
      obtain ⟨rest', hcs', -⟩ := hskip.exists_cons
      have hwithin : (st.within g).flags.skip cs' = c :: rest' := hcs'
      rw [readAll_of_cons hwithin, ← hcs']
      rcases (hskip.readElement g st).cases with
        hread | ⟨⟨next, more⟩, ⟨_, more'⟩, hread, hread', rfl, hmore⟩
      · rw [hread] at h
        cases h
      · rw [hread] at h
        rw [hread']
        exact ih (Nat.lt_of_succ_lt_succ hle) hmore h

end

/-- Whether a text is a pattern by itself: all groups that it opens it closes, and no others. -/
def isWhole (source : List Char) : Bool :=
  (readAll source.length { current := { index := none, outerFlags := {} } } source).any
    (·.around.isEmpty)

/-- What stands in front of the group of the frame: the condition that ties a pattern. -/
def outside : OpenGroup :=
  { index := none, outerFlags := {}, parts := [{ pattern := .edge .textStart }] }

/-- The frame is read, and then the source in it. -/
theorem ofChars?_eq (source : List Char) :
    ofChars? source =
      match readAll (source.length + 3)
        (ReadState.within outside { current := { index := none, outerFlags := {} } })
        (source ++ [')']) with
      | some { current := g, around := [], .. } =>
        if g.body.depth ≤ depthLimit && g.body.pattern.fits then some g.body.pattern else none
      | _ => none := by
  have hlength : (['^', '(', '?', ':'] ++ source ++ [')']).length = source.length + 3 + 2 := by
    simp
  rw [ofChars?, hlength]
  rfl

/-- The frame ties whatever stands in it. -/
theorem isTied_body_outside (part : Part) : (outside.add part).body.pattern.isTied := by
  have hrow : (outside.add part).body.pattern =
      choice [chain (.edge .textStart :: part.pattern.parts)] := rfl
  rw [hrow]
  cases part.pattern.parts with
  | nil => rfl
  | cons q ps => rfl

/-- A source that is a pattern by itself makes a pattern that is tied to the start of the text. -/
theorem isTied_of_isWhole {source : List Char} (h : isWhole source) {p : Pattern}
    (hp : ofChars? source = some p) : p.isTied := by
  obtain ⟨⟨current, around, count, names, flags⟩, hst, haround⟩ := (Option.any_eq_true _ _).1 h
  obtain rfl := List.isEmpty_iff.1 haround
  have hlt : source.length < source.length + 3 := by omega
  rw [ofChars?_eq] at hp
  rcases readAll_within outside hlt .closed hst with hread | hread
  · rw [hread] at hp
    cases hp
  · rw [hread] at hp
    simp only [ReadState.closeGroup, ReadState.within, List.nil_append] at hp
    split at hp
    · cases hp
      exact isTied_body_outside current.close
    · cases hp

end HdlIndex.Pattern
