import HdlIndex.Outline.Origin
import HdlIndex.Proofs.Preprocess.Groups
import Mathlib.Data.List.Chain

/-! Stretches of the processed text as segments of source files. Main statement: the tokens that a stretch
overlaps are divided into groups in a row, each segment is the hull of a group, and a group goes on for
as long as the next token continues the segment. -/

namespace HdlIndex

/-- The numbers of a row between two bounds. -/
theorem filter_range_eq_range' {p : Nat → Bool} {n first last : Nat} (hle : first ≤ last)
    (hlast : last < n) (h : ∀ i, p i = true ↔ first ≤ i ∧ i ≤ last) :
    (List.range n).filter p = List.range' first (last + 1 - first) := by
  obtain ⟨behind, rfl⟩ := Nat.exists_eq_add_of_le (Nat.succ_le_of_lt hlast)
  obtain ⟨inside, rfl⟩ := Nat.exists_eq_add_of_le hle
  have hsplit : List.range (first + inside + 1 + behind) =
      List.range' 0 first ++ (List.range' first (inside + 1) ++
        List.range' (first + (inside + 1)) behind) := by
    have hfront := List.range'_append_1 (s := 0) (m := first) (n := inside + 1 + behind)
    rw [Nat.zero_add] at hfront
    rw [List.range'_append_1, hfront, List.range_eq_range']
    congr 1
    omega
  have hnone {front count : Nat} (hrow : ∀ i, front ≤ i → i < front + count → ¬p i) :
      (List.range' front count).filter p = [] :=
    List.filter_eq_nil_iff.2 fun i hi => hrow i (List.mem_range'_1.1 hi).1 (List.mem_range'_1.1 hi).2
  have hall : (List.range' first (inside + 1)).filter p = List.range' first (inside + 1) := by
    refine List.filter_eq_self.2 fun i hi => (h i).2 ?_
    have := List.mem_range'_1.1 hi
    omega
  rw [hsplit, List.filter_append, List.filter_append, hall,
    hnone fun i _ hi hp => by have := (h i).1 hp; omega,
    hnone fun i hi _ hp => by have := (h i).1 hp; omega, List.nil_append, List.append_nil]
  congr 1
  omega

/-! ### Tokens of a stream -/

namespace TokenStream

/-- How many bytes of the text stand in front of a token. -/
def bytesBefore (s : TokenStream) (index : Nat) : Nat :=
  (String.join ((s.tokens.toList.take index).map (·.text))).utf8ByteSize

/-- Whether the bytes of a token overlap those from `start` up to `stop` of the text. -/
def Overlaps (s : TokenStream) (start stop index : Nat) : Prop :=
  s.bytesBefore index < stop ∧ start < s.bytesBefore (index + 1)

instance (s : TokenStream) (start stop index : Nat) : Decidable (s.Overlaps start stop index) :=
  inferInstanceAs (Decidable (_ ∧ _))

variable {s : TokenStream}

theorem bytesBefore_mono {i j : Nat} (h : i ≤ j) : s.bytesBefore i ≤ s.bytesBefore j := by
  obtain ⟨more, rfl⟩ := Nat.exists_eq_add_of_le h
  rw [bytesBefore, bytesBefore, List.take_add, List.map_append, String.join_append,
    String.utf8ByteSize_append]
  exact Nat.le_add_right _ _

theorem bytesBefore_succ {index : Nat} {token : PostToken} (htoken : s.tokens[index]? = some token) :
    s.bytesBefore (index + 1) = s.bytesBefore index + token.text.utf8ByteSize := by
  rw [← Array.getElem?_toList] at htoken
  simp [bytesBefore, List.take_add_one, htoken]

theorem bytesBefore_size (s : TokenStream) : s.bytesBefore s.tokens.size = s.text.utf8ByteSize := by
  rw [bytesBefore, ← Array.length_toList, List.take_length, text, ← Array.foldl_toList, String.join,
    List.foldl_map]

/-- The token around a place of the text. -/
theorem exists_token_around {x : Nat} (hx : x < s.text.utf8ByteSize) :
    ∃ index < s.tokens.size, s.bytesBefore index ≤ x ∧ x < s.bytesBefore (index + 1) := by
  have hzero : s.bytesBefore 0 ≤ x := Nat.zero_le x
  have hall : ¬s.bytesBefore s.tokens.size ≤ x := by rw [bytesBefore_size]; omega
  obtain ⟨index, hindex, hle, hlt⟩ := exists_border (s.bytesBefore · ≤ x) hzero hall
  exact ⟨index, hindex, hle, Nat.lt_of_not_le hlt⟩

/-- The tokens that overlap a stretch are those from the one around its first byte to the one around its
last. -/
theorem overlaps_iff {first last start stop index : Nat} (hfirst : s.bytesBefore first ≤ start)
    (hbehind : start < s.bytesBefore (first + 1)) (hlast : s.bytesBefore last < stop)
    (hstop : stop ≤ s.bytesBefore (last + 1)) :
    s.Overlaps start stop index ↔ first ≤ index ∧ index ≤ last := by
  refine and_comm.trans (and_congr ⟨fun h => ?_, fun h => ?_⟩ ⟨fun h => ?_, fun h => ?_⟩)
  · refine Nat.le_of_not_lt fun hlt => Nat.not_lt_of_le hfirst ?_
    exact Nat.lt_of_lt_of_le h (bytesBefore_mono (Nat.succ_le_of_lt hlt))
  · exact Nat.lt_of_lt_of_le hbehind (bytesBefore_mono (Nat.succ_le_succ h))
  · refine Nat.le_of_not_lt fun hlt => Nat.not_lt_of_le hstop ?_
    exact Nat.lt_of_le_of_lt (bytesBefore_mono (Nat.succ_le_of_lt hlt)) h
  · exact Nat.lt_of_le_of_lt (bytesBefore_mono h) hlast

end TokenStream

namespace Origins

theorem toList_offsetsOf (s : TokenStream) :
    (offsetsOf s.tokens).toList = (List.range s.tokens.size).map s.bytesBefore := by
  have hfold (tokens : List PostToken) (offsets : Array Nat) (offset : Nat) :
      (tokens.foldl (fun p t => (p.1.push p.2, p.2 + t.text.utf8ByteSize))
        (offsets, offset)).1.toList = offsets.toList ++ (List.range tokens.length).map fun i =>
          offset + (String.join ((tokens.take i).map (·.text))).utf8ByteSize := by
    induction tokens generalizing offsets offset with
    | nil => simp
    | cons t tokens ih =>
      rw [List.foldl_cons, ih, List.length_cons, List.range_succ_eq_map, List.map_cons,
        List.map_map]
      simp [Function.comp_def, Nat.add_assoc]
  have hall := hfold s.tokens.toList #[] 0
  simp only [Nat.zero_add, Array.length_toList] at hall
  rw [offsetsOf, ← Array.foldl_toList]
  exact hall

/-- The token at a place is the one around it. -/
theorem tokenAt?_eq {o : Origins} (ho : o.offsets = offsetsOf o.stream.tokens) {x index : Nat}
    (hindex : index < o.stream.tokens.size) (hle : o.stream.bytesBefore index ≤ x)
    (hlt : x < o.stream.bytesBefore (index + 1)) : o.tokenAt? x = some index := by
  have hsize : o.offsets.size = o.stream.tokens.size := by
    rw [ho, ← Array.length_toList, toList_offsetsOf, List.length_map, List.length_range]
  have hfound : bisect (fun i => o.offsets[i]?.any (· ≤ x)) o.offsets.size = index + 1 := by
    rw [hsize]
    refine bisect_eq hindex fun i hi => ?_
    rw [ho, ← Array.getElem?_toList, toList_offsetsOf, List.getElem?_map, List.getElem?_range hi,
      Option.map_some, Option.any_some, decide_eq_decide]
    refine ⟨fun hbefore => Nat.lt_of_not_le fun hge => ?_, fun hbefore => ?_⟩
    · have := TokenStream.bytesBefore_mono (s := o.stream) hge
      omega
    · exact Nat.le_trans (TokenStream.bytesBefore_mono (Nat.le_of_lt_succ hbefore)) hle
  rw [tokenAt?, hfound]

end Origins

/-! ### Hulls -/

theorem min?_concat {items : List Nat} {a : Nat} (h : items.min? = some a) (b : Nat) :
    (items ++ [b]).min? = some (min a b) := by
  cases items with
  | nil => cases h
  | cons x items =>
    rw [List.min?_cons', Option.some.injEq] at h
    rw [List.cons_append, List.min?_cons', List.foldl_append, h, List.foldl_cons, List.foldl_nil]

theorem max?_concat {items : List Nat} {a : Nat} (h : items.max? = some a) (b : Nat) :
    (items ++ [b]).max? = some (max a b) := by
  cases items with
  | nil => cases h
  | cons x items =>
    rw [List.max?_cons', Option.some.injEq] at h
    rw [List.cons_append, List.max?_cons', List.foldl_append, h, List.foldl_cons, List.foldl_nil]

namespace TokenStream

/-- The tokens with some numbers. -/
def tokensAt (s : TokenStream) (group : List Nat) : List PostToken :=
  group.filterMap (s.tokens[·]?)

theorem tokensAt_concat {s : TokenStream} {index : Nat} {token : PostToken}
    (htoken : s.tokens[index]? = some token) (group : List Nat) :
    s.tokensAt (group ++ [index]) = s.tokensAt group ++ [token] := by
  rw [tokensAt, List.filterMap_append, List.filterMap_cons_some htoken, List.filterMap_nil,
    tokensAt]

end TokenStream

namespace Segment

/-- A segment is the hull of a group of tokens: they come from its file, it starts with the first of their
starts and stops with the last of their stops, and its run is that of the last token. -/
structure IsHull (segment : Segment) (s : TokenStream) (group : List Nat) : Prop where
  nonempty : group ≠ []
  file : ∀ index ∈ group, ∃ run, s.InRun index run segment.file
  start : ((s.tokensAt group).map (·.start)).min? = some segment.start
  stop : ((s.tokensAt group).map (·.stop)).max? = some segment.stop
  run : ∀ index ∈ group.getLast?, s.InRun index segment.run segment.file

/-- Whether a token continues a segment: it comes from the file of the segment, and it lies in the same run
and does not start in front of the segment, or it starts exactly where the segment stops. -/
def Continues (segment : Segment) (s : TokenStream) (index : Nat) : Prop :=
  ∃ run token, s.InRun index run segment.file ∧ s.tokens[index]? = some token ∧
    (segment.run = run ∧ segment.start ≤ token.start ∨ token.start = segment.stop)

variable {s : TokenStream} {segment : Segment} {group : List Nat} {index run : Nat} {file : String}
  {token : PostToken}

theorem accepts_iff (segment : Segment) (hruns : s.runs.toList.Pairwise (·.start < ·.start))
    (hrun : s.InRun index run file) (htoken : s.tokens[index]? = some token) :
    segment.accepts file run token = true ↔ segment.Continues s index := by
  simp only [accepts, Bool.and_eq_true, Bool.or_eq_true, beq_iff_eq, decide_eq_true_eq]
  constructor
  · rintro ⟨rfl, hplace⟩
    exact ⟨run, token, hrun, htoken, hplace⟩
  · rintro ⟨run', token', hrun', htoken', hplace⟩
    obtain ⟨rfl, rfl⟩ := hrun.unique hruns hrun'
    obtain rfl := Option.some.inj (htoken.symm.trans htoken')
    exact ⟨rfl, hplace⟩

theorem isHull_singleton (hrun : s.InRun index run file) (htoken : s.tokens[index]? = some token) :
    IsHull ⟨file, token.start, token.stop, run⟩ s [index] where
  nonempty := List.cons_ne_nil _ _
  file := by simpa using ⟨run, hrun⟩
  start := by simp [TokenStream.tokensAt, htoken]
  stop := by simp [TokenStream.tokensAt, htoken]
  run := by simpa using hrun

/-- The hull with a token that does not start in front of it. -/
theorem IsHull.extend (h : segment.IsHull s group) (hrun : s.InRun index run segment.file)
    (htoken : s.tokens[index]? = some token) (hstart : segment.start ≤ token.start) :
    (segment.extend run token).IsHull s (group ++ [index]) where
  nonempty := by simp
  file := by
    intro other hother
    rcases List.mem_append.1 hother with hother | hother
    · exact h.file other hother
    · obtain rfl := List.mem_singleton.1 hother
      exact ⟨run, hrun⟩
  start := by
    rw [TokenStream.tokensAt_concat htoken, List.map_append]
    exact (min?_concat h.start token.start).trans (by rw [Nat.min_eq_left hstart]; rfl)
  stop := by
    rw [TokenStream.tokensAt_concat htoken, List.map_append]
    exact max?_concat h.stop token.stop
  run := by
    intro other hother
    obtain rfl : index = other := by simpa using hother
    exact hrun

variable (hspans : ∀ t ∈ s.tokens, t.start ≤ t.stop)
include hspans

theorem IsHull.start_le_stop (h : segment.IsHull s group) : segment.start ≤ segment.stop := by
  obtain ⟨hmem, -⟩ := List.min?_eq_some_iff.1 h.start
  obtain ⟨-, hle⟩ := List.max?_eq_some_iff.1 h.stop
  obtain ⟨token, htoken, hstart⟩ := List.mem_map.1 hmem
  obtain ⟨index, -, hindex⟩ := List.mem_filterMap.1 htoken
  calc segment.start
    _ = token.start := hstart.symm
    _ ≤ token.stop := hspans token (Array.mem_of_getElem? hindex)
    _ ≤ segment.stop := hle _ (List.mem_map_of_mem htoken)

/-- A token that continues a segment does not start in front of it. -/
theorem IsHull.start_le_of_place (h : segment.IsHull s group)
    (hplace : segment.run = run ∧ segment.start ≤ token.start ∨ token.start = segment.stop) :
    segment.start ≤ token.start := by
  rcases hplace with ⟨-, hle⟩ | hstop
  · exact hle
  · exact hstop ▸ h.start_le_stop hspans

end Segment

/-! ### Division into groups -/

/-- Numbers of tokens divided into groups, each with a segment: the segment is the hull of the group,
within a group each token continues the hull of those in front of it, and the first token of the next
group does not continue the segment. -/
structure TokenStream.IsDivision (s : TokenStream) (tokens : List Nat)
    (rows : List (List Nat × Segment)) : Prop where
  flatten : rows.flatMap (·.1) = tokens
  hull : ∀ row ∈ rows, row.2.IsHull s row.1
  joined : ∀ row ∈ rows, ∀ front index behind, row.1 = front ++ index :: behind → front ≠ [] →
    ∃ segment : Segment, segment.IsHull s front ∧ segment.Continues s index
  apart : rows.IsChain fun row next => ∀ index ∈ next.1.head?, ¬row.2.Continues s index

namespace TokenStream.IsDivision

variable {s : TokenStream} {tokens : List Nat} {index run : Nat} {file : String} {token : PostToken}

theorem nil (s : TokenStream) : s.IsDivision [] [] := ⟨rfl, by simp, by simp, .nil⟩

theorem concat {rows : List (List Nat × Segment)} (h : s.IsDivision tokens rows)
    (hrun : s.InRun index run file) (htoken : s.tokens[index]? = some token)
    (hapart : ∀ row ∈ rows.getLast?, ¬row.2.Continues s index) :
    s.IsDivision (tokens ++ [index])
      (rows ++ [([index], ⟨file, token.start, token.stop, run⟩)]) where
  flatten := by simp [h.flatten]
  hull row hrow := by
    rcases List.mem_append.1 hrow with hrow | hrow
    · exact h.hull row hrow
    · obtain rfl := List.mem_singleton.1 hrow
      exact Segment.isHull_singleton hrun htoken
  joined row hrow front other behind hsplit hfront := by
    rcases List.mem_append.1 hrow with hrow | hrow
    · exact h.joined row hrow front other behind hsplit hfront
    · obtain rfl := List.mem_singleton.1 hrow
      obtain ⟨c, front, rfl⟩ := List.exists_cons_of_ne_nil hfront
      simp at hsplit
  apart := by
    refine List.isChain_append.2 ⟨h.apart, .singleton _, fun row hrow next hnext => ?_⟩
    obtain rfl : ([index], _) = next := by simpa using hnext
    simpa using hapart row hrow

theorem extend {rows : List (List Nat × Segment)} {group : List Nat} {segment : Segment}
    (h : s.IsDivision tokens (rows ++ [(group, segment)]))
    (hrun : s.InRun index run segment.file) (htoken : s.tokens[index]? = some token)
    (hstart : segment.start ≤ token.start) (hcontinues : segment.Continues s index) :
    s.IsDivision (tokens ++ [index])
      (rows ++ [(group ++ [index], segment.extend run token)]) where
  flatten := by simp [← h.flatten]
  hull row hrow := by
    rcases List.mem_append.1 hrow with hrow | hrow
    · exact h.hull row (List.mem_append_left _ hrow)
    · obtain rfl := List.mem_singleton.1 hrow
      exact (h.hull (group, segment) (by simp)).extend hrun htoken hstart
  joined row hrow front other behind hsplit hfront := by
    rcases List.mem_append.1 hrow with hrow | hrow
    · exact h.joined row (List.mem_append_left _ hrow) front other behind hsplit hfront
    · obtain rfl := List.mem_singleton.1 hrow
      rcases behind.eq_nil_or_concat with rfl | ⟨behind, last, rfl⟩
      · obtain ⟨rfl, hother⟩ := List.append_inj' hsplit rfl
        obtain rfl : index = other := by simpa using hother
        exact ⟨segment, h.hull (group, segment) (by simp), hcontinues⟩
      · rw [List.concat_eq_append, ← List.cons_append, ← List.append_assoc] at hsplit
        exact h.joined (group, segment) (by simp) front other behind
          (List.append_inj' hsplit rfl).1 hfront
  apart := by
    obtain ⟨hrows, -, hlast⟩ := List.isChain_append.1 h.apart
    refine List.isChain_append.2 ⟨hrows, .singleton _, fun row hrow next hnext other hother => ?_⟩
    obtain rfl : (group ++ [index], _) = next := by simpa using hnext
    obtain ⟨c, group, rfl⟩ := List.exists_cons_of_ne_nil (h.hull (group, segment) (by simp)).nonempty
    exact hlast row hrow _ rfl other hother

section

variable (hspans : ∀ t ∈ s.tokens, t.start ≤ t.stop)
  (hruns : s.runs.toList.Pairwise (·.start < ·.start))
include hspans hruns

/-- One more token goes on with the last group or starts another one. -/
theorem exists_add {rows : List (List Nat × Segment)} (h : s.IsDivision tokens rows)
    (hrun : s.InRun index run file) (htoken : s.tokens[index]? = some token) :
    ∃ more, s.IsDivision (tokens ++ [index]) more ∧
      (more.map (·.2)).reverse = Segment.add (rows.map (·.2)).reverse file run token := by
  rcases rows.eq_nil_or_concat with rfl | ⟨rows, ⟨group, segment⟩, rfl⟩
  · exact ⟨_, h.concat hrun htoken (by simp), rfl⟩
  · rw [List.concat_eq_append] at h ⊢
    rw [List.map_append, List.map_singleton, List.reverse_append, List.reverse_singleton,
      List.singleton_append, Segment.add]
    have haccepts := segment.accepts_iff hruns hrun htoken
    by_cases haccepted : segment.accepts file run token = true
    · obtain ⟨other, again, hother, hagain, hplace⟩ := haccepts.1 haccepted
      obtain ⟨rfl, rfl⟩ := hrun.unique hruns hother
      obtain rfl := Option.some.inj (htoken.symm.trans hagain)
      have hstart := (h.hull (group, segment) (by simp)).start_le_of_place hspans hplace
      refine ⟨_, h.extend hrun htoken hstart (haccepts.1 haccepted), ?_⟩
      simp [haccepted]
    · refine ⟨_, h.concat hrun htoken ?_, ?_⟩
      · simpa using haccepts.not.1 haccepted
      · simp [haccepted]

/-- Tokens that are added one after another are divided into groups. -/
theorem exists_foldl (o : Origins) (hstream : o.stream = s)
    (hfirst : s.runs.toList.head?.map (·.start) = some 0)
    (htokens : ∀ index ∈ tokens, index < s.tokens.size) :
    ∃ rows, s.IsDivision tokens rows ∧
      (rows.map (·.2)).reverse = tokens.foldl o.addToken [] := by
  subst hstream
  induction tokens using List.reverseRecOn with
  | nil => exact ⟨[], nil _, rfl⟩
  | append_singleton tokens index ih =>
    obtain ⟨rows, hrows, hsegments⟩ := ih fun i hi => htokens i (List.mem_append_left _ hi)
    obtain ⟨run, file, hrun⟩ := o.stream.exists_inRun hfirst index
    have htoken := Array.getElem?_eq_getElem (htokens index (by simp))
    obtain ⟨start, -, hfile⟩ := hrun.starts
    obtain ⟨more, hmore, hadded⟩ := hrows.exists_add hspans hruns hrun htoken
    refine ⟨more, hmore, hadded.trans ?_⟩
    rw [List.foldl_append, List.foldl_cons, List.foldl_nil, ← hsegments, Origins.addToken, htoken,
      hrun.runOf?_eq hruns]
    simp only [hfile]

end

end TokenStream.IsDivision

namespace Origins

/-- The segments of a stretch are exact: the tokens that overlap the stretch are divided into groups in a
row, and the segments are the hulls of the groups, one for each in the same order. -/
theorem segments_eq_hulls (p : Preprocessed) {start stop : Nat}
    (hspans : ∀ t ∈ p.stream.tokens, t.start ≤ t.stop)
    (hfirst : p.stream.runs.toList.head?.map (·.start) = some 0)
    (hruns : p.stream.runs.toList.Pairwise (·.start < ·.start))
    (hlt : start < stop) (hstop : stop ≤ p.stream.text.utf8ByteSize) :
    ∃ rows, rows.map (·.2) = (ofPreprocessed p).segments start stop ∧
      p.stream.IsDivision
        ((List.range p.stream.tokens.size).filter (p.stream.Overlaps start stop ·)) rows := by
  obtain ⟨first, hfirstIn, hfirstLe, hfirstGt⟩ :=
    p.stream.exists_token_around (x := start) (by omega)
  obtain ⟨last, hlastIn, hlastLe, hlastGt⟩ :=
    p.stream.exists_token_around (x := stop - 1) (by omega)
  have hoverlaps (index : Nat) :
      p.stream.Overlaps start stop index ↔ first ≤ index ∧ index ≤ last :=
    TokenStream.overlaps_iff hfirstLe hfirstGt (by omega) (by omega)
  have hordered : first ≤ last :=
    ((hoverlaps first).1 ⟨by omega, hfirstGt⟩).2
  rw [filter_range_eq_range' hordered hlastIn fun index => by
    rw [decide_eq_true_iff, hoverlaps]]
  have htokens : ∀ index ∈ List.range' first (last + 1 - first), index < p.stream.tokens.size := by
    intro index hindex
    have := List.mem_range'_1.1 hindex
    omega
  obtain ⟨rows, hrows, hsegments⟩ :=
    TokenStream.IsDivision.exists_foldl hspans hruns (ofPreprocessed p) rfl hfirst htokens
  refine ⟨rows, ?_, hrows⟩
  have hmax : max (stop - 1) start = stop - 1 := by omega
  rw [segments, tokenAt?_eq rfl hfirstIn hfirstLe hfirstGt, hmax, tokenAt?_eq rfl hlastIn hlastLe hlastGt]
  simp only [← hsegments, List.reverse_reverse]

/-- A document with a token of another file between its own, the last of which stands in front of the one
before it. -/
def interleaved : Preprocessed where
  file := "m.v"
  stream := {
    tokens := #[⟨"ab", 0, 2⟩, ⟨"+", 2, 3⟩, ⟨"c", 0, 1⟩, ⟨"+", 2, 3⟩, ⟨"ab", 0, 2⟩]
    runs := #[⟨"m.v", 0⟩, ⟨"d.svh", 2⟩, ⟨"m.v", 3⟩] }

theorem segments_eq_hulls_interleaved :
    ∃ rows, rows.map (·.2) =
        [⟨"m.v", 0, 3, 0⟩, ⟨"d.svh", 0, 1, 1⟩, ⟨"m.v", 2, 3, 2⟩, ⟨"m.v", 0, 2, 2⟩] ∧
      interleaved.stream.IsDivision [0, 1, 2, 3, 4] rows := by
  have h := segments_eq_hulls interleaved (by simp [interleaved]) rfl (by simp [interleaved])
    (by decide : 1 < 6) (by decide)
  have hsegments : (ofPreprocessed interleaved).segments 1 6 =
      [⟨"m.v", 0, 3, 0⟩, ⟨"d.svh", 0, 1, 1⟩, ⟨"m.v", 2, 3, 2⟩, ⟨"m.v", 0, 2, 2⟩] := by
    decide +kernel
  have htokens : (List.range interleaved.stream.tokens.size).filter
      (interleaved.stream.Overlaps 1 6 ·) = [0, 1, 2, 3, 4] := by decide
  rwa [hsegments, htokens] at h

end Origins

end HdlIndex
