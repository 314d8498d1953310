import HdlIndex.Proofs.Grammar.Pieces
import HdlIndex.Proofs.Outline.Stretches

/-! Rules that read items and types inside of them. Such a rule asks for an item only behind the token
that it starts at, so what it does depends on how items are read where fewer tokens are left. Main
statements: reading items and reading types each satisfy an equation without a bound on how deep they
nest, and nothing else does. -/

namespace HdlIndex

/-- Repetitions of steps that agree wherever the repetition comes to are the same. -/
theorem iterate_congr {σ α : Type} {P : σ → Prop} {step step' : σ → Option σ}
    (hsame : ∀ s, P s → step s = step' s) (hkeep : ∀ s t, P s → step' s = some t → P t)
    (bound : List α) (s : σ) (hs : P s) : iterate step bound s = iterate step' bound s := by
  induction bound generalizing s with
  | nil => rfl
  | cons _ bound ih =>
    rw [iterate, iterate, hsame s hs]
    split
    · rfl
    · next t ht => exact ih t (hkeep s t hs ht)

namespace Cursor

variable {c d : Cursor}

theorem left_bump (c : Cursor) : c.bump.left = c.left - 1 := by
  cases hrest : c.rest with
  | nil => rw [bump_of_rest_eq_nil hrest, left, hrest, List.length_nil]
  | cons t rest => rw [bump_eq hrest, left, left, hrest, List.length_cons, Nat.add_sub_cancel]

theorem Ahead.left_bump_le (h : c.Ahead d) : d.bump.left ≤ c.bump.left := by
  rw [left_bump, left_bump]
  exact Nat.sub_le_sub_right h.left_le 1

theorem Ahead.eq_of_rest_eq_nil (h : c.Ahead d) (hc : c.rest = []) : d = c := by
  refine h.eq_of_left_eq (Nat.le_antisymm h.left_le ?_)
  rw [left, hc]
  exact Nat.zero_le _

end Cursor

namespace Reading

variable {doc : Document} {n : Nat} {r : Reading}

/-- Two ways of reading that agree wherever fewer than `n` tokens are left. -/
def AgreeBelow {α : Type} (n : Nat) (f g : Reading → α) : Prop :=
  ∀ s : Reading, s.cursor.left < n → f s = g s

/-- A rule that is applied to itself is known if it asks for itself only where fewer tokens are
left. -/
theorem eq_of_agreeBelow {α : Type} (rule : (Reading → α) → Reading → α) {f g : Reading → α}
    (hf : ∀ r, f r = rule f r) (hg : ∀ r, g r = rule g r)
    (h : ∀ n, AgreeBelow n f g → AgreeBelow (n + 1) (rule f) (rule g)) : f = g := by
  have hbelow (n : Nat) : AgreeBelow n f g := by
    induction n with
    | zero => exact fun s hs => absurd hs (Nat.not_lt_zero _)
    | succ n ih =>
      intro s hs
      rw [hf, hg]
      exact h n ih s hs
  funext r
  exact hbelow _ r (Nat.lt_succ_self _)

/-- Bounds on how often a rule is applied to itself make no difference if they have as many tokens as
are left. -/
theorem eq_of_bounds {α : Type} {within : List OutlineToken → Reading → α} {last : Reading → α}
    (hlast : ∀ bound (r : Reading), r.cursor.rest = [] → within bound r = last r)
    (h : ∀ t u a b n, AgreeBelow n (within a) (within b) →
      AgreeBelow (n + 1) (within (t :: a)) (within (u :: b)))
    {a b : List OutlineToken} (ha : r.cursor.left ≤ a.length) (hb : r.cursor.left ≤ b.length) :
    within a r = within b r := by
  have hempty (hr : r.cursor.left ≤ 0) : within a r = within b r := by
    have hrest : r.cursor.rest = [] := List.eq_nil_of_length_eq_zero (Nat.le_zero.1 hr)
    rw [hlast a r hrest, hlast b r hrest]
  induction a generalizing b r with
  | nil => exact hempty ha
  | cons t a ih =>
    cases b with
    | nil => exact hempty hb
    | cons u b =>
      rw [List.length_cons] at ha hb
      refine h t u a b r.cursor.left (fun s hs => ?_) r (Nat.lt_succ_self _)
      refine ih (by omega) (by omega) fun hs => ?_
      have hrest : s.cursor.rest = [] := List.eq_nil_of_length_eq_zero (Nat.le_zero.1 hs)
      rw [hlast a s hrest, hlast b s hrest]

theorem whileNext_congr (test : OutlineToken → Bool) {f g : Reading → Reading}
    (h : AgreeBelow n f g) (hg : ∀ s, Leads doc s.cursor s (g s)) (hr : r.cursor.left < n) :
    r.whileNext test f = r.whileNext test g := by
  refine iterate_congr (P := fun s : Reading => s.cursor.left < n) ?_ ?_ _ r hr
  · intro s hs
    rw [h s hs]
  · intro s t hs ht
    split at ht
    · cases ht
      exact Nat.lt_of_le_of_lt (hg s).ahead.left_le hs
    · cases ht

/-- Bodies that agree where a container is opened read the same container. -/
theorem within_congr {symbol : Symbol} {start : Nat} {f g : Reading → Reading}
    (h : ∀ s : Reading, s.cursor = r.cursor → f s = g s) :
    r.within doc symbol start f = r.within doc symbol start g := by
  rw [within, within, h (r.enter symbol) rfl]

/-! ### Types in types -/

section Types

variable {f g : Reading → String × Reading} (h : AgreeBelow n f g)
include h

theorem fieldDeclaration_congr (hr : r.cursor.left < n) :
    fieldDeclaration doc f r = fieldDeclaration doc g r := by
  have hlead : r.cursor.Ahead (r.move (·.skipWhile (·.role == .modifier))).cursor :=
    (Cursor.Ahead.refl _).skipWhile _
  unfold fieldDeclaration
  rw [h _ (Nat.lt_of_le_of_lt hlead.left_le hr)]

variable (hg : ∀ s, Leads doc s.cursor s (g s).2)
include hg

theorem aggregateBody_congr (hr : r.cursor.bump.left < n) :
    aggregateBody doc f r = aggregateBody doc g r := by
  have hinside (stop : OutlineToken → Bool) :
      r.cursor.bump.Ahead (r.bump.move (·.skipUntil stop)).bump.cursor :=
    ((Cursor.Ahead.refl _).skipUntil stop).bump
  have hfields : AgreeBelow n (fieldDeclaration doc f) (fieldDeclaration doc g) :=
    fun s hs => fieldDeclaration_congr h hs
  have hmembers (s : Reading) (hs : s.cursor.left < n) : fields doc f s = fields doc g s :=
    whileNext_congr _ hfields (fun s => (passes_fieldDeclaration hg s).leads) hs
  unfold aggregateBody
  dsimp only
  split
  · congr 1
    split
    · rfl
    · exact hmembers _ (Nat.lt_of_le_of_lt (hinside _).left_le hr)
  · rfl

theorem anonymousAggregate_congr (hr : r.cursor.bump.left < n) :
    anonymousAggregate doc f r = anonymousAggregate doc g r := by
  unfold anonymousAggregate
  split
  · rfl
  · refine congrArg (Prod.mk _) (within_congr fun s hs => ?_)
    exact aggregateBody_congr h hg (hs ▸ hr)

end Types

/-- Reads a data type with the given rule for types in bodies. -/
def dataTypeWith (doc : Document) (dataType : Reading → String × Reading) (r : Reading) :
    String × Reading :=
  let lead := r.move (·.skipTypeLead)
  if lead.is .aggregate || lead.is .enumeration then
    let (name, body) := lead.anonymousAggregate doc dataType
    let next := body.move (·.skipPackedDimensions)
    (withDimensions name (doc.textBetween body.cursor next.cursor), next)
  else
    let next := lead.move (·.skipTypeName.skipPackedDimensions)
    (doc.textBetween r.cursor next.cursor, next)

theorem dataTypeWithin_cons (t : OutlineToken) (bound : List OutlineToken) :
    dataTypeWithin doc (t :: bound) = dataTypeWith doc (dataTypeWithin doc bound) := rfl

theorem textBetween_self {c : Cursor} (hc : c.stop ≤ c.nextStart) : doc.textBetween c c = "" := by
  have hslice : Text.slice doc.text c.nextStart c.stop = "" := by
    rw [Text.slice, Nat.sub_eq_zero_of_le hc, Text.takeBytes_zero]
  rw [Document.textBetween, hslice]
  rfl

/-- Where no token is left there is no type. -/
theorem dataTypeWith_of_rest_eq_nil (f : Reading → String × Reading) (hr : r.cursor.rest = []) :
    dataTypeWith doc f r = ("", r) := by
  have hlead : r.move (·.skipTypeLead) = r := by
    have hsame := (Cursor.Ahead.refl r.cursor).skipTypeLead.eq_of_rest_eq_nil hr
    rw [move, hsame]
  have hname : r.move (·.skipTypeName.skipPackedDimensions) = r := by
    have hsame := (Cursor.Ahead.refl r.cursor).skipTypeName.skipPackedDimensions.eq_of_rest_eq_nil hr
    rw [move, hsame]
  have hno (role : Role) : r.is role = false := by simp [Reading.is, Cursor.is, Cursor.nextIs, hr]
  unfold dataTypeWith
  rw [hlead]
  dsimp only
  rw [hno, hno, Bool.or_self, if_neg Bool.false_ne_true, hname, textBetween_self (by rw [Cursor.nextStart, hr])]

/-- A body is only looked for behind a keyword. -/
theorem dataTypeWith_congr {f g : Reading → String × Reading} (h : AgreeBelow n f g)
    (hg : ∀ s, Leads doc s.cursor s (g s).2) :
    AgreeBelow (n + 1) (dataTypeWith doc f) (dataTypeWith doc g) := by
  intro s hs
  by_cases hrest : s.cursor.rest = []
  · rw [dataTypeWith_of_rest_eq_nil _ hrest, dataTypeWith_of_rest_eq_nil _ hrest]
  · have hlead : s.cursor.Ahead (s.move (·.skipTypeLead)).cursor :=
      (Cursor.Ahead.refl _).skipTypeLead
    have hbump := hlead.left_bump_le
    have hlt := Cursor.left_bump_lt hrest
    unfold dataTypeWith
    dsimp only
    rw [anonymousAggregate_congr h hg (by omega)]

/-- Bounds on how deep types nest make no difference if they have as many tokens as are left. -/
theorem dataTypeWithin_eq {a b : List OutlineToken} (ha : r.cursor.left ≤ a.length)
    (hb : r.cursor.left ≤ b.length) : dataTypeWithin doc a r = dataTypeWithin doc b r := by
  have hlast (bound : List OutlineToken) (r : Reading) (hr : r.cursor.rest = []) :
      dataTypeWithin doc bound r = ("", r) := by
    cases bound with
    | nil => rfl
    | cons _ bound => exact dataTypeWith_of_rest_eq_nil _ hr
  exact eq_of_bounds hlast (fun _ _ _ b _ h => dataTypeWith_congr h (leads_dataTypeWithin b)) ha hb

/-- Reading a type needs no bound. -/
theorem dataType_eq (r : Reading) : dataType doc r = dataTypeWith doc (dataType doc) r := by
  rw [dataType]
  cases hrest : r.cursor.rest with
  | nil => exact (dataTypeWith_of_rest_eq_nil _ hrest).symm
  | cons t rest =>
    have hleft : r.cursor.left = rest.length + 1 := by rw [Cursor.left, hrest, List.length_cons]
    have hbehind : AgreeBelow r.cursor.left (dataTypeWithin doc rest) (dataType doc) :=
      fun s hs => dataTypeWithin_eq (by omega) (Nat.le_refl _)
    rw [dataTypeWithin_cons]
    exact dataTypeWith_congr hbehind leads_dataType r (Nat.lt_succ_self _)

/-- There is one way to read types in types. -/
theorem eq_dataType {f : Reading → String × Reading} (hf : ∀ r, f r = dataTypeWith doc f r) :
    f = dataType doc :=
  eq_of_agreeBelow (dataTypeWith doc) hf dataType_eq fun _ h => dataTypeWith_congr h leads_dataType

/-! ### Items in items -/

section Items

variable {f g : Reading → Reading} (h : AgreeBelow n f g)
  (hg : ∀ s, Leads doc s.cursor s (g s))
include h hg

theorem itemsUntil_congr (closing : Role) (hr : r.cursor.left < n) :
    itemsUntil f closing r = itemsUntil g closing r := by
  unfold itemsUntil
  rw [whileNext_congr _ h hg hr]

theorem container_congr (start : Nat) (prototype : Bool) (hr : r.cursor.bump.left < n) :
    container doc f start prototype r = container doc g start prototype r := by
  have hname : r.cursor.bump.Ahead (r.bump.move (·.skipWhile (·.role == .modifier))).bump.cursor :=
    ((Cursor.Ahead.refl _).skipWhile _).bump
  have hbody (s : Reading) (hs : s.cursor.left < n) :
      (s.header doc).itemsUntil f .endContainer = (s.header doc).itemsUntil g .endContainer :=
    itemsUntil_congr h hg _ (Nat.lt_of_le_of_lt (leads_header doc s).ahead.left_le hs)
  unfold container
  dsimp only
  split
  · rfl
  · split
    · rfl
    · refine within_congr fun s hs => ?_
      rw [hbody s (Nat.lt_of_le_of_lt (hs ▸ hname).left_le hr)]

theorem packageContainer_congr (hr : r.cursor.bump.left < n) :
    packageContainer doc f r = packageContainer doc g r := by
  have hname : r.cursor.bump.Ahead (r.bump.move (·.skipWhile (·.role == .modifier))).bump.cursor :=
    ((Cursor.Ahead.refl _).skipWhile _).bump
  have hbody (s : Reading) (hs : s.cursor.left < n) :
      (s.eat .semicolon).itemsUntil f .endPackage = (s.eat .semicolon).itemsUntil g .endPackage :=
    itemsUntil_congr h hg _ (Nat.lt_of_le_of_lt ((Cursor.Ahead.refl s.cursor).eat _).left_le hs)
  unfold packageContainer
  dsimp only
  split
  · rfl
  · exact within_congr fun s hs => hbody s (Nat.lt_of_le_of_lt (hs ▸ hname).left_le hr)

theorem generateBlock_congr (hr : r.cursor.bump.left < n) :
    generateBlock doc f r = generateBlock doc g r := by
  have hlabel : r.cursor.bump.Ahead (r.bump.move (·.eatLabel)).cursor :=
    (Cursor.Ahead.refl _).eatLabel
  unfold generateBlock
  rw [whileNext_congr _ h hg (Nat.lt_of_le_of_lt hlabel.left_le hr)]

theorem generateBody_congr (hr : r.cursor.left < n) :
    generateBody doc f r = generateBody doc g r := by
  unfold generateBody
  rw [generateBlock_congr h hg (Nat.lt_of_le_of_lt r.cursor.left_bump_le hr), h r hr]

theorem generateIf_congr (hr : r.cursor.bump.left < n) :
    generateIf doc f r = generateIf doc g r := by
  have hcondition : r.cursor.bump.Ahead (r.bump.move (·.skipBalanced)).cursor :=
    (Cursor.Ahead.refl _).skipBalanced
  have hbody := hcondition.trans (leads_generateBody hg _).ahead
  unfold generateIf
  rw [generateBody_congr h hg (Nat.lt_of_le_of_lt hcondition.left_le hr)]
  dsimp only
  rw [generateBody_congr h hg (Nat.lt_of_le_of_lt hbody.bump.left_le hr)]

theorem generateFor_congr (hr : r.cursor.bump.left < n) :
    generateFor doc f r = generateFor doc g r := by
  have hcondition : r.cursor.bump.Ahead (r.bump.move (·.skipBalanced)).cursor :=
    (Cursor.Ahead.refl _).skipBalanced
  unfold generateFor
  rw [generateBody_congr h hg (Nat.lt_of_le_of_lt hcondition.left_le hr)]

theorem caseItem_congr (hr : r.cursor.left < n) : caseItem doc f r = caseItem doc g r := by
  have hlabels : r.cursor.Ahead (r.move skipCaseLabels).cursor := ahead_skipCaseLabels r.cursor
  unfold caseItem
  rw [generateBody_congr h hg (Nat.lt_of_le_of_lt hlabels.left_le hr)]

theorem generateCase_congr (hr : r.cursor.bump.left < n) :
    generateCase doc f r = generateCase doc g r := by
  have hvalue : r.cursor.bump.Ahead (r.bump.move (·.skipBalanced)).cursor :=
    (Cursor.Ahead.refl _).skipBalanced
  have hitems : AgreeBelow n (caseItem doc f) (caseItem doc g) := fun s hs => caseItem_congr h hg hs
  unfold generateCase
  rw [whileNext_congr _ hitems (fun s => (passes_caseItem hg s).leads)
    (Nat.lt_of_le_of_lt hvalue.left_le hr)]

theorem qualifiedItem?_congr (hr : r.cursor.bump.left < n) :
    qualifiedItem? doc f r = qualifiedItem? doc g r := by
  have hlead : r.cursor.Ahead (r.move (·.skipWhile (·.role == .modifier))).cursor :=
    (Cursor.Ahead.refl _).skipWhile _
  unfold qualifiedItem?
  dsimp only
  rw [container_congr h hg _ _ (Nat.lt_of_le_of_lt hlead.left_bump_le hr)]

/-- Items are only asked for behind the next token. -/
theorem itemWith?_congr : AgreeBelow (n + 1) (itemWith? doc f) (itemWith? doc g) := by
  intro s hs
  unfold itemWith?
  split
  · rfl
  · next t rest hrest =>
    have hlt := Cursor.left_bump_lt (c := s.cursor) (by simp [hrest])
    have hbump : s.cursor.bump.left < n := by omega
    rw [container_congr h hg _ _ hbump, packageContainer_congr h hg hbump,
      qualifiedItem?_congr h hg hbump, generateIf_congr h hg hbump, generateFor_congr h hg hbump,
      generateCase_congr h hg hbump, generateBlock_congr h hg hbump]

theorem itemOrSkip_congr : AgreeBelow (n + 1) (itemOrSkip doc (itemWith? doc f))
    (itemOrSkip doc (itemWith? doc g)) := by
  intro s hs
  rw [itemOrSkip, itemOrSkip, itemWith?_congr h hg s hs]

end Items

/-- Bounds on how deep items nest make no difference if they have as many tokens as are left. -/
theorem itemWithin?_eq {a b : List OutlineToken} (ha : r.cursor.left ≤ a.length)
    (hb : r.cursor.left ≤ b.length) : itemWithin? doc a r = itemWithin? doc b r := by
  have hlast (bound : List OutlineToken) (r : Reading) (hr : r.cursor.rest = []) :
      itemWithin? doc bound r = none := by
    cases bound with
    | nil => rfl
    | cons _ bound => rw [itemWithin?, itemWith?, hr]
  refine eq_of_bounds hlast (fun t u a b n h => ?_) ha hb
  have hitem : AgreeBelow n (itemOrSkip doc (itemWithin? doc a))
      (itemOrSkip doc (itemWithin? doc b)) := by
    intro s hs
    rw [itemOrSkip, itemOrSkip, h s hs]
  exact itemWith?_congr hitem fun s => (passes_itemOrSkip fun _ => passes_itemWithin? b).leads

/-- Reading an item needs no bound. -/
theorem item_eq (r : Reading) : item doc r = itemOrSkip doc (itemWith? doc (item doc)) r := by
  have hitem (s : Reading) : item doc s = itemOrSkip doc (itemWithin? doc s.cursor.rest) s := rfl
  rw [hitem]
  cases hrest : r.cursor.rest with
  | nil => rw [itemOrSkip, itemOrSkip, itemWithin?, itemWith?, hrest]
  | cons t rest =>
    have hleft : r.cursor.left = rest.length + 1 := by rw [Cursor.left, hrest, List.length_cons]
    have hbehind : AgreeBelow r.cursor.left (itemOrSkip doc (itemWithin? doc rest)) (item doc) := by
      intro s hs
      rw [hitem, itemOrSkip, itemOrSkip, itemWithin?_eq (by omega) (Nat.le_refl _)]
    exact itemOrSkip_congr hbehind (fun s => (passes_item doc s).leads) r (Nat.lt_succ_self _)

/-- There is one way to read items in items. -/
theorem eq_item {f : Reading → Reading}
    (hf : ∀ r, f r = itemOrSkip doc (itemWith? doc f) r) : f = item doc :=
  eq_of_agreeBelow (fun f => itemOrSkip doc (itemWith? doc f)) hf item_eq fun _ h =>
    itemOrSkip_congr h fun s => (passes_item doc s).leads

end Reading

end HdlIndex
