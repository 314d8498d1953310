import HdlIndex.Proofs.Grammar.Written
import Mathlib.Data.List.Nodup

/-! Grammars that can be built. If all patterns can be read and all names are known, then the only
thing that can be wrong is that a context is spliced into itself, however indirectly. Main statement:
building fails exactly then, and otherwise the grammar has the contexts as written, with those
written in place behind them, the rules of the context for each splice, and the number of the right
context in each action. -/

namespace HdlIndex

theorem getElem?_mono {α : Type} {xs ys : List α} (h : xs <+: ys) {i : Nat} {x : α}
    (hx : xs[i]? = some x) : ys[i]? = some x := by
  obtain ⟨rest, rfl⟩ := h
  rw [List.getElem?_append_left (List.getElem?_eq_some_iff.1 hx).1, hx]

/-- Whether two actions are the same but for how they name the context that they enter. -/
inductive StackAction.Renames {ρ σ : Type} (R : ρ → σ → Prop) : StackAction ρ → StackAction σ → Prop
  | push {x : ρ} {y : σ} (h : R x y) : Renames R (.push x) (.push y)
  | leave : Renames R (.pop none) (.pop none)
  | replace {x : ρ} {y : σ} (h : R x y) : Renames R (.pop (some x)) (.pop (some y))
  | pushScopes (names : List String) : Renames R (.pushScopes names) (.pushScopes names)
  | popScopes (names : List String) : Renames R (.popScopes names) (.popScopes names)

namespace StackAction.Renames

variable {ρ σ : Type} {R S : ρ → σ → Prop} {a : StackAction ρ} {b : StackAction σ}

theorem imp (h : a.Renames R b) (himp : ∀ x ∈ a.target?, ∀ y, R x y → S x y) : a.Renames S b := by
  cases h with
  | push h => exact .push (himp _ rfl _ h)
  | leave => exact .leave
  | replace h => exact .replace (himp _ rfl _ h)
  | pushScopes names => exact .pushScopes names
  | popScopes names => exact .popScopes names

theorem exists_target (h : a.Renames R b) {y : σ} (hy : b.target? = some y) :
    ∃ x, a.target? = some x ∧ R x y := by
  cases h with
  | push h => exact ⟨_, rfl, Option.some.inj hy ▸ h⟩
  | leave => cases hy
  | replace h => exact ⟨_, rfl, Option.some.inj hy ▸ h⟩
  | pushScopes names => cases hy
  | popScopes names => cases hy

end StackAction.Renames

namespace Grammar

open Relation

/-! ### Entries as written -/

/-- The context that the action of an entry enters. -/
def Entry.target? : Entry → Option ContextRef
  | .rule _ _ action _ => action.bind (·.target?)
  | .splice _ => none

def ContextRef.isInPlace : ContextRef → Bool
  | .named _ => false
  | .inPlace _ _ => true

/-- Whether a context is written in place in an entry. -/
def Entry.nests (e : Entry) : Bool := e.target?.any (·.isInPlace)

/-- Whether an entry refers to known names only, and its pattern can be read and has as many groups
as there are scopes for them. -/
def Entry.Resolves (names : List String) : Entry → Prop
  | .splice target => target ∈ names
  | .rule source scopes action _ =>
    (∀ name, action.bind (·.target?) = some (.named name) → name ∈ names) ∧
      ∃ p, Pattern.compile? source = some p ∧ p.groups + 1 = scopes.length

/-- The context that is written in place, if it is, under the name that goes with its number. -/
def ContextRef.found (context : String) (number : Nat) : ContextRef → List ContextDef
  | .named _ => []
  | .inPlace scope entries => [⟨context ++ "#" ++ number.repr, scope, entries⟩]

def Entry.found (context : String) (number : Nat) (e : Entry) : List ContextDef :=
  e.target?.toList.flatMap (·.found context number)

/-- The contexts written in place in entries, numbered from `next` on. -/
def foundIn (context : String) : Nat → List Entry → List ContextDef
  | _, [] => []
  | next, e :: rest => e.found context next ++ foundIn context (next + e.nests.toNat) rest

section

variable (context : String) (next : Nat)

theorem Entry.length_found (e : Entry) : (e.found context next).length = e.nests.toNat := by
  unfold Entry.found Entry.nests
  rcases e.target? with _ | (_ | _) <;> rfl

theorem length_foundIn (entries : List Entry) :
    (foundIn context next entries).length = entries.countP (·.nests) := by
  induction entries generalizing next with
  | nil => rfl
  | cons e entries ih =>
    rw [foundIn, List.length_append, e.length_found, ih, List.countP_cons]
    cases e.nests <;> simp [Nat.add_comm]

/-- A context written in place is found at the place where it is counted. -/
theorem getElem?_foundIn {entries : List Entry} {position : Nat} {e : Entry}
    (he : entries[position]? = some e) {scope : String} {inner : List Entry}
    (htarget : e.target? = some (.inPlace scope inner)) :
    let count := (entries.take position).countP (·.nests)
    (foundIn context next entries)[count]? =
      some ⟨context ++ "#" ++ (next + count).repr, scope, inner⟩ := by
  induction entries generalizing next position with
  | nil => cases he
  | cons first entries ih =>
    cases position with
    | zero =>
      cases he
      simp [foundIn, Entry.found, htarget, ContextRef.found]
    | succ position =>
      have hrest := ih (next + first.nests.toNat) he
      dsimp only at hrest ⊢
      rw [List.take_succ_cons, List.countP_cons, foundIn]
      rw [List.getElem?_append_right (by
        rw [Entry.length_found]; cases first.nests <;> simp)]
      cases hnests : first.nests with
      | false => simpa [Entry.length_found, hnests] using hrest
      | true =>
        simpa [Entry.length_found, hnests, Nat.add_comm, Nat.add_left_comm] using hrest

/-- How many contexts are written in place in a row of contexts, and in those. -/
def inPlaceCountIn (defs : List ContextDef) : Nat :=
  (defs.map fun c => inPlaceCountAll c.entries).foldr (· + ·) 0

theorem inPlaceCountIn_cons (c : ContextDef) (defs : List ContextDef) :
    inPlaceCountIn (c :: defs) = inPlaceCountAll c.entries + inPlaceCountIn defs := rfl

theorem inPlaceCountIn_append (a b : List ContextDef) :
    inPlaceCountIn (a ++ b) = inPlaceCountIn a + inPlaceCountIn b := by
  induction a with
  | nil => exact (Nat.zero_add _).symm
  | cons c a ih => rw [List.cons_append, inPlaceCountIn_cons, inPlaceCountIn_cons, ih, Nat.add_assoc]

theorem ContextRef.inPlaceCount_eq (target : ContextRef) :
    target.inPlaceCount =
      (target.found context next).length + inPlaceCountIn (target.found context next) := by
  cases target with
  | named name => rfl
  | inPlace scope entries => rfl

theorem Entry.inPlaceCount_eq (e : Entry) :
    e.inPlaceCount = (e.found context next).length + inPlaceCountIn (e.found context next) := by
  have hflat (target : ContextRef) :
      (some target).toList.flatMap (·.found context next) = target.found context next := by simp
  unfold Entry.found Entry.target?
  rcases e with ⟨source, scopes, _ | action, snapshot⟩ | target
  · rfl
  · cases action with
    | push target => exact hflat target ▸ target.inPlaceCount_eq context next
    | pop replacement =>
      cases replacement with
      | none => rfl
      | some target => exact hflat target ▸ target.inPlaceCount_eq context next
    | pushScopes names => rfl
    | popScopes names => rfl
  · rfl

/-- The contexts written in place are counted, and those in them. -/
theorem inPlaceCountAll_eq (entries : List Entry) :
    inPlaceCountAll entries =
      (foundIn context next entries).length + inPlaceCountIn (foundIn context next entries) := by
  induction entries generalizing next with
  | nil => rfl
  | cons e entries ih =>
    rw [inPlaceCountAll, e.inPlaceCount_eq context next, ih (next + e.nests.toNat), foundIn,
      inPlaceCountIn_append, List.length_append]
    omega

end

/-! ### Entries with numbers -/

/-- Whether a reference stands for a number, if a context written in place gets the number `next`. -/
def ContextRef.HasNumber (names : List String) (next : Nat) : ContextRef → Nat → Prop
  | .named name, number => names.idxOf? name = some number
  | .inPlace _ _, number => number = next

/-- Whether an entry has become one with numbers. -/
inductive Entry.Becomes (names : List String) (next : Nat) : Entry → ResolvedEntry → Prop
  | splice {target : String} {index : Nat} (hindex : names.idxOf? target = some index) :
      Becomes names next (.splice target) (.splice index)
  | rule {source : String} {scopes : List String} {action : Option (StackAction ContextRef)}
      {snapshot : Option SnapshotAction} {pattern : Pattern} {action' : Option (StackAction Nat)}
      (hpattern : Pattern.compile? source = some pattern)
      (hscopes : pattern.groups + 1 = scopes.length)
      (haction : Option.Rel (StackAction.Renames (ContextRef.HasNumber names next)) action action') :
      Becomes names next (.rule source scopes action snapshot)
        (.rule ⟨source, pattern, scopes.map scopeOf, action', snapshot⟩)

/-- Whether entries have become ones with numbers, the contexts written in place being numbered from
`next` on. -/
inductive AllBecome (names : List String) : Nat → List Entry → List ResolvedEntry → Prop
  | nil (next : Nat) : AllBecome names next [] []
  | cons {next : Nat} {e : Entry} {r : ResolvedEntry} {entries : List Entry}
      {resolved : List ResolvedEntry} (h : e.Becomes names next r)
      (hrest : AllBecome names (next + e.nests.toNat) entries resolved) :
      AllBecome names next (e :: entries) (r :: resolved)

namespace AllBecome

variable {names : List String} {next : Nat} {entries : List Entry} {resolved : List ResolvedEntry}

theorem length_eq (h : AllBecome names next entries resolved) :
    resolved.length = entries.length := by
  induction h with
  | nil => rfl
  | cons _ _ ih => rw [List.length_cons, List.length_cons, ih]

theorem exists_of_getElem? (h : AllBecome names next entries resolved) {position : Nat} {e : Entry}
    (he : entries[position]? = some e) : ∃ r, resolved[position]? = some r ∧
      e.Becomes names (next + (entries.take position).countP (·.nests)) r := by
  induction h generalizing position with
  | nil => cases he
  | @cons next first r entries resolved hfirst _ ih =>
    cases position with
    | zero =>
      cases he
      exact ⟨r, rfl, hfirst⟩
    | succ position =>
      obtain ⟨r', hr', hbecomes⟩ := ih he
      have hcount : next + ((first :: entries).take (position + 1)).countP (·.nests) =
          next + first.nests.toNat + (entries.take position).countP (·.nests) := by
        rw [List.take_succ_cons, List.countP_cons]
        cases first.nests with
        | false => simp
        | true =>
          simp
          omega
      exact ⟨r', hr', hcount ▸ hbecomes⟩

theorem splice_mem_iff (h : AllBecome names next entries resolved) {index : Nat} :
    .splice index ∈ resolved ↔
      ∃ target, .splice target ∈ entries ∧ names.idxOf? target = some index := by
  induction h with
  | nil => simp
  | cons hfirst _ ih =>
    rw [List.mem_cons, ih]
    cases hfirst with
    | rule => simp
    | splice hindex =>
      constructor
      · rintro (heq | ⟨target, htarget, hnumber⟩)
        · cases heq
          exact ⟨_, List.mem_cons_self, hindex⟩
        · exact ⟨target, List.mem_cons_of_mem _ htarget, hnumber⟩
      · rintro ⟨target, htarget, hnumber⟩
        rcases List.mem_cons.1 htarget with heq | htarget
        · cases heq
          exact .inl (congrArg _ (Option.some.inj (hnumber.symm.trans hindex)))
        · exact .inr ⟨target, htarget, hnumber⟩

end AllBecome

section

variable {names : List String} (context : String) (next : Nat)

theorem exists_lookupContext_eq_ok {name : String} (h : name ∈ names) :
    ∃ index, names.idxOf? name = some index ∧ lookupContext names context name = .ok index := by
  obtain ⟨index, hindex⟩ := Option.isSome_iff_exists.1 (List.isSome_idxOf?.2 h)
  refine ⟨index, hindex, ?_⟩
  rw [lookupContext, hindex]

theorem exists_resolveRef_eq_ok (target : ContextRef)
    (h : ∀ name, target = .named name → name ∈ names) :
    ∃ number, resolveRef names context next target = .ok (number, target.found context next) ∧
      target.HasNumber names next number := by
  cases target with
  | named name =>
    obtain ⟨index, hindex, hlookup⟩ := exists_lookupContext_eq_ok context (h name rfl)
    refine ⟨index, ?_, hindex⟩
    rw [resolveRef, hlookup]
    rfl
  | inPlace scope entries => exact ⟨next, rfl, rfl⟩

theorem exists_resolveAction_eq_ok {action : StackAction ContextRef}
    (h : ∀ name, action.target? = some (.named name) → name ∈ names) :
    ∃ resolved, resolveAction names context next action =
        .ok (resolved, action.target?.toList.flatMap (·.found context next)) ∧
      action.Renames (ContextRef.HasNumber names next) resolved := by
  have hflat (target : ContextRef) :
      (some target).toList.flatMap (·.found context next) = target.found context next := by simp
  cases action with
  | push target =>
    obtain ⟨number, href, hnumber⟩ := exists_resolveRef_eq_ok context next target
      fun name hname => h name (congrArg some hname)
    refine ⟨.push number, ?_, .push hnumber⟩
    rw [resolveAction, href, StackAction.target?, hflat]
    rfl
  | pop replacement =>
    cases replacement with
    | none => exact ⟨_, rfl, .leave⟩
    | some target =>
      obtain ⟨number, href, hnumber⟩ := exists_resolveRef_eq_ok context next target
        fun name hname => h name (congrArg some hname)
      refine ⟨.pop (some number), ?_, .replace hnumber⟩
      rw [resolveAction, href, StackAction.target?, hflat]
      rfl
  | pushScopes scopes => exact ⟨_, rfl, .pushScopes scopes⟩
  | popScopes scopes => exact ⟨_, rfl, .popScopes scopes⟩

theorem exists_resolveEntry_eq_ok {e : Entry} (h : e.Resolves names) :
    ∃ resolved, resolveEntry names context next e = .ok (resolved, e.found context next) ∧
      e.Becomes names next resolved := by
  cases e with
  | splice target =>
    obtain ⟨index, hindex, hlookup⟩ := exists_lookupContext_eq_ok context h
    refine ⟨.splice index, ?_, .splice hindex⟩
    rw [resolveEntry, hlookup]
    rfl
  | rule source scopes action snapshot =>
    obtain ⟨htarget, p, hp, hgroups⟩ := h
    have hfinish (action : Option (StackAction Nat)) (found : List ContextDef) :
        finishRule context source scopes snapshot action found =
          .ok (.rule ⟨source, p, scopes.map scopeOf, action, snapshot⟩, found) := by
      rw [finishRule, hp]
      exact if_neg (not_not_intro hgroups)
    rw [resolveEntry_rule]
    cases action with
    | none => exact ⟨_, hfinish none [], .rule hp hgroups .none⟩
    | some action =>
      obtain ⟨resolved, hresolved, hrenames⟩ := exists_resolveAction_eq_ok context next htarget
      refine ⟨.rule ⟨source, p, scopes.map scopeOf, some resolved, snapshot⟩, ?_,
        .rule hp hgroups (.some hrenames)⟩
      dsimp only
      rw [hresolved]
      exact hfinish (some resolved) _

theorem exists_resolveEntries_eq_ok {entries : List Entry} (h : ∀ e ∈ entries, e.Resolves names) :
    ∃ resolved,
      resolveEntries names context next entries = .ok (resolved, foundIn context next entries) ∧
      AllBecome names next entries resolved := by
  induction entries generalizing next with
  | nil => exact ⟨[], rfl, .nil next⟩
  | cons e entries ih =>
    obtain ⟨first, hfirst, hbecomes⟩ :=
      exists_resolveEntry_eq_ok context next (h e List.mem_cons_self)
    obtain ⟨rest, hrest, hrestBecome⟩ :=
      ih (next + e.nests.toNat) fun e he => h e (List.mem_cons_of_mem _ he)
    refine ⟨first :: rest, ?_, .cons hbecomes hrestBecome⟩
    rw [resolveEntries, hfirst]
    show (resolveEntries names context (next + (e.found context next).length) entries >>= _) = _
    rw [e.length_found, hrest]
    rfl

end

/-! ### Contexts with numbers -/

/-- Whether a context has become one with numbers. -/
structure ContextDef.Becomes (names : List String) (next : Nat) (c : ContextDef)
    (r : ResolvedContext) : Prop where
  name : r.name = c.name
  scope : r.scope = scopeOf c.scope
  entries : AllBecome names next c.entries r.entries

/-- How many contexts are written in place in the contexts in front of one. -/
def nestedBefore (defs : List ContextDef) (index : Nat) : Nat :=
  ((defs.take index).flatMap (·.entries)).countP (·.nests)

theorem nestedBefore_cons (c : ContextDef) (defs : List ContextDef) (index : Nat) :
    nestedBefore (c :: defs) (index + 1) =
      c.entries.countP (·.nests) + nestedBefore defs index := by
  rw [nestedBefore, List.take_succ_cons, List.flatMap_cons, List.countP_append]
  rfl

/-- A queue is worked off with the contexts that are found on the way at its end. -/
theorem exists_resolveQueue_eq_ok {contexts : List ContextDef} {names : List String}
    (h : ∀ e, Written contexts e → e.Resolves names) {bound : Nat} (next : Nat)
    {queue : List ContextDef}
    (hqueue : ∀ c ∈ queue, WrittenContext contexts c)
    (hbound : queue.length + inPlaceCountIn queue ≤ bound) :
    ∃ defs resolved, resolveQueue names bound next queue = .ok resolved ∧ queue <+: defs ∧
      resolved.length = defs.length ∧ ∀ index c, defs[index]? = some c →
        ∃ r, resolved[index]? = some r ∧ c.Becomes names (next + nestedBefore defs index) r ∧
          ∀ k d, (foundIn c.name (next + nestedBefore defs index) c.entries)[k]? = some d →
            defs[queue.length + nestedBefore defs index + k]? = some d := by
  induction bound generalizing next queue with
  | zero =>
    obtain rfl : queue = [] := List.length_eq_zero_iff.1 (by omega)
    exact ⟨[], [], rfl, List.prefix_rfl, rfl, by simp⟩
  | succ bound ih =>
    rcases queue with _ | ⟨c, queue⟩
    · exact ⟨[], [], rfl, List.prefix_rfl, rfl, by simp⟩
    · have hc := hqueue c List.mem_cons_self
      obtain ⟨entries, hentries, hbecome⟩ := exists_resolveEntries_eq_ok c.name next
        fun e he => h e (hc.entries e he)
      have hmore : ∀ d ∈ queue ++ foundIn c.name next c.entries, WrittenContext contexts d := by
        intro d hd
        rcases List.mem_append.1 hd with hd | hd
        · exact hqueue d (List.mem_cons_of_mem c hd)
        · exact (written_of_resolveEntries hc.entries hentries).2 d hd
      have hsmaller : (queue ++ foundIn c.name next c.entries).length +
          inPlaceCountIn (queue ++ foundIn c.name next c.entries) ≤ bound := by
        rw [List.length_cons, inPlaceCountIn_cons, inPlaceCountAll_eq c.name next c.entries] at hbound
        rw [List.length_append, inPlaceCountIn_append]
        omega
      obtain ⟨defs, resolved, hresolve, hprefix, hlength, hdefs⟩ :=
        ih (next + (foundIn c.name next c.entries).length) hmore hsmaller
      refine ⟨c :: defs, ⟨c.name, scopeOf c.scope, entries⟩ :: resolved, ?_, ?_, ?_, ?_⟩
      · rw [resolveQueue, hentries]
        show (resolveQueue names bound _ _ >>= _) = _
        rw [hresolve]
        rfl
      · exact List.cons_prefix_cons.2 ⟨rfl, (List.prefix_append _ _).trans hprefix⟩
      · rw [List.length_cons, List.length_cons, hlength]
      · intro index d hd
        cases index with
        | zero =>
          cases hd
          refine ⟨_, rfl, ⟨rfl, rfl, hbecome⟩, fun k d hd => ?_⟩
          have hplace : (queue ++ foundIn c.name next c.entries)[queue.length + k]? = some d := by
            rw [List.getElem?_append_right (Nat.le_add_right _ _), Nat.add_sub_cancel_left]
            exact hd
          have hk := getElem?_mono hprefix hplace
          rw [show nestedBefore (c :: defs) 0 = 0 from rfl, List.length_cons]
          rw [Nat.add_zero, Nat.add_right_comm]
          exact hk
        | succ index =>
          obtain ⟨r, hr, hbecomes, hfound⟩ := hdefs index d hd
          rw [nestedBefore_cons, ← length_foundIn c.name next, ← Nat.add_assoc]
          refine ⟨r, hr, hbecomes, fun k x hx => ?_⟩
          have hk := hfound k x hx
          rw [List.length_append] at hk
          have hplace : (c :: queue).length + ((foundIn c.name next c.entries).length +
              nestedBefore defs index) + k = queue.length + (foundIn c.name next c.entries).length +
                nestedBefore defs index + k + 1 := by
            rw [List.length_cons]
            omega
          rw [hplace]
          exact hk

/-- What is known of contexts that have become contexts with numbers: the listed ones come first, and
those written in place are numbered in the order in which they stand. -/
structure Numbered (contexts defs : List ContextDef) (resolved : List ResolvedContext) : Prop where
  listed : contexts <+: defs
  length : resolved.length = defs.length
  becomes : ∀ index (c : ContextDef), defs[index]? = some c → ∃ r, resolved[index]? = some r ∧
    c.Becomes (contexts.map (·.name)) (contexts.length + nestedBefore defs index) r
  inPlace : ∀ index (c : ContextDef) position e scope entries, defs[index]? = some c →
    c.entries[position]? = some e → e.target? = some (.inPlace scope entries) →
      let number := contexts.length + nestedBefore defs index +
        (c.entries.take position).countP (·.nests)
      defs[number]? = some ⟨c.name ++ "#" ++ number.repr, scope, entries⟩

theorem firstRepeated_eq_none {seen names : List String} (hnames : names.Nodup)
    (hseen : ∀ name ∈ names, name ∉ seen) : firstRepeated seen names = none := by
  induction names generalizing seen with
  | nil => rfl
  | cons name names ih =>
    obtain ⟨hname, hnames⟩ := List.nodup_cons.1 hnames
    have hnew : ¬seen.contains name := fun hmem =>
      hseen name List.mem_cons_self (List.contains_iff_mem.1 hmem)
    rw [firstRepeated, if_neg hnew]
    refine ih hnames fun other hother hmem => ?_
    rcases List.mem_cons.1 hmem with rfl | hmem
    · exact hname hother
    · exact hseen other (List.mem_cons_of_mem _ hother) hmem

section Build

variable {contexts : List ContextDef} (invalidScope : Option String)
  (hnames : (contexts.map (·.name)).Nodup) (hmain : mainName ∈ contexts.map (·.name))
  (h : ∀ e, Written contexts e → e.Resolves (contexts.map (·.name)))
include hnames hmain h

/-- All that is left to do when the contexts have numbers is to collect the rules. -/
theorem exists_build_eq : ∃ main defs resolved,
    (contexts.map (·.name)).idxOf? mainName = some main ∧ Numbered contexts defs resolved ∧
      build contexts invalidScope = collectAll resolved >>= fun done =>
        .ok ⟨resolved.mapIdx fun index c => ⟨c.name, c.scope, rulesOf done index⟩, main,
          invalidScope.getD defaultInvalidScope⟩ := by
  obtain ⟨main, hindex⟩ := Option.isSome_iff_exists.1 (List.isSome_idxOf?.2 hmain)
  have hbound : contexts.length + inPlaceCountIn contexts ≤
      contexts.length + (contexts.map fun c => inPlaceCountAll c.entries).foldr (· + ·) 0 :=
    Nat.le_refl _
  obtain ⟨defs, resolved, hresolved, hlisted, hlength, hdefs⟩ :=
    exists_resolveQueue_eq_ok h contexts.length
      (fun c hc => ⟨.listed hc, fun e he => .listed hc he⟩) hbound
  refine ⟨main, defs, resolved, hindex, ⟨hlisted, hlength, ?_, ?_⟩, ?_⟩
  · intro index c hc
    obtain ⟨r, hr, hbecomes, -⟩ := hdefs index c hc
    exact ⟨r, hr, hbecomes⟩
  · intro index c position e scope entries hc he htarget
    obtain ⟨-, -, -, hfound⟩ := hdefs index c hc
    exact hfound _ _ (getElem?_foundIn c.name _ he htarget)
  · rw [build, firstRepeated_eq_none hnames (by simp), hindex]
    dsimp only
    rw [hresolved]
    rfl

end Build

/-! ### Splices as written -/

/-- Whether a context, listed or written in place, has the rules of a listed one spliced in. -/
def Splices (contexts : List ContextDef) (c d : ContextDef) : Prop :=
  d ∈ contexts ∧ .splice d.name ∈ c.entries

theorem name_of_idxOf? {contexts : List ContextDef} {name : String} {index : Nat}
    (h : (contexts.map (·.name)).idxOf? name = some index) :
    ∃ d, contexts[index]? = some d ∧ d.name = name := by
  obtain ⟨hlt, hname, -⟩ := List.idxOf?_eq_some_iff.1 h
  rw [List.getElem_map] at hname
  exact ⟨_, List.getElem?_eq_getElem (by simpa using hlt), hname⟩

/-- If only contexts of one name have splices, and these do not name it, then none is spliced into
itself. -/
theorem not_transGen_splices {contexts : List ContextDef} {name : String}
    (h : ∀ c ∈ contexts, ∀ target, .splice target ∈ c.entries → c.name = name ∧ target ≠ name) :
    ¬∃ c, TransGen (Splices contexts) c c := by
  rintro ⟨c, hcycle⟩
  obtain ⟨d, ⟨-, hfirst⟩, -⟩ := TransGen.head'_iff.1 hcycle
  obtain ⟨b, hfront, hc, hlast⟩ := TransGen.tail'_iff.1 hcycle
  have hb : b ∈ contexts := by
    rcases hfront.cases_tail with rfl | ⟨a, -, hsplices⟩
    · exact hc
    · exact hsplices.1
  exact (h b hb c.name hlast).2 (h c hc d.name hfirst).1

/-- With distinct names, a context has the number that its name stands for. -/
theorem exists_number {contexts : List ContextDef} (hnames : (contexts.map (·.name)).Nodup)
    {d : ContextDef} (hd : d ∈ contexts) :
    ∃ index, contexts[index]? = some d ∧ (contexts.map (·.name)).idxOf? d.name = some index := by
  obtain ⟨index, hlt, rfl⟩ := List.getElem_of_mem hd
  have hlt' : index < (contexts.map (·.name)).length := by rwa [List.length_map]
  refine ⟨index, List.getElem?_eq_getElem hlt, List.idxOf?_eq_some_iff.2 ?_⟩
  refine ⟨hlt', List.getElem_map _, fun j hj hsame => ?_⟩
  have hsame' : (contexts.map (·.name))[j] = (contexts.map (·.name))[index] :=
    hsame.trans (List.getElem_map ContextDef.name).symm
  exact Nat.ne_of_lt hj (hnames.getElem_inj_iff.1 hsame')

namespace Numbered

variable {contexts defs : List ContextDef} {resolved : List ResolvedContext}
  (h : Numbered contexts defs resolved)
include h

theorem splicesAt_iff {index target : Nat} : SplicesAt resolved index target ↔
    ∃ c ∈ defs[index]?, ∃ d ∈ contexts[target]?,
      (contexts.map (·.name)).idxOf? d.name = some target ∧ .splice d.name ∈ c.entries := by
  constructor
  · intro hsplices
    rw [SplicesAt, entriesAt] at hsplices
    cases hr : resolved[index]? with
    | none => simp [hr] at hsplices
    | some r =>
      have hlt : index < defs.length := h.length ▸ (List.getElem?_eq_some_iff.1 hr).1
      obtain ⟨r', hr', hbecomes⟩ := h.becomes index _ (List.getElem?_eq_getElem hlt)
      obtain rfl : r' = r := Option.some.inj (hr'.symm.trans hr)
      rw [hr] at hsplices
      obtain ⟨name, hmem, hindex⟩ := hbecomes.entries.splice_mem_iff.1 hsplices
      obtain ⟨d, hd, rfl⟩ := name_of_idxOf? hindex
      exact ⟨_, List.getElem?_eq_getElem hlt, d, hd, hindex, hmem⟩
  · rintro ⟨c, hc, d, -, hindex, hmem⟩
    obtain ⟨r, hr, hbecomes⟩ := h.becomes index c hc
    rw [SplicesAt, entriesAt_eq hr]
    exact hbecomes.entries.splice_mem_iff.2 ⟨_, hmem, hindex⟩

/-- A context is spliced into itself as written exactly if it is by number. -/
theorem exists_transGen_iff (hnames : (contexts.map (·.name)).Nodup) :
    (∃ index, TransGen (SplicesAt resolved) index index) ↔
      ∃ c, TransGen (Splices contexts) c c := by
  have hdefs {target : Nat} {d : ContextDef} (hd : contexts[target]? = some d) :
      defs[target]? = some d := getElem?_mono h.listed hd
  constructor
  · rintro ⟨index, hcycle⟩
    refine ⟨_, hcycle.lift (fun index => defs[index]?.getD ⟨"", "", []⟩) fun i j hsplices => ?_⟩
    obtain ⟨c, hc, d, hd, -, hmem⟩ := h.splicesAt_iff.1 hsplices
    show Splices contexts (defs[i]?.getD _) (defs[j]?.getD _)
    rw [hc, hdefs hd]
    exact ⟨List.mem_of_getElem? hd, hmem⟩
  · rintro ⟨c, hcycle⟩
    -- The last splice of the cycle shows that the context is a listed one.
    obtain ⟨-, -, hc, -⟩ := TransGen.tail'_iff.1 hcycle
    let number (d : ContextDef) : Nat := ((contexts.map (·.name)).idxOf? d.name).getD 0
    have hstep {a b : ContextDef} (ha : a ∈ contexts) (hsplices : Splices contexts a b) :
        SplicesAt resolved (number a) (number b) := by
      obtain ⟨i, hi, hnumber⟩ := exists_number hnames ha
      obtain ⟨j, hj, hnumber'⟩ := exists_number hnames hsplices.1
      simp only [number, hnumber, hnumber', Option.getD_some]
      exact h.splicesAt_iff.2 ⟨a, hdefs hi, b, hj, hnumber', hsplices.2⟩
    have hsteps {d : ContextDef} (hsplices : TransGen (Splices contexts) c d) :
        TransGen (SplicesAt resolved) (number c) (number d) := by
      induction hsplices with
      | single hsplices => exact .single (hstep hc hsplices)
      | tail hfront hsplices ih =>
        obtain ⟨-, -, hb, -⟩ := TransGen.tail'_iff.1 hfront
        exact ih.tail (hstep hb hsplices)
    exact ⟨_, hsteps hcycle⟩

end Numbered

/-! ### Grammars from contexts -/

/-- Whether a number is that of the context which a reference stands for. A context written in place
has the number `next`, and a name made of it. -/
def ContextRef.StandsFor (contexts defs : List ContextDef) (context : String) (next : Nat) :
    ContextRef → Nat → Prop
  | .named name, number => contexts[number]?.map (·.name) = some name
  | .inPlace scope entries, number =>
    number = next ∧ defs[number]? = some ⟨context ++ "#" ++ number.repr, scope, entries⟩

/-- Whether rules are what an entry of a context stands for in a grammar. -/
inductive Entry.Yields (contexts defs : List ContextDef) (g : Grammar) (context : String)
    (next : Nat) : Entry → List Rule → Prop
  | splice {target : String} {number : Nat} {c : Context}
      (hname : contexts[number]?.map (·.name) = some target) (hc : g.contexts[number]? = some c) :
      Yields contexts defs g context next (.splice target) c.rules
  | rule {source : String} {scopes : List String} {action : Option (StackAction ContextRef)}
      {snapshot : Option SnapshotAction} {pattern : Pattern} {action' : Option (StackAction Nat)}
      (hpattern : Pattern.compile? source = some pattern)
      (haction : Option.Rel
        (StackAction.Renames (ContextRef.StandsFor contexts defs context next)) action action') :
      Yields contexts defs g context next (.rule source scopes action snapshot)
        [⟨source, pattern, scopes.map scopeOf, action', snapshot⟩]

/-- Whether a grammar has the contexts `defs`, of which the listed ones come first and those written
in place follow in the order in which they stand, and for each context the rules of its entries in
order. -/
structure IsBuiltFrom (contexts defs : List ContextDef) (g : Grammar) : Prop where
  listed : contexts <+: defs
  length : g.contexts.length = defs.length
  main : contexts[g.main]?.map (·.name) = some mainName
  context : ∀ index (d : ContextDef) (c : Context), defs[index]? = some d →
    g.contexts[index]? = some c → c.name = d.name ∧ c.scope = scopeOf d.scope ∧ ∃ parts : List (List Rule),
      c.rules = parts.flatten ∧ parts.length = d.entries.length ∧
        ∀ position (e : Entry) part, d.entries[position]? = some e → parts[position]? = some part →
          e.Yields contexts defs g d.name (contexts.length + nestedBefore defs index +
            (d.entries.take position).countP (·.nests)) part
  targets : ∀ c ∈ g.contexts, ∀ rule ∈ c.rules,
    ∀ number ∈ rule.action.bind (·.target?), number < g.contexts.length
  scopes : ∀ c ∈ g.contexts, ∀ rule ∈ c.rules, rule.scopes.length = rule.pattern.groups + 1

namespace Numbered

variable {contexts defs : List ContextDef} {resolved : List ResolvedContext}
  (h : Numbered contexts defs resolved)
include h

/-- A reference in an entry stands for the context that has its number. -/
theorem standsFor {index position number : Nat} {c : ContextDef} {e : Entry} {target : ContextRef}
    (hc : defs[index]? = some c) (he : c.entries[position]? = some e)
    (htarget : e.target? = some target)
    (hnumber : target.HasNumber (contexts.map (·.name)) (contexts.length +
      nestedBefore defs index + (c.entries.take position).countP (·.nests)) number) :
    target.StandsFor contexts defs c.name (contexts.length + nestedBefore defs index +
      (c.entries.take position).countP (·.nests)) number := by
  cases target with
  | named name =>
    obtain ⟨d, hd, rfl⟩ := name_of_idxOf? hnumber
    rw [ContextRef.StandsFor, hd]
    rfl
  | inPlace scope entries =>
    obtain rfl := hnumber
    exact ⟨rfl, h.inPlace index c position e scope entries hc he htarget⟩

theorem lt_of_standsFor {target : ContextRef} {context : String} {next number : Nat}
    (hnumber : target.StandsFor contexts defs context next number) : number < resolved.length := by
  rw [h.length]
  cases target with
  | named name =>
    obtain ⟨d, hd, -⟩ := Option.map_eq_some_iff.1 hnumber
    exact Nat.lt_of_lt_of_le (List.getElem?_eq_some_iff.1 hd).1 h.listed.length_le
  | inPlace scope entries => exact (List.getElem?_eq_some_iff.1 hnumber.2).1

/-- What an entry has become by number, it yields in the grammar. -/
theorem yields_of_becomes {main : Nat} {invalidScope : String} {done : RuleTable}
    {index position : Nat} {c : ContextDef} {e : Entry} {r : ResolvedEntry}
    (hc : defs[index]? = some c) (he : c.entries[position]? = some e)
    (hbecomes : e.Becomes (contexts.map (·.name)) (contexts.length + nestedBefore defs index +
      (c.entries.take position).countP (·.nests)) r) :
    e.Yields contexts defs
      ⟨resolved.mapIdx fun index c => ⟨c.name, c.scope, rulesOf done index⟩, main, invalidScope⟩
      c.name (contexts.length + nestedBefore defs index +
        (c.entries.take position).countP (·.nests)) (r.rulesWith (rulesOf done)) := by
  cases hbecomes with
  | @splice target number hnumber =>
    obtain ⟨d, hd, rfl⟩ := name_of_idxOf? hnumber
    obtain ⟨r, hr, -⟩ := h.becomes number d (getElem?_mono h.listed hd)
    have hname : contexts[number]?.map (·.name) = some d.name := by
      rw [hd]
      rfl
    refine .splice (c := ⟨r.name, r.scope, rulesOf done number⟩) hname ?_
    rw [List.getElem?_mapIdx, hr]
    rfl
  | @rule source scopes action snapshot pattern action' hpattern _ haction =>
    refine .rule hpattern ?_
    cases haction with
    | none => exact .none
    | some hrenames =>
      refine .some (hrenames.imp fun target htarget number hnumber => ?_)
      exact h.standsFor hc he htarget hnumber

/-- A rule by number has become of an entry. -/
theorem exists_becomes {r : ResolvedContext} (hr : r ∈ resolved) {rule : Rule}
    (hrule : .rule rule ∈ r.entries) : ∃ index c position, ∃ e : Entry, defs[index]? = some c ∧
      c.entries[position]? = some e ∧ e.Becomes (contexts.map (·.name)) (contexts.length +
        nestedBefore defs index + (c.entries.take position).countP (·.nests)) (.rule rule) := by
  obtain ⟨index, hindex⟩ := List.getElem?_of_mem hr
  obtain ⟨position, hposition⟩ := List.getElem?_of_mem hrule
  have hlt : index < defs.length := h.length ▸ (List.getElem?_eq_some_iff.1 hindex).1
  have hc := List.getElem?_eq_getElem hlt
  obtain ⟨r', hr', hbecomes⟩ := h.becomes index _ hc
  obtain rfl : r' = r := Option.some.inj (hr'.symm.trans hindex)
  have hlt' : position < defs[index].entries.length :=
    hbecomes.entries.length_eq ▸ (List.getElem?_eq_some_iff.1 hposition).1
  have he := List.getElem?_eq_getElem hlt'
  obtain ⟨r, hr, hbecomes⟩ := hbecomes.entries.exists_of_getElem? he
  obtain rfl : r = .rule rule := Option.some.inj (hr.symm.trans hposition)
  exact ⟨index, _, position, _, hc, he, hbecomes⟩

/-- The rules that were collected make a grammar of the contexts. -/
theorem isBuiltFrom {main : Nat} {invalidScope : String} {done : RuleTable}
    (hmain : (contexts.map (·.name)).idxOf? mainName = some main)
    (hdone : collectAll resolved = .ok done) :
    IsBuiltFrom contexts defs
      ⟨resolved.mapIdx fun index c => ⟨c.name, c.scope, rulesOf done index⟩, main,
        invalidScope⟩ := by
  have hrules : ∀ c ∈ resolved.mapIdx fun index c =>
      (⟨c.name, c.scope, rulesOf done index⟩ : Context), ∀ rule ∈ c.rules,
        ∃ index d position, ∃ e : Entry, defs[index]? = some d ∧
          d.entries[position]? = some e ∧ e.Becomes (contexts.map (·.name)) (contexts.length +
            nestedBefore defs index + (d.entries.take position).countP (·.nests))
              (.rule rule) := by
    intro c hc rule hrule
    obtain ⟨index, hindex, rfl⟩ := List.mem_mapIdx.1 hc
    obtain ⟨r, hr, hentry⟩ := (expands_of_collectAll hdone index).exists_of_mem rule hrule
    exact h.exists_becomes hr hentry
  refine ⟨h.listed, ?_, ?_, ?_, ?_, ?_⟩
  · rw [List.length_mapIdx, h.length]
  · obtain ⟨d, hd, hname⟩ := name_of_idxOf? hmain
    rw [hd]
    exact congrArg some hname
  · intro index d c hd hc
    obtain ⟨r, hr, hbecomes⟩ := h.becomes index d hd
    rw [List.getElem?_mapIdx, hr] at hc
    cases hc
    refine ⟨hbecomes.name, hbecomes.scope,
      r.entries.map (·.rulesWith (rulesOf done)), ?_, ?_, ?_⟩
    · have hrulesOf := rulesOf_of_collectAll hdone index
      rwa [entriesAt_eq hr] at hrulesOf
    · rw [List.length_map, hbecomes.entries.length_eq]
    · intro position e part he hpart
      obtain ⟨entry, hentry, hbecomes⟩ := hbecomes.entries.exists_of_getElem? he
      rw [List.getElem?_map, hentry] at hpart
      cases hpart
      exact h.yields_of_becomes hd he hbecomes
  · intro c hc rule hrule number hnumber
    obtain ⟨index, d, position, e, hd, he, hbecomes⟩ := hrules c hc rule hrule
    rw [List.length_mapIdx]
    cases hbecomes with
    | rule _ _ haction =>
      obtain ⟨action', rfl, htarget⟩ := Option.bind_eq_some_iff.1 hnumber
      cases haction with
      | some hrenames =>
        obtain ⟨target, htarget, hnumber⟩ := hrenames.exists_target htarget
        exact h.lt_of_standsFor (h.standsFor hd he htarget hnumber)
  · intro c hc rule hrule
    obtain ⟨_, _, _, _, _, _, hbecomes⟩ := hrules c hc rule hrule
    cases hbecomes with
    | rule _ hscopes _ => rw [List.length_map, hscopes]

end Numbered

section

variable {contexts : List ContextDef} (invalidScope : Option String)
  (hnames : (contexts.map (·.name)).Nodup) (hmain : mainName ∈ contexts.map (·.name))
  (h : ∀ e, Written contexts e → e.Resolves (contexts.map (·.name)))
include hnames hmain h

/-- Contexts that are not spliced into themselves can be built. -/
theorem exists_build_eq_ok (hacyclic : ¬∃ c, TransGen (Splices contexts) c c) :
    ∃ g, build contexts invalidScope = .ok g := by
  obtain ⟨main, defs, resolved, -, hnumbered, hbuild⟩ := exists_build_eq invalidScope hnames hmain h
  rw [← hnumbered.exists_transGen_iff hnames] at hacyclic
  obtain ⟨done, hdone⟩ := exists_collectAll_eq_ok_iff.2 fun i hi => hacyclic ⟨i, hi⟩
  rw [hbuild, hdone]
  exact ⟨_, rfl⟩

/-- Contexts with distinct names, one of which is that of the first context, known references,
patterns that can be read and the right numbers of scopes cannot be built exactly if one of them is
spliced into itself, and then the error says so. Otherwise they are built into a grammar that has,
for each context, listed or written in place, the rules of its entries in order, with the rules of
the context for each splice, and actions that enter the contexts which they name or in which they
stand. -/
theorem build_iff_acyclic :
    ((∃ name, build contexts invalidScope = .error (.spliceCycle name)) ↔
      ∃ c, TransGen (Splices contexts) c c) ∧
    ((¬∃ c, TransGen (Splices contexts) c c) →
      ∃ g defs, build contexts invalidScope = .ok g ∧ IsBuiltFrom contexts defs g ∧
        g.invalidScope = invalidScope.getD defaultInvalidScope) := by
  obtain ⟨main, defs, resolved, hmain, hnumbered, hbuild⟩ :=
    exists_build_eq invalidScope hnames hmain h
  rw [← hnumbered.exists_transGen_iff hnames, hbuild]
  cases hcollect : collectAll resolved with
  | ok done =>
    have hacyclic : ¬∃ i, TransGen (SplicesAt resolved) i i := by
      rintro ⟨i, hi⟩
      exact exists_collectAll_eq_ok_iff.1 ⟨done, hcollect⟩ i hi
    refine ⟨⟨?_, fun hcycle => absurd hcycle hacyclic⟩, fun _ => ?_⟩
    · rintro ⟨name, hname⟩
      cases hname
    · exact ⟨_, defs, rfl, hnumbered.isBuiltFrom hmain hcollect, rfl⟩
  | error e =>
    obtain ⟨i, c, -, rfl, hi⟩ := exists_transGen_of_collectAll hcollect
    exact ⟨⟨fun _ => ⟨i, hi⟩, fun _ => ⟨c.name, rfl⟩⟩, fun hacyclic => absurd ⟨i, hi⟩ hacyclic⟩

end

/-- The end of a group in parentheses. -/
def groupEnd : Entry := .rule "[)]" ["close"] (some (.pop none)) none

/-- Words and groups in parentheses, the inside of a group being written in place. -/
def groupContexts : List ContextDef :=
  [⟨"Main", "source", [.splice "Words",
    .rule "[(]" ["open"] (some (.push (.inPlace "group" [groupEnd]))) none]⟩,
    ⟨"Words", "", [.rule "[a-z]+" ["word"] none none]⟩]

theorem build_iff_acyclic_groups : (groupContexts.map (·.name)).Nodup ∧
    mainName ∈ groupContexts.map (·.name) ∧
    (∀ e, Written groupContexts e → e.Resolves (groupContexts.map (·.name))) ∧
    (¬∃ c, TransGen (Splices groupContexts) c c) ∧
    ∃ g defs, build groupContexts none = .ok g ∧ IsBuiltFrom groupContexts defs g := by
  have hnames : (groupContexts.map (·.name)).Nodup := by decide
  have hmain : mainName ∈ groupContexts.map (·.name) := by decide
  have hwritten (e : Entry) (he : Written groupContexts e) :
      e ∈ groupContexts.flatMap (·.entries) ++ [groupEnd] := by
    induction he with
    | listed hc he => exact List.mem_append_left _ (List.mem_flatMap.2 ⟨_, hc, he⟩)
    | inPlace _ htarget he ih =>
      simp only [groupContexts, List.flatMap_cons, List.flatMap_nil, List.cons_append,
        List.nil_append, List.append_nil, List.mem_cons, List.not_mem_nil, or_false] at ih
      rcases ih with heq | heq | heq | heq
      · cases heq
      · cases heq
        cases htarget
        exact List.mem_append_right _ he
      · cases heq
      · cases heq
        cases htarget
  have hreads (source : String) (h : (Pattern.compile? source).any (·.groups == 0)) :
      ∃ p, Pattern.compile? source = some p ∧ p.groups + 1 = 1 := by
    obtain ⟨p, hp, hgroups⟩ := (Option.any_eq_true _ _).1 h
    exact ⟨p, hp, congrArg (· + 1) (beq_iff_eq.1 hgroups)⟩
  have hresolves (e : Entry) (he : Written groupContexts e) :
      e.Resolves (groupContexts.map (·.name)) := by
    have hmem := hwritten e he
    simp only [groupContexts, List.flatMap_cons, List.flatMap_nil, List.cons_append,
      List.nil_append, List.append_nil, List.mem_cons, List.not_mem_nil, or_false] at hmem
    rcases hmem with rfl | rfl | rfl | rfl
    · exact List.mem_cons_of_mem _ List.mem_cons_self
    · exact ⟨by simp [StackAction.target?], hreads _ (by decide)⟩
    · exact ⟨by simp, hreads _ (by decide)⟩
    · exact ⟨by simp [StackAction.target?], hreads _ (by decide)⟩
  have hacyclic : ¬∃ c, TransGen (Splices groupContexts) c c := by
    have honly : ∀ c ∈ groupContexts, ∀ target, .splice target ∈ c.entries →
        c.name = mainName ∧ target ≠ mainName := by
      intro c hc target htarget
      simp only [groupContexts, List.mem_cons, List.not_mem_nil, or_false] at hc
      rcases hc with rfl | rfl
      · simp only [List.mem_cons, Entry.splice.injEq, List.not_mem_nil, or_false,
          reduceCtorEq] at htarget
        exact ⟨rfl, htarget ▸ by decide⟩
      · simp at htarget
    exact not_transGen_splices honly
  obtain ⟨g, defs, hbuild, hg, -⟩ :=
    (build_iff_acyclic none hnames hmain hresolves).2 hacyclic
  exact ⟨hnames, hmain, hresolves, hacyclic, g, defs, hbuild, hg⟩

end Grammar

end HdlIndex
