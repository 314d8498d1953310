import HdlIndex.Macro.Store
import Mathlib.Data.List.Induction
import Mathlib.Data.List.Nodup

/-! Tables of definitions and the edits that lead to them. What a log does to a table has a closed form: of
the table there remain, in their order, the definitions whose names the log does not touch, and behind them
stands what the log makes of the empty table. Main statement: after any calls, the two parts of a store are in
step, and it shows the definitions of the table, which are those that were made last, in the order in which
they were made. -/

namespace HdlIndex

namespace MacroTable

/-! ### The closed form -/

/-- Whether an edit takes the definition of a name away, be it to make a new one. -/
def touches (name : String) : MacroChange → Bool
  | .add d => d.name == name
  | .delete other => other == name
  | .deleteAll => true

/-- The definitions whose names a log does not touch. -/
def spared (log : MacroLog) (defs : List MacroDef) : List MacroDef :=
  defs.filter fun d => !log.any (touches d.name)

theorem spared_nil (defs : List MacroDef) : spared [] defs = defs :=
  List.filter_eq_self.2 fun _ _ => rfl

theorem spared_cons (c : MacroChange) (log : MacroLog) (defs : List MacroDef) :
    spared (c :: log) defs = spared log (spared [c] defs) := by
  simp [spared, List.filter_filter, Bool.and_comm]

theorem spared_append (log : MacroLog) (a b : List MacroDef) :
    spared log (a ++ b) = spared log a ++ spared log b := List.filter_append ..

theorem spared_spared (log : MacroLog) (defs : List MacroDef) :
    spared log (spared log defs) = spared log defs := by
  simp [spared, List.filter_filter]

/-- An edit takes away what it touches, and may put a definition at the end. -/
theorem entries_apply (t : MacroTable) (c : MacroChange) :
    (t.apply c).entries = spared [c] t.entries ++ (empty.apply c).entries := by
  cases c with
  | add d => simp [apply, define, undef, spared, touches, empty, bne, Bool.beq_comm]
  | delete name => simp [apply, undef, spared, touches, empty, bne, Bool.beq_comm]
  | deleteAll => simp [apply, spared, touches, empty]

theorem mem_apply_empty {c : MacroChange} {d : MacroDef} :
    d ∈ (empty.apply c).entries ↔ c = .add d := by
  cases c with
  | add e => simp [apply, define, undef, empty, eq_comm]
  | delete name => simp [apply, undef, empty]
  | deleteAll => simp [apply, empty]

/-- The closed form of a log: the definitions that it spares, and behind them those that it makes of
nothing. -/
theorem entries_replay (t : MacroTable) (log : MacroLog) :
    (t.replay log).entries = spared log t.entries ++ (empty.replay log).entries := by
  induction log generalizing t with
  | nil => rw [replay_nil, spared_nil, replay_nil, empty, List.append_nil]
  | cons c log ih =>
    rw [replay_cons, replay_cons, ih, ih (empty.apply c), entries_apply, spared_append,
      spared_cons c log t.entries, List.append_assoc]

/-- A log touches the names of all definitions that it makes. -/
theorem spared_made (log : MacroLog) : spared log (empty.replay log).entries = [] := by
  have htouched : ∀ d ∈ (empty.replay log).entries, log.any (touches d.name) := by
    induction log with
    | nil => simp [empty]
    | cons c log ih =>
      intro d hd
      rw [replay_cons, entries_replay, List.mem_append] at hd
      rw [List.any_cons, Bool.or_eq_true]
      rcases hd with hd | hd
      · obtain rfl := mem_apply_empty.1 (List.mem_filter.1 hd).1
        exact .inl (beq_self_eq_true d.name)
      · exact .inr (ih d hd)
  exact List.filter_eq_nil_iff.2 fun d hd => by simp [htouched d hd]

theorem replay_replay (t : MacroTable) (log : MacroLog) :
    (t.replay log).replay log = t.replay log := by
  have hentries : ((t.replay log).replay log).entries = (t.replay log).entries := by
    rw [entries_replay (t.replay log), entries_replay t, spared_append, spared_spared, spared_made,
      List.append_nil]
  exact congrArg MacroTable.mk hentries

/-! ### Definitions in the order of their making -/

/-- A definition is made at a place of a history, and no later edit takes it away. -/
def LastMade (history : MacroLog) (i : Nat) (d : MacroDef) : Prop :=
  history[i]? = some (.add d) ∧
    ∀ j c, i < j → history[j]? = some c → touches d.name c = false

theorem LastMade.lt_length {history : MacroLog} {i : Nat} {d : MacroDef} (h : LastMade history i d) :
    i < history.length := (List.getElem?_eq_some_iff.1 h.1).1

/-- No other definition of the name is made last, and the definition itself at no other place. -/
theorem LastMade.unique {history : MacroLog} {i j : Nat} {d e : MacroDef} (h : LastMade history i d)
    (h' : LastMade history j e) (hname : d.name = e.name) : i = j := by
  rcases Nat.lt_trichotomy i j with hlt | heq | hlt
  · have htouched := h.2 j _ hlt h'.1
    simp [touches, hname] at htouched
  · exact heq
  · have htouched := h'.2 i _ hlt h.1
    simp [touches, hname] at htouched

theorem lastMade_concat {history : MacroLog} {c : MacroChange} {i : Nat} {d : MacroDef} :
    LastMade (history ++ [c]) i d ↔
      LastMade history i d ∧ touches d.name c = false ∨ i = history.length ∧ c = .add d := by
  constructor
  · intro h
    have hlt := h.lt_length
    rw [List.length_append, List.length_singleton] at hlt
    obtain ⟨hi, hlater⟩ := h
    rcases Nat.lt_succ_iff_lt_or_eq.1 hlt with hlt | rfl
    · refine .inl ⟨⟨by rwa [List.getElem?_append_left hlt] at hi, fun j e hij hj => ?_⟩,
        hlater history.length c hlt (by simp)⟩
      refine hlater j e hij ?_
      rwa [List.getElem?_append_left (List.getElem?_eq_some_iff.1 hj).1]
    · exact .inr ⟨rfl, by simpa using hi⟩
  · rintro (⟨h, hc⟩ | ⟨rfl, rfl⟩)
    · refine ⟨by rw [List.getElem?_append_left h.lt_length, h.1], fun j e hij hj => ?_⟩
      -- A later edit is one of the history or the new one, and neither takes the definition away.
      rcases Nat.lt_or_ge j history.length with hjl | hjl
      · exact h.2 j e hij (by rwa [List.getElem?_append_left hjl] at hj)
      · rw [List.getElem?_append_right hjl] at hj
        rwa [List.mem_singleton.1 (List.mem_of_getElem? hj)]
    · refine ⟨by simp, fun j e hij hj => ?_⟩
      have hlt := (List.getElem?_eq_some_iff.1 hj).1
      rw [List.length_append, List.length_singleton] at hlt
      omega

theorem entries_replay_concat (history : MacroLog) (c : MacroChange) :
    (empty.replay (history ++ [c])).entries =
      spared [c] (empty.replay history).entries ++ (empty.apply c).entries := by
  rw [replay_append, replay_cons, replay_nil, entries_apply]

theorem mem_spared_singleton {c : MacroChange} {d : MacroDef} {defs : List MacroDef} :
    d ∈ spared [c] defs ↔ d ∈ defs ∧ touches d.name c = false := by
  simp [spared]

/-- A table holds the definitions that were made last. -/
theorem mem_entries_iff {history : MacroLog} {d : MacroDef} :
    d ∈ (empty.replay history).entries ↔ ∃ i, LastMade history i d := by
  induction history using List.reverseRecOn with
  | nil => simp [empty, LastMade]
  | append_singleton history c ih =>
    rw [entries_replay_concat, List.mem_append, mem_spared_singleton, ih, mem_apply_empty]
    simp [lastMade_concat, exists_or]

/-- A table holds its definitions in the order in which they were made. -/
theorem pairwise_entries (history : MacroLog) : (empty.replay history).entries.Pairwise fun d e =>
    ∃ i j, i < j ∧ LastMade history i d ∧ LastMade history j e := by
  induction history using List.reverseRecOn with
  | nil => exact .nil
  | append_singleton history c ih =>
    rw [entries_replay_concat, List.pairwise_append]
    -- What the last edit spares keeps its places, and what it makes is made behind all of them.
    refine ⟨?_, ?_, fun d hd e he => ?_⟩
    · refine (ih.filter _).imp_of_mem fun hd he ⟨i, j, hij, hi, hj⟩ => ?_
      exact ⟨i, j, hij, lastMade_concat.2 (.inl ⟨hi, (mem_spared_singleton.1 hd).2⟩),
        lastMade_concat.2 (.inl ⟨hj, (mem_spared_singleton.1 he).2⟩)⟩
    · cases c <;> simp [apply, define, undef, empty]
    · obtain ⟨hd, htouched⟩ := mem_spared_singleton.1 hd
      obtain ⟨i, hi⟩ := mem_entries_iff.1 hd
      exact ⟨i, history.length, hi.lt_length, lastMade_concat.2 (.inl ⟨hi, htouched⟩),
        lastMade_concat.2 (.inr ⟨rfl, mem_apply_empty.1 he⟩)⟩

end MacroTable

/-! ### The two parts of a store -/

namespace MacroStore

/-- The two parts of a store are in step: the order has the names of the definitions, each once, and the
definitions are found under their names. -/
structure InStep (s : MacroStore) : Prop where
  nodup : s.order.Nodup
  mem_order : ∀ name, name ∈ s.order ↔ name ∈ s.macros
  name_eq : ∀ name (d : MacroDef), s.macros[name]? = some d → d.name = name

theorem inStep_empty : empty.InStep where
  nodup := .nil
  mem_order name := by simp [empty]
  name_eq name d h := by simp [empty] at h

section

variable {s : MacroStore} (h : s.InStep)
include h

theorem InStep.mem_order_iff {name : String} :
    name ∈ s.order ↔ ∃ d : MacroDef, s.macros[name]? = some d := by
  rw [h.mem_order, Std.HashMap.mem_iff_isSome_getElem?, Option.isSome_iff_exists]

/-- To take an unknown name out of the order changes nothing. -/
theorem InStep.filter_order {name : String} (hnone : s.macros[name]? = none) :
    s.order.filter (· != name) = s.order := by
  refine List.filter_eq_self.2 fun other hother => ?_
  rw [bne_iff_ne]
  rintro rfl
  obtain ⟨d, hd⟩ := h.mem_order_iff.1 hother
  rw [hnone] at hd
  cases hd

/-- Whether a name is new or not, it is at the end after it has been defined. -/
theorem InStep.define_eq (d : MacroDef) : (s.define d).2 =
    ⟨s.macros.insert d.name d, s.order.filter (· != d.name) ++ [d.name]⟩ := by
  simp only [define]
  split
  · rfl
  · next hnew => rw [h.filter_order (by simpa using hnew)]

theorem InStep.undef_eq (name : String) : (s.undef name).2 =
    ⟨s.macros.erase name, s.order.filter (· != name)⟩ := by
  simp only [undef]
  split
  · rfl
  · next hnew => rw [h.filter_order (by simpa using hnew)]

theorem InStep.define (d : MacroDef) : (s.define d).2.InStep := by
  rw [h.define_eq]
  refine ⟨?_, fun name => ?_, fun name e he => ?_⟩
  · refine List.nodup_append.2 ⟨h.nodup.filter _, List.nodup_singleton _, ?_⟩
    rintro name hname _ hlast rfl
    simp [List.mem_singleton.1 hlast] at hname
  · simp only [List.mem_append, List.mem_filter, List.mem_singleton, Std.HashMap.mem_insert,
      h.mem_order, bne_iff_ne, beq_iff_eq]
    by_cases hname : name = d.name <;> simp [hname, eq_comm]
  · rw [Std.HashMap.getElem?_insert] at he
    split at he
    · next hname =>
      cases he
      exact beq_iff_eq.1 hname
    · exact h.name_eq name e he

theorem InStep.undef (name : String) : (s.undef name).2.InStep := by
  rw [h.undef_eq]
  refine ⟨h.nodup.filter _, fun other => ?_, fun other e he => ?_⟩
  · simp only [List.mem_filter, Std.HashMap.mem_erase, h.mem_order, bne_iff_ne, beq_eq_false_iff_ne]
    rw [and_comm, ne_comm]
  · rw [Std.HashMap.getElem?_erase] at he
    split at he
    · cases he
    · exact h.name_eq other e he

/-! ### What a store shows -/

theorem InStep.mem_definitions {d : MacroDef} : d ∈ s.definitions ↔ s.macros[d.name]? = some d := by
  rw [definitions, List.mem_filterMap]
  constructor
  · rintro ⟨name, -, hname⟩
    rwa [h.name_eq name d hname]
  · exact fun hd => ⟨d.name, h.mem_order_iff.2 ⟨d, hd⟩, hd⟩

/-- The definitions have the names of the order, so each of them is shown once. -/
theorem InStep.map_name_definitions : s.definitions.map (·.name) = s.order := by
  rw [definitions, List.map_filterMap]
  refine (List.filterMap_congr fun name hname => ?_).trans List.filterMap_some
  obtain ⟨d, hd⟩ := h.mem_order_iff.1 hname
  rw [hd, Option.map_some, h.name_eq name d hd]

theorem InStep.get?_eq (name : String) : s.get? name = s.definitions.find? (·.name == name) := by
  cases hfound : s.definitions.find? (·.name == name) with
  | none =>
    refine Option.eq_none_iff_forall_ne_some.2 fun d hd => ?_
    obtain rfl := h.name_eq name d hd
    have hother := List.find?_eq_none.1 hfound d (h.mem_definitions.2 hd)
    simp at hother
  | some d =>
    have hname : d.name = name := by simpa using List.find?_some hfound
    rw [← hname]
    exact h.mem_definitions.1 (List.mem_of_find?_eq_some hfound)

theorem InStep.contains_eq (name : String) :
    s.contains name = s.definitions.any (·.name == name) := by
  rw [contains, Std.HashMap.contains_eq_isSome_getElem?, ← get?, h.get?_eq, List.isSome_find?]

theorem InStep.size_eq : s.size = s.definitions.length := by
  have hperm : s.macros.keys.Perm s.order :=
    (List.perm_ext_iff_of_nodup Std.HashMap.nodup_keys h.nodup).2 fun name => by
      rw [Std.HashMap.mem_keys, h.mem_order]
  rw [size, ← Std.HashMap.length_keys, hperm.length_eq, ← h.map_name_definitions, List.length_map]

theorem InStep.isEmpty_eq : s.isEmpty = s.definitions.isEmpty := by
  rw [isEmpty, Std.HashMap.isEmpty_eq_size_eq_zero, ← size, h.size_eq]
  cases s.definitions <;> rfl

/-- Definitions that differ for one name only show the others as before. -/
theorem InStep.filterMap_order {name : String} {macros : Std.HashMap String MacroDef}
    (hmacros : ∀ other ≠ name, macros[other]? = s.macros[other]?) :
    (s.order.filter (· != name)).filterMap (macros[·]?) = s.definitions.filter (·.name != name) := by
  rw [definitions, List.filterMap_filter, List.filter_filterMap]
  refine List.filterMap_congr fun other _ => ?_
  by_cases hother : other = name
  · subst hother
    cases hfound : s.macros[other]? with
    | none => simp
    | some d => simp [Option.filter, h.name_eq other d hfound]
  · rw [hmacros other hother]
    cases hfound : s.macros[other]? with
    | none => simp
    | some d => simp [Option.filter, h.name_eq other d hfound, hother]

/-- The table that a store shows. -/
def table (s : MacroStore) : MacroTable := ⟨s.definitions⟩

theorem InStep.table_define (d : MacroDef) : (s.define d).2.table = s.table.define d := by
  have hothers : ∀ other ≠ d.name, (s.macros.insert d.name d)[other]? = s.macros[other]? := by
    intro other hother
    rw [Std.HashMap.getElem?_insert, if_neg (by simpa using hother.symm)]
  rw [h.define_eq, table, definitions, List.filterMap_append, h.filterMap_order hothers]
  simp [MacroTable.define, MacroTable.undef, table]

theorem InStep.table_undef (name : String) : (s.undef name).2.table = s.table.undef name := by
  have hothers : ∀ other ≠ name, (s.macros.erase name)[other]? = s.macros[other]? := by
    intro other hother
    rw [Std.HashMap.getElem?_erase, if_neg (by simpa using hother.symm)]
  rw [h.undef_eq, table, definitions, h.filterMap_order hothers]
  rfl

end

theorem InStep.apply {s : MacroStore} (h : s.InStep) (c : MacroChange) :
    (s.apply c).InStep ∧ (s.apply c).table = s.table.apply c := by
  cases c with
  | add d => exact ⟨h.define d, h.table_define d⟩
  | delete name => exact ⟨h.undef name, h.table_undef name⟩
  | deleteAll => exact ⟨inStep_empty, rfl⟩

theorem InStep.replay {s : MacroStore} (h : s.InStep) (log : MacroLog) :
    (s.replay log).InStep ∧ (s.replay log).table = s.table.replay log := by
  induction log generalizing s with
  | nil => exact ⟨h, rfl⟩
  | cons c log ih =>
    obtain ⟨hstep, htable⟩ := h.apply c
    rw [MacroTable.replay_cons, ← htable]
    exact ih hstep

end MacroStore

/-! ### Calls -/

/-- A call that changes the definitions. -/
inductive TableCall where
  | define (definition : MacroDef)
  | undef (name : String)
  | clear
  | replay (log : MacroLog)

/-- The edits that a call makes. -/
def TableCall.edits : TableCall → MacroLog
  | .define definition => [.add definition]
  | .undef name => [.delete name]
  | .clear => [.deleteAll]
  | .replay log => log

def MacroTable.call (t : MacroTable) : TableCall → MacroTable
  | .define definition => t.define definition
  | .undef name => t.undef name
  | .clear => empty
  | .replay log => t.replay log

theorem MacroTable.foldl_call (t : MacroTable) (calls : List TableCall) :
    calls.foldl call t = t.replay (calls.flatMap TableCall.edits) := by
  induction calls generalizing t with
  | nil => rfl
  | cons c calls ih =>
    rw [List.foldl_cons, List.flatMap_cons, replay_append, ih]
    cases c <;> rfl

namespace MacroStore

def call (s : MacroStore) : TableCall → MacroStore
  | .define definition => (s.define definition).2
  | .undef name => (s.undef name).2
  | .clear => s.clear
  | .replay log => s.replay log

theorem InStep.call {s : MacroStore} (h : s.InStep) (c : TableCall) :
    (s.call c).InStep ∧ (s.call c).table = s.table.call c := by
  cases c with
  | define d => exact ⟨h.define d, h.table_define d⟩
  | undef name => exact ⟨h.undef name, h.table_undef name⟩
  | clear => exact ⟨inStep_empty, rfl⟩
  | replay log => exact h.replay log

theorem InStep.foldl_call {s : MacroStore} (h : s.InStep) (calls : List TableCall) :
    (calls.foldl MacroStore.call s).InStep ∧
      (calls.foldl MacroStore.call s).table = calls.foldl MacroTable.call s.table := by
  induction calls generalizing s with
  | nil => exact ⟨h, rfl⟩
  | cons c calls ih =>
    obtain ⟨hstep, htable⟩ := h.call c
    rw [List.foldl_cons, List.foldl_cons, ← htable]
    exact ih hstep

/-- A store keeps its definitions in order. After any calls that start with nothing, the order has no name
twice and the names of all definitions, which are found under their names. The store shows each definition once,
those that were made and not taken away since, in the order of their latest making; how many there are, whether
there is one of a name and which it is can be told from them. The table shows the same. -/
theorem inStep_of_calls (calls : List TableCall) :
    let s := calls.foldl call empty
    let t := calls.foldl MacroTable.call .empty
    let history := calls.flatMap TableCall.edits
    (s.order.Nodup ∧ (∀ name, name ∈ s.order ↔ name ∈ s.macros) ∧
      ∀ name (d : MacroDef), s.macros[name]? = some d → d.name = name) ∧
    (s.definitions.map (·.name) = s.order ∧
      (∀ d, d ∈ s.definitions ↔ s.macros[d.name]? = some d) ∧
      (∀ d, d ∈ s.definitions ↔ ∃! i, MacroTable.LastMade history i d) ∧
      s.definitions.Pairwise fun d e =>
        ∃ i j, i < j ∧ MacroTable.LastMade history i d ∧ MacroTable.LastMade history j e) ∧
    (s.size = s.definitions.length ∧ s.isEmpty = s.definitions.isEmpty ∧
      ∀ name, s.get? name = s.definitions.find? (·.name == name) ∧
        s.contains name = s.definitions.any (·.name == name)) ∧
    t.entries = s.definitions ∧ t.size = s.size ∧ t.names = s.order ∧
      ∀ name, t.get? name = s.get? name ∧ t.contains name = s.contains name := by
  intro s t history
  obtain ⟨hstep, htable⟩ := inStep_empty.foldl_call calls
  have hentries : t.entries = s.definitions := congrArg MacroTable.entries htable.symm
  have hhistory : (MacroTable.empty.replay history).entries = s.definitions := by
    rw [← hentries, ← MacroTable.foldl_call]
  have hget (name : String) : t.get? name = s.get? name := by
    rw [hstep.get?_eq, MacroTable.get?, hentries]
  refine ⟨⟨hstep.nodup, hstep.mem_order, hstep.name_eq⟩,
    ⟨hstep.map_name_definitions, fun d => hstep.mem_definitions, fun d => ?_, ?_⟩,
    ⟨hstep.size_eq, hstep.isEmpty_eq, fun name => ⟨hstep.get?_eq name, hstep.contains_eq name⟩⟩,
    hentries, ?_, ?_, fun name => ⟨hget name, ?_⟩⟩
  · rw [← hhistory, MacroTable.mem_entries_iff]
    exact ⟨fun ⟨i, hi⟩ => ⟨i, hi, fun j hj => hj.unique hi rfl⟩, ExistsUnique.exists⟩
  · rw [← hhistory]
    exact MacroTable.pairwise_entries history
  · rw [hstep.size_eq, MacroTable.size, hentries]
  · rw [MacroTable.names, hentries]
    exact hstep.map_name_definitions
  · rw [MacroTable.contains, hget, contains, Std.HashMap.contains_eq_isSome_getElem?, get?]

end MacroStore

end HdlIndex
