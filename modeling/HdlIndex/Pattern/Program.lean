import HdlIndex.Pattern.Place
import Std.Data.HashSet

/-! Patterns as programs. A repetition without a limit whose body can match nothing is a loop that
can be gone through without reading. Which matches of nothing it takes is defined by a program: a way
through it ends where it comes to an instruction that was reached before at the same place. Of the
ways that are left the first one to the end of the program is the match. Main statement: `code` lists
`size` instructions, so that the addresses in it are right. -/

namespace HdlIndex

/-- A step of a program, with the addresses of the steps that can follow. -/
inductive Instruction where
  /-- Reads one character of a set. -/
  | read (set : CharSet) (next : Nat)
  /-- Goes on at a place that meets the condition. -/
  | check (e : Edge) (next : Nat)
  /-- Starts a group. -/
  | start (next : Nat)
  /-- Ends the group started last, whose extent is noted under a number. -/
  | stop (index next : Nat)
  /-- Goes on in two ways, the first one preferred. -/
  | fork (first second : Nat)
  | jump (next : Nat)
  deriving DecidableEq, Repr

namespace Instruction

/-- A choice between one more match of the body of a repetition and what follows it. -/
def again (greedy : Bool) (body next : Nat) : Instruction :=
  if greedy then .fork body next else .fork next body

/-- Several pieces of a program in a row, each made for its address. -/
def copies (count size base : Nat) (piece : Nat → List Instruction) : List Instruction :=
  (List.range count).flatMap fun i => piece (base + i * size)

theorem length_copies (count size base : Nat) (piece : Nat → List Instruction)
    (h : ∀ address, (piece address).length = size) :
    (copies count size base piece).length = count * size := by
  induction count with
  | zero => simp [copies]
  | succ n ih =>
    rw [copies] at ih ⊢
    simp only [List.range_succ, List.flatMap_append, List.length_append, ih]
    simp [h, Nat.succ_mul]

end Instruction

namespace Pattern

/-! ### Instructions of a pattern -/

/-- The number of instructions of a pattern. -/
def size : Pattern → Nat
  | empty | one _ | edge _ => 1
  | seq p q => p.size + q.size
  | alt p q => 1 + p.size + q.size
  | repeated _ 0 none p => if p.consumes then 1 + p.size else 2 + p.size
  | repeated _ (least + 1) none p => (least + 1) * p.size + 1
  | repeated _ least (some most) p => least * p.size + (most - least) * (1 + p.size) + 1
  | group _ p => p.size + 2

/-- The instructions of a pattern from the address `base` on, which go on at the address `next`.
If the body of a loop can match nothing then it has a fork of its own for the first time. -/
def code : Pattern → (base next : Nat) → List Instruction
  | empty, _, next => [.jump next]
  | one set, _, next => [.read set next]
  | edge e, _, next => [.check e next]
  | seq p q, base, next => p.code base (base + p.size) ++ q.code (base + p.size) next
  | alt p q, base, next =>
    let second := base + 1 + p.size
    .fork (base + 1) second :: (p.code (base + 1) next ++ q.code second next)
  | repeated greedy 0 none p, base, next =>
    if p.consumes then .again greedy (base + 1) next :: p.code (base + 1) base
    else
      .again greedy (base + 2) next :: .again greedy (base + 2) next :: p.code (base + 2) (base + 1)
  | repeated greedy (least + 1) none p, base, next =>
    Instruction.copies (least + 1) p.size base (fun b => p.code b (b + p.size))
      ++ [.again greedy (base + least * p.size) next]
  | repeated greedy least (some most) p, base, next =>
    let more := base + least * p.size
    let stop := more + (most - least) * (1 + p.size)
    Instruction.copies least p.size base (fun b => p.code b (b + p.size))
      ++ Instruction.copies (most - least) (1 + p.size) more (fun b =>
        .again greedy (b + 1) stop :: p.code (b + 1) (b + 1 + p.size))
      ++ [.jump next]
  | group index p, base, next =>
    let stop := base + 1 + p.size
    .start (base + 1) :: (p.code (base + 1) stop ++ [.stop index next])

/-- Each pattern has as many instructions as the addresses behind it count on. -/
theorem length_code (p : Pattern) (base next : Nat) : (p.code base next).length = p.size := by
  fun_induction code p base next with
  | case1 | case2 | case3 => rfl
  | case4 p q base next ihp ihq => simp [size, ihp, ihq]
  | case5 p q base next second ihp ihq => simp [size, ihp, ihq]; omega
  | case6 greedy p base next h ih => simp [size, h, ih]; omega
  | case7 greedy p base next h ih => simp [size, h, ih]; omega
  | case8 greedy least p base next ih =>
    simp [size, Instruction.length_copies _ _ _ _ ih]
  | case9 greedy least most p base next more stop ih ih' =>
    have block (b : Nat) : (Instruction.again greedy (b + 1) stop ::
        p.code (b + 1) (b + 1 + p.size)).length = 1 + p.size := by
      simp [ih' b, Nat.add_comm]
    simp only [size, List.length_append, List.length_singleton,
      Instruction.length_copies _ _ _ _ ih, Instruction.length_copies _ _ _ _ block]
  | case10 index p base next stop ih => simp [size, ih]

/-- The program of a pattern. It ends at the address behind the last instruction. -/
def program (p : Pattern) : Array Instruction := (p.code 0 p.size).toArray

end Pattern

/-! ### Running a program -/

/-- A way through a program that can be followed further. -/
structure Thread where
  address : Nat
  state : MatchState
  /-- Where the groups start whose ends have not been reached, the last one first. -/
  starts : List Nat := []
  deriving DecidableEq, Repr

namespace Thread

/-- How a way goes on behind an instruction, the preferred way first. -/
def step (t : Thread) : Instruction → List Thread
  | .read set next =>
    match t.state.rest with
    | [] => []
    | c :: _ => if set.has c then [{ t with address := next, state := t.state.behind c }] else []
  | .check e next => if e.holds t.state then [{ t with address := next }] else []
  | .start next => [{ t with address := next, starts := t.state.pos :: t.starts }]
  | .stop index next =>
    match t.starts with
    | [] => []
    | start :: starts => [⟨next, t.state.note index start, starts⟩]
  | .fork first second => [{ t with address := first }, { t with address := second }]
  | .jump next => [{ t with address := next }]

/-- Follows the first of some ways to its end, then the next one, for `bound` steps at most. Each
instruction is followed once from each place. -/
def run (program : Array Instruction) :
    Nat → Std.HashSet (Nat × Nat) → List Thread → Option MatchState
  | 0, _, _ => none
  | _, _, [] => none
  | bound + 1, visited, t :: ts =>
    if visited.contains (t.address, t.state.pos) then run program bound visited ts
    else
      match program[t.address]? with
      | none => some t.state
      | some i => run program bound (visited.insert (t.address, t.state.pos)) (t.step i ++ ts)

end Thread

namespace Pattern

/-- Where the preferred way through the program of a pattern ends. Each visit to an instruction leads
to two others at most, so the bound is not reached. -/
def runEnd? (p : Pattern) (s : MatchState) : Option MatchState :=
  let program := p.program
  let visits := (program.size + 1) * (s.rest.length + 1)
  Thread.run program (2 * visits + 2) ∅ [{ address := 0, state := s }]

end Pattern

end HdlIndex
