/-! Measures and cuts of text. Offsets into a source file count UTF-8 bytes, while
columns count UTF-16 code units; both are sums over the characters. -/

namespace HdlIndex.Text

/-- Number of UTF-8 bytes of a run of characters. -/
def byteSize : List Char → Nat
  | [] => 0
  | c :: cs => c.utf8Size + byteSize cs

/-- Number of UTF-16 code units of one character. -/
def units16 (c : Char) : Nat :=
  if c.toNat < 0x10000 then 1 else 2

/-- Number of UTF-16 code units of a run of characters. -/
def utf16Size : List Char → Nat
  | [] => 0
  | c :: cs => units16 c + utf16Size cs

/-- What is left after the first `n` bytes. A character that the cut would divide is kept whole. -/
def dropBytes : Nat → List Char → List Char
  | _, [] => []
  | n, c :: cs => if c.utf8Size ≤ n then dropBytes (n - c.utf8Size) cs else c :: cs

/-- The characters that fit into the first `n` bytes. -/
def takeBytes : Nat → List Char → List Char
  | _, [] => []
  | n, c :: cs => if c.utf8Size ≤ n then c :: takeBytes (n - c.utf8Size) cs else []

/-- The part of `text` from byte `start` up to byte `stop`. -/
def slice (text : String) (start stop : Nat) : String :=
  .ofList (takeBytes (stop - start) (dropBytes start text.toList))

@[simp]
theorem byteSize_append (a b : List Char) : byteSize (a ++ b) = byteSize a + byteSize b := by
  induction a with
  | nil => simp [byteSize]
  | cons c cs ih => simp [byteSize, ih, Nat.add_assoc]

/-- A cut splits the text: nothing is lost and nothing is repeated. -/
theorem takeBytes_append_dropBytes (n : Nat) (cs : List Char) :
    takeBytes n cs ++ dropBytes n cs = cs := by
  induction cs generalizing n with
  | nil => rfl
  | cons c cs ih =>
    simp only [takeBytes, dropBytes]
    split <;> simp [ih]

theorem byteSize_takeBytes_le (n : Nat) (cs : List Char) : byteSize (takeBytes n cs) ≤ n := by
  induction cs generalizing n with
  | nil => simp [takeBytes, byteSize]
  | cons c cs ih =>
    simp only [takeBytes]
    split
    · have := ih (n - c.utf8Size)
      simp only [byteSize]
      omega
    · simp [byteSize]

end HdlIndex.Text
