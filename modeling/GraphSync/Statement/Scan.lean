import GraphSync.Statement.Placeholder

/-! The parameter names of a text in one pass over its characters. Names are cut out of the text by
the bytes at which they start and end, which is possible between characters only. -/
namespace GraphSync.Placeholder

/-- The text from a byte on, unless the byte is within a character or past the end. -/
def sliceFrom? (text : String) (byte : Nat) : Option String :=
  (text.pos? ⟨byte⟩).map fun p => (text.sliceFrom p).copy

/-- The text before a byte, unless the byte is within a character or past the end. -/
def sliceTo? (text : String) (byte : Nat) : Option String :=
  (text.pos? ⟨byte⟩).map fun p => (text.sliceTo p).copy

/-- Characters with the bytes at which they start. -/
def indexed : Nat → List Char → List (Nat × Char)
  | _, [] => []
  | byte, c :: rest => (byte, c) :: indexed (byte + c.utf8Size) rest

/-- The characters behind a literal. An escaped character is passed over unread. -/
def skipLiteral (quote : Char) : List (Nat × Char) → List (Nat × Char)
  | [] => []
  | [_] => []
  | (_, c) :: d :: rest =>
    if escapes quote c then skipLiteral quote rest
    else if c = quote then d :: rest
    else skipLiteral quote (d :: rest)

/-- The byte at which the name at the start of a text ends. -/
def nameEnd (text : String) : Nat :=
  match text.find? fun c => !isNameChar c with
  | some p => p.offset.byteIdx
  | none => text.utf8ByteSize

theorem length_skipLiteral_le (quote : Char) (chars : List (Nat × Char)) :
    (skipLiteral quote chars).length ≤ chars.length := by
  fun_induction skipLiteral quote chars <;> simp_all <;> omega

/-- Reads on through the characters of a text and adds the names behind dollar signs. The characters
of a name are read again, as plain ones. -/
def scanFrom (text : String) : List (Nat × Char) → SortedSet String → Option (SortedSet String)
  | [], names => some names
  | (byte, c) :: rest, names =>
    if isQuote c then scanFrom text (skipLiteral c rest) names
    else if c = '$' then do
      let tail ← sliceFrom? text (byte + 1)
      if nameEnd tail = 0 then scanFrom text rest names
      else
        let name ← sliceTo? tail (nameEnd tail)
        scanFrom text rest (names.add name)
    else scanFrom text rest names
termination_by chars => chars.length
decreasing_by
  all_goals simp only [List.length_cons]
  · exact Nat.lt_succ_of_le (length_skipLiteral_le c rest)
  all_goals omega

/-- The parameter names of a text in ascending order, unless a slice of it is not of whole
characters. -/
def scan (text : String) : Option (List String) :=
  (scanFrom text (indexed 0 text.toList) .empty).map (·.keys)

end GraphSync.Placeholder
