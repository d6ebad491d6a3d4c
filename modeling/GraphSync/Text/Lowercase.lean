import GraphSync.Text.LowercaseTable

/-! Lower-casing of text for comparison: every character by its table, sigma by its place. -/
namespace GraphSync.Lowercase

def inRanges (ranges : List (Nat × Nat)) (c : Char) : Bool :=
  ranges.any fun r => r.1 ≤ c.toNat && c.toNat ≤ r.2

def Shift.image? (s : Shift) (c : Char) : Option Char :=
  if s.first ≤ c.toNat ∧ c.toNat ≤ s.last ∧ (c.toNat - s.first) % s.step = 0 then
    some (Char.ofNat (c.toNat + s.distance).toNat)
  else none

/-- Lower-case form of a character outside of any word. -/
def ofChar (c : Char) : List Char :=
  if c.toNat < 128 then [c.toLower]
  else if c = 'İ' then ['i', '\u0307']
  else [(shifts.findSome? fun s => s.image? c).getD c]

/-- Whether the nearest character that counts is a cased letter. -/
def meetsLetter (cs : List Char) : Bool :=
  match cs.dropWhile (inRanges ignorable) with
  | [] => false
  | c :: _ => inRanges cased c

/-- Lower-case form of characters that follow those in `before`, the nearest first. A sigma that
ends a word takes its final form. -/
def lowerAfter (before : List Char) : List Char → List Char
  | [] => []
  | c :: rest =>
    let image :=
      if c = 'Σ' then [if meetsLetter before && !meetsLetter rest then 'ς' else 'σ']
      else ofChar c
    image ++ lowerAfter (c :: before) rest

/-- Lower-case form of a text. -/
def lower (cs : List Char) : List Char := lowerAfter [] cs

end GraphSync.Lowercase
