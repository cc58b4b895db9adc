import Foreman.Text.CaseTable

/-!
# Lowercase: the full Unicode lowercase mapping of a text

Every character has one lowercase form, except for two: capital I with a dot becomes an i and a
combining dot, and a capital sigma at the end of a word becomes the final sigma.
-/

namespace Foreman.Text

def inRanges (ranges : Array (Nat × Nat)) (n : Nat) : Bool :=
  ranges.any fun (lo, hi) => lo ≤ n && n ≤ hi

def isCased (c : Char) : Bool :=
  inRanges casedRanges c.toNat

def isCaseIgnorable (c : Char) : Bool :=
  inRanges caseIgnorableRanges c.toNat

def lowerLetter (c : Char) : Char :=
  if c.toNat < 0x80 then c.toLower
  else match lowercaseRuns.find? (·.covers c.toNat) with
    | some run => Char.ofNat (Int.ofNat c.toNat + run.shift).toNat
    | none => c

/-- Whether the first character that is not ignorable is a cased letter. -/
def meetsLetter (cs : List Char) : Bool :=
  match cs.dropWhile isCaseIgnorable with
  | [] => false
  | c :: _ => isCased c

/-- The lowercase form of one character between the characters `before` it (nearest first) and
those `after` it. A capital sigma is final if a letter goes before it and none comes after. -/
def lowerChar (before : List Char) (c : Char) (after : List Char) : List Char :=
  if c = 'Σ' then
    [if meetsLetter before && !meetsLetter after then 'ς' else 'σ']
  else if c = 'İ' then ['i', '\u0307']
  else [lowerLetter c]

/-- Lowercase of a text whose earlier characters are `before`, nearest first. -/
def lowerFrom (before : List Char) : List Char → List Char
  | [] => []
  | c :: cs => lowerChar before c cs ++ lowerFrom (c :: before) cs

def lower (cs : List Char) : List Char :=
  lowerFrom [] cs

end Foreman.Text
