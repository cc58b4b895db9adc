/-!
# Words: cutting text at whitespace

Whitespace is the Unicode property `White_Space`; a word is a longest run of other characters.
-/

namespace Foreman.Text

/-- The Unicode property `White_Space`. -/
def isBlank (c : Char) : Bool :=
  let n := c.toNat
  (0x09 ≤ n && n ≤ 0x0d) || n == 0x20 || n == 0x85 || n == 0xa0 || n == 0x1680 ||
    (0x2000 ≤ n && n ≤ 0x200a) || n == 0x2028 || n == 0x2029 || n == 0x202f || n == 0x205f ||
    n == 0x3000

/-- Puts a finished run of characters in front of the words after it; an empty run is no word. -/
def pushWord : List Char → List (List Char) → List (List Char)
  | [], ws => ws
  | w, ws => w :: ws

/-- Reads text from its end: the run of characters that the text begins with, and the words after
the blank that ends this run. -/
def cut (cs : List Char) : List Char × List (List Char) :=
  cs.foldr (fun c (run, ws) => if isBlank c then ([], pushWord run ws) else (c :: run, ws)) ([], [])

def words (cs : List Char) : List (List Char) :=
  pushWord (cut cs).1 (cut cs).2

end Foreman.Text
