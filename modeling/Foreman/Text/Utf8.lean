/-!
# UTF-8: reading bytes as text

Text is read in two ways. The strict one refuses bytes that are not UTF-8. The lenient one puts a
replacement character for every longest piece that begins like a character and does not go on as
one, as the Unicode standard advises.
-/

namespace Foreman.Text.Utf8

/-- How a character begins: how many bytes go on with it, the bits that its first byte gives, and
the bounds of its second byte, which keep out overlong forms, surrogates and numbers past U+10FFFF. -/
structure Lead where
  more : Nat
  bits : Nat
  low : Nat
  high : Nat

/-- What the first byte of a character says about it; `none` if no character begins so. -/
def lead? (b : Nat) : Option Lead :=
  if b < 0x80 then some ⟨0, b, 0x80, 0xbf⟩
  else if b < 0xc2 then none
  else if b < 0xe0 then some ⟨1, b - 0xc0, 0x80, 0xbf⟩
  else if b = 0xe0 then some ⟨2, 0, 0xa0, 0xbf⟩
  else if b = 0xed then some ⟨2, 0xd, 0x80, 0x9f⟩
  else if b < 0xf0 then some ⟨2, b - 0xe0, 0x80, 0xbf⟩
  else if b = 0xf0 then some ⟨3, 0, 0x90, 0xbf⟩
  else if b < 0xf4 then some ⟨3, b - 0xf0, 0x80, 0xbf⟩
  else if b = 0xf4 then some ⟨3, 4, 0x80, 0x8f⟩
  else none

inductive Piece
  | char (c : Char)
  | broken

def Piece.char? : Piece → Option Char
  | .char c => some c
  | .broken => none

/-- A character under way: the bytes that it still needs, its bits so far, and the bounds of its
next byte. -/
structure Partial where
  more : Nat
  bits : Nat
  low : Nat
  high : Nat

def start (b : UInt8) : List Piece × Option Partial :=
  match lead? b.toNat with
  | none => ([.broken], none)
  | some ⟨0, bits, _, _⟩ => ([.char (Char.ofNat bits)], none)
  | some ⟨more + 1, bits, low, high⟩ => ([], some ⟨more + 1, bits, low, high⟩)

/-- Reads the next byte. A byte that does not go on with the character under way breaks it off, and
begins a character itself. -/
def feed (under : Option Partial) (b : UInt8) : List Piece × Option Partial :=
  match under with
  | none => start b
  | some p =>
    let n := b.toNat
    if p.low ≤ n && n ≤ p.high then
      let bits := 64 * p.bits + (n - 0x80)
      if p.more ≤ 1 then ([.char (Char.ofNat bits)], none)
      else ([], some ⟨p.more - 1, bits, 0x80, 0xbf⟩)
    else
      let (pieces, next) := start b
      (.broken :: pieces, next)

/-- The pieces of a byte sequence, in order. A character that the end cuts off is broken. -/
def pieces (bytes : List UInt8) : List Piece :=
  let (rev, under) := bytes.foldl (fun (rev, under) b =>
    let (new, next) := feed under b
    (new.reverse ++ rev, next)) (([] : List Piece), (none : Option Partial))
  (if under.isSome then .broken :: rev else rev).reverse

/-- Strict reading: `none` unless every piece is a character. -/
def decode? (bytes : List UInt8) : Option String :=
  ((pieces bytes).mapM Piece.char?).map String.ofList

/-- Lenient reading: a replacement character stands for every broken piece. -/
def decodeLossy (bytes : List UInt8) : String :=
  String.ofList ((pieces bytes).map fun piece => piece.char?.getD '\uFFFD')

def encode (s : String) : List UInt8 :=
  s.toUTF8.data.toList

end Foreman.Text.Utf8
