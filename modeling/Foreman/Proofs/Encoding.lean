import Mathlib.Tactic.SplitIfs
import Foreman.Files
import Foreman.Proofs.KeyOrder

/-!
# Bytes of a text

The lenient reader finds every text in its own bytes (`decodeLossy_encode`). So a path that is a text is named by
this text and by no other.
-/

namespace Foreman

namespace Text.Utf8

/-! ## 1. First bytes -/

theorem lead?_one {v : Nat} (h : v ≤ 0x7f) : lead? v = some ⟨0, v, 0x80, 0xbf⟩ := by
  rw [lead?, if_pos (by omega)]

theorem lead?_two {v : Nat} (h : 0x7f < v) (h' : v ≤ 0x7ff) :
    lead? (v / 64 + 0xc0) = some ⟨1, v / 64, 0x80, 0xbf⟩ := by
  rw [lead?, if_neg (by omega), if_neg (by omega), if_pos (by omega), Nat.add_sub_cancel]

-- Two first bytes narrow the second one: it must not begin a shorter form, and not a surrogate.
theorem lead?_three {v : Nat} (h : 0x7ff < v) (h' : v ≤ 0xffff) (hv : v < 0xd800 ∨ 0xdfff < v) :
    ∃ low high, lead? (v / 4096 + 0xe0) = some ⟨2, v / 4096, low, high⟩ ∧
      low ≤ v / 64 % 64 + 0x80 ∧ v / 64 % 64 + 0x80 ≤ high := by
  rw [lead?, if_neg (by omega), if_neg (by omega), if_neg (by omega)]
  by_cases hfirst : v / 4096 = 0
  · rw [hfirst]
    exact ⟨0xa0, 0xbf, rfl, by omega, by omega⟩
  by_cases hsurrogate : v / 4096 = 0xd
  · rw [hsurrogate]
    exact ⟨0x80, 0x9f, rfl, by omega, by omega⟩
  · rw [if_neg (by omega), if_neg (by omega), if_pos (by omega), Nat.add_sub_cancel]
    exact ⟨0x80, 0xbf, rfl, by omega, by omega⟩

-- Here the second byte must not begin a shorter form, and not a number past the last one.
theorem lead?_four {v : Nat} (h : 0xffff < v) (h' : v < 0x110000) :
    ∃ low high, lead? (v / 262144 + 0xf0) = some ⟨3, v / 262144, low, high⟩ ∧
      low ≤ v / 4096 % 64 + 0x80 ∧ v / 4096 % 64 + 0x80 ≤ high := by
  rw [lead?, if_neg (by omega), if_neg (by omega), if_neg (by omega), if_neg (by omega), if_neg (by omega),
    if_neg (by omega)]
  by_cases hfirst : v / 262144 = 0
  · rw [hfirst]
    exact ⟨0x90, 0xbf, rfl, by omega, by omega⟩
  by_cases hlast : v / 262144 = 4
  · rw [hlast]
    exact ⟨0x80, 0x8f, rfl, by omega, by omega⟩
  · rw [if_neg (by omega), if_pos (by omega), Nat.add_sub_cancel]
    exact ⟨0x80, 0xbf, rfl, by omega, by omega⟩

/-! ## 2. Single bytes -/

section

variable {rev : List Piece} {more bits low high n : Nat}

/-- Reads a byte after some pieces, the last one first. -/
def readByte (state : List Piece × Option Partial) (b : UInt8) : List Piece × Option Partial :=
  ((feed state.2 b).1.reverse ++ state.1, (feed state.2 b).2)

theorem toNat_ofNat_of_lt (h : n < 256) : (UInt8.ofNat n).toNat = n := by
  rw [UInt8.toNat_ofNat']
  omega

theorem readByte_only (hn : n < 256) (h : lead? n = some ⟨0, bits, low, high⟩) :
    readByte (rev, none) (.ofNat n) = (.char (Char.ofNat bits) :: rev, none) := by
  simp [readByte, feed, start, toNat_ofNat_of_lt hn, h]

theorem readByte_first (hn : n < 256) (h : lead? n = some ⟨more + 1, bits, low, high⟩) :
    readByte (rev, none) (.ofNat n) = (rev, some ⟨more + 1, bits, low, high⟩) := by
  simp [readByte, feed, start, toNat_ofNat_of_lt hn, h]

theorem readByte_next (hn : n < 64) (hlow : low ≤ n + 0x80) (hhigh : n + 0x80 ≤ high) :
    readByte (rev, some ⟨more + 2, bits, low, high⟩) (.ofNat (n + 0x80)) =
      (rev, some ⟨more + 1, 64 * bits + n, 0x80, 0xbf⟩) := by
  have hbyte := toNat_ofNat_of_lt (n := n + 0x80) (by omega)
  generalize UInt8.ofNat (n + 0x80) = b at hbyte ⊢
  simp [readByte, feed, hbyte, hlow, hhigh]

theorem readByte_last (hn : n < 64) (hlow : low ≤ n + 0x80) (hhigh : n + 0x80 ≤ high) :
    readByte (rev, some ⟨1, bits, low, high⟩) (.ofNat (n + 0x80)) =
      (.char (Char.ofNat (64 * bits + n)) :: rev, none) := by
  have hbyte := toNat_ofNat_of_lt (n := n + 0x80) (by omega)
  generalize UInt8.ofNat (n + 0x80) = b at hbyte ⊢
  simp [readByte, feed, hbyte, hlow, hhigh]

end

/-! ## 3. Characters and texts -/

-- The first byte of a character says how many follow, and gives the first bits; every other one gives six.
theorem foldl_readByte_utf8EncodeChar (c : Char) (rev : List Piece) :
    (String.utf8EncodeChar c).foldl readByte (rev, none) = (.char c :: rev, none) := by
  have hvalid : c.val.toNat < 0xd800 ∨ 0xdfff < c.val.toNat ∧ c.val.toNat < 0x110000 := c.valid
  have hc : Char.ofNat c.val.toNat = c := Char.ofNat_toNat c
  have hlast : ∀ v, v % 64 < 64 := fun v => Nat.mod_lt _ (by decide)
  unfold String.utf8EncodeChar
  dsimp only
  generalize c.val.toNat = v at hvalid hc ⊢
  split_ifs with h₁ h₂ h₃
  · rw [List.foldl_cons, List.foldl_nil, readByte_only (by omega) (lead?_one h₁), hc]
  · have hmod : v / 64 % 32 = v / 64 := by omega
    simp only [List.foldl_cons, List.foldl_nil]
    rw [hmod, readByte_first (by omega) (lead?_two (by omega) h₂),
      readByte_last (hlast v) (by omega) (by omega)]
    rw [Nat.div_add_mod, hc]
  · obtain ⟨low, high, hlead, hlow, hhigh⟩ := lead?_three (v := v) (by omega) h₃ (by omega)
    have hmod : v / 4096 % 16 = v / 4096 := by omega
    have hbits : 64 * (v / 4096) + v / 64 % 64 = v / 64 := by omega
    simp only [List.foldl_cons, List.foldl_nil]
    rw [hmod, readByte_first (by omega) hlead, readByte_next (hlast _) hlow hhigh, hbits,
      readByte_last (hlast v) (by omega) (by omega), Nat.div_add_mod, hc]
  · obtain ⟨low, high, hlead, hlow, hhigh⟩ := lead?_four (v := v) (by omega) (by omega)
    have hmod : v / 262144 % 8 = v / 262144 := by omega
    have hbits : 64 * (64 * (v / 262144) + v / 4096 % 64) + v / 64 % 64 = v / 64 := by omega
    simp only [List.foldl_cons, List.foldl_nil]
    rw [hmod, readByte_first (by omega) hlead, readByte_next (hlast _) hlow hhigh,
      readByte_next (hlast _) (by omega) (by omega), hbits,
      readByte_last (hlast v) (by omega) (by omega), Nat.div_add_mod, hc]

theorem pieces_encode (s : String) : pieces (encode s) = s.toList.map .char := by
  have hfold : ∀ (cs : List Char) (rev : List Piece),
      (cs.flatMap String.utf8EncodeChar).foldl readByte (rev, none) = ((cs.map .char).reverse ++ rev, none) := by
    intro cs
    induction cs with
    | nil => intro rev; rfl
    | cons c cs ih =>
      intro rev
      rw [List.flatMap_cons, List.foldl_append, foldl_readByte_utf8EncodeChar, ih]
      simp
  have hread : (encode s).foldl readByte ([], none) = ((s.toList.map .char).reverse, none) := by
    show (utf8Bytes s).foldl readByte ([], none) = _
    rw [utf8Bytes_eq, hfold, List.append_nil]
  have hpieces : pieces (encode s) = (let state := (encode s).foldl readByte ([], none)
      if state.2.isSome then .broken :: state.1 else state.1).reverse := rfl
  rw [hpieces, hread]
  exact List.reverse_reverse _

theorem decodeLossy_encode (s : String) : decodeLossy (encode s) = s := by
  rw [decodeLossy, pieces_encode, List.map_map]
  have hid : (fun piece : Piece => piece.char?.getD '\uFFFD') ∘ Piece.char = id := rfl
  rw [hid, List.map_id, String.ofList_toList]

end Text.Utf8

/-! ## 4. Paths -/

namespace PathBytes

/-- The path is a text. -/
def IsText (path : PathBytes) : Prop :=
  ∃ s, path = ofText s

@[simp] theorem text_ofText (s : String) : (ofText s).text = s :=
  Text.Utf8.decodeLossy_encode s

theorem IsText.ofText_text {path : PathBytes} (h : path.IsText) : ofText path.text = path := by
  obtain ⟨s, rfl⟩ := h
  rw [text_ofText]

theorem ofText_append (s t : String) : ofText (s ++ t) = ofText s ++ ofText t := by
  show utf8Bytes (s ++ t) = utf8Bytes s ++ utf8Bytes t
  rw [utf8Bytes_eq, utf8Bytes_eq, utf8Bytes_eq, String.toList_append, List.flatMap_append]

theorem IsText.join {dir name : PathBytes} (hdir : dir.IsText) (hname : name.IsText) : (dir.join name).IsText := by
  obtain ⟨s, rfl⟩ := hdir
  obtain ⟨t, rfl⟩ := hname
  unfold PathBytes.join
  split_ifs
  · exact ⟨s ++ t, (ofText_append s t).symm⟩
  · exact ⟨s ++ ("/" ++ t), by rw [ofText_append, ofText_append]; rfl⟩

end PathBytes
end Foreman
