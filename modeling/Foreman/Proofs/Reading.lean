import Foreman.Wire.Json.Reader

/-!
# JSON that is written can be read

Reading undoes writing, value by value: a string with its escapes, an array with its items, an object with
its members (`parse?_render`). It is so for every value that is made of texts, whatever comes after it.
-/

namespace Foreman.Wire.Json

namespace Reader

/-! ## 1. Characters of strings -/

-- A control character is written as its number, in hexadecimal digits.
theorem hex4?_hexDigit : ∀ n < 0x20,
    hex4? '0' '0' (hexDigit (n / 16)) (hexDigit (n % 16)) = some n := by
  decide

theorem stringBody?_backslash {e c : Char} (he : e ≠ 'u') (hc : escaped? e = some c)
    (cs : List Char) :
    stringBody? ('\\' :: e :: cs) = (stringBody? cs).map fun (ns, rest) => (c.toNat :: ns, rest) := by
  rw [stringBody?.eq_def]
  split
  · rename_i h
    cases h
  · rename_i h
    cases h
  · rename_i h
    cases h
    exact absurd rfl he
  · rename_i h
    cases h
    rw [hc]
    cases stringBody? cs with
    | none => rfl
    | some found => rfl
  · rename_i hno h
    cases h
    exact (hno e cs rfl rfl).elim

theorem stringBody?_number {a b c d : Char} {n : Nat} (h : hex4? a b c d = some n)
    (cs : List Char) :
    stringBody? ('\\' :: 'u' :: a :: b :: c :: d :: cs) =
      (stringBody? cs).map fun (ns, rest) => (n :: ns, rest) := by
  rw [stringBody?, h]
  cases stringBody? cs with
  | none => rfl
  | some found => rfl

theorem stringBody?_plain {c : Char} (hq : c ≠ '"') (hb : c ≠ '\\') (hc : ¬ c.toNat < 0x20)
    (cs : List Char) :
    stringBody? (c :: cs) = (stringBody? cs).map fun (ns, rest) => (c.toNat :: ns, rest) := by
  rw [stringBody?.eq_def]
  split
  · rename_i h
    cases h
  · rename_i h
    cases h
    exact absurd rfl hq
  · rename_i h
    cases h
    exact absurd rfl hb
  · rename_i h
    cases h
    exact absurd rfl hb
  · rename_i h
    cases h
    rw [if_neg (by simp [hb, hc])]
    cases stringBody? cs with
    | none => rfl
    | some found => rfl

/-- The three ways in which a character is written. -/
theorem escape_cases (c : Char) :
    (∃ e, e ≠ 'u' ∧ escaped? e = some c ∧ escape c = ['\\', e]) ∨
      (c.toNat < 0x20 ∧
        escape c = ['\\', 'u', '0', '0', hexDigit (c.toNat / 16), hexDigit (c.toNat % 16)]) ∨
      (c ≠ '"' ∧ c ≠ '\\' ∧ ¬ c.toNat < 0x20 ∧ escape c = [c]) := by
  unfold escape
  by_cases hq : c = '"'
  · rw [if_pos hq]
    exact .inl ⟨_, by decide, by rw [hq]; rfl, rfl⟩
  rw [if_neg hq]
  by_cases hb : c = '\\'
  · rw [if_pos hb]
    exact .inl ⟨_, by decide, by rw [hb]; rfl, rfl⟩
  rw [if_neg hb]
  -- The five control characters that a letter stands for.
  iterate 5
    split
    · rename_i h
      exact .inl ⟨_, by decide, by rw [h]; rfl, rfl⟩
  split
  · rename_i h
    exact .inr (.inl ⟨h, rfl⟩)
  · rename_i h
    exact .inr (.inr ⟨hq, hb, h, rfl⟩)

theorem stringBody?_escape (c : Char) (cs : List Char) :
    stringBody? (escape c ++ cs) = (stringBody? cs).map fun (ns, rest) => (c.toNat :: ns, rest) := by
  rcases escape_cases c with ⟨e, he, hc, heq⟩ | ⟨hc, heq⟩ | ⟨hq, hb, hc, heq⟩
  · rw [heq]
    exact stringBody?_backslash he hc cs
  · rw [heq]
    exact stringBody?_number (hex4?_hexDigit c.toNat hc) cs
  · rw [heq]
    exact stringBody?_plain hq hb hc cs

theorem stringBody?_flatMap_escape (cs rest : List Char) :
    stringBody? (cs.flatMap escape ++ '"' :: rest) = some (cs.map Char.toNat, rest) := by
  induction cs with
  | nil => rw [List.flatMap_nil, List.nil_append, stringBody?, List.map_nil]
  | cons c cs ih =>
    rw [List.flatMap_cons, List.append_assoc, stringBody?_escape, ih]
    rfl

/-! ## 2. Strings -/

-- No character is half of a surrogate pair.
theorem not_isHalf (c : Char) : isHighHalf c.toNat = false ∧ isLowHalf c.toNat = false := by
  have hvalid : c.toNat < 0xd800 ∨ 0xdfff < c.toNat ∧ c.toNat < 0x110000 := c.valid
  unfold isHighHalf isLowHalf
  constructor
  · rw [Bool.and_eq_false_iff, decide_eq_false_iff_not, decide_eq_false_iff_not]
    omega
  · rw [Bool.and_eq_false_iff, decide_eq_false_iff_not, decide_eq_false_iff_not]
    omega

theorem joinHalves?_toNat (cs : List Char) : joinHalves? (cs.map Char.toNat) = some cs := by
  induction cs with
  | nil => rfl
  | cons c cs ih =>
    have ⟨hhigh, hlow⟩ := not_isHalf c
    cases cs with
    | nil =>
      simp only [List.map_cons, List.map_nil, joinHalves?, hhigh, hlow, Bool.or_self,
        Bool.false_eq_true, if_false, Char.ofNat_toNat]
    | cons d cs =>
      simp only [List.map_cons] at ih ⊢
      simp only [joinHalves?, hhigh, hlow, Bool.false_eq_true, if_false, ih, Option.map_some,
        Char.ofNat_toNat]

theorem string?_quoted (s : String) (rest : List Char) :
    string? (s.toList.flatMap escape ++ '"' :: rest) = some (some s, rest) := by
  unfold string?
  rw [stringBody?_flatMap_escape]
  show some ((joinHalves? (s.toList.map Char.toNat)).map String.ofList, rest) = _
  rw [joinHalves?_toNat, Option.map_some, String.ofList_toList]

/-! ## 3. Values -/

-- What is no blank is not skipped.
theorem skipBlanks_cons {c : Char} (h : (c == ' ' || c == '\t' || c == '\n' || c == '\r') = false)
    (cs : List Char) : skipBlanks (c :: cs) = c :: cs := by
  rw [skipBlanks, List.dropWhile_cons, h]
  rfl

/-- The value is read back from what is written for it, whatever follows. The fuel need not be more than
the length of the text. -/
def Reads (j : Json) : Prop :=
  ∀ (fuel : Nat) (rest : List Char), j.render.length ≤ fuel →
    value? fuel (j.render ++ rest) = some (j, rest)

theorem quoted_append (s : String) (rest : List Char) :
    quoted s ++ rest = '"' :: (s.toList.flatMap escape ++ '"' :: rest) := by
  simp [quoted]

theorem reads_text (s : String) : Reads (.text s) := by
  intro fuel rest hfuel
  have hrender : (Json.text s).render = quoted s := by
    rw [Json.text, render, Option.getD_some]
  rw [hrender] at hfuel ⊢
  cases fuel with
  | zero => cases hfuel
  | succ fuel =>
    rw [quoted_append, value?]
    show (string? _).map _ = _
    rw [string?_quoted]
    rfl

-- An item ends at a comma or at the bracket. Each takes one unit of fuel, and has one character at least.
theorem items?_commaSeparated {items : List Json} (hne : items ≠ []) (h : ∀ j ∈ items, Reads j)
    {fuel : Nat} (hfuel : (commaSeparated (renderItems items)).length < fuel) (rest : List Char) :
    items? fuel (commaSeparated (renderItems items) ++ ']' :: rest) = some (items, rest) := by
  induction items generalizing fuel with
  | nil => exact absurd rfl hne
  | cons j items ih =>
    have hj := h j List.mem_cons_self
    cases fuel with
    | zero => cases hfuel
    | succ fuel =>
      cases items with
      | nil =>
        have hlen : j.render.length ≤ fuel := Nat.le_of_lt_succ hfuel
        show items? (fuel + 1) (j.render ++ ']' :: rest) = _
        rw [items?, hj fuel _ hlen]
        rfl
      | cons k items =>
        have hsplit : commaSeparated (renderItems (j :: k :: items)) =
            j.render ++ ',' :: commaSeparated (renderItems (k :: items)) := rfl
        rw [hsplit, List.length_append, List.length_cons] at hfuel
        have hlen : (commaSeparated (renderItems (k :: items))).length < fuel := by omega
        have hrest := ih (List.cons_ne_nil k items) (fun i hi => h i (List.mem_cons_of_mem j hi)) hlen
        rw [hsplit, List.append_assoc, items?, hj fuel _ (by omega)]
        show (items? fuel (commaSeparated (renderItems (k :: items)) ++ ']' :: rest)).map _ = _
        rw [hrest]
        rfl

/-- The text of a member whose key is a text. -/
def memberText (m : String × Json) : List Char :=
  quoted m.1 ++ ':' :: m.2.render

section

variable {m : String × Json} (hm : Reads m.2) {fuel : Nat}
  (hfuel : (memberText m).length ≤ fuel) (rest : List Char)

include hm hfuel

theorem value?_of_memberText : value? fuel (m.2.render ++ rest) = some (m.2, rest) := by
  apply hm
  unfold memberText at hfuel
  rw [List.length_append, List.length_cons] at hfuel
  omega

-- A member is read up to the comma or the brace that follows.
theorem members?_more :
    members? (fuel + 1) (memberText m ++ ',' :: rest) =
      (members? fuel rest).map fun (ms, rest) => ((some m.1, m.2) :: ms, rest) := by
  have hvalue := value?_of_memberText hm hfuel (',' :: rest)
  unfold memberText
  rw [List.append_assoc, List.cons_append, quoted_append, members?]
  simp only [skipBlanks_cons, Char.reduceBEq, Bool.or_self, string?_quoted, hvalue]

theorem members?_last :
    members? (fuel + 1) (memberText m ++ '\x7d' :: rest) = some ([(some m.1, m.2)], rest) := by
  have hvalue := value?_of_memberText hm hfuel ('\x7d' :: rest)
  unfold memberText
  rw [List.append_assoc, List.cons_append, quoted_append, members?]
  simp only [skipBlanks_cons, Char.reduceBEq, Bool.or_self, string?_quoted, hvalue]

end

theorem members?_commaSeparated {members : List (String × Json)} (hne : members ≠ [])
    (h : ∀ m ∈ members, Reads m.2) {fuel : Nat}
    (hfuel : (commaSeparated (members.map memberText)).length < fuel)
    (rest : List Char) :
    members? fuel (commaSeparated (members.map memberText) ++ '\x7d' :: rest) =
      some (members.map fun m => (some m.1, m.2), rest) := by
  induction members generalizing fuel with
  | nil => exact absurd rfl hne
  | cons m members ih =>
    have hm := h m List.mem_cons_self
    cases fuel with
    | zero => cases hfuel
    | succ fuel =>
      cases members with
      | nil =>
        have hlen : (memberText m).length ≤ fuel := Nat.le_of_lt_succ hfuel
        exact members?_last hm hlen rest
      | cons k members =>
        have hsplit : commaSeparated ((m :: k :: members).map memberText) =
            memberText m ++ ',' :: commaSeparated ((k :: members).map memberText) := rfl
        rw [hsplit, List.length_append, List.length_cons] at hfuel
        have hlen : (commaSeparated ((k :: members).map memberText)).length < fuel := by omega
        have hrest := ih (List.cons_ne_nil k members) (fun i hi => h i (List.mem_cons_of_mem m hi)) hlen
        rw [hsplit, List.append_assoc, List.cons_append, members?_more hm (by omega), hrest]
        rfl

end Reader

/-! ## 4. Values that are made of texts -/

/-- A text, an array of such values, or an object of such values under keys that are texts. -/
inductive Textual : Json → Prop
  | text (s : String) : Textual (.text s)
  | array {items : List Json} (h : ∀ j ∈ items, Textual j) : Textual (.array items)
  | object {members : List (String × Json)} (h : ∀ m ∈ members, Textual m.2) :
      Textual (.object (members.map fun m => (some m.1, m.2)))

namespace Reader

-- The text of a value does not begin with a blank or a closing bracket.
theorem render_start {j : Json} (h : j.Textual) :
    ∃ c cs, j.render = c :: cs ∧ (c = '"' ∨ c = '[' ∨ c = '\x7b') := by
  cases h with
  | text s => exact ⟨'"', _, by rw [Json.text, render]; rfl, .inl rfl⟩
  | array => exact ⟨'[', _, by rw [render], .inr (.inl rfl)⟩
  | object => exact ⟨'\x7b', _, by rw [render], .inr (.inr rfl)⟩

theorem value?_bracket {j : Json} (h : j.Textual) (fuel : Nat) (more : List Char) :
    value? (fuel + 1) ('[' :: (j.render ++ more)) =
      (items? fuel (j.render ++ more)).map fun (js, rest) => (.array js, rest) := by
  obtain ⟨c, cs, hstart, hc⟩ := render_start h
  rw [hstart, List.cons_append, value?]
  rcases hc with rfl | rfl | rfl
  · rfl
  · rfl
  · rfl

theorem value?_brace (fuel : Nat) (m : String × Json) (more : List Char) :
    value? (fuel + 1) ('\x7b' :: (memberText m ++ more)) =
      (members? fuel (memberText m ++ more)).map fun (ms, rest) => (.object ms, rest) := by
  rw [value?]
  rfl

theorem commaSeparated_cons (cs : List Char) (rest : List (List Char)) :
    ∃ more, commaSeparated (cs :: rest) = cs ++ more := by
  cases rest with
  | nil => exact ⟨[], (List.append_nil cs).symm⟩
  | cons next rest => exact ⟨_, rfl⟩

theorem reads_array {items : List Json} (ht : ∀ j ∈ items, j.Textual) (h : ∀ j ∈ items, Reads j) :
    Reads (.array items) := by
  intro fuel rest hfuel
  rw [render, List.length_cons, List.length_append, List.length_singleton] at hfuel
  rw [render, List.cons_append, List.append_assoc, List.singleton_append]
  cases fuel with
  | zero => cases hfuel
  | succ fuel =>
    cases items with
    | nil =>
      rw [value?]
      rfl
    | cons j items =>
      have hlen : (commaSeparated (renderItems (j :: items))).length < fuel := by omega
      have hitems := items?_commaSeparated (List.cons_ne_nil j items) h hlen rest
      obtain ⟨more, hmore⟩ := commaSeparated_cons j.render (renderItems items)
      rw [renderItems, hmore, List.append_assoc] at hitems ⊢
      rw [value?_bracket (ht j List.mem_cons_self), hitems]
      rfl

theorem renderMembers_map (members : List (String × Json)) :
    renderMembers (members.map fun m => (some m.1, m.2)) = members.map memberText := by
  induction members with
  | nil => rw [List.map_nil, List.map_nil, renderMembers]
  | cons m members ih =>
    rw [List.map_cons, List.map_cons, renderMembers, ih]
    rfl

theorem reads_object {members : List (String × Json)} (h : ∀ m ∈ members, Reads m.2) :
    Reads (.object (members.map fun m => (some m.1, m.2))) := by
  intro fuel rest hfuel
  rw [render, renderMembers_map, List.length_cons, List.length_append, List.length_singleton] at hfuel
  rw [render, renderMembers_map, List.cons_append, List.append_assoc, List.singleton_append]
  cases fuel with
  | zero => cases hfuel
  | succ fuel =>
    cases members with
    | nil =>
      rw [value?]
      rfl
    | cons m members =>
      have hlen : (commaSeparated ((m :: members).map memberText)).length < fuel := by omega
      have hmembers := members?_commaSeparated (List.cons_ne_nil m members) h hlen rest
      obtain ⟨more, hmore⟩ := commaSeparated_cons (memberText m) (members.map memberText)
      rw [List.map_cons, hmore, List.append_assoc] at hmembers ⊢
      rw [value?_brace, hmembers]
      rfl

theorem reads_textual {j : Json} (h : j.Textual) : Reads j := by
  induction h with
  | text s => exact reads_text s
  | array ht ih => exact reads_array ht ih
  | object _ ih => exact reads_object ih

end Reader

/-- What is written for a value that is made of texts is read as that value. -/
theorem parse?_render {j : Json} (h : j.Textual) : parse? j.render = some j := by
  have hread := Reader.reads_textual h (2 * j.render.length + 2) [] (by omega)
  rw [List.append_nil] at hread
  unfold parse?
  rw [hread]
  rfl

end Foreman.Wire.Json
