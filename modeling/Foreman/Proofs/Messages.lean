import Foreman.Proofs.Reading
import Foreman.Wire

/-!
# Messages arrive as they were sent

Every codec writes values that are made of texts, and decodes what it encodes (`Faithful`). So a message is
read as the value for which it was written, whatever characters its texts have, and two values are never
written in the same way (`messages_round_trip`).
-/

namespace Foreman.Wire

namespace Json

/-! ## 1. Objects -/

theorem textual_fields {first second : String} (a b : String) :
    Textual (.object [(some first, .text a), (some second, .text b)]) := by
  have h : ∀ m ∈ [(first, Json.text a), (second, Json.text b)], m.2.Textual := by
    intro m hm
    rcases List.mem_cons.1 hm with rfl | hm
    · exact .text a
    · rw [List.mem_singleton.1 hm]
      exact .text b
  exact .object h

theorem textual_choice (name : String) {content : Json} (h : content.Textual) :
    (choice name content).Textual := by
  have hone : ∀ m ∈ [(name, content)], m.2.Textual := by
    intro m hm
    rw [List.mem_singleton.1 hm]
    exact h
  exact .object hone

end Json

namespace Codec

/-! ## 2. Faithful codecs -/

/-- The codec writes values that are made of texts, and decodes what it encodes. -/
structure Faithful {α : Type} (c : Codec α) : Prop where
  textual : ∀ a, (c.encode a).Textual
  decodes : ∀ a, c.decode? (c.encode a) = some a

section

variable {α : Type} {c : Codec α}

theorem faithful_string : string.Faithful :=
  ⟨.text, fun _ => rfl⟩

theorem faithful_record : record.Faithful := by
  refine ⟨fun r => Json.textual_fields r.key r.value, ?_⟩
  intro r
  rfl

theorem faithful_taskError : taskError.Faithful := by
  constructor
  · intro e
    cases e with
    | unknownFunction name => exact Json.textual_choice _ (.text name)
    | unreadable path reason => exact Json.textual_choice _ (Json.textual_fields path reason)
  · intro e
    cases e with
    | unknownFunction name => rfl
    | unreadable path reason =>
      rfl

theorem Faithful.list (h : c.Faithful) : (list c).Faithful := by
  constructor
  · intro xs
    refine .array ?_
    intro j hj
    obtain ⟨a, _, rfl⟩ := List.mem_map.1 hj
    exact h.textual a
  · intro xs
    show (xs.map c.encode).mapM c.decode? = some xs
    induction xs with
    | nil => rfl
    | cons a xs ih =>
      rw [List.map_cons, List.mapM_cons, h.decodes, ih]
      rfl

theorem Faithful.reply (h : c.Faithful) : (reply c).Faithful := by
  constructor
  · intro found
    cases found with
    | ok a => exact Json.textual_choice _ (h.textual a)
    | error e => exact Json.textual_choice _ (faithful_taskError.textual e)
  · intro found
    cases found with
    | ok a =>
      show (c.decode? (c.encode a)).map _ = _
      rw [h.decodes]
      rfl
    | error e =>
      show (taskError.decode? (taskError.encode e)).map _ = _
      rw [faithful_taskError.decodes]
      rfl

/-! ## 3. Round trips -/

/-- What is written for a value is read as that value, and is written for no other one. -/
structure RoundTrips (c : Codec α) : Prop where
  reads : ∀ a, c.read? (c.write a) = some a
  injective : Function.Injective c.write

theorem Faithful.roundTrips (h : c.Faithful) : c.RoundTrips := by
  have hreads : ∀ a, c.read? (c.write a) = some a := by
    intro a
    unfold read? write
    rw [String.toList_ofList, Json.parse?_render (h.textual a)]
    exact h.decodes a
  refine ⟨hreads, ?_⟩
  intro a b hab
  have hread := hreads a
  rw [hab, hreads b] at hread
  exact (Option.some.inj hread).symm

end

/-- Records, lists of records, errors of tasks, and both kinds of reply are read as they were written. -/
theorem messages_round_trip :
    record.RoundTrips ∧ records.RoundTrips ∧ taskError.RoundTrips ∧ mapReply.RoundTrips ∧
      reduceReply.RoundTrips :=
  ⟨faithful_record.roundTrips, faithful_record.list.roundTrips, faithful_taskError.roundTrips,
    faithful_record.list.reply.roundTrips, faithful_string.reply.roundTrips⟩

end Codec
end Foreman.Wire
