import Earley.Proofs.Json.Line
import Earley.Source

namespace Earley

/-- A source whose count can be read. -/
def Source.Countable (s : Source) : Prop :=
  0 ≤ s.size ∧ (Decimal.numeral s.size.natAbs).length ≤ Decimal.maxIntDigits

namespace Record

private theorem exists_toList_text (r : Record) :
    ∃ rest, r.text.toList = '\x7b' :: '"' :: 'i' :: 'd' :: rest := by
  rw [text, toJson, Json.toLine, String.toList_ofList, Json.lineChars]
  exact ⟨_, rfl⟩

/-- No record has an empty text, so that each is told from a record that is not there. -/
theorem text_ne_empty (r : Record) : r.text ≠ "" := by
  obtain ⟨rest, heq⟩ := r.exists_toList_text
  rw [ne_eq, ← String.toList_eq_nil_iff, heq]
  exact List.cons_ne_nil _ _

/-- The bytes of a record are taken for UTF-8. -/
theorem decodeText_text (r : Record) : Json.decodeText r.text.toList = .ok r.text.toList := by
  obtain ⟨rest, heq⟩ := r.exists_toList_text
  rw [heq]
  rfl

/-- A record is found in a text if the text is read as JSON. -/
theorem ofText?_eq (r : Record) : ofText? r.text = match Json.read r.text.toList with
    | .ok j => ofJson? j
    | .error fault => .error (.notJson (String.ofList r.text.toList) fault) := by
  rw [ofText?]
  exact r.decodeText_text ▸ rfl

/-- A record of texts is read back, halves of surrogate pairs among their characters. -/
theorem ofText?_ofTexts (id : String) (name : AnyText) (kind : String) (dsl : AnyText) (createdAt : String)
    {size : Int} (h : (Decimal.numeral size.natAbs).length ≤ Decimal.maxIntDigits) :
    ofText? (ofTexts id name kind dsl createdAt size).text = .ok (ofTexts id name kind dsl createdAt size) := by
  have hread : Json.read (ofTexts id name kind dsl createdAt size).text.toList =
      .ok (ofTexts id name kind dsl createdAt size).toJson := by
    rw [text, Json.toLine, String.toList_ofList, toJson, Json.read_lineChars (List.cons_ne_nil _ _)]
    · rfl
    · simp only [List.forall_mem_cons]
      exact ⟨.string _, .ofText name, .string _, .ofText dsl, .string _, .int h, List.forall_mem_nil _⟩
  rw [ofText?_eq, hread]
  rfl

/-- The record of a source is read back. -/
theorem ofText?_text {s : Source} (h : (Decimal.numeral s.size.natAbs).length ≤ Decimal.maxIntDigits) :
    ofText? s.record.text = .ok s.record :=
  ofText?_ofTexts s.id s.name s.kind s.dsl s.createdAt h

end Record

end Earley
