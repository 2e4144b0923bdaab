import Earley.Proofs.Json.Ascii
import Earley.Proofs.Store.Record

namespace Earley

open Earley.Decimal

namespace Record

private theorem ascii_text (r : Record) : ∀ c ∈ r.text.toList, c.toNat < 0x80 := by
  intro c hc
  rw [text, Json.toLine, String.toList_ofList] at hc
  have hprint : c.toNat < 0x7F := (Json.allInPrint_lineChars r.toJson c hc).2
  omega

/-- A record is not read back if its count is too long. -/
theorem ofText?_text_long {s : Source} (h : maxIntDigits < (numeral s.size.natAbs).length) :
    ∃ fault, ofText? s.record.text = .error fault := by
  have hread : ∃ fault, Json.read s.record.text.toList = .error fault := by
    rw [text, Json.toLine, String.toList_ofList]
    refine Json.read_lineChars_long ?_ ⟨("size", .int s.size), by simp [Source.record, ofTexts], ?_⟩
    · simp only [List.forall_mem_cons]
      exact ⟨.text (.whole _), .text (.whole _), .text (.whole _), .text (.whole _), .text (.whole _), .int _,
        List.forall_mem_nil _⟩
    · rintro (_ | _ | hshort)
      exact Nat.not_le.2 h hshort
  obtain ⟨fault, hread⟩ := hread
  exact ⟨_, by rw [ofText?_eq, hread]⟩

end Record

namespace Source

private theorem record_injective {s t : Source} (h : s.record = t.record) : s = t := by
  obtain ⟨id, name, kind, dsl, createdAt, size⟩ := s
  obtain ⟨id', name', kind', dsl', createdAt', size'⟩ := t
  simpa [record, Record.ofTexts, Json.ofText] using h

private theorem encode_eq_ok_iff {s : Source} {text : String} :
    s.encode = .ok text ↔ (numeral s.size.natAbs).length ≤ maxIntDigits ∧ text = s.record.text := by
  rw [encode, eq_comm (a := text)]
  split
  · next hlong => simp [Nat.not_le.2 hlong]
  · next hshort => simp [Nat.not_lt.1 hshort]

/-- A source is encoded unless its count has too many digits. The text is ASCII, and the source, with
its texts character by character, is the only one that the text is decoded to. -/
theorem encode_decode (s : Source) :
    ((∃ text, s.encode = .ok text) ↔ s.size.natAbs < 10 ^ maxIntDigits) ∧
    ∀ text, s.encode = .ok text →
      (∀ c ∈ text.toList, c.toNat < 0x80) ∧
      ∀ t : Source, Record.ofText? text = .ok t.record ↔ t = s := by
  have hdigits : (numeral s.size.natAbs).length ≤ maxIntDigits ↔ s.size.natAbs < 10 ^ maxIntDigits :=
    length_numeral_le_iff (by decide)
  refine ⟨?_, fun text htext => ?_⟩
  · rw [← hdigits]
    constructor
    · rintro ⟨text, htext⟩
      exact (encode_eq_ok_iff.1 htext).1
    · exact fun hshort => ⟨_, encode_eq_ok_iff.2 ⟨hshort, rfl⟩⟩
  · obtain ⟨hshort, rfl⟩ := encode_eq_ok_iff.1 htext
    refine ⟨s.record.ascii_text, fun t => ?_⟩
    rw [Record.ofText?_text hshort]
    constructor
    · exact fun h => (record_injective (Except.ok.inj h)).symm
    · rintro rfl
      rfl

private theorem lt_length_numeral_pow {k : Nat} (hk : 0 < k) :
    k < (numeral (10 ^ k : Int).natAbs).length := by
  rw [← Nat.not_le, length_numeral_le_iff hk, Int.natAbs_pow]
  exact Nat.lt_irrefl _

/-- A count of one digit too many is neither encoded nor decoded. -/
theorem encode_long_size :
    let s : Source := ⟨"x", "g", "grammar", "S -> N", "2024-01-01T00:00:00+00:00", 10 ^ 4300⟩
    (¬∃ text, s.encode = .ok text ∧ Record.ofText? text = .ok s.record) ∧
      ∃ fault, Record.ofText? s.record.text = .error fault := by
  intro s
  have hlong : maxIntDigits < (numeral s.size.natAbs).length := lt_length_numeral_pow (by decide)
  refine ⟨?_, Record.ofText?_text_long hlong⟩
  rintro ⟨text, htext, -⟩
  exact Nat.not_le.2 hlong (encode_eq_ok_iff.1 htext).1

end Source

end Earley
