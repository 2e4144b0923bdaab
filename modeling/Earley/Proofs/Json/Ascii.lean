import Earley.Proofs.Decimal.Notation
import Earley.Proofs.Json.Line

namespace Earley.Json

open Earley.Decimal Earley.Text

/-- A printable ASCII character. -/
def InPrint (c : Char) : Prop := 0x20 ≤ c.toNat ∧ c.toNat < 0x7F

instance (c : Char) : Decidable (InPrint c) := inferInstanceAs (Decidable (_ ∧ _))

/-- A text of printable ASCII characters. -/
def AllInPrint (cs : List Char) : Prop := ∀ c ∈ cs, InPrint c

instance (cs : List Char) : Decidable (AllInPrint cs) := List.decidableBAll InPrint cs

theorem AllInPrint.nil : AllInPrint [] := List.forall_mem_nil _

private theorem allInPrint_cons {c : Char} {cs : List Char} :
    AllInPrint (c :: cs) ↔ InPrint c ∧ AllInPrint cs := List.forall_mem_cons

private theorem allInPrint_append {cs ds : List Char} :
    AllInPrint (cs ++ ds) ↔ AllInPrint cs ∧ AllInPrint ds := List.forall_mem_append

private theorem allInPrint_flatMap {α : Type} {as : List α} {f : α → List Char}
    (h : ∀ a ∈ as, AllInPrint (f a)) :
    AllInPrint (as.flatMap f) := by
  intro c hc
  obtain ⟨a, ha, hc'⟩ := List.mem_flatMap.1 hc
  exact h a ha c hc'

private theorem allInPrint_hex (width n : Nat) : AllInPrint (hex width n) := by
  have hdigit : ∀ d < 16, InPrint (digitChar d) := by decide
  induction width generalizing n with
  | zero => exact .nil
  | succ width ih =>
    rw [hex, allInPrint_append]
    exact ⟨ih _, List.forall_mem_singleton.2 (hdigit _ (Nat.mod_lt _ (by decide)))⟩

private theorem allInPrint_unitEscape (unit : Nat) : AllInPrint (unitEscape unit) := by
  rw [unitEscape, allInPrint_cons, allInPrint_cons]
  exact ⟨by decide, by decide, allInPrint_hex 4 unit⟩

private theorem allInPrint_unicodeEscape (c : Char) : AllInPrint (unicodeEscape c) := by
  rw [unicodeEscape]
  split
  · exact allInPrint_unitEscape _
  · exact allInPrint_append.2 ⟨allInPrint_unitEscape _, allInPrint_unitEscape _⟩

private theorem allInPrint_escape (c : Char) : AllInPrint (escape true c) := by
  by_cases hlettered : c ∈ lettered
  · have hletters : (lettered.all fun c => decide (AllInPrint (escape true c))) = true := by decide
    exact of_decide_eq_true (List.all_eq_true.1 hletters c hlettered)
  · rw [escape_of_not_lettered hlettered]
    split
    · exact allInPrint_unicodeEscape c
    · next hplain =>
      have hbounds : ¬c.toNat < 0x20 ∧ ¬0x7E < c.toNat := by simpa using hplain
      exact List.forall_mem_singleton.2 ⟨by omega, by omega⟩

private theorem allInPrint_quote (s : String) : AllInPrint (quote true s) := by
  rw [quote, allInPrint_append, allInPrint_cons]
  exact ⟨⟨by decide, allInPrint_flatMap fun c _ => allInPrint_escape c⟩, by decide⟩

private theorem allInPrint_quoteCodes (codes : List Nat) : AllInPrint (quoteCodes true codes) := by
  rw [quoteCodes, allInPrint_append, allInPrint_cons]
  refine ⟨⟨by decide, allInPrint_flatMap fun n _ => ?_⟩, by decide⟩
  rw [escapeCode]
  split
  · exact allInPrint_unitEscape n
  · exact allInPrint_escape _

private theorem allInPrint_quoteText (t : AnyText) : AllInPrint (quoteText true t) := by
  cases t with
  | whole s => exact allInPrint_quote s
  | halved h => exact allInPrint_quoteCodes h.codes

private theorem allInPrint_numeral (n : Nat) : AllInPrint (numeral n) := by
  have hdigit : ∀ d < 10, InPrint (digitChar d) := by decide
  intro c hc
  obtain ⟨d, hd, rfl⟩ := mem_numeral hc
  exact hdigit d hd

private theorem allInPrint_integer (n : Int) : AllInPrint (integer n) := by
  rw [integer]
  split
  · exact allInPrint_cons.2 ⟨by decide, allInPrint_numeral _⟩
  · exact allInPrint_numeral _

private theorem allInPrint_floatChars (x : Binary64) : AllInPrint (floatChars x) := by
  have hletters : AllInPrint Weight.letters := by decide
  cases x with
  | finite negative rank =>
    exact fun c hc => hletters c (Weight.toChars_subset_letters (.finite negative rank) hc)
  | infinite negative => cases negative <;> decide
  | nan => decide

private theorem allInPrint_scalarChars (j : Json) : AllInPrint (scalarChars true j) := by
  cases j with
  | null => decide
  | array _ | object _ | halvedObject _ => exact (by decide : AllInPrint "null".toList)
  | bool b => cases b <;> decide
  | int n => exact allInPrint_integer n
  | float x => exact allInPrint_floatChars x
  | string s => exact allInPrint_quote s
  | halved h => exact allInPrint_quoteCodes h.codes

mutual

/-- The line of a value is printable ASCII. -/
theorem allInPrint_lineChars : (j : Json) → AllInPrint (lineChars true j)
  | .null | .bool _ | .int _ | .float _ | .string _ | .halved _ => by
    rw [lineChars]
    · exact allInPrint_scalarChars _
    all_goals simp
  | .array [] | .object [] | .halvedObject [] => by
    rw [lineChars]
    decide
  | .array (x :: xs) => by
    rw [lineChars, allInPrint_append, allInPrint_append, allInPrint_cons]
    exact ⟨⟨⟨by decide, allInPrint_lineChars x⟩, allInPrint_lineElements xs⟩, by decide⟩
  | .object ((name, x) :: rest) => by
    have hcolon : InPrint ':' ∧ InPrint ' ' := by decide
    simp only [lineChars, allInPrint_append, allInPrint_cons, hcolon, allInPrint_quote, true_and]
    exact ⟨⟨⟨by decide, allInPrint_lineChars x⟩, allInPrint_lineMembers rest⟩, by decide⟩
  | .halvedObject ((name, x) :: rest) => by
    have hcolon : InPrint ':' ∧ InPrint ' ' := by decide
    simp only [lineChars, allInPrint_append, allInPrint_cons, hcolon, allInPrint_quoteText, true_and]
    exact ⟨⟨⟨by decide, allInPrint_lineChars x⟩, allInPrint_lineHalved rest⟩, by decide⟩

private theorem allInPrint_lineElements : (xs : List Json) → AllInPrint (lineElements true xs)
  | [] => .nil
  | x :: rest => by
    rw [lineElements, allInPrint_append, allInPrint_cons, allInPrint_cons]
    exact ⟨⟨by decide, by decide, allInPrint_lineChars x⟩, allInPrint_lineElements rest⟩

private theorem allInPrint_lineMembers :
    (members : List (String × Json)) → AllInPrint (lineMembers true members)
  | [] => .nil
  | (name, x) :: rest => by
    have hmarks : InPrint ',' ∧ InPrint ':' ∧ InPrint ' ' := by decide
    simp only [lineMembers, allInPrint_append, allInPrint_cons, hmarks, allInPrint_quote, true_and]
    exact ⟨allInPrint_lineChars x, allInPrint_lineMembers rest⟩

private theorem allInPrint_lineHalved :
    (members : List (AnyText × Json)) → AllInPrint (lineHalved true members)
  | [] => .nil
  | (name, x) :: rest => by
    have hmarks : InPrint ',' ∧ InPrint ':' ∧ InPrint ' ' := by decide
    simp only [lineHalved, allInPrint_append, allInPrint_cons, hmarks, allInPrint_quoteText, true_and]
    exact ⟨allInPrint_lineChars x, allInPrint_lineHalved rest⟩

end

end Earley.Json
