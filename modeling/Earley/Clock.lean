import Earley.Instant

namespace Earley

/-- A clock that shows the given times first; its later readings count seconds. -/
structure Clock where
  given : List Instant := []
  readings : Nat := 0
deriving DecidableEq, Repr

/-- Reads the clock. -/
def Clock.read (clock : Clock) : Instant × Clock :=
  let n := clock.readings + 1
  match clock.given with
  | [] => (Instant.sinceStart n, { clock with readings := n })
  | t :: rest => (t, ⟨rest, n⟩)

/-- A supply of identifiers that hands out the given ones first; its later ones count. -/
structure IdSupply where
  given : List String := []
  made : Nat := 0
deriving DecidableEq, Repr

/-- The length of an identifier. -/
def IdSupply.length : Nat := 12

/-- Takes the next identifier. -/
def IdSupply.next (ids : IdSupply) : String × IdSupply :=
  let n := ids.made + 1
  match ids.given with
  | [] => (String.ofList (Decimal.hex IdSupply.length n), { ids with made := n })
  | id :: rest => (String.ofList (id.toList.take IdSupply.length), ⟨rest, n⟩)

/-- Where new sources get their identifiers and times. -/
structure Supply where
  ids : IdSupply := {}
  clock : Clock := {}
deriving DecidableEq, Repr

/-- Takes an identifier, and then the time. -/
def Supply.next (supply : Supply) : (String × Instant) × Supply :=
  let (id, ids) := supply.ids.next
  let (time, clock) := supply.clock.read
  ((id, time), ⟨ids, clock⟩)

end Earley
