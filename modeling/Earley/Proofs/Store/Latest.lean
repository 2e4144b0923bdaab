import Earley.Proofs.Instant.Order
import Earley.Proofs.Store.Live

namespace Earley

namespace Store

/-- The sources in the order of a listing. -/
def listed (live : List Source) : List Source :=
  live.mergeSort fun a b => notAfter a.record b.record

/-- Of the sources with a name, the one that came last. -/
def Newest (name : String) (live : List Source) (source : Source) : Prop :=
  ∃ before after, live = before ++ source :: after ∧ source.name = name ∧
    ∀ other ∈ after, other.name ≠ name

/-- Of the sources with a name, the first of those with the latest time. -/
def Foremost (name : String) (live : List Source) (source : Source) : Prop :=
  ∃ before after, live = before ++ source :: after ∧ source.name = name ∧
    (∀ other ∈ before, other.name = name → other.createdAt < source.createdAt) ∧
    ∀ other ∈ after, other.name = name → other.createdAt = source.createdAt

variable {s : Store} {db : Database} {live : List Source} {name : String} {source : Source}

private theorem notAfter_record (a b : Source) :
    notAfter a.record b.record = true ↔ b.createdAt ≤ a.createdAt := by
  rw [notAfter, Bool.not_eq_true', decide_eq_false_iff_not]
  exact String.not_lt

private theorem notAfter_trans (a b c : Source) (hab : notAfter a.record b.record = true)
    (hbc : notAfter b.record c.record = true) : notAfter a.record c.record = true := by
  rw [notAfter_record] at hab hbc ⊢
  exact String.le_trans hbc hab

private theorem notAfter_total (a b : Source) :
    (notAfter a.record b.record || notAfter b.record a.record) = true := by
  rw [Bool.or_eq_true, notAfter_record, notAfter_record]
  exact String.le_total _ _

private theorem mem_listed : source ∈ listed live ↔ source ∈ live := List.mem_mergeSort

private theorem pairwise_listed (live : List Source) :
    (listed live).Pairwise fun a b => b.createdAt ≤ a.createdAt :=
  (List.pairwise_mergeSort notAfter_trans notAfter_total live).imp (notAfter_record _ _).1

private theorem Holds.list_eq (h : s.Holds live db) : s.list db = .ok ((listed live).map Source.record) := by
  have hmap : (listed live).map Source.record = (live.map Source.record).mergeSort notAfter :=
    List.map_mergeSort fun _ _ _ _ => rfl
  rw [h.list, hmap]

/-- Of times that are all different the listing is in reverse order. -/
theorem listed_eq_reverse (h : live.Pairwise fun a b => a.createdAt < b.createdAt) :
    listed live = live.reverse := by
  have htimes : (live.map Source.createdAt).Nodup := by
    refine List.pairwise_map.2 (h.imp ?_)
    rintro a b hlt heq
    exact String.lt_irrefl _ (heq ▸ hlt)
  refine List.Perm.eq_of_pairwise (fun a b ha hb hba hab => ?_) (pairwise_listed live) ?_ ?_
  · exact List.inj_on_of_nodup_map htimes (mem_listed.1 ha) (List.mem_reverse.1 hb)
      (String.le_antisymm hab hba)
  · exact List.pairwise_reverse.2 (h.imp fun hlt => String.not_lt.1 (String.lt_asymm hlt))
  · exact (List.mergeSort_perm _ _).trans live.reverse_perm.symm

/-- A source that is not later than others stands behind those that are later, and before those of its own
time. -/
theorem listed_cons (h : ∀ other ∈ live, source.createdAt ≤ other.createdAt) :
    ∃ front back, listed (source :: live) = front ++ source :: back ∧ listed live = front ++ back ∧
      (∀ other ∈ front, source.createdAt < other.createdAt) ∧
      ∀ other ∈ back, other.createdAt = source.createdAt := by
  obtain ⟨front, back, hlisted, hothers, hfront⟩ :=
    List.mergeSort_cons notAfter_trans notAfter_total source live
  refine ⟨front, back, hlisted, hothers, fun other hother => ?_, fun other hother => ?_⟩
  · have hlater := hfront other hother
    rwa [Bool.not_eq_true', ← Bool.not_eq_true, notAfter_record, String.not_le] at hlater
  · have hsorted := pairwise_listed (source :: live)
    rw [listed, hlisted] at hsorted
    have hle := (List.pairwise_cons.1 (List.pairwise_append.1 hsorted).2.1).1 other hother
    have hmem : other ∈ listed live := by
      rw [listed, hothers]
      exact List.mem_append_right _ hother
    exact String.le_antisymm hle (h other (mem_listed.1 hmem))

private theorem find?_listed_eq_none :
    (listed live).find? (·.name == name) = none ↔ ∀ source ∈ live, source.name ≠ name := by
  simp [List.find?_eq_none, mem_listed]

/-- What a listing has first under a name is the first of the latest time. -/
theorem foremost_of_find? (hclock : live.Pairwise fun a b => a.createdAt ≤ b.createdAt)
    (h : (listed live).find? (·.name == name) = some source) : Foremost name live source := by
  -- the first source to come is put into the listing of the others
  induction live with
  | nil => exact absurd h (by simp [listed])
  | cons first rest ih =>
    obtain ⟨hfirst, hrest⟩ := List.pairwise_cons.1 hclock
    obtain ⟨front, back, hlisted, hothers, hfront, hback⟩ := listed_cons hfirst
    rw [hlisted, List.find?_append] at h
    rw [hothers, List.find?_append] at ih
    cases hfind : front.find? (·.name == name) with
    | some found =>
      rw [hfind] at h ih
      obtain ⟨before, after, rfl, hname, hbefore, hafter⟩ := ih hrest h
      refine ⟨first :: before, after, rfl, hname, List.forall_mem_cons.2 ⟨fun _ => ?_, hbefore⟩, hafter⟩
      obtain rfl : found = source := Option.some.inj h
      exact hfront _ (List.mem_of_find?_eq_some hfind)
    | none =>
      rw [hfind, Option.none_or] at h ih
      by_cases hname : first.name = name
      · rw [List.find?_cons, beq_iff_eq.2 hname] at h
        obtain rfl := Option.some.inj h
        refine ⟨[], rest, rfl, hname, List.forall_mem_nil _, fun other hother hsame => ?_⟩
        have hmem : other ∈ front ++ back := hothers ▸ mem_listed.2 hother
        refine hback other ((List.mem_append.1 hmem).resolve_left fun hin => ?_)
        exact List.find?_eq_none.1 hfind other hin (beq_iff_eq.2 hsame)
      · rw [List.find?_cons_of_neg (by simpa using hname)] at h
        obtain ⟨before, after, rfl, hsame, hbefore, hafter⟩ := ih hrest h
        exact ⟨first :: before, after, rfl, hsame,
          List.forall_mem_cons.2 ⟨fun hfirst => absurd hfirst hname, hbefore⟩, hafter⟩

/-- There is one foremost source of a name at most. -/
theorem Foremost.unique {other : Source} (h : Foremost name live source) (h' : Foremost name live other) :
    source = other := by
  obtain ⟨before, after, rfl, hname, hbefore, hafter⟩ := h
  obtain ⟨before', after', heq, hname', hbefore', hafter'⟩ := h'
  rcases List.append_eq_append_iff.1 heq with ⟨between, rfl, hrest⟩ | ⟨between, rfl, hrest⟩
  · cases between with
    | nil => exact (List.cons.inj hrest).1
    | cons first more =>
      obtain ⟨rfl, rfl⟩ := List.cons.inj hrest
      have hlt := hbefore' source (by simp) hname
      rw [hafter other (by simp) hname'] at hlt
      exact (String.lt_irrefl _ hlt).elim
  · cases between with
    | nil => exact (List.cons.inj hrest).1.symm
    | cons first more =>
      obtain ⟨rfl, rfl⟩ := List.cons.inj hrest
      have hlt := hbefore other (by simp) hname'
      rw [hafter' source (by simp) hname] at hlt
      exact (String.lt_irrefl _ hlt).elim

private theorem find?_listed_eq_some (hclock : live.Pairwise fun a b => a.createdAt ≤ b.createdAt) :
    (listed live).find? (·.name == name) = some source ↔ Foremost name live source := by
  refine ⟨foremost_of_find? hclock, fun h => ?_⟩
  cases hfind : (listed live).find? (·.name == name) with
  | none =>
    obtain ⟨before, after, rfl, hname, -⟩ := h
    exact absurd hname (find?_listed_eq_none.1 hfind source (by simp))
  | some found => rw [(foremost_of_find? hclock hfind).unique h]

/-- The source that came last is the first of the latest time if it alone of its name has that time. -/
theorem Newest.foremost_iff (h : Newest name live source) (hnodup : live.Nodup)
    (hclock : live.Pairwise fun a b => a.createdAt ≤ b.createdAt) : Foremost name live source ↔
      ∀ other ∈ live, other.name = name → other.createdAt = source.createdAt → other = source := by
  obtain ⟨before, after, rfl, hname, hafter⟩ := h
  have hbefore : source ∉ before := fun hmem =>
    (List.nodup_append.1 hnodup).2.2 source hmem source List.mem_cons_self rfl
  have hbehind : source ∉ after := fun hmem => hafter source hmem hname
  constructor
  · rintro ⟨before', after', heq, -, hearlier, -⟩ other hother hsame htime
    obtain ⟨rfl, -, rfl⟩ := (List.append_cons_inj_of_notMem hbefore hbehind).1 heq
    rcases List.mem_append.1 hother with hin | hin
    · have hlt := hearlier other hin hsame
      rw [htime] at hlt
      exact (String.lt_irrefl _ hlt).elim
    · exact (List.mem_cons.1 hin).resolve_right fun hin => hafter other hin hsame
  · intro halone
    refine ⟨before, after, rfl, hname, fun other hother hsame => ?_, fun other hother hsame =>
      absurd hsame (hafter other hother)⟩
    have hle := (List.pairwise_append.1 hclock).2.2 other hother source List.mem_cons_self
    refine Decidable.byContradiction fun hnot => hbefore ?_
    have hsource := halone other (List.mem_append_left _ hother) hsame
      (String.le_antisymm hle (String.not_lt.1 hnot))
    rwa [← hsource]

/-- The time that an operation reads from the clock; only to take a source in asks for one. -/
def time? (s : Store) : Operation → Option Instant
  | .create name dsl supply => (s.taken? name dsl supply).map fun _ => supply.next.1.2
  | _ => none

/-- The times that operations read from the clock. -/
def times (s : Store) (operations : List Operation) : List Instant := operations.filterMap s.time?

private theorem createdAt_source? (s : Store) (operation : Operation) :
    (s.source? operation).map Source.createdAt = (s.time? operation).map Instant.text := by
  cases operation with
  | create name dsl supply =>
    rw [source?, time?, taken?]
    cases s.check dsl <;> rfl
  | get | find | list | delete | clear | load => rfl

private theorem sublist_foldl (s : Store) (live : List Source) (operations : List Operation) :
    (operations.foldl s.liveAfter live).Sublist (live ++ operations.filterMap s.source?) := by
  induction operations generalizing live with
  | nil => exact List.sublist_append_left _ _
  | cons operation rest ih =>
    rw [filterMap_cons_append, ← List.append_assoc]
    exact (ih _).trans ((s.sublist_liveAfter live operation).append_right _)

/-- Live sources have times from the clock, in the order in which they were read. -/
theorem createdAt_live (s : Store) (operations : List Operation) :
    ((s.live operations).map Source.createdAt).Sublist ((s.times operations).map Instant.text) := by
  have hsources := (s.sublist_foldl [] operations).map Source.createdAt
  rw [List.nil_append, List.map_filterMap, funext s.createdAt_source?] at hsources
  rwa [times, List.map_filterMap]

/-- Live sources are in an order that the clock and the texts of its times keep. -/
theorem pairwise_live {earlier : Instant → Instant → Prop} {before : String → String → Prop}
    {operations : List Operation} (hclock : (s.times operations).Pairwise earlier)
    (htext : ∀ t ∈ s.times operations, ∀ u ∈ s.times operations, earlier t u → before t.text u.text) :
    (s.live operations).Pairwise fun a b => before a.createdAt b.createdAt := by
  have htimes : ((s.times operations).map Instant.text).Pairwise before :=
    List.pairwise_map.2 (hclock.imp_of_mem fun ht hu h => htext _ ht _ hu h)
  exact List.pairwise_map.1 (htimes.sublist (s.createdAt_live operations))

private theorem Holds.find_eq (h : s.Holds live db) (hname : name ∉ live.map Source.id) :
    s.find name db = .ok (((listed live).find? (·.name == name)).map Source.record) := by
  have hnone : live.find? (·.id == name) = none := by
    rw [← Option.not_isSome_iff_eq_none, Holds.find?_isSome]
    exact hname
  rw [find, h.get, hnone, h.list_eq]
  have hfind : ((listed live).map Source.record).find? (·.isNamed name) =
      ((listed live).find? (·.name == name)).map Source.record := by
    rw [List.find?_map]
    rfl
  exact congrArg Except.ok hfind

/-- Operations that give out no identifier twice, with a clock that goes by universal time. Their texts can
be written down, and only a realm that stands for itself in a pattern is cleared. -/
structure Orderly (s : Store) (operations : List Operation) : Prop where
  realm : .clear ∈ operations → s.realm.toList.all Glob.isLiteral = true
  writable : ∀ operation ∈ operations, operation.Writable
  distinct : (s.givenOut operations).Nodup
  utc : ∀ t ∈ s.times operations, t.Utc

/-- Orderly operations leave exactly the live sources in the database. -/
theorem Orderly.holds {operations : List Operation} (h : s.Orderly operations) :
    s.Holds (s.live operations) (s.after .empty operations) :=
  holds_after h.realm h.writable h.distinct

/-- Where each reading of the clock is later than the one before, the live sources are listed in reverse
order of creation: the texts of times in universal time are in the order of the times. -/
theorem list_newest_first {operations : List Operation} (h : s.Orderly operations)
    (hclock : (s.times operations).Pairwise fun t u => t.elapsed < u.elapsed) :
    s.list (s.after .empty operations) = .ok ((s.live operations).reverse.map Source.record) ∧
      ∀ t u : Instant, t.Utc → u.Utc → (t.text < u.text ↔ t.elapsed < u.elapsed) := by
  have hlive : (s.live operations).Pairwise fun a b => a.createdAt < b.createdAt :=
    pairwise_live hclock fun t ht u hu => ((h.utc t ht).text_lt_iff (h.utc u hu)).2
  refine ⟨?_, fun t u ht hu => ht.text_lt_iff hu⟩
  rw [h.holds.list_eq, listed_eq_reverse hlive]

/-- A supply that has handed out some identifiers, with a clock that shows a given time. -/
def supplyAt (made : Nat) (time : Instant) : Supply := ⟨⟨[], made⟩, ⟨[time], 0⟩⟩

/-- Grammars within two seconds at the turn of a year, one of them forgotten. -/
def turnOfYear : List Operation :=
  [.create "g" "S -> N" (supplyAt 0 ⟨2023, 12, 31, 23, 59, 59, 999999, some 0⟩),
    .create "h" "S -> V" (supplyAt 1 ⟨2024, 1, 1, 0, 0, 0, 0, some 0⟩),
    .create "g" "S -> V" (supplyAt 2 ⟨2024, 1, 1, 0, 0, 0, 1, some 0⟩), .delete "000000000002",
    .create "h" "S -> N V" (supplyAt 3 ⟨2024, 1, 1, 0, 0, 1, 0, some 0⟩)]

/-- Sources around the end of a year, before, at and behind a whole second, one of them forgotten again. -/
theorem list_newest_first_turnOfYear :
    (Store.mk .grammar "p").Orderly turnOfYear ∧
    ((Store.mk .grammar "p").times turnOfYear).Pairwise (fun t u => t.elapsed < u.elapsed) ∧
    (Store.mk .grammar "p").list ((Store.mk .grammar "p").after .empty turnOfYear) =
      .ok (((Store.mk .grammar "p").live turnOfYear).reverse.map Source.record) := by
  have h : (Store.mk .grammar "p").Orderly turnOfYear :=
    ⟨by decide, by decide +kernel, by decide +kernel, by decide +kernel⟩
  have hclock : ((Store.mk .grammar "p").times turnOfYear).Pairwise (fun t u => t.elapsed < u.elapsed) := by
    decide +kernel
  exact ⟨h, hclock, (list_newest_first h hclock).1⟩

/-- Where no reading of the clock is earlier than the one before, a name that is no identifier finds, of the
live sources that have it, the first of those with the latest time, and nothing just if none has it. So it
finds the one that came last just if no other source of that name has the same time. -/
theorem find_foremost {operations : List Operation} (h : s.Orderly operations)
    (hclock : (s.times operations).Pairwise fun t u => t.elapsed ≤ u.elapsed)
    (hname : name ∉ (s.live operations).map Source.id) :
    ∃ found : Option Source, s.find name (s.after .empty operations) = .ok (found.map Source.record) ∧
      (found = none ↔ ∀ source ∈ s.live operations, source.name ≠ name) ∧
      (∀ source, found = some source ↔ Foremost name (s.live operations) source) ∧
      ∀ source, Newest name (s.live operations) source → (found = some source ↔
        ∀ other ∈ s.live operations, other.name = name → other.createdAt = source.createdAt →
          other = source) := by
  have hlive : (s.live operations).Pairwise fun a b => a.createdAt ≤ b.createdAt :=
    pairwise_live hclock fun t ht u hu => ((h.utc t ht).text_le_iff (h.utc u hu)).2
  have hforemost (source : Source) : (listed (s.live operations)).find? (·.name == name) = some source ↔
      Foremost name (s.live operations) source := find?_listed_eq_some hlive
  refine ⟨_, h.holds.find_eq hname, find?_listed_eq_none, hforemost, fun source hnewest => ?_⟩
  rw [hforemost, hnewest.foremost_iff (.of_map _ h.holds.distinct) hlive]

/-- Two of three grammars of one name have the same time, and the third is forgotten. -/
def crowded : List Operation :=
  [.create "g" "S -> N" (supplyAt 0 ⟨2023, 12, 31, 23, 59, 59, 999999, some 0⟩),
    .create "g" "S -> V" (supplyAt 1 ⟨2024, 1, 1, 0, 0, 0, 0, some 0⟩),
    .create "h" "S -> N" (supplyAt 2 ⟨2024, 1, 1, 0, 0, 0, 0, some 0⟩),
    .create "g" "S -> N V" (supplyAt 3 ⟨2024, 1, 1, 0, 0, 0, 0, some 0⟩), .delete "000000000001"]

/-- Two sources of one name that were created at the same time, and an older one that is forgotten. -/
theorem find_foremost_crowded :
    (Store.mk .grammar "p").Orderly crowded ∧
    ((Store.mk .grammar "p").times crowded).Pairwise (fun t u => t.elapsed ≤ u.elapsed) ∧
    "g" ∉ ((Store.mk .grammar "p").live crowded).map Source.id ∧
    ∃ found : Option Source,
      (Store.mk .grammar "p").find "g" ((Store.mk .grammar "p").after .empty crowded) =
        .ok (found.map Source.record) ∧
      ∀ source, found = some source ↔ Foremost "g" ((Store.mk .grammar "p").live crowded) source := by
  have h : (Store.mk .grammar "p").Orderly crowded :=
    ⟨by decide, by decide +kernel, by decide +kernel, by decide +kernel⟩
  have hclock : ((Store.mk .grammar "p").times crowded).Pairwise (fun t u => t.elapsed ≤ u.elapsed) := by
    decide +kernel
  have hname : "g" ∉ ((Store.mk .grammar "p").live crowded).map Source.id := by decide +kernel
  obtain ⟨found, hfind, -, hforemost, -⟩ := find_foremost h hclock hname
  exact ⟨h, hclock, hname, found, hfind, hforemost⟩

/-- Two grammars of one name, taken in at one time. -/
def simultaneous : List Operation :=
  [.create "g" "S -> N" (supplyAt 0 ⟨2024, 1, 1, 0, 0, 1, 0, some 0⟩),
    .create "g" "S -> V" (supplyAt 1 ⟨2024, 1, 1, 0, 0, 1, 0, some 0⟩)]

/-- What is taken in then, under an identifier. -/
def takenThen (id dsl : String) : Source := ⟨id, "g", "grammar", dsl, "2024-01-01T00:00:01+00:00", 1⟩

/-- Of two sources with one name and one time, the older is found. -/
theorem find_older_of_simultaneous :
    (Store.mk .grammar "buffalo").Orderly simultaneous ∧
    ((Store.mk .grammar "buffalo").times simultaneous).Pairwise (fun t u => t.elapsed ≤ u.elapsed) ∧
    "g" ∉ ((Store.mk .grammar "buffalo").live simultaneous).map Source.id ∧
    Newest "g" ((Store.mk .grammar "buffalo").live simultaneous) (takenThen "000000000002" "S -> V") ∧
    (Store.mk .grammar "buffalo").find "g" ((Store.mk .grammar "buffalo").after .empty simultaneous) =
      .ok (some (takenThen "000000000001" "S -> N").record) := by
  have h : (Store.mk .grammar "buffalo").Orderly simultaneous :=
    ⟨by decide, by decide +kernel, by decide +kernel, by decide +kernel⟩
  have hlive : (Store.mk .grammar "buffalo").live simultaneous =
      [takenThen "000000000001" "S -> N", takenThen "000000000002" "S -> V"] := by
    decide +kernel
  have hname : "g" ∉ ((Store.mk .grammar "buffalo").live simultaneous).map Source.id := by
    rw [hlive]
    decide
  have hfind : (listed [takenThen "000000000001" "S -> N", takenThen "000000000002" "S -> V"]).find?
      (·.name == "g") = some (takenThen "000000000001" "S -> N") := by
    refine (find?_listed_eq_some ?_).2 ⟨[], _, rfl, rfl, by simp, by simp [takenThen]⟩
    simp [takenThen]
  refine ⟨h, by decide +kernel, hname, ⟨[_], [], hlive, rfl, by simp⟩, ?_⟩
  rw [h.holds.find_eq hname, hlive, hfind]
  rfl

end Store

end Earley
