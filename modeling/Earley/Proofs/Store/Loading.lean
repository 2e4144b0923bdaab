import Earley.Proofs.Store.Live

namespace Earley

namespace Store

variable {s : Store} {db : Database} {live : List Source} {source : Source}

private theorem save_eq_ok {name dsl id : String} {size : Nat} {time : Instant}
    (h : (s.save name dsl size id time db).1 = .ok source) :
    source = ⟨id, name, s.kind.name, dsl, time.text, size⟩ := by
  rw [save] at h
  cases hkeep : (s.keep id (Source.record ⟨id, name, s.kind.name, dsl, time.text, size⟩) db).1 with
  | error fault => simp [hkeep, Except.map] at h
  | ok done => simpa [hkeep, Except.map, eq_comm] using h

/-- A creation that tells an identifier has taken a source in under it. -/
theorem taken?_of_create {name dsl id : String} {supply : Supply}
    (h : (s.create name dsl db supply).1 = .ok id) :
    ∃ size, s.check dsl = .ok size ∧ s.taken? name dsl supply =
      some ⟨id, name, s.kind.name, dsl, supply.next.1.2.text, size⟩ := by
  cases hcheck : s.check dsl with
  | error refusal => rw [create, hcheck] at h; cases h
  | ok size =>
    rw [create, hcheck] at h
    dsimp only at h
    cases hsave : (s.save name dsl size supply.next.1.1 supply.next.1.2 db).1 with
    | error fault => rw [hsave] at h; cases h
    | ok source =>
      rw [hsave, save_eq_ok hsave] at h
      cases h
      exact ⟨size, rfl, by rw [taken?, hcheck]⟩

private theorem mem_liveAfter {operation : Operation} (h : source ∈ live)
    (hdelete : operation ≠ .delete source.id) (hclear : operation ≠ .clear) :
    source ∈ s.liveAfter live operation := by
  cases operation with
  | create name dsl supply => exact List.mem_append_left _ h
  | delete id =>
    refine List.mem_filter.2 ⟨h, bne_iff_ne.2 fun heq => hdelete ?_⟩
    rw [heq]
  | clear => exact absurd rfl hclear
  | get | find | list | load => exact h

private theorem mem_foldl_liveAfter {operations : List Operation} (h : source ∈ live)
    (hstays : ∀ operation ∈ operations, operation ≠ .delete source.id ∧ operation ≠ .clear) :
    source ∈ operations.foldl s.liveAfter live := by
  induction operations generalizing live with
  | nil => exact h
  | cons operation rest ih =>
    obtain ⟨hfirst, hrest⟩ := List.forall_mem_cons.1 hstays
    exact ih (mem_liveAfter h hfirst.1 hfirst.2) hrest

namespace Holds

/-- The text under an identifier is the text that was given, whatever sources have it as their name. -/
theorem findText (h : s.Holds live db) (hsource : source ∈ live) :
    s.findText source.id db = .ok (some source.dsl) := by
  rw [Store.findText, find, h.get_of_mem hsource]
  rfl

/-- What is loaded under an identifier is what the text that was given is read as. -/
theorem loadAs {α β : Type} {read : AnyText → Except β α} {value : α} (h : s.Holds live db)
    (hsource : source ∈ live) (hread : read source.dsl = .ok value) (fault : β → LoadFault) :
    s.loadAs read fault source.id db = .ok (some value) := by
  rw [Store.loadAs, h.findText hsource]
  dsimp only
  rw [hread]
  rfl

end Holds

namespace Call

/-- Calls to the stores of a realm, none of them bare, that give out no identifier of a store twice. -/
structure Regular (realm : String) (calls : List Call) : Prop where
  stores : ∀ c ∈ calls, c.kind ≠ .bare
  writable : ∀ c ∈ calls, c.operation.Writable
  distinct : ∀ kind, ((Store.mk kind realm).givenOut (operationsOf kind calls)).Nodup

/-- Calls keep a text: from an empty database on, one of them created it and told its identifier, and no
later call to that store was to forget it. -/
def Keeps (realm : String) (calls : List Call) (kind : SourceKind) (name dsl id : String) (time : Instant) :
    Prop :=
  ∃ before supply later, calls = before ++ ⟨kind, .create name dsl supply⟩ :: later ∧
    supply.next.1.2 = time ∧
    (perform realm (after realm .empty before) ⟨kind, .create name dsl supply⟩).1 = .created (.ok id) ∧
    ∀ c ∈ later, c.kind = kind → c.operation ≠ .delete id ∧ c.operation ≠ .clear

variable {realm : String} {calls : List Call} {kind : SourceKind} {name dsl id : String} {time : Instant}

/-- Each store has its live sources, whatever the others do. -/
theorem Regular.holds (h : Regular realm calls) (hrealm : realm.toList.all Glob.isLiteral = true)
    (kind : SourceKind) : (Store.mk kind realm).Holds ((Store.mk kind realm).live (operationsOf kind calls))
      (after realm .empty calls) := by
  have hwritable : ∀ operation ∈ operationsOf kind calls, operation.Writable :=
    List.forall_mem_map.2 fun c hc => h.writable c (List.mem_filter.1 hc).1
  exact (holds_live hrealm hwritable (h.distinct kind)).congr
    (agree_after_calls hrealm h.stores (.refl _ _))

/-- What is kept is live. -/
theorem Keeps.exists_live (h : Keeps realm calls kind name dsl id time) :
    ∃ size : Nat, (Store.mk kind realm).check dsl = .ok size ∧
      ⟨id, name, kind.name, dsl, time.text, size⟩ ∈ (Store.mk kind realm).live (operationsOf kind calls) := by
  obtain ⟨before, supply, later, rfl, rfl, hcreated, hstays⟩ := h
  obtain ⟨size, hcheck, htaken⟩ := taken?_of_create (Answer.created.inj hcreated)
  have hoperations : operationsOf kind (before ++ ⟨kind, .create name dsl supply⟩ :: later) =
      operationsOf kind before ++ .create name dsl supply :: operationsOf kind later := by
    simp [operationsOf]
  refine ⟨size, hcheck, ?_⟩
  rw [hoperations, Store.live, List.foldl_append, List.foldl_cons, liveAfter, htaken]
  refine mem_foldl_liveAfter (List.mem_append_right _ (List.mem_singleton_self _)) ?_
  exact List.forall_mem_map.2 fun c hc =>
    hstays c (List.mem_filter.1 hc).1 (eq_of_beq (List.mem_filter.1 hc).2)

/-- A text that is kept is found as it was given, with the count of what it holds, and whatever reads
it loads what it reads. -/
theorem Keeps.exists_get (h : Keeps realm calls kind name dsl id time) (hcalls : Regular realm calls)
    (hrealm : realm.toList.all Glob.isLiteral = true) :
    ∃ size : Nat, (Store.mk kind realm).check dsl = .ok size ∧
      (Store.mk kind realm).get id (after realm .empty calls) =
        .ok (some (Source.record ⟨id, name, kind.name, dsl, time.text, size⟩)) ∧
      ∀ (α β : Type) (read : AnyText → Except β α) (fault : β → LoadFault) (value : α),
        read dsl = .ok value →
        (Store.mk kind realm).loadAs read fault id (after realm .empty calls) = .ok (some value) := by
  obtain ⟨size, hcheck, hlive⟩ := h.exists_live
  have hholds := hcalls.holds hrealm kind
  exact ⟨size, hcheck, hholds.get_of_mem hlive, fun α β read fault value hread => hholds.loadAs hlive hread fault⟩

end Call

end Store

end Earley
