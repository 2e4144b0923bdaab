import Earley.Proofs.Api.Status
import Earley.Proofs.Store.Change

namespace Earley.Api

/-- Under the keys of the indexes there are lists. -/
def Indexed (db : Database) : Prop := ∀ c : Collection, ∃ ids, db.list c.store.indexKey = .ok ids

theorem Indexed.empty : Indexed .empty := fun _ => ⟨[], rfl⟩

/-- A change of one collection leaves the index of the other. -/
theorem Indexed.of_frame {db after : Database} {c : Collection} (h : Indexed db)
    (hindex : ∃ ids, after.list c.store.indexKey = .ok ids)
    (hframe : ∀ key, ¬c.store.Owns key → after.get? key = db.get? key) : Indexed after := by
  intro other
  by_cases heq : other = c
  · rwa [heq]
  · obtain ⟨ids, hids⟩ := h other
    refine ⟨ids, (Database.list_of_get?_eq (hframe _ fun howns => ?_)).trans hids⟩
    have hstem := Store.stem_prefix_of_owns howns
    cases c <;> cases other
    · exact heq rfl
    · exact Store.not_stem_prefix_of_owns (by decide) (by decide) (Store.owns_indexKey _) hstem
    · exact Store.not_stem_prefix_of_owns (by decide) (by decide) (Store.owns_indexKey _) hstem
    · exact heq rfl

namespace Service

/-- Every database has lists for its indexes. -/
def Indexed (s : Service) : Prop := ∀ n, Api.Indexed (s.database n)

/-- Indexes stay lists when such a database is set. -/
theorem Indexed.setDatabase {s : Service} (h : s.Indexed) {n : Int} {db : Database} (hdb : Api.Indexed db) :
    (s.setDatabase n db).Indexed := by
  intro m
  by_cases heq : m = n
  · rwa [heq, database_setDatabase]
  · rw [database_setDatabase_of_ne s heq]
    exact h m

/-- Putting a database where it stands changes none. -/
theorem database_setDatabase_of_eq {s : Service} {n : Int} {db : Database} (h : db = s.database n) (m : Int) :
    (s.setDatabase n db).database m = s.database m := by
  by_cases heq : m = n
  · rw [heq, database_setDatabase, h]
  · exact database_setDatabase_of_ne s heq db

end Service

namespace Collection

variable {c : Collection} {db : Database} {r : CreateRequest} {supply : Supply}

/-- A text that cannot be read is refused, and nothing is kept. -/
theorem createAnswer_of_refused {refusal : Store.Refusal}
    (hcheck : c.store.check r.dsl.shown = .error refusal) :
    c.createAnswer r db supply = (.refuse 400 (.unmark r.dsl.marks refusal.message), db, supply) := by
  rw [createAnswer, hcheck]

/-- A text that can be read is kept, under any name. That can be told only if the name has no half of a
surrogate pair in it. -/
theorem createAnswer_of_indexed (supply : Supply) (h : Indexed db) {size : Nat}
    (hcheck : c.store.check r.dsl.shown = .ok size) :
    Indexed (c.createAnswer r db supply).2.1 ∧ (c.createAnswer r db supply).2.1 ≠ db ∧
      (c.createAnswer r db supply).1.status = 200 ∧
      ((c.createAnswer r db supply).1.isSendable = true ↔ r.name.isWhole = true) := by
  obtain ⟨ids, hids⟩ := h c
  rw [createAnswer, hcheck]
  obtain ⟨⟨id, time⟩, supply'⟩ := supply.next
  dsimp only
  obtain ⟨after, hkeep, hlist, -⟩ :=
    Store.keep_of_list hids id (.ofTexts id r.name c.store.kind.name r.dsl time.text size)
  have hframe {key : String} (howns : ¬c.store.Owns key) := Store.get?_keep_of_not_owns howns id
    (.ofTexts id r.name c.store.kind.name r.dsl time.text size) db
  rw [hkeep] at hframe
  rw [hkeep]
  refine ⟨h.of_frame ⟨_, hlist⟩ fun key howns => hframe howns, ?_, rfl, ?_⟩
  · rintro rfl
    have hsame := Except.ok.inj (hlist.symm.trans hids)
    simp at hsame
  · have hname : Response.isTold "name" = true := by decide
    have hmembers := c.isStrict_createdMembers r.dsl.shown size
    constructor
    · intro hsendable
      have hmember : ("name", Json.ofText r.name) ∈ [("id", Json.string id), ("name", .ofText r.name)] ++
          c.createdMembers r.dsl.shown size := by simp
      have htold := Json.isStrict_keepMembers_object.1 hsendable _ hmember hname
      cases hgiven : r.name with
      | whole text => rfl
      | halved text => rw [hgiven] at htold; cases htold
    · intro hwhole
      refine Response.isSendable_ok (Json.isStrict_object.2 (List.forall_mem_append.2 ⟨?_, hmembers⟩))
      simp only [List.forall_mem_cons]
      exact ⟨rfl, Json.isStrict_ofText.2 hwhole, List.forall_mem_nil _⟩

/-- A source is forgotten, or there is none and nothing is. -/
theorem deleteAnswer_of_indexed (h : Indexed db) (id : String) : Indexed (c.deleteAnswer id db).2 ∧
    (400 ≤ (c.deleteAnswer id db).1.sent.status → (c.deleteAnswer id db).2 = db) := by
  rw [deleteAnswer]
  cases hhas : db.has (c.store.key id) with
  | false =>
    rw [Store.delete_of_not_has hhas]
    exact ⟨h, fun _ => rfl⟩
  | true =>
    obtain ⟨ids, hids⟩ := h c
    obtain ⟨after, hdelete, hlist, -⟩ := Store.delete_of_has hids hhas
    have hframe {key : String} (howns : ¬c.store.Owns key) := Store.get?_delete_of_not_owns howns id db
    rw [hdelete] at hframe
    rw [hdelete]
    refine ⟨h.of_frame ⟨_, hlist⟩ fun key howns => hframe howns, fun hstatus => absurd hstatus ?_⟩
    rw [Response.sent_eq (Response.isSendable_ok rfl)]
    exact (by decide : ¬400 ≤ 200)

end Collection

/-- Whether an endpoint only asks. -/
def Endpoint.asks : Endpoint → Bool
  | .create _ | .delete _ => false
  | _ => true

/-- The request keeps a text, under a name that has a half of a surrogate pair in it. -/
def Request.KeepsHalved (r : Request) : Prop :=
  ∃ c parameter n body size, destination r.verb r.path = .endpoint (.create c) parameter ∧
    withBody r CreateRequest.ofJson = .ok (n, body) ∧ c.store.check body.dsl.shown = .ok size ∧
      body.name.isWhole = false

variable {r : Request} {s : Service} {parameter : String}

private theorem answer_of_asks {what : Endpoint} (h : what.asks = true) :
    (what.answer r parameter s).2 = s := by
  have hreading (answer : Database → Response) : (reading r s answer).2 = s := by
    rw [reading]
    split <;> rfl
  cases what with
  | page | description | root | builtins => rfl
  | parse =>
    rw [Endpoint.answer]
    split <;> rfl
  | list c => exact hreading _
  | get c => exact hreading _
  | text c => exact hreading _
  | create c => cases h
  | delete c => cases h

/-- Where a request leads is an endpoint of a route with its method. -/
theorem exists_route_of_destination {method : String} {path : List Char} {what : Endpoint}
    (h : destination method path = .endpoint what parameter) :
    ∃ route ∈ Route.about ++ Route.all, route.method = method ∧ route.endpoint = what := by
  rw [destination] at h
  split at h
  · next route found hfind =>
    cases h
    have hmethod : route.method = method := by simpa using List.find?_some hfind
    obtain ⟨_, hroute, hfound⟩ := List.mem_filterMap.1 (List.mem_of_find?_eq_some hfind)
    obtain ⟨_, -, heq⟩ := Option.map_eq_some_iff.1 hfound
    cases heq
    exact ⟨route, hroute, hmethod, rfl⟩
  · split at h
    · cases h
    · split at h <;> cases h

/-- The routes with the method for asking only ask. -/
theorem asks_of_destination {path : List Char} {what : Endpoint}
    (h : destination "GET" path = .endpoint what parameter) : what.asks = true := by
  have hroutes : ∀ route ∈ Route.about ++ Route.all, route.method = "GET" → route.endpoint.asks = true := by
    decide +kernel
  obtain ⟨route, hroute, hmethod, rfl⟩ := exists_route_of_destination h
  exact hroutes route hroute hmethod

/-- No route has the method for questions in advance. -/
theorem destination_options (path : List Char) (what : Endpoint) (parameter : String) :
    destination "OPTIONS" path ≠ .endpoint what parameter := by
  have hroutes : ∀ route ∈ Route.about ++ Route.all, route.method ≠ "OPTIONS" := by decide +kernel
  intro h
  obtain ⟨route, hroute, hmethod, -⟩ := exists_route_of_destination h
  exact hroutes route hroute hmethod

/-- A change of a service, and the answer that goes with it: the change leaves lists for the indexes, and
where the answer is that nothing was done, only a text under a name with a half of a pair was kept. -/
structure Coherent (r : Request) (s after : Service) (response : Response) : Prop where
  indexed : after.Indexed
  failed : 400 ≤ response.status → ((∃ n, after.database n ≠ s.database n) ↔ r.KeepsHalved)
  keeps : r.KeepsHalved → response.status = 500

namespace Coherent

private theorem of_same {after : Service} {response : Response} (h : s.Indexed)
    (hsame : ∀ n, after.database n = s.database n) (hnot : ¬r.KeepsHalved) : Coherent r s after response where
  indexed n := by
    rw [hsame n]
    exact h n
  failed _ := iff_of_false (by simpa using hsame) hnot
  keeps hkeeps := absurd hkeeps hnot

end Coherent

/-- A request to keep a text whose body was read: whether it keeps the text under a name with a half. -/
private theorem Request.keepsHalved_iff {c : Collection} {n : Int} {body : CreateRequest}
    (hwhat : destination r.verb r.path = .endpoint (.create c) parameter)
    (hbody : withBody r CreateRequest.ofJson = .ok (n, body)) :
    r.KeepsHalved ↔ (∃ size, c.store.check body.dsl.shown = .ok size) ∧ body.name.isWhole = false := by
  constructor
  · rintro ⟨c', parameter', n', body', size, hcreate, hbody', hcheck, hname⟩
    cases hwhat.symm.trans hcreate
    cases hbody.symm.trans hbody'
    exact ⟨⟨size, hcheck⟩, hname⟩
  · rintro ⟨⟨size, hcheck⟩, hname⟩
    exact ⟨c, parameter, n, body, size, hwhat, hbody, hcheck, hname⟩

/-- To keep a text changes nothing where the text or the request cannot be read. A text that can be read is
kept, and where its name has a half of a pair that cannot be told. -/
private theorem create_coherent (h : s.Indexed) {c : Collection}
    (hwhat : destination r.verb r.path = .endpoint (.create c) parameter) :
    Coherent r s ((Endpoint.create c).answer r parameter s).2
      ((Endpoint.create c).answer r parameter s).1.sent := by
  rw [Endpoint.answer]
  split
  · next obstacle hbody =>
    refine .of_same h (fun _ => rfl) ?_
    rintro ⟨c', parameter', n, body, size, -, hread, -⟩
    cases hbody.symm.trans hread
  · next n body hbody =>
    have hhalved := Request.keepsHalved_iff hwhat hbody
    cases hcheck : c.store.check body.dsl.shown with
    | error refusal =>
      rw [Collection.createAnswer_of_refused hcheck]
      exact .of_same h (Service.database_setDatabase_of_eq rfl) (by simp [hhalved, hcheck])
    | ok size =>
      obtain ⟨hindexed, hchanged, hstatus, hsendable⟩ :=
        Collection.createAnswer_of_indexed s.supply (h n) hcheck
      have hafter : Service.Indexed _ := h.setDatabase (n := n) hindexed
      have hdatabase := s.database_setDatabase n (c.createAnswer body (s.database n) s.supply).2.1
      cases hname : body.name.isWhole with
      | true =>
        have hsent : (c.createAnswer body (s.database n) s.supply).1.sent.status = 200 := by
          rw [Response.sent_eq (hsendable.2 hname), hstatus]
        have hnone : ¬r.KeepsHalved := by simp [hhalved, hname]
        refine ⟨hafter, fun hfailed => ?_, fun hkept => absurd hkept hnone⟩
        exact absurd (hsent ▸ hfailed) (by decide)
      | false =>
        have hsent := Response.status_sent_of_not (mt hsendable.1 (by simp [hname]))
        have hkeeps : r.KeepsHalved := hhalved.2 ⟨⟨size, hcheck⟩, hname⟩
        refine ⟨hafter, fun _ => iff_of_true ⟨n, fun heq => ?_⟩ hkeeps, fun _ => hsent⟩
        exact hchanged (hdatabase.symm.trans heq)

/-- To forget a source changes nothing where there is none. -/
private theorem delete_coherent (h : s.Indexed) {c : Collection} (hnot : ¬r.KeepsHalved) :
    Coherent r s ((Endpoint.delete c).answer r parameter s).2
      ((Endpoint.delete c).answer r parameter s).1.sent := by
  rw [Endpoint.answer]
  split
  · exact .of_same h (fun _ => rfl) hnot
  · next n hnumber =>
    obtain ⟨hindexed, hfailed⟩ := Collection.deleteAnswer_of_indexed (c := c) (h n) parameter
    refine ⟨h.setDatabase hindexed, fun hstatus => iff_of_false ?_ hnot, fun hkept => absurd hkept hnot⟩
    rintro ⟨m, hne⟩
    exact hne (Service.database_setDatabase_of_eq (hfailed hstatus) m)

/-- Every endpoint leaves a service as its answer tells. -/
theorem answer_coherent (h : s.Indexed) {what : Endpoint}
    (hwhat : destination r.verb r.path = .endpoint what parameter) :
    Coherent r s (what.answer r parameter s).2 (what.answer r parameter s).1.sent := by
  have hnot (hother : ∀ c, what ≠ .create c) : ¬r.KeepsHalved := by
    rintro ⟨c, parameter', n, body, size, hcreate, -⟩
    exact hother c (Destination.endpoint.inj (hwhat.symm.trans hcreate)).1
  cases what with
  | create c => exact create_coherent h hwhat
  | delete c => exact delete_coherent h (hnot (by simp))
  | page | description | root | builtins | parse | list | get | text =>
    rw [answer_of_asks rfl]
    exact .of_same h (fun _ => rfl) (hnot (by simp))

private theorem routeFully_coherent (h : s.Indexed) :
    Coherent r s (routeFully r s).2 (routeFully r s).1.sent := by
  have hnot (hnone : ∀ what parameter, destination r.verb r.path ≠ .endpoint what parameter) :
      ¬r.KeepsHalved := by
    rintro ⟨c, parameter, n, body, size, hcreate, -⟩
    exact hnone _ _ hcreate
  rw [routeFully]
  split
  · next what parameter hwhat => exact answer_coherent h hwhat
  · next hmethod => exact .of_same h (fun _ => rfl) (hnot (by simp [hmethod]))
  · next hmoved => exact .of_same h (fun _ => rfl) (hnot (by simp [hmoved]))
  · next hnowhere => exact .of_same h (fun _ => rfl) (hnot (by simp [hnowhere]))

/-- One request: what it leaves has lists for its indexes, and where it failed it has changed nothing,
but for a text that it kept under a name with a half of a pair. -/
theorem serve_coherent (h : s.Indexed) : Coherent r s (serve r s).2 (serve r s).1 := by
  obtain ⟨asked, hasked, hstatus, hsame⟩ | ⟨-, hstatus, hafter, -⟩ := serve_cases r s
  · rw [hsame]
    refine .of_same h (fun _ => rfl) ?_
    rintro ⟨c, parameter, n, body, size, hcreate, -⟩
    rw [verb_of_preflight? hasked] at hcreate
    exact destination_options _ _ _ hcreate
  · obtain ⟨hindexed, hfailed, hkeeps⟩ := routeFully_coherent (r := r) h
    rw [← hstatus] at hfailed hkeeps
    rw [← hafter] at hindexed hfailed
    exact ⟨hindexed, hfailed, hkeeps⟩

private theorem serve_of_asks {what : Endpoint} (hwhat : destination r.verb r.path = .endpoint what parameter)
    (hasks : what.asks = true) : (serve r s).2 = s := by
  obtain ⟨-, -, -, hsame⟩ | ⟨-, -, hroute, -⟩ := serve_cases r s
  · exact hsame
  · rw [hroute, routeFully, hwhat]
    exact answer_of_asks hasks

private theorem serve_of_get (hverb : r.verb = "GET") : (serve r s).2 = s := by
  cases hwhat : destination r.verb r.path with
  | endpoint what parameter =>
    refine serve_of_asks hwhat ?_
    rw [hverb] at hwhat
    exact asks_of_destination hwhat
  | wrongMethod | moved | nowhere =>
    obtain ⟨-, -, -, hsame⟩ | ⟨-, -, hroute, -⟩ := serve_cases r s
    · exact hsame
    · rw [hroute, routeFully, hwhat]

private theorem after_indexed (h : s.Indexed) (rs : List Request) : (s.after rs).Indexed := by
  induction rs generalizing s with
  | nil => exact h
  | cons q rest ih => exact ih (serve_coherent h).indexed

/-- A grammar whose second line cannot be read, under the name of one that is kept. -/
def misspelled : Request := .posting "/api/grammars" "g" "S -> N V\nS -> N |"

/-- A grammar under a name that is a half of a surrogate pair. -/
def halved : Request :=
  .plain "POST" "/api/grammars" (some (.object [("name", .ofCodes [0xD800]), ("dsl", .string "S -> N")]))

private theorem keepsHalved_halved : halved.KeepsHalved := by
  have hverb : halved.verb = "POST" := by decide +kernel
  have hpath : destination "POST" halved.path = .endpoint (.create .grammars) "" := by decide +kernel
  exact ⟨.grammars, "", 0, ⟨.ofCodes [0xD800], "S -> N"⟩, 1, hverb ▸ hpath, rfl, rfl, rfl⟩

end Earley.Api
