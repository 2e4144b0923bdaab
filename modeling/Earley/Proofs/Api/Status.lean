import Earley.Proofs.Api.Input

namespace Earley.Api

namespace Service

/-- A database that was set is there. -/
theorem database_setDatabase (s : Service) (n : Int) (db : Database) :
    (s.setDatabase n db).database n = db := by
  rw [setDatabase]
  split
  · next hknown => rw [database, find?_replace_self db hknown]; rfl
  · next hnew =>
    have hnone : s.databases.find? (·.1 == n) = none := by
      refine List.find?_eq_none.2 fun entry hentry hsame => hnew ?_
      exact List.any_eq_true.2 ⟨entry, hentry, hsame⟩
    simp [database, List.find?_append, hnone]

/-- The other databases stay where one is set. -/
theorem database_setDatabase_of_ne (s : Service) {n m : Int} (hne : m ≠ n) (db : Database) :
    (s.setDatabase n db).database m = s.database m := by
  have hother : (n == m) = false := beq_false_of_ne hne.symm
  rw [setDatabase, database, database]
  split
  · dsimp only
    rw [find?_replace_of_ne hne]
  · simp [List.find?_append, hother]

/-- The service after requests. -/
def after (s : Service) (rs : List Request) : Service :=
  rs.foldl (fun s r => (serve r s).2) s

/-- In the first database there are sources of the service only, each with a property. -/
def Kept (P : SourceKind → Deposit → Prop) (s : Service) : Prop := Api.Kept P (s.database 0)

end Service

namespace Request

/-- What the request asks to keep, and where. -/
def posted? (r : Request) : Option (Collection × CreateRequest) :=
  match destination r.verb r.path, withBody r CreateRequest.ofJson with
  | .endpoint (.create c) _, .ok (_, body) => some (c, body)
  | _, _ => none

/-- A request to the first database, with a body of any kind. -/
structure Regular (r : Request) : Prop where
  /-- No other database is named. -/
  first : ∀ n, databaseNumber r = .ok n → n = 0
  /-- A count that is no greater than the length of a text to keep can be written down. -/
  writable : ∀ posted ∈ r.posted?, posted.2.dsl.shown.length < 10 ^ Decimal.maxIntDigits

instance (r : Request) : Decidable r.Regular :=
  decidable_of_iff ((∀ n ∈ (databaseNumber r).toOption, n = 0) ∧
      ∀ posted ∈ r.posted?, posted.2.dsl.shown.length < 10 ^ Decimal.maxIntDigits)
    ⟨fun ⟨hfirst, hwritable⟩ => ⟨fun n hn => hfirst n (by rw [hn]; rfl), hwritable⟩,
      fun h => ⟨by cases hn : databaseNumber r <;> simp [Except.toOption, hn, h.first], h.writable⟩⟩

/-- What the request asks to keep has a property. -/
def Gives (P : SourceKind → Deposit → Prop) (r : Request) : Prop :=
  ∀ posted ∈ r.posted?, ∀ d : Deposit, d.name = posted.2.name → d.dsl = posted.2.dsl →
    P posted.1.store.kind d

/-- A grammar that the request asks to keep has finite weights. -/
def HasFiniteWeights (r : Request) : Prop :=
  ∀ posted ∈ r.posted?, posted.1 = .grammars →
    ∀ g ∈ (Grammar.ofText posted.2.dsl.shown).toOption, g.FiniteWeights

instance (r : Request) : Decidable r.HasFiniteWeights := inferInstanceAs (Decidable (∀ posted ∈ r.posted?, _))

/-- The path has a slash too many or too few, and no place is known to tell the right one for. -/
def IsLost (r : Request) : Prop :=
  destination r.verb r.path = .moved ∧ r.address.isPlaced (r.header? "host") = false

instance (r : Request) : Decidable r.IsLost := inferInstanceAs (Decidable (_ ∧ _))

/-- To parse, a name with a half of a surrogate pair in it would have to be looked for. -/
def LooksForHalved (r : Request) (s : Service) : Prop :=
  ∃ parameter n asked, destination r.verb r.path = .endpoint .parse parameter ∧
    withBody r ParseRequest.ofJson = .ok (n, asked) ∧ asked.LooksForHalved (s.database n)

/-- The answer has a weight to tell that is not finite: one of a grammar that is to be shown, or one of
a tree that a parser has found. -/
def TellsOverflow (r : Request) (s : Service) : Prop :=
  (∃ c id n, destination r.verb r.path = .endpoint (.get c) id ∧ databaseNumber r = .ok n ∧
    c.ShowsOverflow id (s.database n)) ∨
  ∃ parameter n asked, destination r.verb r.path = .endpoint .parse parameter ∧
    withBody r ParseRequest.ofJson = .ok (n, asked) ∧ asked.FindsOverflow (s.database n)

end Request

variable {r : Request} {s : Service} {P : SourceKind → Deposit → Prop}

private theorem first_of_withBody {α : Type} {read : Json → Checked α} {n : Int} {body : α}
    (hr : r.Regular) (h : withBody r read = .ok (n, body)) : n = 0 :=
  hr.first n (withBody_eq_ok h).1

private theorem status_obstacle_lt (obstacle : Obstacle) : obstacle.response.status < 500 := by
  cases obstacle with
  | unreadable => exact (by decide : 400 < 500)
  | issues found => exact (by decide : 422 < 500)

/-- An answer that only reads a database of the service fails where it fails there. -/
theorem reading_of_kept (hr : r.Regular) (h : s.Kept P) {answer : Database → Response}
    (hanswer : ∀ db, Kept P db → (answer db).status < 500) :
    (reading r s answer).1.status < 500 ∧ (reading r s answer).2.Kept P := by
  rw [reading]
  split
  · exact ⟨(by decide : 422 < 500), h⟩
  · next n hnumber =>
    obtain rfl := hr.first n hnumber
    exact ⟨hanswer _ h, h⟩

namespace Request

/-- Where a request leads to the parser, what it asks for tells whether a name cannot be looked for. -/
private theorem looksForHalved_iff {parameter : String} {n : Int} {asked : ParseRequest}
    (hwhat : destination r.verb r.path = .endpoint .parse parameter)
    (hbody : withBody r ParseRequest.ofJson = .ok (n, asked)) :
    r.LooksForHalved s ↔ asked.LooksForHalved (s.database n) := by
  constructor
  · rintro ⟨parameter', n', asked', -, hbody', hlooks⟩
    obtain ⟨rfl, rfl⟩ := Prod.mk.inj (Except.ok.inj (hbody.symm.trans hbody'))
    exact hlooks
  · exact fun hlooks => ⟨parameter, n, asked, hwhat, hbody, hlooks⟩

/-- No other endpoint looks for names of a body. -/
private theorem not_looksForHalved {what : Endpoint} {parameter : String}
    (hwhat : destination r.verb r.path = .endpoint what parameter) (hparse : what ≠ .parse) :
    ¬r.LooksForHalved s := by
  rintro ⟨parameter', n, asked, hparses, -⟩
  exact hparse (Destination.endpoint.inj (hwhat.symm.trans hparses)).1

end Request

/-- To keep a text does not fail, and what is kept has the property of what was given. -/
private theorem create_of_kept (hr : r.Regular) (h : s.Kept P) (hgives : r.Gives P) {c : Collection}
    {parameter : String} (hwhat : destination r.verb r.path = .endpoint (.create c) parameter) :
    ((Endpoint.create c).answer r parameter s).1.status < 500 ∧
      ((Endpoint.create c).answer r parameter s).2.Kept P := by
  rw [Endpoint.answer]
  split
  · next obstacle hbody => exact ⟨status_obstacle_lt obstacle, h⟩
  · next n body hbody =>
    obtain rfl := first_of_withBody hr hbody
    have hposted : (c, body) ∈ r.posted? := by rw [Request.posted?, hwhat, hbody]; rfl
    obtain ⟨hstatus, hkept⟩ :=
      c.createAnswer_of_kept h s.supply (hr.writable _ hposted) (hgives _ hposted)
    have hdatabase := s.database_setDatabase 0 (c.createAnswer body (s.database 0) s.supply).2.1
    rw [← hdatabase] at hkept
    exact ⟨hstatus, hkept⟩

/-- To forget a source does not fail, and leaves what else is kept. -/
private theorem delete_of_kept (hr : r.Regular) (h : s.Kept P) (c : Collection) (parameter : String) :
    ((Endpoint.delete c).answer r parameter s).1.status < 500 ∧
      ((Endpoint.delete c).answer r parameter s).2.Kept P := by
  rw [Endpoint.answer]
  split
  · exact ⟨(by decide : 422 < 500), h⟩
  · next n hnumber =>
    obtain rfl := hr.first n hnumber
    obtain ⟨hstatus, -, hkept⟩ := c.deleteAnswer_of_kept h parameter
    refine ⟨hstatus, ?_⟩
    rw [Service.Kept, Service.database_setDatabase]
    exact hkept

/-- To parse fails only where a name cannot be looked for. -/
private theorem status_parse_iff (hr : r.Regular) (h : s.Kept P) {parameter : String}
    (hwhat : destination r.verb r.path = .endpoint .parse parameter) :
    500 ≤ (Endpoint.parse.answer r parameter s).1.status ↔ r.LooksForHalved s := by
  rw [Endpoint.answer]
  split
  · next obstacle hbody =>
    refine iff_of_false (by simpa using status_obstacle_lt obstacle) ?_
    rintro ⟨parameter', n, asked, -, hasked, -⟩
    cases hbody.symm.trans hasked
  · next n body hbody =>
    obtain rfl := first_of_withBody hr hbody
    rw [Request.looksForHalved_iff hwhat hbody]
    exact status_parseSentence_iff h (limit_pos_of_withBody hbody)

/-- No endpoint fails on what the service has kept, but for names that cannot be looked for; and what
is kept has the property of what was given. -/
theorem answer_of_kept (hr : r.Regular) (h : s.Kept P) (hgives : r.Gives P) {what : Endpoint}
    {parameter : String} (hwhat : destination r.verb r.path = .endpoint what parameter) :
    (500 ≤ (what.answer r parameter s).1.status ↔ r.LooksForHalved s) ∧
      (what.answer r parameter s).2.Kept P := by
  have hnot (hparse : what ≠ .parse)
      (hanswer : (what.answer r parameter s).1.status < 500 ∧ (what.answer r parameter s).2.Kept P) :
      (500 ≤ (what.answer r parameter s).1.status ↔ r.LooksForHalved s) ∧
        (what.answer r parameter s).2.Kept P :=
    ⟨iff_of_false (not_le.2 hanswer.1) (Request.not_looksForHalved hwhat hparse), hanswer.2⟩
  cases what with
  | page | description | root | builtins => exact hnot (by simp) ⟨(by decide : 200 < 500), h⟩
  | list c =>
    exact hnot (by simp) (reading_of_kept hr h fun db hdb => (c.status_listAnswer hdb).trans_lt (by decide))
  | get c => exact hnot (by simp) (reading_of_kept hr h fun db hdb => c.status_getAnswer_lt hdb parameter)
  | text c => exact hnot (by simp) (reading_of_kept hr h fun db hdb => c.status_textAnswer_lt hdb parameter)
  | parse =>
    refine ⟨status_parse_iff hr h hwhat, ?_⟩
    rw [Endpoint.answer]
    split <;> exact h
  | create c => exact hnot (by simp) (create_of_kept hr h hgives hwhat)
  | delete c => exact hnot (by simp) (delete_of_kept hr h c parameter)

namespace Request

/-- A request to show a source tells what the source has to tell. -/
private theorem tellsOverflow_get_iff {c : Collection} {id : String}
    (hwhat : destination r.verb r.path = .endpoint (.get c) id) :
    r.TellsOverflow s ↔ ∃ n, databaseNumber r = .ok n ∧ c.ShowsOverflow id (s.database n) := by
  constructor
  · rintro (⟨c', id', n, hshown, hnumber, hshows⟩ | ⟨parameter, n, asked, hparses, -⟩)
    · obtain ⟨heq, rfl⟩ := Destination.endpoint.inj (hwhat.symm.trans hshown)
      obtain rfl := Endpoint.get.inj heq
      exact ⟨n, hnumber, hshows⟩
    · cases hwhat.symm.trans hparses
  · rintro ⟨n, hnumber, hshows⟩
    exact .inl ⟨c, id, n, hwhat, hnumber, hshows⟩

/-- A request to parse tells what its trees have to tell. -/
private theorem tellsOverflow_parse_iff {parameter : String}
    (hwhat : destination r.verb r.path = .endpoint .parse parameter) :
    r.TellsOverflow s ↔ ∃ n asked, withBody r ParseRequest.ofJson = .ok (n, asked) ∧
      asked.FindsOverflow (s.database n) := by
  constructor
  · rintro (⟨c, id, n, hshown, -⟩ | ⟨parameter', n, asked, -, hbody, hfinds⟩)
    · cases hwhat.symm.trans hshown
    · exact ⟨n, asked, hbody, hfinds⟩
  · rintro ⟨n, asked, hbody, hfinds⟩
    exact .inr ⟨parameter, n, asked, hwhat, hbody, hfinds⟩

/-- No other endpoint has weights to tell. -/
private theorem not_tellsOverflow_of_ne {what : Endpoint} {parameter : String}
    (hwhat : destination r.verb r.path = .endpoint what parameter) (hget : ∀ c, what ≠ .get c)
    (hparse : what ≠ .parse) : ¬r.TellsOverflow s := by
  rintro (⟨c, id, n, hshows, -⟩ | ⟨parameter', n, asked, hparses, -⟩)
  · exact hget c (Destination.endpoint.inj (hwhat.symm.trans hshows)).1
  · exact hparse (Destination.endpoint.inj (hwhat.symm.trans hparses)).1

end Request

/-- An answer that reads a database can be sent where it can be sent there. -/
theorem isSendable_reading_iff (hr : r.Regular) {answer : Database → Response} {Q : Database → Prop}
    (hanswer : (answer (s.database 0)).isSendable = true ↔ ¬Q (s.database 0)) :
    (reading r s answer).1.isSendable = true ↔ ¬∃ n, databaseNumber r = .ok n ∧ Q (s.database n) := by
  have hissues := sound_databaseNumber r
  rw [reading]
  cases hnumber : databaseNumber r with
  | error found =>
    rw [hnumber] at hissues
    exact iff_of_true (isSendable_invalid hissues) (by simp)
  | ok n =>
    obtain rfl := hr.first n hnumber
    dsimp only
    rw [hanswer]
    simp

/-- What a fit request to keep a text is answered can be sent. -/
private theorem isSendable_create (hr : r.Regular) (hfit : r.isFit = true) (h : s.Kept IsWhole)
    (c : Collection) (parameter : String) :
    ((Endpoint.create c).answer r parameter s).1.isSendable = true := by
  obtain ⟨n, body, hbody, hname, hdsl⟩ | ⟨obstacle, hbody, hsendable⟩ :=
    withBody_of_isFit hfit fun body hstrict => sound_createRequest hstrict
  · obtain rfl := first_of_withBody hr hbody
    rw [Endpoint.answer, hbody]
    exact c.isSendable_createAnswer h hname hdsl s.supply
  · rw [Endpoint.answer, hbody]
    exact hsendable

/-- What a request to forget a source is answered can be sent. -/
private theorem isSendable_delete (hr : r.Regular) (h : s.Kept P) (c : Collection) (parameter : String) :
    ((Endpoint.delete c).answer r parameter s).1.isSendable = true := by
  have hissues := sound_databaseNumber r
  rw [Endpoint.answer]
  cases hnumber : databaseNumber r with
  | error found =>
    rw [hnumber] at hissues
    exact isSendable_invalid hissues
  | ok n =>
    obtain rfl := hr.first n hnumber
    exact (c.deleteAnswer_of_kept h parameter).2.1

/-- What a fit request to parse is answered can be sent, unless a tree has a weight that is not finite. -/
private theorem isSendable_parse_iff (hr : r.Regular) (hfit : r.isFit = true) (h : s.Kept IsWhole)
    {parameter : String} (hwhat : destination r.verb r.path = .endpoint .parse parameter) :
    (Endpoint.parse.answer r parameter s).1.isSendable = true ↔ ¬r.TellsOverflow s := by
  rw [Request.tellsOverflow_parse_iff hwhat]
  obtain ⟨n, asked, hbody, hwhole⟩ | ⟨obstacle, hbody, hsendable⟩ :=
    withBody_of_isFit hfit fun body hstrict => sound_parseRequest hstrict
  · obtain rfl := first_of_withBody hr hbody
    rw [Endpoint.answer, hbody]
    refine (isSendable_parseSentence_iff h hwhole (limit_pos_of_withBody hbody)).trans (not_congr ?_)
    refine ⟨fun hfinds => ⟨0, asked, rfl, hfinds⟩, ?_⟩
    rintro ⟨n, asked', hbody', hfinds⟩
    obtain ⟨rfl, rfl⟩ := Prod.mk.inj (Except.ok.inj hbody')
    exact hfinds
  · rw [Endpoint.answer, hbody]
    exact iff_of_true hsendable (by simp)

/-- Over whole sources, the answer to a fit request can be sent unless it has a weight to tell that is not
finite. -/
theorem isSendable_answer_iff (hr : r.Regular) (hfit : r.isFit = true) (h : s.Kept IsWhole) {what : Endpoint}
    {parameter : String} (hwhat : destination r.verb r.path = .endpoint what parameter) :
    (what.answer r parameter s).1.isSendable = true ↔ ¬r.TellsOverflow s := by
  have hnot (hget : ∀ c, what ≠ .get c) (hparse : what ≠ .parse)
      (hsendable : (what.answer r parameter s).1.isSendable = true) :
      (what.answer r parameter s).1.isSendable = true ↔ ¬r.TellsOverflow s :=
    iff_of_true hsendable (Request.not_tellsOverflow_of_ne hwhat hget hparse)
  have hreading {answer : Database → Response} (hsendable : (answer (s.database 0)).isSendable = true) :
      (reading r s answer).1.isSendable = true :=
    (isSendable_reading_iff hr (Q := fun _ => False) (by simpa using hsendable)).2 (by simp)
  cases what with
  | page => exact hnot (by simp) (by simp) rfl
  | root => exact hnot (by simp) (by simp) (Response.isSendable_ok rfl)
  | description =>
    have hstrict : Api.description.isStrict = true := by decide +kernel
    exact hnot (by simp) (by simp) (Response.isSendable_ok hstrict)
  | builtins =>
    have hstrict : Api.builtins.isStrict = true := by decide +kernel
    exact hnot (by simp) (by simp) (Response.isSendable_ok hstrict)
  | list c => exact hnot (by simp) (by simp) (hreading (c.isSendable_listAnswer h))
  | text c => exact hnot (by simp) (by simp) (hreading (c.isSendable_textAnswer h parameter))
  | get c =>
    rw [Request.tellsOverflow_get_iff hwhat]
    exact isSendable_reading_iff hr (c.isSendable_getAnswer_iff h parameter)
  | parse => exact isSendable_parse_iff hr hfit h hwhat
  | create c => exact hnot (by simp) (by simp) (isSendable_create hr hfit h c parameter)
  | delete c => exact hnot (by simp) (by simp) (isSendable_delete hr h c parameter)

/-- The path for parsing leads to the parser. -/
theorem destination_parse : destination "POST" "/api/parse".toList = .endpoint .parse "" := by
  decide +kernel

/-- The routes fail where a name cannot be looked for or a better path cannot be told, and nowhere else. -/
theorem routeFully_of_kept (hr : r.Regular) (h : s.Kept P) (hgives : r.Gives P) :
    (500 ≤ (routeFully r s).1.status ↔ r.IsLost ∨ r.LooksForHalved s) ∧ (routeFully r s).2.Kept P := by
  have helse {status : Nat} (hnone : ∀ what parameter, destination r.verb r.path ≠ .endpoint what parameter)
      (hlost : r.IsLost ↔ 500 ≤ status) : 500 ≤ status ↔ r.IsLost ∨ r.LooksForHalved s := by
    rw [hlost]
    refine (or_iff_left ?_).symm
    rintro ⟨parameter, n, asked, hparses, -⟩
    exact hnone _ _ hparses
  rw [routeFully]
  split
  · next what parameter hwhat =>
    obtain ⟨hstatus, hkept⟩ := answer_of_kept hr h hgives hwhat
    have hplace : ¬r.IsLost := fun hlost => by cases hwhat.symm.trans hlost.1
    exact ⟨hstatus.trans (by simp [hplace]), hkept⟩
  · next hmethod => exact ⟨helse (by simp [hmethod]) (by simp [Request.IsLost, hmethod, Response.refuse]), h⟩
  · next hmoved =>
    refine ⟨helse (by simp [hmoved]) ?_, h⟩
    cases hplaced : r.address.isPlaced (r.header? "host") with
    | true => simp [Request.IsLost, hplaced, Response.moved]
    | false => simp [Request.IsLost, hmoved, hplaced, Response.crash]
  · next hnowhere => exact ⟨helse (by simp [hnowhere]) (by simp [Request.IsLost, hnowhere, Response.refuse]), h⟩

/-- Over whole sources, what the routes answer to a fit request can be sent unless it has a weight to tell
that is not finite. -/
theorem isSendable_routeFully_iff (hr : r.Regular) (hfit : r.isFit = true) (h : s.Kept IsWhole) :
    (routeFully r s).1.isSendable = true ↔ ¬r.TellsOverflow s := by
  have helse {response : Response} (hsendable : response.isSendable = true)
      (hnone : ∀ what parameter, destination r.verb r.path ≠ .endpoint what parameter) :
      response.isSendable = true ↔ ¬r.TellsOverflow s := by
    refine iff_of_true hsendable ?_
    rintro (⟨c, id, n, hshown, -⟩ | ⟨parameter, n, asked, hparses, -⟩)
    · exact hnone _ _ hshown
    · exact hnone _ _ hparses
  rw [routeFully]
  split
  · next what parameter hwhat => exact isSendable_answer_iff hr hfit h hwhat
  · next hmethod => exact helse rfl (by simp [hmethod])
  · next hmoved =>
    refine helse ?_ (by simp [hmoved])
    dsimp only
    split <;> rfl
  · next hnowhere => exact helse rfl (by simp [hnowhere])

/-- A fit request to parse has no names that cannot be looked for. -/
theorem not_looksForHalved_of_isFit (hfit : r.isFit = true) : ¬r.LooksForHalved s := by
  rintro ⟨parameter, n, asked, -, hbody, -, hnames⟩
  obtain ⟨n', asked', hbody', hwhole⟩ | ⟨obstacle, hbody', -⟩ :=
    withBody_of_isFit hfit fun body hstrict => sound_parseRequest hstrict
  · obtain ⟨rfl, rfl⟩ := Prod.mk.inj (Except.ok.inj (hbody.symm.trans hbody'))
    rcases hnames with hgrammar | ⟨hlexicon, -⟩
    · simp [hwhole.grammar] at hgrammar
    · simp [hwhole.lexicon] at hlexicon
  · cases hbody.symm.trans hbody'

private theorem status_preflight_lt (origin method : String) (isPublic : Bool) :
    (preflight origin method isPublic).status < 500 := by
  unfold preflight
  extract_lets known refusals allowOrigin
  split
  · exact (by decide : 200 < 500)
  · exact (by decide : 400 < 500)

/-- Questions in advance have a method of their own. -/
theorem verb_of_preflight? {asked : String × String} (h : r.preflight? = some asked) :
    r.verb = "OPTIONS" := by
  rw [Request.preflight?] at h
  split at h
  · next hverb _ _ => exact hverb
  · cases h

/-- A question in advance is no failure and changes nothing. Every other request is answered by the
routes, as far as their answer can be sent; its body may be missing where only the head is asked for. -/
theorem serve_cases (r : Request) (s : Service) :
    (∃ asked, r.preflight? = some asked ∧ (serve r s).1.status < 500 ∧ (serve r s).2 = s) ∨
      r.preflight? = none ∧ (serve r s).1.status = (routeFully r s).1.sent.status ∧
        (serve r s).2 = (routeFully r s).2 ∧
        (r.verb ≠ "HEAD" → (serve r s).1.body = (routeFully r s).1.sent.body) := by
  rw [serve]
  split
  · next origin method hasked => exact .inl ⟨_, hasked, status_preflight_lt _ _ _, rfl⟩
  · next hnone =>
    rw [Response.status_forOrigin, Response.body_forOrigin, route]
    dsimp only
    split
    · next hhead =>
      exact .inr ⟨hnone, Response.status_bare _, rfl, fun hne => absurd (eq_of_beq hhead) hne⟩
    · exact .inr ⟨hnone, rfl, rfl, fun _ => rfl⟩

/-- A request fails where the routes fail, and where their answer cannot be sent. -/
theorem status_serve_iff (r : Request) (s : Service) : 500 ≤ (serve r s).1.status ↔
    r.preflight? = none ∧ (500 ≤ (routeFully r s).1.status ∨ (routeFully r s).1.isSendable = false) := by
  obtain ⟨asked, hasked, hstatus, -⟩ | ⟨hnone, hstatus, -⟩ := serve_cases r s
  · exact iff_of_false (by omega) (by simp [hasked])
  · rw [hstatus, Response.status_sent_iff]
    simp [hnone]

/-- A request that is neither a question in advance nor one for the head alone is answered by the routes in
full, as far as their answer can be sent. -/
theorem serve_fst {method : String} (hverb : r.verb = method) (hoptions : method ≠ "OPTIONS")
    (hhead : method ≠ "HEAD") : (serve r s).1.status = (routeFully r s).1.sent.status ∧
      (serve r s).1.body = (routeFully r s).1.sent.body := by
  subst hverb
  obtain ⟨asked, hasked, -⟩ | ⟨-, hstatus, -, hbody⟩ := serve_cases r s
  · exact absurd (verb_of_preflight? hasked) hoptions
  · exact ⟨hstatus, hbody hhead⟩

/-- With a grammar and a lexicon that are found and have no halves in them, a request to parse is answered
as a parser answers, as long as the weights are finite. -/
theorem serve_parse {n : Int} {asked : ParseRequest} {tokens : List String} {g : Grammar} {lex : Lexicon}
    (hverb : r.verb = "POST") (hpath : r.path = "/api/parse".toList)
    (hbody : withBody r ParseRequest.ofJson = .ok (n, asked))
    (hnames : asked.Names (s.database n) g ⟨lex, []⟩ tokens) (hfinite : g.FiniteWeights) :
    ∃ p o, Parser.withLimit g lex asked.limit = .ok p ∧ p.parse tokens = .ok o ∧
      (serve r s).1.status = 200 ∧
      (serve r s).1.body = .json (o.toJson.keepMembers Response.isTold) := by
  obtain ⟨p, o, hparser, hparse, htrees, rfl, hanswer⟩ :=
    answerSentence_eq g ⟨lex, []⟩ (limit_pos_of_withBody hbody) tokens
  have hwhat : destination r.verb r.path = .endpoint .parse "" := by rw [hverb, hpath, destination_parse]
  have hroute : (routeFully r s).1 = .ok o.toJson := by
    rw [routeFully, hwhat]
    dsimp only
    rw [Endpoint.answer, hbody]
    dsimp only
    rw [hnames.parseSentence_eq, hanswer]
    rfl
  have hsendable : (Response.ok o.toJson).isSendable = true := by
    refine Response.isSendable_ok (Outcome.isStrict_toJson fun tree htree => ?_)
    exact Parser.isFinite_of_mem_trees hfinite (htrees ▸ htree)
  obtain ⟨hstatus, hcarried⟩ := serve_fst (s := s) hverb (by decide) (by decide)
  rw [hroute, Response.sent_eq hsendable] at hstatus hcarried
  exact ⟨p, o, hparser, hparse, hstatus, hcarried⟩

/-- One request: what is kept has the property of what was given. -/
theorem serve_kept (hr : r.Regular) (h : s.Kept P) (hgives : r.Gives P) : (serve r s).2.Kept P := by
  obtain ⟨-, -, -, hsame⟩ | ⟨-, -, hafter, -⟩ := serve_cases r s
  · rwa [hsame]
  · rw [hafter]
    exact (routeFully_of_kept hr h hgives).2

/-- Any requests: what is kept has the property of what was given. -/
theorem after_kept {rs : List Request} (hregular : ∀ q ∈ rs, q.Regular) (hgives : ∀ q ∈ rs, q.Gives P)
    (h : s.Kept P) : (s.after rs).Kept P := by
  induction rs generalizing s with
  | nil => exact h
  | cons q rest ih =>
    obtain ⟨hq, hrest⟩ := List.forall_mem_cons.1 hregular
    obtain ⟨hq', hrest'⟩ := List.forall_mem_cons.1 hgives
    exact ih hrest hrest' (serve_kept hq h hq')

/-- A fit request gives nothing to keep that has halves of surrogate pairs in it. -/
theorem Request.gives_of_isFit (hfit : r.isFit = true) : r.Gives IsWhole := by
  intro posted hposted d hname hdsl
  obtain ⟨n, body, hbody, hwhole⟩ | ⟨obstacle, hbody, -⟩ :=
    withBody_of_isFit hfit fun body hstrict => sound_createRequest hstrict
  · rw [posted?, hbody] at hposted
    split at hposted
    · next heq =>
      cases hposted
      cases heq
      exact ⟨hname ▸ hwhole.1, hdsl ▸ hwhole.2⟩
    · cases hposted
  · rw [posted?, hbody] at hposted
    split at hposted
    · next heq => cases heq
    · cases hposted

/-- A source that is a grammar with finite weights, or none. -/
def IsFinite (kind : SourceKind) (d : Deposit) : Prop :=
  kind = .grammar → ∀ g, Grammar.ofText d.dsl.shown = .ok g → g.FiniteWeights

private theorem Request.gives_of_hasFiniteWeights (hfinite : r.HasFiniteWeights) : r.Gives IsFinite := by
  rintro ⟨c, body⟩ hposted d - hdsl hkind g hread
  have hgrammars : c = .grammars := by cases c <;> first | rfl | cases hkind
  refine hfinite _ hposted hgrammars g ?_
  rw [hdsl] at hread
  rw [hread]
  rfl

/-- What a parser finds with a grammar of finite weights has finite weights. -/
theorem finiteWeights_of_parse {g : Grammar} (hfinite : g.FiniteWeights) {lex : Lexicon} {limit : Int}
    {p : Parser} {tokens : List String} {o : Outcome} (hparser : Parser.withLimit g lex limit = .ok p)
    (hparse : p.parse tokens = .ok o) : o.FiniteWeights := by
  have hgrammar : p.grammar = g := by
    rw [Parser.withLimit] at hparser
    split at hparser
    · cases hparser
      rfl
    · cases hparser
  obtain ⟨o', hparse', htrees⟩ := p.exists_parse tokens
  obtain rfl := Except.ok.inj (hparse'.symm.trans hparse)
  intro tree htree
  exact Parser.isFinite_of_mem_trees (hgrammar ▸ hfinite) (htrees ▸ htree)

/-- Where all kept grammars have finite weights, no answer has one to tell that is not. -/
theorem not_tellsOverflow (hr : r.Regular) (h : s.Kept IsFinite) : ¬r.TellsOverflow s := by
  rintro (⟨c, id, n, -, hnumber, rfl, record, t, g, hget, htext, hread, hoverflow⟩ |
    ⟨parameter, n, asked, -, hbody, g, lex, tokens, p, o, hnames, hparser, hparse, hoverflow⟩)
  · obtain rfl := hr.first n hnumber
    obtain ⟨found, hget', hwritten⟩ := Store.exists_get (s := Collection.grammars.store) h id
    obtain rfl := Except.ok.inj (hget.symm.trans hget')
    obtain ⟨d, -, hfinite, rfl⟩ := hwritten record rfl
    obtain rfl := Option.some.inj ((Json.text?_ofText d.dsl).symm.trans htext)
    exact hoverflow (hfinite rfl g hread)
  · obtain rfl := first_of_withBody hr hbody
    obtain ⟨name, -, hgrammar⟩ := hnames.grammar
    obtain ⟨found, hfound, horigin⟩ := exists_resolveGrammar h name
    obtain rfl := Except.ok.inj (hgrammar.symm.trans hfound)
    refine hoverflow (finiteWeights_of_parse ?_ hparser hparse)
    obtain hbuilt | ⟨d, hfinite, hread⟩ := horigin g rfl
    · exact English.finiteWeights hbuilt
    · exact hfinite rfl g hread

/-- A request without a query or headers. -/
def Request.plain (method path : String) (body : Option Json := none) : Request where
  method
  address := { path := path.toList }
  body := body.map .ofJson

/-- A request to keep a text. -/
def Request.posting (path name dsl : String) : Request :=
  plain "POST" path (some (.object [("name", .string name), ("dsl", .string dsl)]))

/-- A grammar and a lexicon under one name, one of them for a while only. -/
def session : List Request :=
  [.posting "/api/grammars" "g" "S -> N [0.5] | V N [1e-7]", .posting "/api/lexicons" "g" "x : N person=3",
    .posting "/api/grammars" "" "NP -> N |", .plain "GET" "/api/grammars/000000000001/dsl",
    .plain "DELETE" "/api/lexicons/000000000002"]

/-- A question about the grammar that was kept. -/
def question : Request :=
  .plain "POST" "/api/parse" (some (.object [("grammar", .string "g"), ("text", .string "Dogs")]))

end Earley.Api
