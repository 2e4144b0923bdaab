import Earley.Proofs.Api.Answer

namespace Earley

private theorem Json.isStrict_of_member? {members : List (String × Json)} {name : String} {j : Json}
    (h : ∀ m ∈ members, m.2.isStrict = true) (hmember : member? members name = some j) : j.isStrict = true := by
  obtain ⟨m, hfind, rfl⟩ := Option.map_eq_some_iff.1 hmember
  exact h m (List.mem_reverse.1 (List.mem_of_find?_eq_some hfind))

/-- The members of a strict object are strict. -/
theorem Json.isStrict_of_get? {body j : Json} {name : String} (h : body.isStrict = true)
    (hget : body.get? name = some j) : j.isStrict = true := by
  obtain ⟨members, hmembers, hmember⟩ := Option.bind_eq_some_iff.1 hget
  cases body with
  | object found =>
    obtain rfl := Option.some.inj hmembers
    exact isStrict_of_member? (isStrict_object.1 h) hmember
  | halvedObject found => cases h
  | null | bool | int | float | string | halved | array => cases hmembers

/-- A strict text has no halves of surrogate pairs in it. -/
theorem Json.isWhole_of_text? {j : Json} {t : AnyText} (h : j.isStrict = true) (htext : j.text? = some t) :
    t.isWhole = true := by
  cases j with
  | string s => exact Option.some.inj htext ▸ rfl
  | halved text => cases h
  | null | bool | int | float | array | object | halvedObject => cases htext

namespace Api

/-- An issue with a value that strict JSON can carry. -/
def Located.IsStrict (i : Located) : Prop := ∃ j, i.input = some j ∧ j.isStrict = true

/-- A value has a property, or all that is wrong with it can be told. -/
def Checked.Sound {α : Type} (Q : α → Prop) : Checked α → Prop
  | .ok value => Q value
  | .error found => ∀ i ∈ found, i.IsStrict

/-- Issues with strict values can be sent. -/
theorem isSendable_invalid {found : List Located} (h : ∀ i ∈ found, i.IsStrict) :
    (Response.invalid found).isSendable = true := by
  refine List.all_eq_true.2 fun i hi => ?_
  obtain ⟨j, hinput, hstrict⟩ := h i hi
  rw [hinput]
  exact Json.isStrict_keepMembers _ j hstrict

namespace Checked

variable {α β : Type} {Q : α → Prop} {R : β → Prop}

/-- All issues of a sound check can be told. -/
theorem Sound.issuesOf {checked : Checked α} (h : checked.Sound Q) : ∀ i ∈ issuesOf checked, i.IsStrict := by
  cases checked with
  | ok value => exact List.forall_mem_nil _
  | error found => exact h

/-- A check behind a sound one is sound if it is so for all values with the property. -/
theorem Sound.bind {checked : Checked α} {read : α → Checked β} (h : checked.Sound Q)
    (hread : ∀ value, Q value → (read value).Sound R) : Checked.Sound R (checked.bind read) := by
  cases checked with
  | ok value => exact hread value h
  | error found => exact h

private theorem sound_issueAt (place : List Step) (issue : Issue) {j : Json} (h : j.isStrict = true) :
    (issueAt place issue j : Checked α).Sound Q :=
  List.forall_mem_singleton.2 ⟨j, rfl, h⟩

end Checked

open Checked

section

variable {body : Json} (h : body.isStrict = true) (name : String)
include h

private theorem sound_readText : (readText name body).Sound (·.isWhole = true) := by
  rw [readText]
  cases htext : body.text? with
  | some t => exact Json.isWhole_of_text? h htext
  | none => exact sound_issueAt _ _ h

private theorem sound_optionalText :
    (optionalText body name).Sound fun t => ∀ text ∈ t, text.isWhole = true := by
  rw [optionalText]
  split
  · exact fun text htext => by cases htext
  · exact fun text htext => by cases htext
  · next j _ hget =>
    have hread := sound_readText (Json.isStrict_of_get? h hget) name
    cases htext : readText name j with
    | ok t =>
      rw [htext] at hread
      exact fun text heq => Option.some.inj heq ▸ hread
    | error found =>
      rw [htext] at hread
      exact hread

private theorem sound_textOr (default : String) : (textOr body name default).Sound (·.isWhole = true) := by
  rw [textOr]
  split
  · rfl
  · next j hget => exact sound_readText (Json.isStrict_of_get? h hget) name

private theorem sound_requiredText : (requiredText body name).Sound (·.isWhole = true) := by
  rw [requiredText]
  split
  · exact sound_issueAt _ _ h
  · next j hget => exact sound_readText (Json.isStrict_of_get? h hget) name

end

private theorem sound_readTexts (name : String) (index : Nat) {xs : List Json}
    (h : ∀ x ∈ xs, x.isStrict = true) :
    (∀ i ∈ (readTexts name index xs).1, i.IsStrict) ∧ ∀ t ∈ (readTexts name index xs).2, t.isWhole = true := by
  induction xs generalizing index with
  | nil => exact ⟨List.forall_mem_nil _, List.forall_mem_nil _⟩
  | cons x rest ih =>
    obtain ⟨hx, hrest⟩ := List.forall_mem_cons.1 h
    obtain ⟨hfound, htexts⟩ := ih (index + 1) hrest
    rw [readTexts]
    dsimp only
    cases htext : x.text? with
    | some t => exact ⟨hfound, List.forall_mem_cons.2 ⟨Json.isWhole_of_text? hx htext, htexts⟩⟩
    | none => exact ⟨List.forall_mem_cons.2 ⟨⟨x, rfl, hx⟩, hfound⟩, htexts⟩

section

variable {body : Json} (h : body.isStrict = true) (name : String)
include h

private theorem sound_optionalTexts :
    (optionalTexts body name).Sound fun ts => ∀ texts ∈ ts, ∀ t ∈ texts, t.isWhole = true := by
  rw [optionalTexts]
  split
  · exact fun texts htexts => by cases htexts
  · exact fun texts htexts => by cases htexts
  · next xs hget =>
    have hread := sound_readTexts name 0 (Json.isStrict_array.1 (Json.isStrict_of_get? h hget))
    split
    · next texts heq =>
      rw [heq] at hread
      exact fun texts' htexts => Option.some.inj htexts ▸ hread.2
    · next found texts hne heq =>
      rw [heq] at hread
      exact hread.1
  · next j _ _ hget => exact sound_issueAt _ _ (Json.isStrict_of_get? h hget)

private theorem sound_treeLimit : (treeLimit body name).Sound fun _ => True := by
  rw [treeLimit]
  split
  · trivial
  · next j hget =>
    have hstrict := Json.isStrict_of_get? h hget
    split
    · exact sound_issueAt _ _ hstrict
    · split
      · exact sound_issueAt _ _ hstrict
      · split
        · exact sound_issueAt _ _ hstrict
        · trivial

/-- The fields of a strict body are whole, or what is wrong with them can be told. -/
theorem sound_parseRequest : (ParseRequest.ofJson body).Sound ParseRequest.IsWhole := by
  have htokens := sound_optionalTexts h "tokens"
  have htext := sound_optionalText h "text"
  have hgrammar := sound_textOr h "grammar" defaultName
  have hlexicon := sound_textOr h "lexicon" defaultName
  have hlimit := sound_treeLimit h "max_trees"
  rw [ParseRequest.ofJson]
  split
  · next htokens' _ hgrammar' hlexicon' _ =>
    rw [htokens'] at htokens
    rw [hgrammar'] at hgrammar
    rw [hlexicon'] at hlexicon
    exact ⟨htokens, hgrammar, hlexicon⟩
  · simp only [Sound, List.forall_mem_append]
    exact ⟨⟨⟨⟨htokens.issuesOf, htext.issuesOf⟩, hgrammar.issuesOf⟩, hlexicon.issuesOf⟩, hlimit.issuesOf⟩

/-- A name and a text in a strict body are whole, or what is wrong with them can be told. -/
theorem sound_createRequest :
    (CreateRequest.ofJson body).Sound fun r => r.name.isWhole = true ∧ r.dsl.isWhole = true := by
  have hname := sound_requiredText h "name"
  have hdsl := sound_requiredText h "dsl"
  rw [CreateRequest.ofJson]
  split
  · next hname' hdsl' =>
    rw [hname'] at hname
    rw [hdsl'] at hdsl
    exact ⟨hname, hdsl⟩
  · exact List.forall_mem_append.2 ⟨hname.issuesOf, hdsl.issuesOf⟩

end

/-- What is wrong with the number of a database can be told. -/
theorem sound_databaseNumber (r : Request) : (databaseNumber r).Sound fun _ => True := by
  rw [databaseNumber]
  split
  · trivial
  · next text _ =>
    cases readNumeral text with
    | ok n => trivial
    | error issue => exact List.forall_mem_singleton.2 ⟨.string text, rfl, rfl⟩

/-- Whether what a request gives can be told again: a value that strict JSON can carry, or bytes that are a
text. -/
def Given.isFit : Given → Bool
  | .value j => j.isStrict
  | .bytes text? => text?.isSome

/-- Whether a request gives nothing that cannot be told again. -/
def Request.isFit (r : Request) : Bool :=
  match r.given with
  | .ok given => given.isFit
  | .error _ => true

private theorem sound_object {given : Given} (h : given.isFit = true) :
    given.object.Sound (·.isStrict = true) := by
  unfold Given.object
  split
  · exact sound_issueAt _ _ rfl
  · next j _ =>
    split
    · exact h
    · exact sound_issueAt _ _ h
  · next text? =>
    obtain ⟨text, rfl⟩ := Option.isSome_iff_exists.1 h
    exact List.forall_mem_singleton.2 ⟨.string text, rfl, rfl⟩

/-- Where a body cannot be read at all, that can be told. -/
theorem isSendable_of_given {r : Request} {obstacle : Obstacle} (h : r.given = .error obstacle) :
    obstacle.response.isSendable = true := by
  rw [Request.given] at h
  split at h
  · cases h
  · split at h
    · split at h
      · cases h
      · cases h
        rfl
      · cases h
        rfl
    · cases h

/-- The fields of a fit request have a property, or what stands in their way can be sent. -/
theorem withBody_of_isFit {α : Type} {Q : α → Prop} {read : Json → Checked α} {r : Request}
    (h : r.isFit = true)
    (hread : ∀ body, body.isStrict = true → (read body).Sound Q) :
    (∃ n value, withBody r read = .ok (n, value) ∧ Q value) ∨
      ∃ obstacle, withBody r read = .error obstacle ∧ obstacle.response.isSendable = true := by
  rw [Request.isFit] at h
  rw [withBody]
  cases hgiven : r.given with
  | error obstacle => exact .inr ⟨obstacle, rfl, isSendable_of_given hgiven⟩
  | ok given =>
    rw [hgiven] at h
    have hnumber := sound_databaseNumber r
    have hbody := (sound_object h).bind hread
    dsimp only
    split
    · next n value _ hvalue =>
      rw [hvalue] at hbody
      exact .inl ⟨n, value, rfl, hbody⟩
    · refine .inr ⟨_, rfl, isSendable_invalid ?_⟩
      exact List.forall_mem_append.2 ⟨hnumber.issuesOf, hbody.issuesOf⟩

private theorem treeLimit_pos {body : Json} {name : String} {n : Nat} (h : treeLimit body name = .ok n) :
    0 < n := by
  rw [treeLimit] at h
  split at h
  · cases h
    decide
  · split at h
    · cases h
    · split at h
      · cases h
      · next hlarge =>
        split at h
        · cases h
        · cases h
          omega

private theorem limit_pos_of_ofJson {body : Json} {r : ParseRequest} (h : ParseRequest.ofJson body = .ok r) :
    0 < r.limit := by
  rw [ParseRequest.ofJson] at h
  split at h
  · next hlimit =>
    cases h
    exact treeLimit_pos hlimit
  · cases h

/-- What is read from a request was read from the object that it gives, and the query names its database. -/
theorem withBody_eq_ok {α : Type} {read : Json → Checked α} {r : Request} {n : Int} {value : α}
    (h : withBody r read = .ok (n, value)) :
    databaseNumber r = .ok n ∧ ∃ body, read body = .ok value := by
  rw [withBody] at h
  split at h
  · cases h
  · next given _ =>
    dsimp only at h
    split at h
    · next hnumber hbody =>
      cases h
      refine ⟨hnumber, ?_⟩
      cases hobject : given.object with
      | error found => rw [hobject] at hbody; cases hbody
      | ok body => exact ⟨body, by rw [hobject] at hbody; exact hbody⟩
    · cases h

/-- There is room for one tree at least in every request to parse. -/
theorem limit_pos_of_withBody {r : Request} {n : Int} {body : ParseRequest}
    (h : withBody r ParseRequest.ofJson = .ok (n, body)) : 0 < body.limit := by
  obtain ⟨-, j, hread⟩ := withBody_eq_ok h
  exact limit_pos_of_ofJson hread

end Api

end Earley
