import Earley.Groups
import Mathlib.Data.List.Basic
import Mathlib.Data.List.Induction

namespace Earley.Groups

variable {α : Type}

private theorem get_add (groups : Groups α) (key k : String) (a : α) :
    (groups.add key a).get k = groups.get k ++ if key = k then [a] else [] := by
  induction groups with
  | nil => simp [add, get]
  | cons group rest ih =>
    obtain ⟨first, as⟩ := group
    rw [add]
    by_cases hfirst : first = key
    · by_cases hk : first = k
      · simp [get, ← hfirst, hk]
      · simp [get, ← hfirst, hk]
    · by_cases hk : first = k
      · simp [get, hfirst, ← hk, Ne.symm hfirst]
      · simp [get, hfirst, hk, ih]

private theorem keys_cons (group : String × List α) (rest : Groups α) :
    keys (group :: rest) = group.1 :: keys rest := rfl

private theorem keys_add (groups : Groups α) (key : String) (a : α) :
    (groups.add key a).keys = if key ∈ groups.keys then groups.keys else groups.keys ++ [key] := by
  induction groups with
  | nil => rfl
  | cons group rest ih =>
    obtain ⟨first, as⟩ := group
    rw [add]
    by_cases hfirst : first = key
    · simp [keys_cons, hfirst]
    · rw [if_neg (by simpa using hfirst), keys_cons, keys_cons, ih]
      by_cases hmem : key ∈ keys rest
      · rw [if_pos hmem, if_pos (List.mem_cons_of_mem _ hmem)]
      · rw [if_neg hmem, if_neg (List.not_mem_cons_of_ne_of_not_mem (Ne.symm hfirst) hmem),
          List.cons_append]

/-- The elements of a key are those of the row that have it, in their order. -/
theorem get_ofList (key : α → String) (as : List α) (k : String) :
    (ofList key as).get k = as.filter (key · == k) := by
  induction as using List.reverseRecOn with
  | nil => rfl
  | append_singleton as a ih =>
    rw [ofList_append_singleton, get_add, ih, List.filter_append]
    by_cases hk : key a = k
    · simp [hk]
    · simp [hk]

/-- One more key at the end counts only if it is new. -/
theorem eraseDups_append_singleton (keys : List String) (key : String) :
    (keys ++ [key]).eraseDups = if key ∈ keys then keys.eraseDups else keys.eraseDups ++ [key] := by
  rw [List.eraseDups_append, List.removeAll]
  by_cases hmem : key ∈ keys
  · simp [hmem]
  · simp [hmem, List.eraseDups_cons]

/-- The keys are those of the row, each where it comes first. -/
theorem keys_ofList (key : α → String) (as : List α) :
    (ofList key as).keys = (as.map key).eraseDups := by
  induction as using List.reverseRecOn with
  | nil => rfl
  | append_singleton as a ih =>
    rw [ofList_append_singleton, keys_add, ih, List.map_append, List.map_singleton,
      eraseDups_append_singleton]
    exact if_congr List.mem_eraseDups rfl rfl

private theorem nodup_keys_ofList (key : α → String) (as : List α) : (ofList key as).keys.Nodup := by
  induction as using List.reverseRecOn with
  | nil => exact List.nodup_nil
  | append_singleton as a ih =>
    rw [ofList_append_singleton, keys_add]
    split
    · exact ih
    · next hnew => exact List.nodup_append.2 ⟨ih, by simp, by grind⟩

/-- Elements in the order of their groups, where no key comes twice. -/
theorem flatMap_snd {groups : Groups α} (h : groups.keys.Nodup) :
    groups.flatMap Prod.snd = groups.keys.flatMap groups.get := by
  induction groups with
  | nil => rfl
  | cons group rest ih =>
    obtain ⟨first, as⟩ := group
    obtain ⟨hfirst, hrest⟩ := List.nodup_cons.1 h
    have hget : ∀ k ∈ keys rest, get ((first, as) :: rest) k = get rest k := by
      intro k hk
      rw [get, if_neg (by simpa using fun heq : first = k => hfirst (heq ▸ hk))]
    rw [keys_cons, List.flatMap_cons, List.flatMap_cons, List.flatMap_congr hget, ih hrest]
    simp [get]

/-- The elements of a row, each behind those before it with the same key. -/
theorem flatMap_snd_ofList (key : α → String) (as : List α) :
    (ofList key as).flatMap Prod.snd =
      (as.map key).eraseDups.flatMap fun k => as.filter (key · == k) := by
  rw [flatMap_snd (nodup_keys_ofList key as), keys_ofList]
  exact List.flatMap_congr fun k _ => get_ofList key as k

end Earley.Groups
