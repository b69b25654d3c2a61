import Glint.Proofs.Outcome
import Mathlib.Data.List.Induction
import Mathlib.Data.List.Nodup

/-!
# Merging by key

Descriptors are kept by binding, push constant fields by name and push constant
ranges by stage, always in the same way: an entry with a new key goes to the end
of the list, and an entry whose key is there already is joined to the one it
meets, or refused. This file states that once, for any way of joining.

A run over a list of entries depends only on the groups of entries with equal
keys. It succeeds exactly if every group can be joined from its first entry on,
and then holds one element for each group, in the order in which the keys were
first seen.

## Main definitions

* `MergeRule` — keys, and how an entry joins an element with its key
* `MergeRule.insert` — put one entry into a list
* `MergeRule.joinAll?` — an element joined from entries one after the other
* `MergeRule.Merged` — a list holds the joined groups of some entries

## Main results

* `MergeRule.merged_of_insertAll` — a run that succeeds holds the joined groups
* `MergeRule.exists_of_insertAll_eq_error` — a run that fails met a group that cannot be
  joined
* `MergeRule.Merged.perm` — groups that look alike in two lists of entries look alike in
  what is merged from them
-/

namespace Glint

/-- Lists with the same keys, in which a key says which element has it, are the same. -/
theorem eq_of_map_eq {α β : Type} {f : α → β} {as bs : List α} (hmap : as.map f = bs.map f)
    (h : ∀ a ∈ as, ∀ b ∈ bs, f a = f b → a = b) : as = bs := by
  induction as generalizing bs with
  | nil =>
    cases bs with
    | nil => rfl
    | cons b bs => cases hmap
  | cons a as ih =>
    cases bs with
    | nil => cases hmap
    | cons b bs =>
      obtain ⟨hhead, htail⟩ := List.cons.inj hmap
      have hrest := ih htail fun a' ha' b' hb' =>
        h a' (List.mem_cons_of_mem a ha') b' (List.mem_cons_of_mem b hb')
      rw [h a List.mem_cons_self b List.mem_cons_self hhead, hrest]

/-- How entries are kept by key: the key of an entry and of a kept element, the element that
an entry starts, and how an element takes up an entry with its key. An entry that it cannot
take up is a conflict. -/
structure MergeRule (α β κ ε : Type) where
  keyOf : α → κ
  key : β → κ
  start : β → α
  join? : α → β → Option α
  conflict : β → ε
  keyOf_start : ∀ b, keyOf (start b) = key b
  keyOf_join? : ∀ {a b joined}, join? a b = some joined → keyOf joined = keyOf a

namespace MergeRule

variable {α β κ ε : Type} [DecidableEq κ] (rule : MergeRule α β κ ε)

/-- Put an entry into a list: into the first element with its key, else at the end. -/
def insert (new : β) : List α → Except ε (List α)
  | [] => .ok [rule.start new]
  | a :: as =>
    if rule.keyOf a = rule.key new then
      match rule.join? a new with
      | some joined => .ok (joined :: as)
      | none => .error (rule.conflict new)
    else (insert new as).map (a :: ·)

/-- Put entries into a list one after the other. -/
def insertAll (as : List α) (bs : List β) : Except ε (List α) :=
  bs.foldlM (fun as b => rule.insert b as) as

/-- The first element with a key. -/
def lookup? (k : κ) (as : List α) : Option α :=
  as.find? fun a => rule.keyOf a = k

/-- The entries with a key, in order. -/
def group (k : κ) (bs : List β) : List β :=
  bs.filter fun b => rule.key b = k

/-- The element that the first of some entries starts, joined with the others in order. -/
def joinAll? : List β → Option α
  | [] => none
  | b :: bs => bs.foldlM rule.join? (rule.start b)

/-- The list holds the joined groups of some entries in the order of their first keys. -/
structure Merged (bs : List β) (as : List α) : Prop where
  keys : as.map rule.keyOf = (bs.map rule.key).eraseDups
  joined : ∀ k, rule.lookup? k as = rule.joinAll? (rule.group k bs)

variable {rule} {as as' : List α} {bs : List β} {a : α} {b : β} {k : κ}

/-! ### One entry -/

@[simp] theorem lookup?_nil : rule.lookup? k [] = none := rfl

theorem lookup?_cons :
    rule.lookup? k (a :: as) = if rule.keyOf a = k then some a else rule.lookup? k as := by
  rw [lookup?, List.find?_cons]
  by_cases h : rule.keyOf a = k <;> simp [h, lookup?]

theorem lookup?_eq_none_iff : rule.lookup? k as = none ↔ k ∉ as.map rule.keyOf := by
  simp [lookup?]

/-- The keys after an entry has been put in: its key comes last if it is new. -/
theorem keys_insert (h : rule.insert b as = .ok as') :
    as'.map rule.keyOf =
      if rule.key b ∈ as.map rule.keyOf then as.map rule.keyOf
      else as.map rule.keyOf ++ [rule.key b] := by
  induction as generalizing as' with
  | nil =>
    cases h
    simp [rule.keyOf_start]
  | cons a as ih =>
    rw [insert] at h
    split at h
    · rename_i hkey
      split at h
      · rename_i joined hjoin
        cases h
        simp [rule.keyOf_join? hjoin, hkey]
      · cases h
    · rename_i hkey
      obtain ⟨rest, hrest, rfl⟩ := Outcome.map_eq_ok.mp h
      have hne : ¬ rule.key b = rule.keyOf a := fun heq => hkey heq.symm
      simp only [List.map_cons, ih hrest, List.mem_cons, hne, false_or]
      split <;> rfl

/-- What is found after an entry has been put in: under its key the element that took it up
or that it started, and under every other key what was there before. -/
theorem lookup?_insert (h : rule.insert b as = .ok as') (k : κ) :
    rule.lookup? k as' =
      if k = rule.key b then
        match rule.lookup? k as with
        | some a => rule.join? a b
        | none => some (rule.start b)
      else rule.lookup? k as := by
  induction as generalizing as' with
  | nil =>
    cases h
    by_cases hk : k = rule.key b
    · simp [lookup?_cons, rule.keyOf_start, hk]
    · simp [lookup?_cons, rule.keyOf_start, hk, Ne.symm hk]
  | cons a as ih =>
    rw [insert] at h
    split at h
    · rename_i hkey
      split at h
      · rename_i joined hjoin
        cases h
        have hkey' := (rule.keyOf_join? hjoin).trans hkey
        by_cases hk : k = rule.key b
        · simp [lookup?_cons, hk, hkey, hkey', hjoin]
        · simp [lookup?_cons, hk, hkey, hkey', Ne.symm hk]
      · cases h
    · rename_i hkey
      obtain ⟨rest, hrest, rfl⟩ := Outcome.map_eq_ok.mp h
      -- The element in front has another key, and every key is looked up after it.
      rw [lookup?_cons, lookup?_cons, ih hrest]
      by_cases hk : k = rule.key b
      · subst hk
        simp [hkey]
      · simp [hk]

/-- An entry is refused only by the element with its key. -/
theorem insert_eq_error {e : ε} (h : rule.insert b as = .error e) :
    e = rule.conflict b ∧ ∃ a, rule.lookup? (rule.key b) as = some a ∧ rule.join? a b = none := by
  induction as with
  | nil => cases h
  | cons a as ih =>
    rw [insert] at h
    split at h
    · rename_i hkey
      split at h
      · cases h
      · rename_i hjoin
        cases h
        exact ⟨rfl, a, by simp [lookup?_cons, hkey], hjoin⟩
    · rename_i hkey
      obtain ⟨he, a', hfound, hjoin⟩ := ih (Outcome.map_eq_error.mp h)
      exact ⟨he, a', by rw [lookup?_cons, if_neg hkey, hfound], hjoin⟩

/-! ### Groups -/

theorem group_concat_of_ne (h : k ≠ rule.key b) :
    rule.group k (bs ++ [b]) = rule.group k bs := by
  simp [group, Ne.symm h]

theorem group_concat_self :
    rule.group (rule.key b) (bs ++ [b]) = rule.group (rule.key b) bs ++ [b] := by
  simp [group]

theorem group_eq_nil_iff : rule.group k bs = [] ↔ k ∉ bs.map rule.key := by
  simp [group]

omit [DecidableEq κ] in
theorem joinAll?_append (h : bs ≠ []) (bs' : List β) :
    rule.joinAll? (bs ++ bs') = (rule.joinAll? bs).bind fun a => bs'.foldlM rule.join? a := by
  cases bs with
  | nil => exact absurd rfl h
  | cons b bs => exact List.foldlM_append

omit [DecidableEq κ] in
/-- Entries that cannot be joined cannot be joined with more entries after them. -/
theorem joinAll?_append_eq_none (h : bs ≠ []) (hnone : rule.joinAll? bs = none) (bs' : List β) :
    rule.joinAll? (bs ++ bs') = none := by
  rw [joinAll?_append h, hnone]
  rfl

/-! ### Runs -/

theorem eraseDups_concat (ks : List κ) (k : κ) :
    (ks ++ [k]).eraseDups = if k ∈ ks then ks.eraseDups else ks.eraseDups ++ [k] := by
  rw [List.eraseDups_append]
  by_cases h : k ∈ ks <;> simp [h, List.removeAll, List.eraseDups_cons]

theorem nodup_eraseDups (ks : List κ) : ks.eraseDups.Nodup := by
  induction ks using List.reverseRecOn with
  | nil => simp
  | append_singleton ks k ih =>
    rw [eraseDups_concat]
    split
    · exact ih
    · rename_i h
      rw [← List.concat_eq_append]
      exact ih.concat (by rwa [List.mem_eraseDups])

namespace Merged

theorem nil : rule.Merged [] [] :=
  ⟨rfl, fun _ => rfl⟩

theorem nodup (h : rule.Merged bs as) : (as.map rule.keyOf).Nodup :=
  h.keys ▸ nodup_eraseDups _

theorem mem_keys_iff (h : rule.Merged bs as) : k ∈ as.map rule.keyOf ↔ k ∈ bs.map rule.key := by
  rw [h.keys, List.mem_eraseDups]

/-- Every key that occurs has an element. -/
theorem exists_joined (h : rule.Merged bs as) (hk : k ∈ bs.map rule.key) :
    ∃ a, rule.joinAll? (rule.group k bs) = some a := by
  rw [← h.joined k, ← Option.ne_none_iff_exists', ne_eq, lookup?_eq_none_iff, not_not]
  exact h.mem_keys_iff.mpr hk

/-- Putting in one more entry keeps the groups joined. -/
theorem insert (h : rule.Merged bs as) (hins : rule.insert b as = .ok as') :
    rule.Merged (bs ++ [b]) as' := by
  constructor
  · rw [keys_insert hins, List.map_append, List.map_singleton, eraseDups_concat, ← h.keys]
    simp only [h.mem_keys_iff]
  · intro k
    rw [lookup?_insert hins k]
    split
    · rename_i hk
      subst hk
      rw [group_concat_self]
      split
      · rename_i a hfound
        -- The key was there, so its group goes on.
        have hne : rule.group (rule.key b) bs ≠ [] := by
          rw [ne_eq, group_eq_nil_iff, not_not, ← h.mem_keys_iff]
          by_contra hnew
          rw [lookup?_eq_none_iff.mpr hnew] at hfound
          cases hfound
        rw [joinAll?_append hne, ← h.joined, hfound]
        simp
      · rename_i hnew
        -- The key is new, so its group begins with the entry.
        rw [lookup?_eq_none_iff, h.mem_keys_iff, ← group_eq_nil_iff] at hnew
        rw [hnew]
        rfl
    · rename_i hk
      rw [group_concat_of_ne hk, h.joined]

/-- An element of the list is what the entries with its key are joined to. -/
theorem joinAll?_keyOf (h : rule.Merged bs as) (ha : a ∈ as) :
    rule.joinAll? (rule.group (rule.keyOf a) bs) = some a := by
  rw [← h.joined]
  have hnodup := h.nodup
  clear h
  induction as with
  | nil => cases ha
  | cons a' as ih =>
    rw [List.map_cons, List.nodup_cons] at hnodup
    rw [lookup?_cons]
    rcases List.mem_cons.mp ha with rfl | ha
    · rw [if_pos rfl]
    · have hne : rule.keyOf a' ≠ rule.keyOf a := fun heq =>
        hnodup.1 (heq ▸ List.mem_map_of_mem ha)
      rw [if_neg hne, ih ha hnodup.2]

/-- The list is read off the groups, key by key. -/
theorem eq_filterMap (h : rule.Merged bs as) :
    as = (bs.map rule.key).eraseDups.filterMap fun k => rule.joinAll? (rule.group k bs) := by
  rw [← h.keys, List.filterMap_map]
  calc
    as = as.filterMap some := List.filterMap_some.symm
    _ = _ := List.filterMap_congr fun a ha => (h.joinAll?_keyOf ha).symm

/-- Two lists of entries with the same keys, whose groups are joined to elements that look
alike, are merged to lists that look alike up to order. -/
theorem perm {γ : Type} {bs' : List β} (view : α → γ) (h : rule.Merged bs as)
    (h' : rule.Merged bs' as') (hkeys : ∀ k, k ∈ bs.map rule.key ↔ k ∈ bs'.map rule.key)
    (hview : ∀ k, (rule.joinAll? (rule.group k bs)).map view =
      (rule.joinAll? (rule.group k bs')).map view) :
    (as.map view).Perm (as'.map view) := by
  -- Both lists are read off the same keys, in different orders.
  have hperm : (bs.map rule.key).eraseDups.Perm (bs'.map rule.key).eraseDups := by
    rw [List.perm_ext_iff_of_nodup (nodup_eraseDups _) (nodup_eraseDups _)]
    simpa only [List.mem_eraseDups] using hkeys
  rw [h.eq_filterMap, h'.eq_filterMap, List.map_filterMap, List.map_filterMap]
  simp only [hview]
  exact hperm.filterMap _

end Merged

/-- A run that succeeds holds the joined groups of its entries. -/
theorem merged_of_insertAll (h : rule.insertAll [] bs = .ok as) : rule.Merged bs as := by
  induction bs using List.reverseRecOn generalizing as with
  | nil =>
    cases h
    exact .nil
  | append_singleton bs b ih =>
    obtain ⟨before, hbefore, hins⟩ := Outcome.foldlM_concat_eq_ok.mp h
    exact (ih hbefore).insert hins

/-- A run that fails met an entry whose group cannot be joined. -/
theorem exists_of_insertAll_eq_error {e : ε} (h : rule.insertAll [] bs = .error e) :
    ∃ b ∈ bs, e = rule.conflict b ∧
      ¬ ∃ a, rule.joinAll? (rule.group (rule.key b) bs) = some a := by
  obtain ⟨before, b, after, as, rfl, hbefore, hins⟩ := Outcome.exists_step_of_foldlM_eq_error h
  have hmerged := merged_of_insertAll hbefore
  obtain ⟨he, a, hfound, hjoin⟩ := insert_eq_error hins
  refine ⟨b, by simp, he, ?_⟩
  rw [← Option.ne_none_iff_exists', not_not]
  -- The group fails at the refused entry, whatever comes after it.
  have hsplit : rule.group (rule.key b) (before ++ b :: after) =
      (rule.group (rule.key b) before ++ [b]) ++ rule.group (rule.key b) after := by
    simp [group]
  have hne : rule.group (rule.key b) before ≠ [] := by
    intro hnil
    rw [hmerged.joined, hnil] at hfound
    cases hfound
  rw [hsplit]
  refine joinAll?_append_eq_none (by simp) ?_ _
  rw [joinAll?_append hne, ← hmerged.joined, hfound]
  simp [hjoin]

/-- A run succeeds exactly if the entries with any one key can be joined. -/
theorem exists_insertAll_iff :
    (∃ as, rule.insertAll [] bs = .ok as) ↔
      ∀ b ∈ bs, ∃ a, rule.joinAll? (rule.group (rule.key b) bs) = some a := by
  constructor
  · intro ⟨as, h⟩ b hb
    exact (merged_of_insertAll h).exists_joined (List.mem_map_of_mem hb)
  · intro h
    cases hrun : rule.insertAll [] bs with
    | ok as => exact ⟨as, rfl⟩
    | error e =>
      obtain ⟨b, hb, -, hnone⟩ := exists_of_insertAll_eq_error hrun
      exact absurd (h b hb) hnone

end MergeRule

end Glint
