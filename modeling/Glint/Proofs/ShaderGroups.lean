import Glint.Build
import Glint.Proofs.MergeRule
import Glint.Proofs.PathName
import Mathlib.Data.List.Sort

/-!
# The groups of the shader files of a directory

The files of a directory are met in any order, and each is put into its place. What comes out
does not depend on that order, because the groups are known by what they hold: the stems
ascend, and so do the stages in each group. The latter needs the names to differ: a file name
is its stem and the extension of its stage, so two files of one stem and one stage
would have one name.

## Main definitions

* `ShaderGroup.Holds` — some group has a stem and holds an entry
* `ShaderGroup.IsGrouping` — the groups of the shader files among some names

## Main results

* `Path.eq_of_stem?_of_ofPath?` — the name of a shader file is known by its stem and its stage
* `ShaderGroup.holds_ofNames_iff` — which entries are grouped, and where
* `ShaderGroup.isGrouping_ofNames` — the groups of different names
* `ShaderGroup.IsGrouping.unique` — there is one way to group
-/

namespace Glint

variable {name stem stem' : String} {stage : Stage} {names : List String}

/-! ### Names of shader files -/

/-- A stage is named by its extension alone, if there are no points before it. -/
theorem Stage.eq_extension_of_ofExtension? {ext : String} (h : ofExtension? ext = some stage)
    (hpoint : '.' ∉ ext.toList) : ext = stage.extension := by
  have hname := List.find?_some h
  have hkept : ext.toList.dropWhile (· == '.') = ext.toList := by
    cases hext : ext.toList with
    | nil => rfl
    | cons c cs =>
      rw [List.dropWhile_cons_of_neg]
      rw [beq_iff_eq]
      rintro rfl
      exact hpoint (by simp [hext])
  rw [hkept, beq_iff_eq, String.toList_inj] at hname
  exact hname.symm

/-- The stage of a shader file is that of its name in a directory. -/
theorem Stage.ofPath?_join (dir : String) (h : ofPath? name = some stage) :
    ofPath? (Path.join dir name) = some stage := by
  obtain ⟨ext, hext, hstage⟩ := Option.bind_eq_some_iff.mp h
  exact Option.bind_eq_some_iff.mpr ⟨ext, Path.extension?_join dir hext, hstage⟩

/-- A shader file is known by its stem and its stage. -/
theorem Path.eq_of_stem?_of_ofPath? (hslash : '/' ∉ name.toList)
    (hstage : Stage.ofPath? name = some stage) (hstem : stem? name = some stem) :
    name = stem ++ "." ++ stage.extension := by
  obtain ⟨ext, hext, hofExtension⟩ := Option.bind_eq_some_iff.mp hstage
  obtain ⟨hname, hpoint⟩ := eq_of_stem?_of_extension? hslash hstem hext
  rw [hname, Stage.eq_extension_of_ofExtension? hofExtension hpoint]

/-! ### The entries of one group -/

namespace ShaderEntry

/-- The stage of an entry comes before that of another. -/
def Precedes (a b : ShaderEntry) : Prop :=
  a.stage.rank < b.stage.rank

instance : Std.Irrefl Precedes :=
  ⟨fun a => Nat.lt_irrefl a.stage.rank⟩

instance : Std.Antisymm Precedes :=
  ⟨fun _ _ h h' => absurd h' (Nat.lt_asymm h)⟩

theorem before_iff_of_ne {a b : ShaderEntry} (h : a.stage ≠ b.stage) :
    a.before b = true ↔ a.Precedes b := by
  have hrank : a.stage.rank ≠ b.stage.rank := fun heq => h (Stage.rank_injective heq)
  simp [before, Precedes, hrank]

end ShaderEntry

namespace ShaderGroup

variable {entry new : ShaderEntry} {entries : List ShaderEntry} {group : ShaderGroup}
  {groups groups' : List ShaderGroup}

theorem mem_insertEntry : entry ∈ insertEntry new entries ↔ entry = new ∨ entry ∈ entries := by
  induction entries with
  | nil => simp [insertEntry]
  | cons old entries ih =>
    rw [insertEntry]
    split
    · rw [List.mem_cons, ih, List.mem_cons, or_left_comm]
    · rw [List.mem_cons]

/-- An entry of a new stage keeps the stages in order. -/
theorem pairwise_insertEntry (h : entries.Pairwise ShaderEntry.Precedes)
    (hnew : ∀ old ∈ entries, old.stage ≠ new.stage) :
    (insertEntry new entries).Pairwise ShaderEntry.Precedes := by
  induction entries with
  | nil => simp [insertEntry]
  | cons old entries ih =>
    obtain ⟨hold, hrest⟩ := List.pairwise_cons.mp h
    obtain ⟨hne, hnew⟩ := List.forall_mem_cons.mp hnew
    rw [insertEntry]
    split
    · rename_i hbefore
      refine List.pairwise_cons.mpr ⟨?_, ih hrest hnew⟩
      intro entry hentry
      rcases mem_insertEntry.mp hentry with rfl | hentry
      · exact (ShaderEntry.before_iff_of_ne hne).mp hbefore
      · exact hold entry hentry
    · rename_i hbefore
      -- Names are not compared, since the stages differ.
      rw [ShaderEntry.before_iff_of_ne hne] at hbefore
      have hfirst : new.Precedes old := by
        have hrank : old.stage.rank ≠ new.stage.rank := fun heq => hne (Stage.rank_injective heq)
        exact Nat.lt_of_le_of_ne (Nat.not_lt.mp hbefore) hrank.symm
      refine List.pairwise_cons.mpr ⟨?_, h⟩
      intro entry hentry
      rcases List.mem_cons.mp hentry with rfl | hentry
      · exact hfirst
      · exact Nat.lt_trans hfirst (hold entry hentry)

/-! ### Putting an entry into its group -/

/-- Some group has a stem and holds an entry. -/
def Holds (groups : List ShaderGroup) (stem : String) (entry : ShaderEntry) : Prop :=
  ∃ group ∈ groups, group.stem = stem ∧ entry ∈ group.entries

theorem holds_cons_iff : Holds (group :: groups) stem entry ↔
    group.stem = stem ∧ entry ∈ group.entries ∨ Holds groups stem entry := by
  simp [Holds]

/-- A group is there already, or is that of the new entry. -/
theorem mem_insert (h : group ∈ insert stem new groups) :
    group ∈ groups ∨ group = ⟨stem, [new]⟩ ∨
      ∃ old ∈ groups, old.stem = stem ∧ group = ⟨stem, insertEntry new old.entries⟩ := by
  induction groups with
  | nil => exact .inr (.inl (List.mem_singleton.mp h))
  | cons first groups ih =>
    rw [insert] at h
    split at h
    · rename_i hstem
      rcases List.mem_cons.mp h with rfl | h
      · exact .inr (.inr ⟨first, List.mem_cons_self, hstem, rfl⟩)
      · exact .inl (List.mem_cons_of_mem _ h)
    · split at h
      · rcases List.mem_cons.mp h with rfl | h
        · exact .inr (.inl rfl)
        · exact .inl h
      · rcases List.mem_cons.mp h with rfl | h
        · exact .inl List.mem_cons_self
        · rcases ih h with h | h | ⟨old, hold, hgroup⟩
          · exact .inl (List.mem_cons_of_mem _ h)
          · exact .inr (.inl h)
          · exact .inr (.inr ⟨old, List.mem_cons_of_mem _ hold, hgroup⟩)

/-- The groups hold the new entry under its stem, and what they held before. -/
theorem holds_insert_iff : Holds (insert stem new groups) stem' entry ↔
    stem = stem' ∧ entry = new ∨ Holds groups stem' entry := by
  induction groups with
  | nil => simp [insert, Holds]
  | cons first groups ih =>
    rw [insert, holds_cons_iff]
    split
    · rename_i hstem
      subst hstem
      rw [holds_cons_iff, mem_insertEntry, and_or_left, or_assoc]
    · split
      · rw [holds_cons_iff, holds_cons_iff, List.mem_singleton]
      · rw [holds_cons_iff, ih, or_left_comm]

/-- The stems of groups ascend. -/
def Ascending (groups : List ShaderGroup) : Prop :=
  groups.Pairwise (·.stem < ·.stem)

theorem Ascending.insert (h : Ascending groups) (stem : String) (new : ShaderEntry) :
    Ascending (insert stem new groups) := by
  induction groups with
  | nil => exact List.pairwise_singleton _ _
  | cons first groups ih =>
    obtain ⟨hfirst, hrest⟩ := List.pairwise_cons.mp h
    rw [ShaderGroup.insert]
    split
    · rename_i hstem
      exact List.pairwise_cons.mpr ⟨hstem ▸ hfirst, hrest⟩
    · rename_i hne
      split
      · rename_i hlt
        -- The new group stands in front of one that was in front before.
        refine List.pairwise_cons.mpr ⟨?_, h⟩
        intro group hgroup
        rcases List.mem_cons.mp hgroup with rfl | hgroup
        · exact hlt
        · exact String.lt_trans hlt (hfirst group hgroup)
      · rename_i hnlt
        have hgt : first.stem < stem := by
          by_contra hnot
          exact hne (String.le_antisymm (String.not_lt.mp hnlt) (String.not_lt.mp hnot))
        refine List.pairwise_cons.mpr ⟨?_, ih hrest⟩
        intro group hgroup
        rcases mem_insert hgroup with hgroup | rfl | ⟨old, -, -, rfl⟩
        · exact hfirst group hgroup
        · exact hgt
        · exact hgt

theorem Ascending.nodup_stems (h : Ascending groups) : (groups.map ShaderGroup.stem).Nodup := by
  refine (List.pairwise_map.mpr h).imp ?_
  rintro stem _ hlt rfl
  exact String.lt_irrefl stem hlt

/-! ### The groups of names -/

theorem ofNames_concat (names : List String) (name : String) :
    ofNames (names ++ [name]) = insertName (ofNames names) name := by
  rw [ofNames, List.foldl_append]
  rfl

/-- A name is put into the group of its stem, or is not that of a shader file. -/
theorem insertName_cases (groups : List ShaderGroup) (name : String) :
    (∃ stage stem, Stage.ofPath? name = some stage ∧ Path.stem? name = some stem ∧
      insertName groups name = insert stem ⟨stage, name⟩ groups) ∨
    (¬ ∃ stage stem, Stage.ofPath? name = some stage ∧ Path.stem? name = some stem) ∧
      insertName groups name = groups := by
  rw [insertName]
  split
  · rename_i stage stem hstage hstem
    exact .inl ⟨stage, stem, hstage, hstem, rfl⟩
  · rename_i hnone
    refine .inr ⟨?_, rfl⟩
    rintro ⟨stage, stem, hstage, hstem⟩
    exact hnone stage stem hstage hstem

/-- The groups hold the shader files among the names, each under its stem. -/
theorem holds_ofNames_iff :
    Holds (ofNames names) stem ⟨stage, name⟩ ↔
      name ∈ names ∧ Stage.ofPath? name = some stage ∧ Path.stem? name = some stem := by
  induction names using List.reverseRecOn with
  | nil => simp [ofNames, Holds]
  | append_singleton names last ih =>
    rw [ofNames_concat, List.mem_append, List.mem_singleton, or_and_right, ← ih, or_comm]
    rcases insertName_cases (ofNames names) last with
      ⟨stage', stem', hstage, hstem, hinsert⟩ | ⟨hnone, hinsert⟩
    · rw [hinsert, holds_insert_iff]
      refine or_congr ?_ Iff.rfl
      constructor
      · rintro ⟨rfl, hentry⟩
        obtain ⟨rfl, rfl⟩ := ShaderEntry.mk.inj hentry
        exact ⟨rfl, hstage, hstem⟩
      · rintro ⟨rfl, hstage', hstem'⟩
        obtain rfl := Option.some.inj (hstage.symm.trans hstage')
        exact ⟨Option.some.inj (hstem.symm.trans hstem'), rfl⟩
    · rw [hinsert]
      refine (or_iff_right ?_).symm
      rintro ⟨rfl, hstage, hstem⟩
      exact hnone ⟨stage, stem, hstage, hstem⟩

theorem ascending_ofNames (names : List String) : Ascending (ofNames names) := by
  induction names using List.reverseRecOn with
  | nil => exact List.Pairwise.nil
  | append_singleton names last ih =>
    rw [ofNames_concat]
    rcases insertName_cases (ofNames names) last with ⟨_, _, _, _, hinsert⟩ | ⟨-, hinsert⟩
    · rw [hinsert]
      exact ih.insert _ _
    · rwa [hinsert]

/-- There is no group without an entry. -/
theorem entries_ne_nil_of_mem_ofNames (h : group ∈ ofNames names) : group.entries ≠ [] := by
  induction names using List.reverseRecOn generalizing group with
  | nil => cases h
  | append_singleton names last ih =>
    rw [ofNames_concat] at h
    rcases insertName_cases (ofNames names) last with ⟨_, _, _, _, hinsert⟩ | ⟨-, hinsert⟩
    · rw [hinsert] at h
      rcases mem_insert h with h | rfl | ⟨old, -, -, rfl⟩
      · exact ih h
      · simp
      · exact List.ne_nil_of_mem (mem_insertEntry.mpr (.inl rfl))
    · rw [hinsert] at h
      exact ih h

/-- The stages of a group ascend, if the names in the directory differ. -/
theorem pairwise_of_mem_ofNames (hnodup : names.Nodup) (hslash : ∀ n ∈ names, '/' ∉ n.toList)
    (h : group ∈ ofNames names) : group.entries.Pairwise ShaderEntry.Precedes := by
  induction names using List.reverseRecOn generalizing group with
  | nil => cases h
  | append_singleton names last ih =>
    rw [← List.concat_eq_append, List.nodup_concat] at hnodup
    obtain ⟨hnew, hnodup⟩ := hnodup
    obtain ⟨hslash, hlast⟩ := List.forall_mem_append.mp hslash
    rw [List.forall_mem_singleton] at hlast
    rw [ofNames_concat] at h
    rcases insertName_cases (ofNames names) last with
      ⟨stage, stem, hstage, hstem, hinsert⟩ | ⟨-, hinsert⟩
    · rw [hinsert] at h
      rcases mem_insert h with h | rfl | ⟨old, hold, holdstem, rfl⟩
      · exact ih hnodup hslash h
      · exact List.pairwise_singleton _ _
      · apply pairwise_insertEntry (ih hnodup hslash hold)
        rintro ⟨stage', name⟩ hentry rfl
        -- An entry of the same stem and stage has the same name.
        obtain ⟨hname, hstage', hstem'⟩ := holds_ofNames_iff.mp ⟨old, hold, holdstem, hentry⟩
        have heq := Path.eq_of_stem?_of_ofPath? (hslash name hname) hstage' hstem'
        rw [← Path.eq_of_stem?_of_ofPath? hlast hstage hstem] at heq
        exact hnew (heq ▸ hname)
    · rw [hinsert] at h
      exact ih hnodup hslash h

/-- The groups of the shader files among some names: the stems ascend, every group holds
the files of its stem and no others, at least one, and its stages ascend. -/
structure IsGrouping (names : List String) (groups : List ShaderGroup) : Prop where
  ascending : Ascending groups
  nonempty : ∀ group ∈ groups, group.entries ≠ []
  stages : ∀ group ∈ groups, group.entries.Pairwise ShaderEntry.Precedes
  holds_iff : ∀ stem stage name, Holds groups stem ⟨stage, name⟩ ↔
    name ∈ names ∧ Stage.ofPath? name = some stage ∧ Path.stem? name = some stem

theorem isGrouping_ofNames (hnodup : names.Nodup) (hslash : ∀ n ∈ names, '/' ∉ n.toList) :
    IsGrouping names (ofNames names) where
  ascending := ascending_ofNames names
  nonempty _ := entries_ne_nil_of_mem_ofNames
  stages _ := pairwise_of_mem_ofNames hnodup hslash
  holds_iff _ _ _ := holds_ofNames_iff

namespace IsGrouping

/-- Grouping does not depend on the order of the names. -/
theorem perm {names' : List String} (h : IsGrouping names groups) (hperm : names.Perm names') :
    IsGrouping names' groups := by
  refine { h with holds_iff := ?_ }
  intro stem stage name
  rw [h.holds_iff, hperm.mem_iff]

/-- The stems are those of shader files. -/
theorem mem_stems_iff (h : IsGrouping names groups) :
    stem ∈ groups.map ShaderGroup.stem ↔ ∃ entry, Holds groups stem entry := by
  rw [List.mem_map]
  constructor
  · rintro ⟨group, hgroup, rfl⟩
    obtain ⟨entry, hentry⟩ := List.exists_mem_of_ne_nil _ (h.nonempty group hgroup)
    exact ⟨entry, group, hgroup, rfl, hentry⟩
  · rintro ⟨entry, group, hgroup, hstem, -⟩
    exact ⟨group, hgroup, hstem⟩

/-- A group holds what is held under its stem. -/
theorem mem_entries_iff (h : IsGrouping names groups) (hgroup : group ∈ groups) :
    entry ∈ group.entries ↔ Holds groups group.stem entry := by
  constructor
  · intro hentry
    exact ⟨group, hgroup, rfl, hentry⟩
  · rintro ⟨other, hother, hstem, hentry⟩
    obtain rfl := List.inj_on_of_nodup_map h.ascending.nodup_stems hother hgroup hstem
    exact hentry

/-- There is one way to group names. -/
theorem unique (h : IsGrouping names groups) (h' : IsGrouping names groups') :
    groups = groups' := by
  have hholds : ∀ stem entry, Holds groups stem entry ↔ Holds groups' stem entry :=
    fun stem entry => (h.holds_iff stem entry.stage entry.name).trans
      (h'.holds_iff stem entry.stage entry.name).symm
  -- Ascending lists are known by their members: first the stems, then the entries of each.
  have hstems : groups.map ShaderGroup.stem = groups'.map ShaderGroup.stem := by
    apply (List.pairwise_map.mpr h.ascending).eq_of_mem_iff (List.pairwise_map.mpr h'.ascending)
    intro stem
    rw [h.mem_stems_iff, h'.mem_stems_iff]
    exact exists_congr (hholds stem)
  apply eq_of_map_eq hstems
  rintro ⟨stem, entries⟩ hgroup ⟨stem', entries'⟩ hgroup' rfl
  have hentries : entries = entries' := by
    apply (h.stages _ hgroup).eq_of_mem_iff (h'.stages _ hgroup')
    intro entry
    exact (h.mem_entries_iff hgroup).trans
      ((hholds stem entry).trans (h'.mem_entries_iff hgroup').symm)
  rw [hentries]

end IsGrouping

/-- The groups do not depend on the order in which the files of a directory are listed. -/
theorem ofNames_perm {names' : List String} (hperm : names'.Perm names) (hnodup : names.Nodup)
    (hslash : ∀ n ∈ names, '/' ∉ n.toList) : ofNames names' = ofNames names := by
  have hgrouping' : IsGrouping names' (ofNames names') :=
    isGrouping_ofNames (hperm.nodup_iff.mpr hnodup) fun n hn => hslash n (hperm.mem_iff.mp hn)
  exact (hgrouping'.perm hperm).unique (isGrouping_ofNames hnodup hslash)

/-- A point at the start of a name begins no extension, and the last one ends the stem. -/
example : ofNames ["a.b.frag", "a.b.vert", ".vert", "a.vert", "a.json"] =
    [⟨"a", [⟨.vertex, "a.vert"⟩]⟩,
      ⟨"a.b", [⟨.vertex, "a.b.vert"⟩, ⟨.fragment, "a.b.frag"⟩]⟩] := by
  decide +kernel

end ShaderGroup

end Glint
