import Glint.Pipeline
import Glint.Proofs.MergeRule
import Glint.Proofs.StageUnion
import Mathlib.Data.List.Sort

/-!
# What merging makes of descriptor sets

Sets are declared one after the other, with repeated numbers, repeated bindings or no
descriptors at all, and are gathered into a list of sets in ascending order. Each
gathered set holds one descriptor for each binding that was declared in it: the
first one declared there, with the stages of all. Gathering stops exactly if two
descriptors at one binding of one set disagree in kind or size.

## Main definitions

* `Descriptor.mergeRule` — descriptors kept by their binding
* `DescriptorSet.declaredIn`, `DescriptorSet.declaredAt` — what is declared in a set and at
  a binding
* `DescriptorSet.Gathered` — the sets that come of some declared ones

## Main results

* `Descriptor.joinAll?_eq_some_iff` — what the descriptors at one binding are joined to
* `DescriptorSet.gathered_of_foldlM` — gathering that succeeds
* `DescriptorSet.exists_of_foldlM_eq_error` — gathering that fails
-/

namespace Glint

/-! ### The descriptors at one binding -/

namespace Descriptor

/-- Two descriptors may stand at the same binding. -/
def Agrees (a b : Descriptor) : Prop :=
  a.kind = b.kind ∧ a.size = b.size

/-- Descriptors of the set numbered `set`, kept by binding. -/
def mergeRule (set : UInt32) : MergeRule Descriptor Descriptor UInt32 ReflectError where
  keyOf := binding
  key := binding
  start := id
  join? old new :=
    if old.kind = new.kind ∧ old.size = new.size then
      some { old with stages := old.stages.union new.stages }
    else none
  conflict new := .conflictingBinding set new.binding
  keyOf_start _ := rfl
  keyOf_join? h := by
    split at h
    · cases h
      rfl
    · cases h

variable {set : UInt32} {d first : Descriptor} {ds : List Descriptor}

theorem foldlM_join?_eq_some_iff :
    ds.foldlM (mergeRule set).join? first = some d ↔
      (∀ other ∈ ds, first.Agrees other) ∧
        d = { first with stages := (ds.map stages).foldl .union first.stages } := by
  induction ds generalizing first with
  | nil => simp [eq_comm]
  | cons other ds ih =>
    rw [List.foldlM_cons, List.forall_mem_cons]
    by_cases h : first.Agrees other
    · have hjoin : (mergeRule set).join? first other =
          some { first with stages := first.stages.union other.stages } := if_pos h
      rw [hjoin]
      simp only [h, true_and]
      exact ih
    · have hjoin : (mergeRule set).join? first other = none := if_neg h
      simp [hjoin, h]

/-- Descriptors at one binding are joined to the first of them with the stages of all, if
all agree with the first. -/
theorem joinAll?_eq_some_iff :
    (mergeRule set).joinAll? ds = some d ↔
      ∃ first rest, ds = first :: rest ∧ (∀ other ∈ rest, first.Agrees other) ∧
        d = { first with stages := .unionAll (ds.map stages) } := by
  cases ds with
  | nil => simp [MergeRule.joinAll?]
  | cons first rest =>
    have hfold : (mergeRule set).joinAll? (first :: rest) =
        rest.foldlM (mergeRule set).join? first := rfl
    rw [hfold, foldlM_join?_eq_some_iff, List.map_cons, StageSet.unionAll_cons]
    constructor
    · intro ⟨hagree, hd⟩
      exact ⟨first, rest, rfl, hagree, hd⟩
    · rintro ⟨_, _, ⟨⟩, hagree, hd⟩
      exact ⟨hagree, hd⟩

/-- All of some descriptors may stand at the same binding. -/
def AllAgree (ds : List Descriptor) : Prop :=
  ∀ a ∈ ds, ∀ b ∈ ds, a.Agrees b

/-- It is enough that all descriptors agree with the first. -/
theorem allAgree_cons_iff : AllAgree (first :: ds) ↔ ∀ other ∈ ds, first.Agrees other := by
  constructor
  · intro h other hother
    exact h first List.mem_cons_self other (List.mem_cons_of_mem _ hother)
  · intro h
    have hfirst : ∀ a ∈ first :: ds, first.Agrees a :=
      List.forall_mem_cons.mpr ⟨⟨rfl, rfl⟩, h⟩
    intro a ha b hb
    exact ⟨(hfirst a ha).1.symm.trans (hfirst b hb).1, (hfirst a ha).2.symm.trans (hfirst b hb).2⟩

theorem exists_joinAll?_iff :
    (∃ d, (mergeRule set).joinAll? ds = some d) ↔ ds ≠ [] ∧ AllAgree ds := by
  simp only [joinAll?_eq_some_iff]
  cases ds with
  | nil => simp
  | cons first ds =>
    rw [allAgree_cons_iff]
    constructor
    · rintro ⟨_, _, _, ⟨⟩, hagree, -⟩
      exact ⟨List.cons_ne_nil _ _, hagree⟩
    · intro ⟨_, hagree⟩
      exact ⟨_, first, ds, rfl, hagree, rfl⟩

end Descriptor

namespace DescriptorSet

variable {n binding : UInt32} {declared sets sets' : List DescriptorSet}
  {s new : DescriptorSet}

/-! ### One set -/

theorem mergeInto_eq_insert (n : UInt32) (new : Descriptor) (ds : List Descriptor) :
    mergeInto n new ds = (Descriptor.mergeRule n).insert new ds := by
  induction ds with
  | nil => rfl
  | cons d ds ih =>
    rw [mergeInto, MergeRule.insert, ih]
    by_cases hkey : d.binding = new.binding
    · by_cases hagree : d.kind = new.kind ∧ d.size = new.size <;>
        simp [Descriptor.mergeRule, hkey, hagree]
    · simp [Descriptor.mergeRule, hkey]

/-- Descriptors are merged into a set as entries are put into a list. -/
theorem mergeAll_eq (s : DescriptorSet) (new : List Descriptor) :
    s.mergeAll new =
      ((Descriptor.mergeRule s.set).insertAll s.descriptors new).map (⟨s.set, ·⟩) := by
  induction new generalizing s with
  | nil => rfl
  | cons d new ih =>
    rw [mergeAll, List.foldlM_cons, merge, mergeInto_eq_insert, MergeRule.insertAll,
      List.foldlM_cons]
    cases (Descriptor.mergeRule s.set).insert d s.descriptors with
    | error e => rfl
    | ok ds => exact ih ⟨s.set, ds⟩

/-! ### A list of sets in ascending order -/

/-- The first set with a number. -/
def numbered? (n : UInt32) (sets : List DescriptorSet) : Option DescriptorSet :=
  sets.find? fun s => s.set = n

/-- The sets stand in ascending order, each number once. -/
def Ascending (sets : List DescriptorSet) : Prop :=
  sets.Pairwise (·.set < ·.set)

theorem numbered?_cons :
    numbered? n (s :: sets) = if s.set = n then some s else numbered? n sets := by
  rw [numbered?, List.find?_cons]
  by_cases h : s.set = n <;> simp [h, numbered?]

theorem numbered?_eq_none_iff : numbered? n sets = none ↔ n ∉ sets.map set := by
  simp [numbered?]

theorem set_of_numbered? (h : numbered? n sets = some s) : s.set = n := by
  simpa using List.find?_some h

/-- The set with a number, empty if there is none. -/
def at_ (n : UInt32) (sets : List DescriptorSet) : DescriptorSet :=
  (numbered? n sets).getD (empty n)

theorem at_eq_of_numbered? (h : numbered? n sets = some s) : at_ n sets = s := by
  rw [at_, h]
  rfl

theorem set_at_ (n : UInt32) (sets : List DescriptorSet) : (at_ n sets).set = n := by
  cases h : numbered? n sets with
  | none =>
    rw [at_, h]
    rfl
  | some s =>
    rw [at_eq_of_numbered? h]
    exact set_of_numbered? h

/-- Ascending lists with the same numbers list them alike. -/
theorem Ascending.map_set_eq (h : Ascending sets) (h' : Ascending sets')
    (hnumbers : ∀ n, n ∈ sets.map set ↔ n ∈ sets'.map set) : sets.map set = sets'.map set :=
  (List.pairwise_map.mpr h).eq_of_mem_iff (List.pairwise_map.mpr h') hnumbers

theorem Ascending.numbered?_eq_none (h : Ascending (s :: sets)) (hn : n ≤ s.set) :
    numbered? n sets = none := by
  rw [numbered?_eq_none_iff, List.mem_map]
  rintro ⟨other, hother, rfl⟩
  exact UInt32.not_lt.mpr hn (List.rel_of_pairwise_cons h hother)

theorem Ascending.numbered?_of_mem (h : Ascending sets) (hs : s ∈ sets) :
    numbered? s.set sets = some s := by
  induction sets with
  | nil => cases hs
  | cons other sets ih =>
    rw [numbered?_cons]
    rcases List.mem_cons.mp hs with rfl | hs
    · rw [if_pos rfl]
    · have hlt := List.rel_of_pairwise_cons h hs
      rw [if_neg (UInt32.ne_of_lt hlt), ih h.of_cons hs]

theorem Ascending.at_eq (h : Ascending sets) (hs : s ∈ sets) : at_ s.set sets = s :=
  at_eq_of_numbered? (h.numbered?_of_mem hs)

/-- A set of a smaller number can stand before a list in which only one set has changed. -/
theorem Ascending.cons_of_numbered? (h : Ascending (s :: sets)) (hn : s.set < n)
    (hasc : Ascending sets') (hsame : ∀ m, m ≠ n → numbered? m sets' = numbered? m sets) :
    Ascending (s :: sets') := by
  rw [Ascending, List.pairwise_cons]
  refine ⟨?_, hasc⟩
  intro other hother
  by_cases hm : other.set = n
  · rw [hm]
    exact hn
  · -- A set of another number stood in the list before the change.
    have hold : other.set ∈ sets.map set := by
      by_contra hnew
      have hothers := hsame other.set hm
      rw [numbered?_eq_none_iff.mpr hnew, numbered?_eq_none_iff] at hothers
      exact hothers (List.mem_map_of_mem hother)
    obtain ⟨old, hmem, heq⟩ := List.mem_map.mp hold
    exact heq ▸ List.rel_of_pairwise_cons h hmem

section Update

variable {change : DescriptorSet → Except ReflectError DescriptorSet}

/-- A list of sets refuses a change exactly as the set with the number does. -/
theorem update_eq_error {e : ReflectError} (hasc : Ascending sets)
    (h : update n change sets = .error e) : change (at_ n sets) = .error e := by
  induction sets with
  | nil => exact Outcome.map_eq_error.mp h
  | cons s sets ih =>
    rw [update] at h
    rw [at_, numbered?_cons]
    split at h
    · rename_i heq
      rw [if_pos heq]
      exact Outcome.map_eq_error.mp h
    · rename_i hne
      rw [if_neg hne]
      split at h
      · rename_i hlt
        rw [hasc.numbered?_eq_none (UInt32.le_of_lt hlt)]
        exact Outcome.map_eq_error.mp h
      · exact ih hasc.of_cons (Outcome.map_eq_error.mp h)

/-- A change of the set with a number leaves the order and all other sets as they are. -/
theorem update_eq_ok (hasc : Ascending sets)
    (hset : ∀ s', change (at_ n sets) = .ok s' → s'.set = n)
    (h : update n change sets = .ok sets') :
    ∃ s', change (at_ n sets) = .ok s' ∧ Ascending sets' ∧
      ∀ m, numbered? m sets' = if m = n then some s' else numbered? m sets := by
  induction sets generalizing sets' with
  | nil =>
    obtain ⟨s', hs', rfl⟩ := Outcome.map_eq_ok.mp h
    refine ⟨s', hs', List.pairwise_singleton .., ?_⟩
    intro m
    rw [numbered?_cons, hset s' hs']
    simp only [eq_comm]
  | cons s sets ih =>
    rw [update] at h
    split at h
    · rename_i heq
      -- The set with the number is in front.
      have hat : at_ n (s :: sets) = s :=
        at_eq_of_numbered? (by rw [numbered?_cons, if_pos heq])
      rw [hat] at hset ⊢
      obtain ⟨s', hs', rfl⟩ := Outcome.map_eq_ok.mp h
      have hs := hset s' hs'
      refine ⟨s', hs', ?_, ?_⟩
      · rw [Ascending, List.pairwise_cons] at hasc ⊢
        rw [hs, ← heq]
        exact hasc
      · intro m
        rw [numbered?_cons, numbered?_cons, hs, heq]
        by_cases hm : m = n
        · simp [hm]
        · simp [hm, Ne.symm hm]
    · rename_i hne
      split at h
      · rename_i hlt
        -- There is no set with the number, and the new one goes in front.
        have hnone : numbered? n (s :: sets) = none := by
          rw [numbered?_cons, if_neg hne, hasc.numbered?_eq_none (UInt32.le_of_lt hlt)]
        have hat : at_ n (s :: sets) = empty n := by rw [at_, hnone]; rfl
        rw [hat] at hset ⊢
        obtain ⟨s', hs', rfl⟩ := Outcome.map_eq_ok.mp h
        have hs := hset s' hs'
        refine ⟨s', hs', ?_, ?_⟩
        · rw [Ascending, List.pairwise_cons]
          refine ⟨?_, hasc⟩
          intro other hother
          rw [hs]
          rcases List.mem_cons.mp hother with rfl | hother
          · exact hlt
          · exact UInt32.lt_trans hlt (List.rel_of_pairwise_cons hasc hother)
        · intro m
          rw [numbered?_cons, hs]
          simp only [eq_comm]
      · rename_i hnlt
        -- The set with the number belongs further on.
        have hgt : s.set < n := UInt32.lt_of_le_of_ne (UInt32.not_lt.mp hnlt) hne
        have hat : at_ n (s :: sets) = at_ n sets := by
          rw [at_, numbered?_cons, if_neg hne, at_]
        rw [hat] at hset ⊢
        obtain ⟨rest, hrest, rfl⟩ := Outcome.map_eq_ok.mp h
        obtain ⟨s', hs', hasc', hfound⟩ := ih hasc.of_cons hset hrest
        refine ⟨s', hs', ?_, ?_⟩
        · apply hasc.cons_of_numbered? hgt hasc'
          intro m hm
          rw [hfound, if_neg hm]
        · intro m
          rw [numbered?_cons, numbered?_cons, hfound]
          by_cases hm : m = n
          · simp [hm, hne]
          · simp [hm]

end Update

/-! ### Gathering declared sets -/

/-- The descriptors that some sets declare in the set numbered `n`, in order. -/
def declaredIn (n : UInt32) (declared : List DescriptorSet) : List Descriptor :=
  (declared.filter (·.set = n)).flatMap descriptors

/-- The descriptors that some sets declare at a binding of the set numbered `n`, in order. -/
def declaredAt (n binding : UInt32) (declared : List DescriptorSet) : List Descriptor :=
  (declaredIn n declared).filter (·.binding = binding)

theorem mem_declaredAt_iff {d : Descriptor} :
    d ∈ declaredAt n binding declared ↔
      (∃ s ∈ declared, s.set = n ∧ d ∈ s.descriptors) ∧ d.binding = binding := by
  simp [declaredAt, declaredIn, and_assoc]

/-- The sets that come of declared ones: each number that was declared once, in ascending
order; in each set the declared bindings in the order in which they were first seen; at
each binding the first descriptor that was declared there, with the stages of all. -/
structure Gathered (declared sets : List DescriptorSet) : Prop where
  ascending : Ascending sets
  numbers : ∀ n, n ∈ sets.map set ↔ n ∈ declared.map set
  distinct : ∀ s ∈ sets, (s.descriptors.map Descriptor.binding).Nodup
  bindings : ∀ s ∈ sets, s.descriptors.map Descriptor.binding =
    ((declaredIn s.set declared).map Descriptor.binding).eraseDups
  first : ∀ s ∈ sets, ∀ d ∈ s.descriptors, ∃ first rest,
    declaredAt s.set d.binding declared = first :: rest ∧
      d = { first with
        stages := .unionAll ((declaredAt s.set d.binding declared).map Descriptor.stages) }

/-- What gathering has made of the sets declared so far, as one run over the descriptors of
each number. -/
structure Gathering (declared sets : List DescriptorSet) : Prop where
  ascending : Ascending sets
  numbers : ∀ n, n ∈ sets.map set ↔ n ∈ declared.map set
  merged : ∀ n, (Descriptor.mergeRule n).insertAll [] (declaredIn n declared) =
    .ok (at_ n sets).descriptors

theorem declaredIn_concat_self (declared : List DescriptorSet) (new : DescriptorSet) :
    declaredIn new.set (declared ++ [new]) = declaredIn new.set declared ++ new.descriptors := by
  simp [declaredIn]

theorem declaredIn_concat_of_ne (h : n ≠ new.set) (declared : List DescriptorSet) :
    declaredIn n (declared ++ [new]) = declaredIn n declared := by
  simp [declaredIn, Ne.symm h]

namespace Gathering

theorem nil : Gathering [] [] :=
  ⟨List.Pairwise.nil, fun _ => Iff.rfl, fun _ => rfl⟩

/-- The set with a number takes up new descriptors as a run that goes on. -/
theorem mergeAll_at (h : Gathering declared sets) :
    (at_ new.set sets).mergeAll new.descriptors =
      ((Descriptor.mergeRule new.set).insertAll [] (declaredIn new.set (declared ++ [new]))).map
        (⟨new.set, ·⟩) := by
  have hrun := h.merged new.set
  rw [MergeRule.insertAll] at hrun
  rw [mergeAll_eq, set_at_, declaredIn_concat_self, MergeRule.insertAll, MergeRule.insertAll,
    List.foldlM_append, hrun]
  rfl

/-- One more declared set keeps the sets gathered. -/
theorem addSet (h : Gathering declared sets) (hadd : Pipeline.addSet sets new = .ok sets') :
    Gathering (declared ++ [new]) sets' := by
  have hset : ∀ s', (at_ new.set sets).mergeAll new.descriptors = .ok s' → s'.set = new.set := by
    intro s' hs'
    rw [h.mergeAll_at] at hs'
    obtain ⟨ds, -, rfl⟩ := Outcome.map_eq_ok.mp hs'
    rfl
  obtain ⟨s', hs', hasc, hfound⟩ := update_eq_ok h.ascending hset hadd
  refine ⟨hasc, ?_, ?_⟩
  · intro n
    -- A number is missing exactly if it was missing before and is not the new one.
    have hnone : numbered? n sets' = none ↔ n ∉ (declared ++ [new]).map set := by
      rw [hfound n, List.map_append, List.mem_append, ← h.numbers]
      by_cases hn : n = new.set <;> simp [hn, numbered?_eq_none_iff]
    rw [numbered?_eq_none_iff] at hnone
    exact not_iff_not.mp hnone
  · intro n
    rw [at_, hfound n]
    by_cases hn : n = new.set
    · subst hn
      rw [h.mergeAll_at] at hs'
      obtain ⟨ds, hds, rfl⟩ := Outcome.map_eq_ok.mp hs'
      rw [if_pos rfl]
      exact hds
    · rw [if_neg hn, declaredIn_concat_of_ne hn]
      exact h.merged n

theorem merged_at (h : Gathering declared sets) (n : UInt32) :
    (Descriptor.mergeRule n).Merged (declaredIn n declared) (at_ n sets).descriptors :=
  MergeRule.merged_of_insertAll (h.merged n)

/-- The gathered sets as a reader sees them. -/
theorem gathered (h : Gathering declared sets) : Gathered declared sets := by
  have hmerged : ∀ s ∈ sets,
      (Descriptor.mergeRule s.set).Merged (declaredIn s.set declared) s.descriptors := by
    intro s hs
    have hat := h.merged_at s.set
    rwa [h.ascending.at_eq hs] at hat
  refine ⟨h.ascending, h.numbers, fun s hs => (hmerged s hs).nodup,
    fun s hs => (hmerged s hs).keys, ?_⟩
  intro s hs d hd
  obtain ⟨first, rest, hat, -, heq⟩ :=
    Descriptor.joinAll?_eq_some_iff.mp ((hmerged s hs).joinAll?_keyOf hd)
  exact ⟨first, rest, hat, heq⟩

end Gathering

/-- A run of gathering keeps the sets gathered. -/
theorem gathering_of_foldlM (h : declared.foldlM Pipeline.addSet [] = .ok sets) :
    Gathering declared sets := by
  induction declared using List.reverseRecOn generalizing sets with
  | nil =>
    cases h
    exact .nil
  | append_singleton declared new ih =>
    obtain ⟨before, hbefore, hadd⟩ := Outcome.foldlM_concat_eq_ok.mp h
    exact (ih hbefore).addSet hadd

/-- Gathering that succeeds makes the sets that come of the declared ones. -/
theorem gathered_of_foldlM (h : declared.foldlM Pipeline.addSet [] = .ok sets) :
    Gathered declared sets :=
  (gathering_of_foldlM h).gathered

/-- Declared sets are gathered in one way only. -/
theorem Gathered.unique {sets' : List DescriptorSet} (h : Gathered declared sets)
    (h' : Gathered declared sets') : sets = sets' := by
  have hnumbers : sets.map set = sets'.map set :=
    h.ascending.map_set_eq h'.ascending fun n => (h.numbers n).trans (h'.numbers n).symm
  apply eq_of_map_eq hnumbers
  intro s hs s' hs' hset
  have hbindings :
      s.descriptors.map Descriptor.binding = s'.descriptors.map Descriptor.binding := by
    rw [h.bindings s hs, h'.bindings s' hs', hset]
  have hdescriptors : s.descriptors = s'.descriptors := by
    apply eq_of_map_eq hbindings
    intro d hd d' hd' hbinding
    -- Both are the first one declared at this binding, with the stages of all.
    obtain ⟨first, rest, hat, heq⟩ := h.first s hs d hd
    obtain ⟨first', rest', hat', heq'⟩ := h'.first s' hs' d' hd'
    rw [hset, hbinding] at hat
    obtain rfl : first = first' := (List.cons.inj (hat.symm.trans hat')).1
    rw [heq, heq', hset, hbinding]
  obtain ⟨number, descriptors⟩ := s
  obtain ⟨number', descriptors'⟩ := s'
  obtain rfl : number = number' := hset
  obtain rfl : descriptors = descriptors' := hdescriptors
  rfl

/-- Gathering that fails reports a binding of a set at which two descriptors disagree. -/
theorem exists_of_foldlM_eq_error {e : ReflectError}
    (h : declared.foldlM Pipeline.addSet [] = .error e) :
    ∃ n binding, e = .conflictingBinding n binding ∧
      ¬ Descriptor.AllAgree (declaredAt n binding declared) := by
  obtain ⟨before, new, after, sets, rfl, hbefore, hadd⟩ :=
    Outcome.exists_step_of_foldlM_eq_error h
  have hgather := gathering_of_foldlM hbefore
  have herror := update_eq_error hgather.ascending hadd
  rw [hgather.mergeAll_at, Outcome.map_eq_error] at herror
  obtain ⟨d, hd, rfl, hnone⟩ := MergeRule.exists_of_insertAll_eq_error herror
  refine ⟨new.set, d.binding, rfl, ?_⟩
  intro hagree
  -- The descriptors declared up to the failure disagree already.
  have hsub : ∀ other ∈ (Descriptor.mergeRule new.set).group d.binding
      (declaredIn new.set (before ++ [new])),
      other ∈ declaredAt new.set d.binding (before ++ new :: after) := by
    intro other hother
    obtain ⟨⟨s, hs, hset, hmem⟩, hbinding⟩ := mem_declaredAt_iff.mp hother
    refine mem_declaredAt_iff.mpr ⟨⟨s, ?_, hset, hmem⟩, hbinding⟩
    rcases List.mem_append.mp hs with hs | hs
    · exact List.mem_append_left _ hs
    · rw [List.mem_singleton.mp hs]
      simp
  have hne : (Descriptor.mergeRule new.set).group d.binding
      (declaredIn new.set (before ++ [new])) ≠ [] :=
    List.ne_nil_of_mem (List.mem_filter.mpr ⟨hd, by simp [Descriptor.mergeRule]⟩)
  apply hnone
  apply Descriptor.exists_joinAll?_iff.mpr
  exact ⟨hne, fun a ha b hb => hagree a (hsub a ha) b (hsub b hb)⟩

/-- Gathering succeeds exactly if the descriptors at every binding of every set agree. -/
theorem exists_foldlM_iff :
    (∃ sets, declared.foldlM Pipeline.addSet [] = .ok sets) ↔
      ∀ n binding, Descriptor.AllAgree (declaredAt n binding declared) := by
  constructor
  · intro ⟨sets, h⟩ n binding a ha b hb
    obtain ⟨hin, hbinding⟩ := List.mem_filter.mp ha
    obtain rfl : a.binding = binding := by simpa using hbinding
    have hjoin := MergeRule.exists_insertAll_iff.mp ⟨_, (gathering_of_foldlM h).merged n⟩ a hin
    exact (Descriptor.exists_joinAll?_iff.mp hjoin).2 a ha b hb
  · intro h
    cases hrun : declared.foldlM Pipeline.addSet [] with
    | ok sets => exact ⟨sets, rfl⟩
    | error e =>
      obtain ⟨n, binding, -, hdisagree⟩ := exists_of_foldlM_eq_error hrun
      exact absurd (h n binding) hdisagree

end DescriptorSet

end Glint
