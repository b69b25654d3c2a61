import Glint.Proofs.DescriptorMerge

/-!
# A descriptor set on which calls are made

A set starts empty and is offered descriptors one after the other. A descriptor at a new binding
is put at the end, one at a binding that is there already adds its stages, and one that disagrees
in kind or size with what is there is refused. A refused call leaves the set as it was, and the
calls go on. So the set is what the calls that were taken make of it, however many were refused
in between.

## Main definitions

* `DescriptorSet.mergeInPlace` — one call, on a set that is changed in place
* `DescriptorSet.History`, `DescriptorSet.calls` — a set after calls, with those that were taken
* `DescriptorSet.MergedFrom` — the set that comes of some calls

## Main results

* `DescriptorSet.run_mergeInPlace` — a call in place does what merging does, or nothing
* `DescriptorSet.run_mergeInPlace_eq_error_iff` — which calls are refused
* `DescriptorSet.calls_mergedFrom` — what a set is after any calls
-/

namespace Glint

instance (a b : Descriptor) : Decidable (a.Agrees b) :=
  inferInstanceAs (Decidable (_ ∧ _))

namespace DescriptorSet

variable {n b : UInt32} {new d : Descriptor} {s s' : DescriptorSet} {offered : List Descriptor}

/-! ### One call -/

/-- Add stages to the first descriptor at a binding. -/
def widen (binding : UInt32) (stages : StageSet) (ds : List Descriptor) : List Descriptor :=
  ds.modify (ds.findIdx (·.binding == binding)) fun d => { d with stages := d.stages.union stages }

/-- Offer a descriptor to a set that is changed in place. -/
def mergeInPlace (new : Descriptor) : EStateM ReflectError DescriptorSet Unit := do
  let s ← get
  match s.descriptor? new.binding with
  | none => modify fun s => { s with descriptors := s.descriptors ++ [new] }
  | some old =>
    if old.kind ≠ new.kind ∨ old.size ≠ new.size then
      throw (.conflictingBinding s.set new.binding)
    modify fun s => { s with descriptors := widen new.binding new.stages s.descriptors }

/-- The stages are added to the descriptor in front, or further on. -/
theorem widen_cons (binding : UInt32) (stages : StageSet) (d : Descriptor) (ds : List Descriptor) :
    widen binding stages (d :: ds) =
      if d.binding = binding then { d with stages := d.stages.union stages } :: ds
      else d :: widen binding stages ds := by
  rw [widen, List.findIdx_cons]
  by_cases h : d.binding = binding
  · simp [h]
  · rw [beq_eq_false_iff_ne.mpr h, if_neg h]
    rfl

/-- What merging does to a list of descriptors, by the first one at the binding. -/
theorem mergeInto_eq (n : UInt32) (new : Descriptor) (ds : List Descriptor) :
    mergeInto n new ds =
      match ds.find? (·.binding == new.binding) with
      | none => .ok (ds ++ [new])
      | some old =>
        if old.Agrees new then .ok (widen new.binding new.stages ds)
        else .error (.conflictingBinding n new.binding) := by
  induction ds with
  | nil => rfl
  | cons d ds ih =>
    rw [mergeInto, List.find?_cons, widen_cons]
    by_cases h : d.binding = new.binding
    · simp [h, Descriptor.Agrees]
    · simp only [h, beq_eq_false_iff_ne.mpr h, if_false, ih]
      cases ds.find? (·.binding == new.binding) with
      | none => rfl
      | some old => by_cases hagree : old.Agrees new <;> simp [hagree, Except.map]

/-- A call in place does what merging does, and nothing if merging fails. -/
theorem run_mergeInPlace (new : Descriptor) (s : DescriptorSet) :
    (mergeInPlace new).run s =
      match s.merge new with
      | .ok s' => .ok () s'
      | .error e => .error e s := by
  rw [merge, mergeInto_eq, ← descriptor?, mergeInPlace]
  -- The first descriptor at the binding decides both.
  cases hfound : s.descriptor? new.binding with
  | none => simp [hfound, Except.map]
  | some old =>
    by_cases hagree : old.kind = new.kind ∧ old.size = new.size
    · simp [hfound, hagree, Descriptor.Agrees, Except.map]
    · have hdisagree : old.kind ≠ new.kind ∨ old.size ≠ new.size := not_and_or.mp hagree
      simp [hfound, hagree, hdisagree, Descriptor.Agrees, Except.map]

theorem run_mergeInPlace_eq_ok_iff :
    (mergeInPlace new).run s = .ok () s' ↔ s.merge new = .ok s' := by
  rw [run_mergeInPlace]
  cases s.merge new <;> simp

theorem merge_eq_ok_iff :
    s.merge new = .ok s' ↔
      s'.set = s.set ∧
        (Descriptor.mergeRule s.set).insert new s.descriptors = .ok s'.descriptors := by
  rw [merge, mergeInto_eq_insert, Outcome.map_eq_ok]
  constructor
  · rintro ⟨ds, hds, rfl⟩
    exact ⟨rfl, hds⟩
  · rintro ⟨hset, hds⟩
    exact ⟨s'.descriptors, hds, hset ▸ rfl⟩

/-- A call is refused exactly if the descriptor at the binding disagrees, and then the set stays
as it is. -/
theorem run_mergeInPlace_eq_error_iff {e : ReflectError} :
    (mergeInPlace new).run s = .error e s' ↔
      (∃ d, s.descriptor? new.binding = some d ∧ ¬ d.Agrees new) ∧
        e = .conflictingBinding s.set new.binding ∧ s' = s := by
  rw [run_mergeInPlace, merge, mergeInto_eq, ← descriptor?]
  cases s.descriptor? new.binding with
  | none => simp [Except.map]
  | some old => by_cases hagree : old.Agrees new <;> simp [hagree, Except.map, eq_comm]

/-! ### Calls one after the other -/

/-- A binding is found exactly if a descriptor has it. -/
theorem isSome_find?_binding_iff {ds : List Descriptor} :
    (ds.find? (·.binding == b)).isSome = true ↔ b ∈ ds.map Descriptor.binding := by
  simp

/-- A set, and the calls on it that were taken. -/
structure History where
  taken : List Descriptor
  current : DescriptorSet

/-- Make one more call, which is taken or refused. -/
def History.call (hist : History) (new : Descriptor) : History :=
  match (mergeInPlace new).run hist.current with
  | .ok _ s => ⟨hist.taken ++ [new], s⟩
  | .error _ s => ⟨hist.taken, s⟩

/-- The set numbered `n` after calls, which starts without descriptors. -/
def calls (n : UInt32) (offered : List Descriptor) : History :=
  offered.foldl History.call ⟨[], empty n⟩

/-- The set is what one run of the calls that were taken makes of it, and at every binding the
first call was taken. -/
structure History.Run (n : UInt32) (offered : List Descriptor) (hist : History) : Prop where
  number : hist.current.set = n
  merged : (Descriptor.mergeRule n).insertAll [] hist.taken = .ok hist.current.descriptors
  first : ∀ b, offered.find? (·.binding == b) = hist.taken.find? (·.binding == b)

/-- The set that comes of the descriptors it was offered, of which some were taken. Its bindings
stand in the order in which they were first taken, each once. At each stands the first descriptor
that was offered there, with the stages of all that were taken. -/
structure MergedFrom (offered taken : List Descriptor) (s : DescriptorSet) : Prop where
  distinct : (s.descriptors.map Descriptor.binding).Nodup
  bindings : s.descriptors.map Descriptor.binding = (taken.map Descriptor.binding).eraseDups
  first : ∀ d ∈ s.descriptors, ∃ first rest,
    taken.filter (·.binding == d.binding) = first :: rest ∧
      offered.find? (·.binding == d.binding) = some first ∧
      d = { first with stages := .unionAll ((first :: rest).map Descriptor.stages) }
  found : ∀ b d, s.descriptor? b = some d ↔ d ∈ s.descriptors ∧ d.binding = b
  present : ∀ b, (∃ d, s.descriptor? b = some d) ↔ b ∈ offered.map Descriptor.binding

namespace History.Run

variable {hist : History}

theorem start (n : UInt32) : Run n [] ⟨[], empty n⟩ :=
  ⟨rfl, rfl, fun _ => rfl⟩

/-- The same bindings were offered and taken. -/
theorem mem_offered_iff (h : hist.Run n offered) :
    b ∈ offered.map Descriptor.binding ↔ b ∈ hist.taken.map Descriptor.binding := by
  rw [← isSome_find?_binding_iff, h.first, isSome_find?_binding_iff]

theorem merged_rule (h : hist.Run n offered) :
    (Descriptor.mergeRule n).Merged hist.taken hist.current.descriptors :=
  MergeRule.merged_of_insertAll h.merged

/-- The set has the bindings that were offered. -/
theorem mem_bindings_iff (h : hist.Run n offered) :
    b ∈ hist.current.descriptors.map Descriptor.binding ↔ b ∈ offered.map Descriptor.binding :=
  h.merged_rule.mem_keys_iff.trans h.mem_offered_iff.symm

/-- One more call, taken or refused, keeps what is known of the set. -/
theorem call (h : hist.Run n offered) (new : Descriptor) :
    (hist.call new).Run n (offered ++ [new]) := by
  rw [History.call]
  cases hrun : (mergeInPlace new).run hist.current with
  | ok _ s =>
    -- The run of the calls that were taken goes on.
    obtain ⟨hset, hinsert⟩ := merge_eq_ok_iff.mp (run_mergeInPlace_eq_ok_iff.mp hrun)
    refine ⟨hset.trans h.number, ?_, ?_⟩
    · rw [h.number] at hinsert
      exact Outcome.foldlM_concat_eq_ok.mpr ⟨_, h.merged, hinsert⟩
    · intro b
      rw [List.find?_append, List.find?_append, h.first]
  | error e s =>
    obtain ⟨⟨d, hd, -⟩, -, rfl⟩ := run_mergeInPlace_eq_error_iff.mp hrun
    refine ⟨h.number, h.merged, ?_⟩
    intro b
    rw [List.find?_append, h.first]
    by_cases hb : new.binding = b
    · -- An earlier call at the binding was taken, since what refused this one is in the set.
      have hmem : b ∈ hist.current.descriptors.map Descriptor.binding := by
        rw [← isSome_find?_binding_iff, ← hb, ← descriptor?, hd, Option.isSome_some]
      have hfound : (hist.taken.find? (·.binding == b)).isSome = true :=
        isSome_find?_binding_iff.mpr (h.merged_rule.mem_keys_iff.mp hmem)
      exact Option.or_of_isSome hfound
    · simp [hb]

/-- A binding finds the descriptor at it. -/
theorem descriptor?_eq_some_iff (h : hist.Run n offered) :
    hist.current.descriptor? b = some d ↔ d ∈ hist.current.descriptors ∧ d.binding = b := by
  constructor
  · intro hfound
    have hbinding := List.find?_some hfound
    exact ⟨List.mem_of_find?_eq_some hfound, beq_iff_eq.mp hbinding⟩
  · rintro ⟨hd, rfl⟩
    exact (h.merged_rule.joined d.binding).trans (h.merged_rule.joinAll?_keyOf hd)

/-- What is known of a set after calls, as a reader sees it. -/
theorem mergedFrom (h : hist.Run n offered) : MergedFrom offered hist.taken hist.current := by
  refine ⟨h.merged_rule.nodup, h.merged_rule.keys, ?_, fun b d => h.descriptor?_eq_some_iff, ?_⟩
  · intro d hd
    obtain ⟨first, rest, hgroup, -, heq⟩ :=
      Descriptor.joinAll?_eq_some_iff.mp (h.merged_rule.joinAll?_keyOf hd)
    have htaken : hist.taken.filter (·.binding == d.binding) = first :: rest := hgroup
    refine ⟨first, rest, htaken, ?_, hgroup ▸ heq⟩
    rw [h.first, ← List.head?_filter, htaken, List.head?_cons]
  · intro b
    rw [← h.mem_bindings_iff, ← isSome_find?_binding_iff, Option.isSome_iff_exists, descriptor?]

end History.Run

/-- A run of calls keeps what is known of the set. -/
theorem run_calls (n : UInt32) (offered : List Descriptor) : (calls n offered).Run n offered := by
  induction offered using List.reverseRecOn with
  | nil => exact .start n
  | append_singleton offered new ih =>
    rw [calls, List.foldl_append]
    exact ih.call new

/-- A call on a set does what merging does, and a refused call leaves the set as it is. After any
calls the set is known by the descriptors it was offered and those that were taken, and the next
call is refused exactly if the descriptor at its binding disagrees with it. -/
theorem calls_mergedFrom (n : UInt32) (offered : List Descriptor) :
    (∀ new s, (mergeInPlace new).run s =
      match s.merge new with
      | .ok s' => .ok () s'
      | .error e => .error e s) ∧
    MergedFrom offered (calls n offered).taken (calls n offered).current ∧
    ∀ new e s, (mergeInPlace new).run (calls n offered).current = .error e s ↔
      (∃ d, (calls n offered).current.descriptor? new.binding = some d ∧ ¬ d.Agrees new) ∧
        e = .conflictingBinding n new.binding ∧ s = (calls n offered).current := by
  have hrun := run_calls n offered
  refine ⟨run_mergeInPlace, hrun.mergedFrom, ?_⟩
  intro new e s
  rw [run_mergeInPlace_eq_error_iff, hrun.number]

/-- A call that is refused stands between two that are taken. -/
example :
    (calls 0 [⟨"camera", 3, .uniformBuffer, Stage.vertex.flag, 64, []⟩,
      ⟨"image", 3, .combinedImageSampler, Stage.fragment.flag, 0, []⟩,
      ⟨"view", 3, .uniformBuffer, Stage.fragment.flag, 64, []⟩]).current =
    ⟨0, [⟨"camera", 3, .uniformBuffer, Stage.vertex.flag.union Stage.fragment.flag, 64, []⟩]⟩ := by
  decide

end DescriptorSet

end Glint
