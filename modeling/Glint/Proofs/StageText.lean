import Glint.Proofs.Digits
import Glint.Proofs.StageUnion
import Mathlib.Data.List.DropRight
import Mathlib.Data.List.Forall2
import Mathlib.Tactic.IntervalCases

/-!
# Sets of stages read back from their text

The text of a set lists the names of its stages and then, in hexadecimal, the bits that
belong to no stage. Read back, the parts are put together by union, so that a set is found
again whatever bits it has.

## Main definitions

* `StageSet.IsPart` — a text that stands for a set between the bars

## Main results

* `StageSet.eq_of_holds` — a set is known by its stages and its other bits
* `StageSet.ofText?_intercalate` — parts between bars denote the union of their sets
* `StageSet.ofText?_text` — a set is read back from its text
-/

namespace Glint

/-! ### White space around the parts of a text -/

namespace Text

variable {cs left right : List Char} {parts : List (List Char)}

theorem trim_eq_nil_iff : trim cs = [] ↔ ∀ c ∈ cs, isBlank c = true := by
  have htrim : trim cs = (cs.dropWhile isBlank).rdropWhile isBlank := rfl
  rw [htrim, List.rdropWhile_eq_nil_iff]
  constructor
  · intro h
    rw [← List.dropWhile_eq_nil_iff, ← List.dropWhile_idempotent]
    exact List.dropWhile_eq_nil_iff.mpr h
  · intro h c hc
    rw [List.dropWhile_eq_nil_iff.mpr h] at hc
    cases hc

/-- White space around a text that has none is trimmed. -/
theorem trim_append (hleft : ∀ c ∈ left, isBlank c = true) (hcs : ∀ c ∈ cs, isBlank c = false)
    (hright : ∀ c ∈ right, isBlank c = true) : trim (left ++ cs ++ right) = cs := by
  by_cases hnil : cs = []
  · rw [hnil, List.append_nil, trim_eq_nil_iff]
    exact List.forall_mem_append.mpr ⟨hleft, hright⟩
  · -- Nothing is dropped from a text that has no white space at that end.
    have hkept : ∀ ds : List Char, ds ≠ [] → (∀ c ∈ ds, isBlank c = false) →
        ∀ es, (ds ++ es).dropWhile isBlank = ds ++ es := by
      intro ds hne hds es
      obtain ⟨d, ds, rfl⟩ := List.exists_cons_of_ne_nil hne
      rw [List.cons_append, List.dropWhile_cons_of_neg (by simp [hds d])]
    have hback := hkept cs.reverse (by simpa using hnil) (by simpa using hcs) []
    rw [List.append_nil] at hback
    rw [trim, List.append_assoc, List.dropWhile_append_of_pos hleft, hkept cs hnil hcs,
      List.reverse_append, List.dropWhile_append_of_pos (by simpa using hright), hback,
      List.reverse_reverse]

theorem trim_cons_blank {c : Char} (h : isBlank c = true) (cs : List Char) :
    trim (c :: cs) = trim cs := by
  rw [trim, trim, List.dropWhile_cons_of_pos h]

/-- Parts without white space and bars are found again between bars with blanks around them. -/
theorem map_trim_splitWhere_intercalate (hne : parts ≠ [])
    (h : ∀ part ∈ parts, ∀ c ∈ part, isBlank c = false ∧ c ≠ '|') :
    (splitWhere (· == '|') ([' ', '|', ' '].intercalate parts)).map trim = parts := by
  have hblank : ∀ c ∈ [' '], isBlank c = true := List.forall_mem_singleton.mpr rfl
  induction parts with
  | nil => exact absurd rfl hne
  | cons part parts ih =>
    rw [List.forall_mem_cons] at h
    obtain ⟨hpart, hparts⟩ := h
    have hsolid : ∀ c ∈ part, isBlank c = false := fun c hc => (hpart c hc).1
    have hbar : ∀ c ∈ part, (c == '|') = false := fun c hc => by simpa using (hpart c hc).2
    cases parts with
    | nil =>
      have htrim : trim ([] ++ part ++ []) = part := trim_append (by simp) hsolid (by simp)
      rw [List.nil_append, List.append_nil] at htrim
      rw [List.intercalate_singleton, splitWhere_of_forall hbar, List.map_singleton, htrim]
    | cons next parts =>
      have hcut : [' ', '|', ' '].intercalate (part :: next :: parts) =
          (part ++ [' ']) ++ '|' :: ' ' :: [' ', '|', ' '].intercalate (next :: parts) := by
        rw [List.intercalate_cons_cons]
        simp
      have hfirst : ∀ c ∈ part ++ [' '], (c == '|') = false :=
        List.forall_mem_append.mpr ⟨hbar, List.forall_mem_singleton.mpr rfl⟩
      have htrim : trim (part ++ [' ']) = part := by
        rw [← List.nil_append part]
        exact trim_append (by simp) hsolid hblank
      -- The blank after a bar goes to the part that follows, where it is trimmed.
      have hrest : ∀ cs, (splitWhere (· == '|') (' ' :: cs)).map trim =
          (splitWhere (· == '|') cs).map trim := by
        intro cs
        rw [splitWhere, if_neg (by decide)]
        cases splitWhere (· == '|') cs with
        | nil => rfl
        | cons piece pieces => simp [trim_cons_blank (c := ' ') (by decide)]
      rw [hcut, splitWhere_append (by decide), splitWhere_of_forall hfirst, List.map_append,
        hrest, ih (List.cons_ne_nil _ _) hparts, List.map_singleton, htrim, List.singleton_append]

/-- The digits of a number in hexadecimal are those up to fifteen. -/
theorem exists_digitChar_of_mem_hexDigits {n : Nat} {c : Char} (hc : c ∈ hexDigits n) :
    ∃ digit < 16, c = digit.digitChar := by
  rw [hexDigits] at hc
  induction n using Nat.base_induction 16 (by decide) with
  | single digit hdigit =>
    rw [Nat.toDigits_of_lt_base hdigit, List.mem_singleton] at hc
    exact ⟨digit, hdigit, hc⟩
  | digit n digit hdigit hn ih =>
    rw [← Nat.toDigits_append_toDigits (by decide) hn hdigit, List.mem_append] at hc
    rcases hc with hc | hc
    · exact ih hc
    · rw [Nat.toDigits_of_lt_base hdigit, List.mem_singleton] at hc
      exact ⟨digit, hdigit, hc⟩

/-- A word is read back from its digits in hexadecimal. -/
theorem hexadecimal?_hexDigits (w : UInt32) : hexadecimal? (hexDigits w.toNat) = some w := by
  have hdigits : digits? 16 (hexDigits w.toNat) = some w.toNat :=
    digits?_toDigits (by decide) (by decide) _
  rw [hexadecimal?]
  · rw [hdigits, Option.bind_some, word?_toNat]
  · intro cs hplus
    -- No digit is a plus sign.
    obtain ⟨digit, hlt, hchar⟩ :=
      exists_digitChar_of_mem_hexDigits (hplus ▸ List.mem_cons_self : '+' ∈ hexDigits w.toNat)
    revert hchar
    revert digit
    decide

end Text

namespace StageSet

open Text

variable {s t : StageSet} {parts : List String} {sets : List StageSet}

/-! ### A set by its bits -/

theorem getLsbD_unnamed {i : Nat} (hi : i < 32) (s : StageSet) :
    s.unnamed.toBitVec.getLsbD i = (s.bits.toBitVec.getLsbD i && decide (6 ≤ i)) := by
  have hmask : ∀ i < 32, (~~~0x3f : UInt32).toBitVec.getLsbD i = decide (6 ≤ i) := by decide
  rw [unnamed, UInt32.toBitVec_and, BitVec.getLsbD_and, hmask i hi]

theorem exists_rank_eq {i : Nat} (hi : i < 6) : ∃ stage : Stage, stage.rank = i := by
  interval_cases i
  exacts [⟨.vertex, rfl⟩, ⟨.tessellationControl, rfl⟩, ⟨.tessellationEvaluation, rfl⟩,
    ⟨.geometry, rfl⟩, ⟨.fragment, rfl⟩, ⟨.compute, rfl⟩]

/-- A set is known by its stages and its other bits. -/
theorem eq_of_holds (hholds : ∀ stage, s.holds stage = t.holds stage)
    (hunnamed : s.unnamed = t.unnamed) : s = t := by
  have hbits : s.bits.toBitVec = t.bits.toBitVec := by
    refine BitVec.eq_of_getLsbD_eq fun i hi => ?_
    by_cases hnamed : i < 6
    · obtain ⟨stage, rfl⟩ := exists_rank_eq hnamed
      rw [← holds_eq_getLsbD, ← holds_eq_getLsbD, hholds]
    · have hother := congrArg (fun word : UInt32 => word.toBitVec.getLsbD i) hunnamed
      simpa [getLsbD_unnamed hi, Nat.not_lt.mp hnamed] using hother
  obtain ⟨bits⟩ := s
  obtain ⟨bits'⟩ := t
  exact congrArg mk (UInt32.toBitVec_inj.mp hbits)

theorem holds_unnamed (s : StageSet) (stage : Stage) : holds ⟨s.unnamed⟩ stage = false := by
  have hrank : stage.rank < 6 := by cases stage <;> decide
  rw [holds_eq_getLsbD, getLsbD_unnamed (by omega), decide_eq_false (by omega), Bool.and_false]

theorem unnamed_unnamed (s : StageSet) : unnamed ⟨s.unnamed⟩ = s.unnamed := by
  rw [unnamed, unnamed, UInt32.and_assoc, UInt32.and_self]

/-! ### Parts -/

/-- A part of a text stands for a set. It has no white space and no bar. -/
structure IsPart (part : String) (s : StageSet) : Prop where
  reads : ofPart? part.toList = some s
  ne_nil : part.toList ≠ []
  solid : ∀ c ∈ part.toList, isBlank c = false ∧ c ≠ '|'

/-- Parts are read one after the other, each into the union of those before it. -/
theorem foldlM_ofPart?_eq (h : List.Forall₂ IsPart parts sets) (start : StageSet) :
    (parts.map String.toList).foldlM (fun set part => (ofPart? part).map set.union) start =
      some (sets.foldl union start) := by
  induction h generalizing start with
  | nil => rfl
  | cons hpart _ ih =>
    rw [List.map_cons, List.foldlM_cons, hpart.reads, List.foldl_cons, ← ih]
    rfl

theorem solid_of_forall₂ (h : List.Forall₂ IsPart parts sets) :
    ∀ part ∈ parts.map String.toList, ∀ c ∈ part, isBlank c = false ∧ c ≠ '|' := by
  induction h with
  | nil => simp
  | cons hpart _ ih => exact List.forall_mem_cons.mpr ⟨hpart.solid, ih⟩

/-- Parts between bars denote the union of their sets. -/
theorem ofText?_intercalate (h : List.Forall₂ IsPart parts sets) :
    ofText? (" | ".intercalate parts) = some (unionAll sets) := by
  have hsolid := solid_of_forall₂ h
  have hrun := foldlM_ofPart?_eq h empty
  have htext : (" | ".intercalate parts).toList =
      [' ', '|', ' '].intercalate (parts.map String.toList) := String.toList_intercalate
  cases h with
  | nil => rfl
  | @cons part _ parts _ hpart _ =>
    obtain ⟨c, cs, hc⟩ := List.exists_cons_of_ne_nil hpart.ne_nil
    -- The text is not blank, since it begins with the first part.
    have hfirst : c ∈ (" | ".intercalate (part :: parts)).toList := by
      rw [htext, List.map_cons, hc]
      cases parts.map String.toList <;> simp
    have hnotblank : trim (" | ".intercalate (part :: parts)).toList ≠ [] := by
      intro hblank
      have hsolidc := (hpart.solid c (by simp [hc])).1
      rw [trim_eq_nil_iff.mp hblank c hfirst] at hsolidc
      cases hsolidc
    rw [ofText?, if_neg (by simpa using hnotblank), htext]
    have hpieces := map_trim_splitWhere_intercalate (by simp) hsolid
    rw [← hpieces, List.foldlM_map] at hrun
    exact hrun

theorem isPart_flagName (stage : Stage) : IsPart stage.flagName stage.flag := by
  have hsolid : (stage.flagName.toList.all fun c => !isBlank c && c != '|') = true := by
    cases stage <;> decide
  refine ⟨by cases stage <;> decide, by cases stage <;> decide, fun c hc => ?_⟩
  simpa using List.all_eq_true.mp hsolid c hc

theorem isPart_hexadecimal (w : UInt32) :
    IsPart (String.ofList ('0' :: 'x' :: hexDigits w.toNat)) ⟨w⟩ where
  reads := by
    rw [String.toList_ofList, ofPart?, hexadecimal?_hexDigits]
    rfl
  ne_nil := by simp
  solid := by
    have hdigits : ∀ digit < 16, isBlank digit.digitChar = false ∧ digit.digitChar ≠ '|' := by
      decide
    intro c hc
    rw [String.toList_ofList, List.mem_cons, List.mem_cons] at hc
    rcases hc with rfl | rfl | hc
    · decide
    · decide
    · obtain ⟨digit, hlt, rfl⟩ := exists_digitChar_of_mem_hexDigits hc
      exact hdigits digit hlt

/-- A set is read back from its text. -/
theorem ofText?_text (s : StageSet) : ofText? s.text = some s := by
  have hnames : List.Forall₂ IsPart ((Stage.all.filter s.holds).map Stage.flagName)
      ((Stage.all.filter s.holds).map Stage.flag) := by
    rw [List.forall₂_map_left_iff, List.forall₂_map_right_iff]
    exact List.forall₂_same.mpr fun stage _ => isPart_flagName stage
  have hheld : ∀ stage, stage ∈ Stage.all.filter s.holds ↔ s.holds stage = true := by
    intro stage
    rw [List.mem_filter]
    exact and_iff_right stage.mem_all
  have hnamed : ∀ stage, (unionAll ((Stage.all.filter s.holds).map Stage.flag)).holds stage =
      s.holds stage := by
    intro stage
    rw [Bool.eq_iff_iff, holds_unionAll_flag, hheld]
  rw [text, parts]
  split
  · rename_i hzero
    rw [List.append_nil, ofText?_intercalate hnames]
    refine congrArg some (eq_of_holds hnamed ?_)
    rw [unnamed_unionAll_flag, hzero]
  · rw [ofText?_intercalate (List.rel_append hnames (.cons (isPart_hexadecimal _) .nil)),
      unionAll_concat]
    refine congrArg some (eq_of_holds ?_ ?_)
    · intro stage
      rw [holds_union, hnamed, holds_unnamed, Bool.or_false]
    · rw [unnamed_union, unnamed_unionAll_flag, unnamed_unnamed, UInt32.zero_or]

example : text ⟨0x80000011⟩ = "VERTEX | FRAGMENT | 0x80000000" := by decide +kernel

end StageSet

end Glint
