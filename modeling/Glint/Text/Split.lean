/-!
# Splitting a list at separators

The members of a block stand between semicolons, the parts of a stage set
between bars, and the names of a path between slashes. A block ends at its last
closing brace, and the extension of a file name starts at its last point.

## Main definitions

* `Text.splitWhere` — the pieces of a list between its separators
* `Text.splitLast?` — the parts of a list before and after its last separator

## Main results

* `Text.splitWhere_ne_nil` — there is always at least one piece
* `Text.splitWhere_append` — a separator parts a list into two lists of pieces
* `Text.exists_of_splitLast?` — the parts around the last separator
* `Text.splitLast?_append`, `Text.splitLast?_cons` — the last separator of a list put together
-/

namespace Glint.Text

variable {α : Type}

/-- The pieces of a list between the elements that are separators. -/
def splitWhere (isSep : α → Bool) : List α → List (List α)
  | [] => [[]]
  | a :: as =>
    if isSep a then [] :: splitWhere isSep as
    else (splitWhere isSep as).modifyHead (a :: ·)

/-- The parts of a list before and after the last element that is a separator. -/
def splitLast? (isSep : α → Bool) : List α → Option (List α × List α)
  | [] => none
  | a :: as =>
    match splitLast? isSep as with
    | some (before, after) => some (a :: before, after)
    | none => if isSep a then some ([], as) else none

theorem splitWhere_ne_nil (isSep : α → Bool) (as : List α) : splitWhere isSep as ≠ [] := by
  induction as with
  | nil => simp [splitWhere]
  | cons a as ih =>
    rw [splitWhere]
    split
    · simp
    · cases h : splitWhere isSep as with
      | nil => exact absurd h ih
      | cons piece pieces => simp

theorem splitWhere_append {isSep : α → Bool} {sep : α} (h : isSep sep = true) (as bs : List α) :
    splitWhere isSep (as ++ sep :: bs) = splitWhere isSep as ++ splitWhere isSep bs := by
  induction as with
  | nil => simp [splitWhere, h]
  | cons a as ih =>
    simp only [List.cons_append, splitWhere, ih]
    split
    · rfl
    · cases h' : splitWhere isSep as with
      | nil => exact absurd h' (splitWhere_ne_nil isSep as)
      | cons piece pieces => rfl

/-- A list without a separator is one piece. -/
theorem splitWhere_of_forall {isSep : α → Bool} {as : List α}
    (h : ∀ a ∈ as, isSep a = false) : splitWhere isSep as = [as] := by
  induction as with
  | nil => rfl
  | cons a as ih =>
    rw [splitWhere, h a List.mem_cons_self, ih fun b hb => h b (List.mem_cons_of_mem a hb)]
    rfl

/-- No piece has a separator. -/
theorem forall_of_mem_splitWhere {isSep : α → Bool} {as piece : List α}
    (h : piece ∈ splitWhere isSep as) : ∀ a ∈ piece, isSep a = false := by
  induction as generalizing piece with
  | nil =>
    obtain rfl := List.mem_singleton.mp h
    simp
  | cons a as ih =>
    rw [splitWhere] at h
    split at h
    · rcases List.mem_cons.mp h with rfl | h
      · simp
      · exact ih h
    · rename_i ha
      cases hrest : splitWhere isSep as with
      | nil => exact absurd hrest (splitWhere_ne_nil isSep as)
      | cons first pieces =>
        rw [hrest, List.modifyHead_cons] at h
        rcases List.mem_cons.mp h with rfl | h
        · exact List.forall_mem_cons.mpr ⟨eq_false_of_ne_true ha, ih (by simp [hrest])⟩
        · exact ih (by simp [hrest, h])

/-- The parts around the last separator, which is left out. -/
theorem exists_of_splitLast? {isSep : α → Bool} {as before after : List α}
    (h : splitLast? isSep as = some (before, after)) :
    ∃ sep, as = before ++ sep :: after ∧ isSep sep = true := by
  induction as generalizing before with
  | nil => cases h
  | cons a as ih =>
    rw [splitLast?] at h
    cases hrest : splitLast? isSep as with
    | some parts =>
      rw [hrest] at h
      cases h
      obtain ⟨sep, has, hsep⟩ := ih hrest
      exact ⟨sep, congrArg _ has, hsep⟩
    | none =>
      simp only [hrest, Option.ite_none_right_eq_some] at h
      obtain ⟨hsep, hparts⟩ := h
      cases hparts
      exact ⟨a, rfl, hsep⟩

theorem splitLast?_eq_none_iff {isSep : α → Bool} {as : List α} :
    splitLast? isSep as = none ↔ ∀ a ∈ as, isSep a = false := by
  induction as with
  | nil => simp [splitLast?]
  | cons a as ih =>
    rw [splitLast?, List.forall_mem_cons, ← ih]
    cases splitLast? isSep as <;> simp

/-- There is no separator after the last one. -/
theorem forall_of_splitLast? {isSep : α → Bool} {as before after : List α}
    (h : splitLast? isSep as = some (before, after)) : ∀ a ∈ after, isSep a = false := by
  induction as generalizing before with
  | nil => cases h
  | cons a as ih =>
    rw [splitLast?] at h
    cases hrest : splitLast? isSep as with
    | some parts =>
      rw [hrest] at h
      cases h
      exact ih hrest
    | none =>
      simp only [hrest, Option.ite_none_right_eq_some] at h
      obtain ⟨-, hparts⟩ := h
      cases hparts
      exact splitLast?_eq_none_iff.mp hrest

theorem splitLast?_append {isSep : α → Bool} {bs before after : List α}
    (h : splitLast? isSep bs = some (before, after)) (as : List α) :
    splitLast? isSep (as ++ bs) = some (as ++ before, after) := by
  induction as with
  | nil => exact h
  | cons a as ih => rw [List.cons_append, splitLast?, ih, List.cons_append]

/-- A separator with none after it is the last one. -/
theorem splitLast?_cons {isSep : α → Bool} {sep : α} {after : List α} (hsep : isSep sep = true)
    (hafter : ∀ a ∈ after, isSep a = false) :
    splitLast? isSep (sep :: after) = some ([], after) := by
  rw [splitLast?, splitLast?_eq_none_iff.mpr hafter, hsep]
  rfl

end Glint.Text
