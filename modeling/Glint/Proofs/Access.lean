import Glint.Error
import Glint.Proofs.CommentSpans
import Glint.Proofs.Outcome

/-!
# Access by position

A reader that works with positions takes elements out of lists, ranges out of lists and slices
out of texts, and it relies on some of its branches not being reached. A reading by positions
has no outcome at all if one of these goes wrong. It is thereby kept apart from a reading that
refuses a shader with an error, and it is sound if its outcome is always there.

## Main definitions

* `Checked` — a reading that makes accesses, with an outcome if all of them are sound
* `Text.range?`, `Text.slice?` — a range of a list and a slice of a text between two positions

## Main results

* `Checked.outcome_bind` — readings with outcomes are read one after the other
* `Text.range?_append`, `Text.slice?_append` — the positions around a part give that part
-/

namespace Glint

/-- A reading that makes accesses: no outcome if one of them fails, else a result or an error. -/
abbrev Checked (α : Type) : Type :=
  ExceptT ReflectError Option α

namespace Checked

variable {α β γ : Type}

/-- An outcome without an access. -/
def outcome (x : Except ReflectError α) : Checked α :=
  ExceptT.mk (some x)

/-- The result of an access. -/
def access (x : Option α) : Checked α :=
  ExceptT.mk (x.map .ok)

/-- A branch that must not be reached. -/
def fault : Checked α :=
  ExceptT.mk none

@[simp] theorem access_some (a : α) : access (some a) = outcome (.ok a) := rfl

@[simp] theorem outcome_ok_bind (a : α) (f : α → Checked β) : (outcome (.ok a) >>= f) = f a := rfl

/-- What goes on with an outcome and has an outcome again has that of both. -/
theorem outcome_bind (x : Except ReflectError α) {f : α → Checked β}
    {g : α → Except ReflectError β} (h : ∀ a, x = .ok a → f a = outcome (g a)) :
    (outcome x >>= f) = outcome (x >>= g) := by
  cases x with
  | error e => rfl
  | ok a => exact h a rfl

/-- A run over a list has an outcome if every step has one. -/
theorem foldlM_eq {f : β → α → Checked β} {g : β → α → Except ReflectError β} {as : List α}
    (h : ∀ a ∈ as, ∀ b, f b a = outcome (g b a)) (b : β) :
    as.foldlM f b = outcome (as.foldlM g b) := by
  induction as generalizing b with
  | nil => rfl
  | cons a as ih =>
    obtain ⟨hfirst, hrest⟩ := List.forall_mem_cons.mp h
    rw [List.foldlM_cons, List.foldlM_cons, hfirst]
    exact outcome_bind _ fun next _ => ih hrest next

end Checked

namespace Text

variable {α : Type}

/-- The elements from one position up to another, if neither lies behind the end and they are in
this order. -/
def range? (start stop : Nat) (as : List α) : Option (List α) :=
  if start ≤ stop ∧ stop ≤ as.length then some ((as.drop start).take (stop - start)) else none

/-- The text between two byte positions, if both are boundaries and they are in this order. -/
def slice? (start stop : Nat) (cs : List Char) : Option (List Char) :=
  (splitBytes? stop cs).bind fun parts => (splitBytes? start parts.1).map Prod.snd

theorem range?_eq_some {start stop : Nat} {as : List α} (hstart : start ≤ stop)
    (hstop : stop ≤ as.length) : range? start stop as = some ((as.drop start).take (stop - start)) :=
  if_pos ⟨hstart, hstop⟩

theorem range?_append (before part after : List α) :
    range? before.length (before.length + part.length) (before ++ part ++ after) = some part := by
  have hstop : before.length + part.length ≤ (before ++ part ++ after).length := by
    simp only [List.length_append]
    omega
  rw [range?_eq_some (Nat.le_add_right _ _) hstop, List.append_assoc, List.drop_left,
    Nat.add_sub_cancel_left, List.take_left]

/-- The elements from a position on, as a range up to the end. -/
theorem range?_length (before after : List α) :
    range? before.length (before ++ after).length (before ++ after) = some after := by
  have h := range?_append before after []
  rwa [List.append_nil, ← List.length_append] at h

/-- The elements before a position, as a range from the start. -/
theorem range?_zero (before after : List α) :
    range? 0 before.length (before ++ after) = some before := by
  have h := range?_append [] before after
  rwa [List.length_nil, Nat.zero_add] at h

theorem le_of_range? {start stop : Nat} {as part : List α} (h : range? start stop as = some part) :
    start ≤ stop := by
  rw [range?, Option.ite_none_right_eq_some] at h
  exact h.1.1

theorem slice?_append (before part after : List Char) :
    slice? (byteLength before) (byteLength before + byteLength part) (before ++ part ++ after) =
      some part := by
  rw [slice?, ← byteLength_append, splitBytes?_append, Option.bind_some, splitBytes?_append]
  rfl

end Text

end Glint
