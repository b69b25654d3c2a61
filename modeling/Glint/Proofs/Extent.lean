import Glint.Proofs.Qualifier

/-!
# The extent of a declaration

A declaration runs to the first semicolon that stands outside the braces opened since its start,
and no brace may be closed there that was not opened. Which tokens lie before that semicolon can
be said by counting the braces in their leading parts, without a search.

## Main definitions

* `Declaration.openings`, `Declaration.closings` — the numbers of braces among some tokens
* `Declaration.Extent` — the tokens close the open braces and have no semicolon outside braces

## Main results

* `Declaration.splitEnd_eq_ok_iff` — the search for the semicolon finds the extent
-/

namespace Glint.Declaration

/-- The number of opening braces. -/
def openings (ts : List Token) : Nat :=
  ts.countP (·.isPunct '{')

/-- The number of closing braces. -/
def closings (ts : List Token) : Nat :=
  ts.countP (·.isPunct '}')

/-- With `depth` braces open, the tokens close all braces and at no point more than are open,
and every semicolon among them lies within braces. -/
structure Extent (depth : Nat) (inner : List Token) : Prop where
  closed : closings inner = depth + openings inner
  covered : ∀ before, before <+: inner → closings before ≤ depth + openings before
  inside : ∀ before t, before ++ [t] <+: inner → t.isPunct ';' = true →
    closings before < depth + openings before

variable {depth : Nat} {t : Token} {ts inner rest : List Token}

@[simp] theorem openings_nil : openings [] = 0 := rfl

@[simp] theorem closings_nil : closings [] = 0 := rfl

theorem openings_append (ts ts' : List Token) : openings (ts ++ ts') = openings ts + openings ts' :=
  List.countP_append

theorem closings_append (ts ts' : List Token) : closings (ts ++ ts') = closings ts + closings ts' :=
  List.countP_append

theorem openings_cons (t : Token) (ts : List Token) :
    openings (t :: ts) = openings [t] + openings ts :=
  openings_append [t] ts

theorem closings_cons (t : Token) (ts : List Token) :
    closings (t :: ts) = closings [t] + closings ts :=
  closings_append [t] ts

theorem openings_singleton (t : Token) : openings [t] = if t.isPunct '{' then 1 else 0 :=
  List.countP_singleton

theorem closings_singleton (t : Token) : closings [t] = if t.isPunct '}' then 1 else 0 :=
  List.countP_singleton

/-- Tokens without braces change no count. -/
theorem openings_eq_zero (h : ∀ t ∈ ts, t.isPunct '{' = false) : openings ts = 0 :=
  List.countP_eq_zero.mpr fun t ht => Bool.eq_false_iff.mp (h t ht)

theorem closings_eq_zero (h : ∀ t ∈ ts, t.isPunct '}' = false) : closings ts = 0 :=
  List.countP_eq_zero.mpr fun t ht => Bool.eq_false_iff.mp (h t ht)

theorem extent_nil_iff : Extent depth [] ↔ depth = 0 := by
  constructor
  · intro h
    have := h.closed
    simp only [closings_nil, openings_nil] at this
    omega
  · rintro rfl
    refine ⟨rfl, ?_, ?_⟩
    · intro before hbefore
      rw [List.prefix_nil.mp hbefore]
      exact Nat.le_refl _
    · intro before t hbefore
      exact absurd (List.prefix_nil.mp hbefore) (by simp)

/-- A token moves the depth for the tokens after it. -/
theorem extent_cons_iff :
    Extent depth (t :: inner) ↔ closings [t] ≤ depth + openings [t] ∧
      (t.isPunct ';' = true → 0 < depth) ∧
      Extent (depth + openings [t] - closings [t]) inner := by
  constructor
  · intro h
    have hfirst : closings [t] ≤ depth + openings [t] := h.covered [t] ⟨inner, rfl⟩
    refine ⟨hfirst, ?_, ?_⟩
    · intro hsemicolon
      have := h.inside [] t ⟨inner, rfl⟩ hsemicolon
      simpa using this
    · constructor
      · have := h.closed
        rw [closings_cons, openings_cons] at this
        omega
      · intro before hbefore
        have := h.covered (t :: before) (List.cons_prefix_cons.mpr ⟨rfl, hbefore⟩)
        rw [closings_cons, openings_cons] at this
        omega
      · intro before t' hbefore hsemicolon
        have := h.inside (t :: before) t' (List.cons_prefix_cons.mpr ⟨rfl, hbefore⟩) hsemicolon
        rw [closings_cons, openings_cons] at this
        omega
  · rintro ⟨hfirst, hsemicolon, h⟩
    constructor
    · have := h.closed
      rw [closings_cons, openings_cons]
      omega
    · intro before hbefore
      rcases List.prefix_cons_iff.mp hbefore with rfl | ⟨more, rfl, hmore⟩
      · exact Nat.zero_le _
      · have := h.covered more hmore
        rw [closings_cons, openings_cons]
        omega
    · intro before t' hbefore ht'
      cases before with
      | nil =>
        obtain rfl : t' = t := (List.cons_prefix_cons.mp hbefore).1
        simpa using hsemicolon ht'
      | cons t'' more =>
        obtain ⟨rfl, hmore⟩ := List.cons_prefix_cons.mp hbefore
        have := h.inside more t' hmore ht'
        rw [closings_cons, openings_cons]
        omega

/-- Tokens that are no braces, and no semicolons outside braces, keep the depth. -/
theorem Extent.append
    (hts : ∀ t ∈ ts, t.isPunct '{' = false ∧ t.isPunct '}' = false ∧
      (t.isPunct ';' = true → 0 < depth))
    (h : Extent depth inner) : Extent depth (ts ++ inner) := by
  induction ts with
  | nil => exact h
  | cons t ts ih =>
    obtain ⟨⟨hopen, hclose, hsemicolon⟩, hts⟩ := List.forall_mem_cons.mp hts
    rw [List.cons_append, extent_cons_iff, openings_singleton, closings_singleton, hopen, hclose]
    exact ⟨Nat.zero_le _, hsemicolon, ih hts⟩

/-! ### The search -/

variable {start : Nat}

theorem splitEnd_semicolon (h : t.isPunct ';' = true) :
    splitEnd start 0 (t :: ts) = .ok ([], ts) := by
  have hopen := Token.isPunct_eq_false h (d := '{') (by decide)
  have hclose := Token.isPunct_eq_false h (d := '}') (by decide)
  simp [splitEnd, h, hopen, hclose]

/-- The search goes past a token that closes no brace too many and does not end the
declaration. -/
theorem splitEnd_cons (hdepth : closings [t] ≤ depth + openings [t])
    (hsemicolon : t.isPunct ';' = true → 0 < depth) :
    splitEnd start depth (t :: ts) =
      splitEnd.prepend t (splitEnd start (depth + openings [t] - closings [t]) ts) := by
  rw [openings_singleton, closings_singleton] at hdepth ⊢
  rw [splitEnd]
  by_cases hopen : t.isPunct '{' = true
  · have hclose := Token.isPunct_eq_false hopen (d := '}') (by decide)
    simp [hopen, hclose]
  · by_cases hclose : t.isPunct '}' = true
    · have hne : depth ≠ 0 := by
        simp only [hopen, hclose] at hdepth
        simpa [Nat.pos_iff_ne_zero, Nat.one_le_iff_ne_zero] using hdepth
      simp [hopen, hclose, hne]
    · have hgo : (t.isPunct ';' && depth == 0) = false := by
        rw [Bool.eq_false_iff]
        intro hend
        rw [Bool.and_eq_true, beq_iff_eq] at hend
        exact absurd (hsemicolon hend.1) (by omega)
      simp [hopen, hclose, hgo]

/-- A brace that closes none of the declaration is an error. -/
theorem splitEnd_unbalanced (hdepth : ¬ closings [t] ≤ depth + openings [t]) :
    splitEnd start depth (t :: ts) = .error (.malformed t.offset .unbalancedBrace) := by
  rw [openings_singleton, closings_singleton] at hdepth
  split at hdepth
  · rename_i hclose
    have hopen := Token.isPunct_eq_false hclose (d := '{') (by decide)
    have hzero : depth = 0 := by
      split at hdepth <;> omega
    simp [splitEnd, hclose, hopen, hzero]
  · exact absurd (Nat.zero_le _) hdepth

/-- The search finds the extent that a semicolon follows. -/
theorem splitEnd_eq_ok_iff :
    splitEnd start depth ts = .ok (inner, rest) ↔
      ∃ semicolon, ts = inner ++ semicolon :: rest ∧ semicolon.isPunct ';' = true ∧
        Extent depth inner := by
  constructor
  · intro h
    induction ts generalizing depth inner with
    | nil => cases h
    | cons t ts ih =>
      by_cases hdepth : closings [t] ≤ depth + openings [t]
      · by_cases hend : t.isPunct ';' = true ∧ depth = 0
        · obtain ⟨hsemicolon, rfl⟩ := hend
          rw [splitEnd_semicolon hsemicolon] at h
          cases h
          exact ⟨t, rfl, hsemicolon, extent_nil_iff.mpr rfl⟩
        · have hsemicolon : t.isPunct ';' = true → 0 < depth := fun hsemicolon =>
            Nat.pos_of_ne_zero fun hzero => hend ⟨hsemicolon, hzero⟩
          rw [splitEnd_cons hdepth hsemicolon] at h
          obtain ⟨inner', hsplit, rfl⟩ := splitEnd.prepend_eq_ok h
          obtain ⟨semicolon, rfl, hlast, hextent⟩ := ih hsplit
          exact ⟨semicolon, rfl, hlast, extent_cons_iff.mpr ⟨hdepth, hsemicolon, hextent⟩⟩
      · rw [splitEnd_unbalanced hdepth] at h
        cases h
  · rintro ⟨semicolon, rfl, hlast, hextent⟩
    induction inner generalizing depth with
    | nil =>
      rw [extent_nil_iff.mp hextent]
      exact splitEnd_semicolon hlast
    | cons t inner ih =>
      obtain ⟨hdepth, hsemicolon, hextent⟩ := extent_cons_iff.mp hextent
      rw [List.cons_append, splitEnd_cons hdepth hsemicolon, ih hextent]
      rfl

end Glint.Declaration
