import Glint.Proofs.CommentSpans
import Glint.Proofs.Division
import Glint.Proofs.FaultPlaces
import Glint.Proofs.TokenCover

/-!
# Where the errors of a shader point

A fault of a shader is told at a token of one declaration: at the word `layout` that begins it, or
at a token up to the semicolon at which it stops. This holds for declarations that are cut short
as well, which stop where the text does. A declaration that is not recognized is told by its text,
which begins with that word. Without the word there is no error at all.

## Main definitions

* `Declaration.UpToEnd` — tokens go on up to the semicolon that ends a declaration
* `Declaration.Begun` — a declaration begins at a token, and these follow it

## Main results

* `Declaration.exists_begun_of_readTokens` — where reading fails
* `Declaration.Division.begun` — the declarations that are read have begun too
* `Interface.ofText_error_exact` — where a shader fails, and what it tells
-/

namespace Glint

open Text
open Outcome (FailsWith FailsAt)

namespace Declaration

/-- The tokens behind `done` go on up to the first semicolon outside the braces opened since then,
or up to the end. -/
structure UpToEnd (done inner after : List Token) : Prop where
  inside : ∀ part s, part ++ [s] <+: inner → s.isPunct ';' = true →
    closings (done ++ part) < openings (done ++ part)
  ends : ∀ s ∈ after.head?, s.isPunct ';' = true ∧
    openings (done ++ inner) ≤ closings (done ++ inner)

/-- A declaration begins at the token `first`, behind others that are complete, and `inner` are
the tokens of it that follow. -/
structure Begun (ts : List Token) (first : Token) (inner : List Token) : Prop where
  word : first.spellsAnyCase "layout" = true
  split : ∃ gap fs after, Division gap fs ∧ ts = gap ++ first :: (inner ++ after) ∧
    UpToEnd [] inner after

variable {source : List Char} {done inner after ts rest : List Token} {t first : Token}
  {e : ReflectError}

/-! ### Up to the end -/

namespace UpToEnd

theorem nil (done : List Token) : UpToEnd done [] [] where
  inside := by simp
  ends := by simp

theorem stop (ht : t.isPunct ';' = true) (hdone : openings done ≤ closings done)
    (after : List Token) : UpToEnd done [] (t :: after) where
  inside := by simp
  ends := by
    rintro s ⟨⟩
    rw [List.append_nil]
    exact ⟨ht, hdone⟩

/-- A token that does not end a declaration is one of it. -/
theorem cons (ht : t.isPunct ';' = true → closings done < openings done)
    (h : UpToEnd (done ++ [t]) inner after) : UpToEnd done (t :: inner) after where
  inside := by
    intro part s hpart hs
    cases part with
    | nil =>
      obtain rfl : s = t := (List.cons_prefix_cons.mp hpart).1
      rw [List.append_nil]
      exact ht hs
    | cons u part =>
      obtain ⟨rfl, hmore⟩ := List.cons_prefix_cons.mp hpart
      have := h.inside part s hmore hs
      rwa [List.append_assoc, List.singleton_append] at this
  ends := by
    intro s hs
    have := h.ends s hs
    rwa [List.append_assoc, List.singleton_append] at this

/-- The tokens of a declaration that is complete go on up to its semicolon. -/
theorem of_extent (h : Extent 0 inner) (ht : t.isPunct ';' = true) (rest : List Token) :
    UpToEnd [] inner (t :: rest) where
  inside := by
    intro part s hpart hs
    have := h.inside part s hpart hs
    rwa [Nat.zero_add] at this
  ends := by
    rintro s ⟨⟩
    have := h.closed
    rw [Nat.zero_add] at this
    exact ⟨ht, Nat.le_of_eq this.symm⟩

end UpToEnd

/-- Whatever tokens there are, they end somewhere. -/
theorem exists_upToEnd (done ts : List Token) :
    ∃ inner after, ts = inner ++ after ∧ UpToEnd done inner after := by
  induction ts generalizing done with
  | nil => exact ⟨[], [], rfl, .nil done⟩
  | cons t ts ih =>
    by_cases hend : t.isPunct ';' = true ∧ openings done ≤ closings done
    · exact ⟨[], t :: ts, rfl, .stop hend.1 hend.2 ts⟩
    · obtain ⟨inner, after, rfl, h⟩ := ih (done ++ [t])
      refine ⟨t :: inner, after, rfl, h.cons ?_⟩
      intro ht
      exact Nat.lt_of_not_le fun hle => hend ⟨ht, hle⟩

/-- The search for the semicolon fails at the start or at a brace before it. -/
theorem exists_upToEnd_of_splitEnd {start depth : Nat}
    (hdepth : openings done = closings done + depth)
    (h : splitEnd start depth ts = .error e) :
    ∃ inner after, ts = inner ++ after ∧ UpToEnd done inner after ∧
      ∃ offset fault, e = .malformed offset fault ∧
        (start = offset ∨ Token.StartsAt inner offset) := by
  induction ts generalizing done depth with
  | nil =>
    cases h
    exact ⟨[], [], rfl, .nil done, start, _, rfl, .inl rfl⟩
  | cons t ts ih =>
    by_cases hbalance : closings [t] ≤ depth + openings [t]
    · by_cases hend : t.isPunct ';' = true ∧ depth = 0
      · obtain ⟨hsemicolon, rfl⟩ := hend
        rw [splitEnd_semicolon hsemicolon] at h
        cases h
      · have hpos : t.isPunct ';' = true → 0 < depth := fun ht =>
          Nat.pos_of_ne_zero fun hzero => hend ⟨ht, hzero⟩
        rw [splitEnd_cons hbalance hpos] at h
        have hnext : openings (done ++ [t]) =
            closings (done ++ [t]) + (depth + openings [t] - closings [t]) := by
          rw [openings_append, closings_append]
          omega
        obtain ⟨inner, after, rfl, hinner, offset, fault, he, hplace⟩ :=
          ih hnext (Outcome.map_eq_error.mp h)
        refine ⟨t :: inner, after, rfl, hinner.cons ?_, offset, fault, he, ?_⟩
        · intro ht
          have := hpos ht
          omega
        · exact hplace.imp_right (·.mono (List.subset_cons_self t inner))
    · rw [splitEnd_unbalanced hbalance] at h
      cases h
      obtain ⟨inner, after, rfl, hinner⟩ := exists_upToEnd (done ++ [t]) ts
      refine ⟨t :: inner, after, rfl, hinner.cons ?_, _, _, rfl, .inr ⟨t, List.mem_cons_self, rfl⟩⟩
      intro ht
      -- A token that closes a brace is no semicolon.
      rw [closings_singleton, Token.isPunct_eq_false ht (by decide)] at hbalance
      exact absurd (Nat.zero_le _) hbalance

/-! ### Reading the qualifier -/

section Qualifier

variable {E : ReflectError → Prop} {last : Nat}

theorem failsWith_readNext {next : Token}
    {more : Except ReflectError (List LayoutEntry × List Token)}
    (hnext : ∀ fault, E (.malformed next.offset fault)) (hmore : FailsWith E more)
    (entry : LayoutEntry) (ts : List Token) :
    FailsWith E (readEntries.readNext entry next ts more) := by
  rw [readEntries.readNext]
  split
  · exact hmore.map
  · split
    · exact .ok _
    · exact .error (hnext _)

/-- The entries of a qualifier are refused at one of their tokens or at the end. -/
theorem failsWith_readEntries (hlast : ∀ fault, E (.malformed last fault))
    (hts : ∀ t ∈ ts, ∀ fault, E (.malformed t.offset fault)) :
    FailsWith E (readEntries last ts) := by
  fun_induction readEntries last ts with
  | case1 => exact .error (hlast _)
  | case2 => exact .ok _
  | case3 | case5 | case6 => exact .error (hts _ List.mem_cons_self _)
  | case4 | case7 => exact .error (hlast _)
  | case8 _ _ _ _ _ _ _ next ts ih =>
    simp only [List.forall_mem_cons] at hts
    obtain ⟨-, -, -, hnext, hts⟩ := hts
    exact failsWith_readNext hnext (ih hts) _ ts
  | case9 _ _ _ next ts _ ih =>
    simp only [List.forall_mem_cons] at hts
    obtain ⟨-, hnext, hts⟩ := hts
    exact failsWith_readNext hnext (ih hts) _ ts

end Qualifier

/-- The error is a fault at a token. -/
def FaultAt (ts : List Token) (e : ReflectError) : Prop :=
  ∃ offset fault, e = .malformed offset fault ∧ Token.StartsAt ts offset

theorem FaultAt.of_mem (ht : t ∈ ts) (fault : Fault) : FaultAt ts (.malformed t.offset fault) :=
  ⟨t.offset, fault, rfl, t, ht, rfl⟩

/-- What stands between the word `layout` and the semicolon is refused at one of these tokens. -/
theorem failsWith_read (source : List Char) (first : Token) (inner : List Token) :
    FailsWith (FaultAt (first :: inner)) (read source first inner) := by
  cases inner with
  | nil => exact .error (.of_mem List.mem_cons_self _)
  | cons t ts =>
    have hlast : (t :: ts).getLast?.getD first ∈ first :: t :: ts := by
      rw [List.getLast?_cons, Option.getD_some, List.mem_cons]
      exact .inr (List.mem_of_getLast? List.getLast?_cons)
    rw [read]
    split
    · apply FailsWith.map
      apply failsWith_readEntries
      · exact .of_mem hlast
      · intro u hu
        exact .of_mem (List.mem_cons_of_mem first (List.mem_cons_of_mem t hu))
    · exact .error (.of_mem hlast _)

/-! ### Where a declaration begins -/

namespace Begun

theorem skip (ht : t.spellsAnyCase "layout" = false) (h : Begun ts first inner) :
    Begun (t :: ts) first inner where
  word := h.word
  split := by
    obtain ⟨gap, fs, after, hgap, rfl, hend⟩ := h.split
    exact ⟨t :: gap, fs, after, hgap.cons ht, rfl, hend⟩

/-- A declaration that begins behind another one. -/
theorem behind {gap : List Token} (hgap : ∀ t ∈ gap, t.spellsAnyCase "layout" = false) (f : Found)
    (h : Begun ts first inner) : Begun (gap ++ f.tokens ++ f.semicolon :: ts) first inner where
  word := h.word
  split := by
    obtain ⟨gap', fs, after, hfs, rfl, hend⟩ := h.split
    refine ⟨_, f :: fs, after, .next gap hgap f hfs, ?_, hend⟩
    rw [List.append_assoc _ (f.semicolon :: gap'), List.cons_append]

/-- A declaration that no other one stands before. -/
theorem here {gap : List Token} (hgap : ∀ t ∈ gap, t.spellsAnyCase "layout" = false)
    (hword : first.spellsAnyCase "layout" = true) (h : UpToEnd [] inner after) :
    Begun (gap ++ first :: (inner ++ after)) first inner where
  word := hword
  split := ⟨gap, [], after, .last hgap, rfl, h⟩

end Begun

/-- Every declaration of a division has begun. -/
theorem Division.begun {fs : List Found} (h : Division ts fs) :
    ∀ f ∈ fs, Begun ts f.first f.inner := by
  induction h with
  | last => exact List.forall_mem_nil _
  | @next gap hgap f ts fs _ ih =>
    rw [List.forall_mem_cons]
    constructor
    · have hend : UpToEnd [] f.inner (f.semicolon :: ts) :=
        .of_extent f.hextent f.hsemicolon ts
      have hbegun := Begun.here hgap f.hfirst hend
      rwa [← List.cons_append, ← List.append_assoc] at hbegun
    · intro f' hf'
      exact (ih f' hf').behind hgap f

/-- Reading fails at a token of a declaration that has begun. -/
theorem exists_begun_of_readTokens (h : readTokens source ts = .error e) :
    ∃ first inner, Begun ts first inner ∧ FaultAt (first :: inner) e := by
  induction ts using readTokens.induct with
  | case1 =>
    rw [readTokens] at h
    cases h
  | case2 t ts ht e' hsplit =>
    -- The end of the declaration is not found.
    rw [readTokens_stop ht hsplit] at h
    obtain rfl : e' = e := Except.error.inj h
    have hdepth : openings [] = closings [] + 0 := rfl
    obtain ⟨inner, after, rfl, hend, offset, fault, rfl, hplace⟩ :=
      exists_upToEnd_of_splitEnd hdepth hsplit
    refine ⟨t, inner, .here (List.forall_mem_nil _) ht hend, offset, fault, rfl, ?_⟩
    rcases hplace with hstart | hinner
    · exact ⟨t, List.mem_cons_self, hstart⟩
    · exact hinner.mono (List.subset_cons_self t inner)
  | case3 t ts ht inner rest hsplit ih =>
    rw [readTokens_next ht hsplit] at h
    rcases Outcome.bind_eq_error.mp h with hread | ⟨d, hread, h⟩
    · -- The end is found, and what stands before it is refused.
      obtain ⟨semicolon, rfl, hsemicolon, hextent⟩ := splitEnd_eq_ok_iff.mp hsplit
      have hend : UpToEnd [] inner (semicolon :: rest) := .of_extent hextent hsemicolon rest
      have hbegun : Begun (t :: (inner ++ semicolon :: rest)) t inner :=
        .here (List.forall_mem_nil _) ht hend
      exact ⟨t, inner, hbegun, failsWith_read source t inner e hread⟩
    · -- The declaration is read, and the reading fails behind it.
      have hrest : readTokens source rest = .error e := by
        rcases Outcome.bind_eq_error.mp h with h | ⟨ds, -, h⟩
        · exact h
        · cases h
      obtain ⟨f, hf⟩ := exists_found ht hsplit hread
      obtain ⟨first, inner, hbegun, he⟩ := ih hrest
      rw [hf]
      exact ⟨first, inner, hbegun.behind (List.forall_mem_nil _) f, he⟩
  | case4 t ts ht ih =>
    rw [Bool.not_eq_true] at ht
    rw [readTokens_skip ht] at h
    obtain ⟨first, inner, hbegun, he⟩ := ih h
    exact ⟨first, inner, hbegun.skip ht, he⟩

/-! ### The declarations that are read -/

namespace Found

variable {f : Found} {source : String}

/-- The places of a declaration are those of its tokens. -/
theorem startsAt_of_place {text : List Char} {n : Nat} (h : (f.declaration text).Place n) :
    Token.StartsAt (f.first :: f.inner) n := by
  rcases h with hstart | hbody
  · exact ⟨f.first, List.mem_cons_self, hstart⟩
  · apply hbody.mono
    intro t ht
    exact List.mem_cons_of_mem _ (List.mem_cons_of_mem _ (List.mem_append_right _ ht))

/-- The text of a declaration begins with its first token. -/
theorem prefix_text (hexact : f.Exact source.toList)
    (hbegun : Begun (Token.scan source) f.first f.inner) :
    f.first.text.toList <+: (f.declaration source.toList).text.toList := by
  obtain ⟨gap, fs, after, -, hscan, -⟩ := hbegun.split
  have hcovered : Token.Covered 0 source.toList (Token.scan source) :=
    Token.covered_scanFrom 0 source.toList
  -- The first token ends before the last one starts.
  have hlast : f.last ∈ f.inner ++ after :=
    List.mem_append_left _ (List.mem_of_getLast? f.getLast?_inner)
  have hapart := hcovered.apart
  rw [hscan, List.pairwise_append, List.pairwise_cons] at hapart
  have hstop : f.first.stop ≤ f.last.stop :=
    Nat.le_trans (hapart.2.1.1 f.last hlast) (Nat.le_add_right _ _)
  -- Both texts start at the same place.
  obtain ⟨before, rest, hfirst, hoffset, -⟩ := hcovered.longest f.first (by simp [hscan])
  obtain ⟨before', rest', htext, hoffset', hlength⟩ := hexact.text
  have hbefore : byteLength before = byteLength before' := by omega
  have hsplit := hfirst.symm.trans htext
  rw [List.append_assoc, List.append_assoc] at hsplit
  have hrest := (Token.append_inj_of_byteLength hsplit hbefore).2
  have hle : byteLength f.first.text.toList ≤
      byteLength (f.declaration source.toList).text.toList := by
    rw [Token.stop] at hstop
    omega
  obtain ⟨part, hpart, -⟩ := exists_eq_append_of_byteLength_le hrest hle
  exact ⟨part, hpart.symm⟩

end Found

end Declaration

namespace Interface

open Comment Declaration

variable {env : TypeEnv} {source : ShaderText} {e : ReflectError}

/-- What stops a shader is a fault at a token of a declaration, or that the declaration is not
recognized, or it is neither. -/
theorem exists_begun_of_ofText (h : ofText env source = .error e) :
    ∃ first inner, Begun (Token.scan (strip source.text)) first inner ∧
      (e.IsAt (Token.StartsAt (first :: inner)) ∨
        ∃ before text after, e = .unrecognized text ∧
          (strip source.text).toList = before ++ text.toList ++ after ∧
          byteLength before = first.offset ∧ first.text.toList <+: text.toList) := by
  rcases Outcome.bind_eq_error.mp h with hread | ⟨ds, hread, h⟩
  · obtain ⟨first, inner, hbegun, offset, fault, rfl, hplace⟩ := exists_begun_of_readTokens hread
    exact ⟨first, inner, hbegun, .inl hplace⟩
  · obtain ⟨fs, hfs, rfl⟩ := readTokens_eq_ok_iff.mp hread
    have hrun := Collected.failsWith_foldlM env source.stage ((fs.filter Found.isKept).map
      (·.declaration (strip source.text).toList)) .empty
    obtain ⟨d, hd, he⟩ := (hrun.bind fun _ _ => .ok _) e h
    obtain ⟨f, hf, rfl⟩ := List.mem_map.mp hd
    have hf := List.mem_of_mem_filter hf
    have hbegun := hfs.begun f hf
    have hexact := ((readAll_exact (strip source.text)).2 fs hfs).1 f hf
    refine ⟨f.first, f.inner, hbegun, ?_⟩
    rcases he with hat | rfl
    · exact .inl (hat.mono fun n => Found.startsAt_of_place)
    · obtain ⟨before, after, htext, hbefore, -⟩ := hexact.text
      exact .inr ⟨before, _, after, rfl, htext, hbefore, f.prefix_text hexact hbegun⟩

/-- A fault of a shader is told where a token starts that belongs to a declaration which has
begun. A declaration that is not recognized is told by a part of the text, which starts with the
word `layout` where that declaration begins. A shader without this word declares nothing. -/
theorem ofText_error_exact (env : TypeEnv) (source : ShaderText) :
    (∀ offset fault, ofText env source = .error (.malformed offset fault) →
      ∃ first inner, Begun (Token.scan (strip source.text)) first inner ∧
        ∃ t ∈ first :: inner, t.offset = offset) ∧
    (∀ text, ofText env source = .error (.unrecognized text) →
      ∃ first inner, Begun (Token.scan (strip source.text)) first inner ∧
        ∃ before after, (strip source.text).toList = before ++ text.toList ++ after ∧
          byteLength before = first.offset ∧ first.text.toList <+: text.toList) ∧
    ((∀ t ∈ Token.scan (strip source.text), t.spellsAnyCase "layout" = false) →
      ofText env source = .ok ⟨source.name, source.stage, [], [], [], [], [], []⟩) := by
  refine ⟨?_, ?_, ?_⟩
  · intro offset fault h
    obtain ⟨first, inner, hbegun, hplace | ⟨_, _, _, he, -⟩⟩ := exists_begun_of_ofText h
    · exact ⟨first, inner, hbegun, hplace⟩
    · cases he
  · intro text h
    obtain ⟨first, inner, hbegun, hplace | ⟨before, _, after, he, htext⟩⟩ :=
      exists_begun_of_ofText h
    · exact hplace.elim
    · cases he
      exact ⟨first, inner, hbegun, before, after, htext⟩
  · intro hnone
    have hread : readAll (strip source.text) = .ok [] := by
      rw [readAll, (Division.last hnone).readTokens]
      rfl
    rw [ofText, hread]
    rfl

/-- A vertex shader with two names in its second declaration. -/
def twoNames : ShaderText :=
  ⟨"lit.vert", .vertex, "float x; layout(location = 0) in vec3 p q;"⟩

/-- A vertex shader with a declaration without a storage keyword. -/
def noStorage : ShaderText :=
  ⟨"lit.vert", .vertex, "float x; Layout(set = 0) vec3 p;"⟩

theorem ofText_error_exact_twoNames :
    (ofText .glsl twoNames = .error (.malformed 40 (.afterName "q")) ∧
      ∃ first inner, Begun (Token.scan (strip twoNames.text)) first inner ∧
        ∃ t ∈ first :: inner, t.offset = 40) ∧
    ofText .glsl noStorage = .error (.unrecognized "Layout(set = 0) vec3 p") ∧
      ∃ first inner, Begun (Token.scan (strip noStorage.text)) first inner ∧
        first.text.toList <+: "Layout(set = 0) vec3 p".toList := by
  have hnames : ofText .glsl twoNames = .error (.malformed 40 (.afterName "q")) := by
    decide +kernel
  have hstorage : ofText .glsl noStorage = .error (.unrecognized "Layout(set = 0) vec3 p") := by
    decide +kernel
  obtain ⟨first, inner, hbegun, _, _, -, -, hprefix⟩ :=
    (ofText_error_exact .glsl noStorage).2.1 _ hstorage
  exact ⟨⟨hnames, (ofText_error_exact .glsl twoNames).1 _ _ hnames⟩, hstorage, first, inner,
    hbegun, hprefix⟩

end Interface

end Glint
