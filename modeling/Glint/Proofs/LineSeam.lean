import Glint.Proofs.ErrorPlaces
import Glint.Proofs.LineEnds
import Glint.Proofs.Relocation
import Glint.Proofs.UnclosedComment

/-!
# Lines put behind others

Neither tokens nor declarations that are complete reach over the end of a line. The lines of a text
can therefore be read in two parts, one behind the other, and what is read of the second part
stands further behind by the bytes of the first one. If the first part cannot be read, the second
one has no say, but its tokens are still read apart.

## Main results

* `Token.scan_append_line` — the tokens of lines that are put behind others
* `Declaration.readAll_append_line` — the declarations in them, or what stops them
* `Declaration.readAll_append_line_exact` — both, for all lines
-/

namespace Glint

open Text

/-! ### Texts further behind -/

namespace Text

theorem dropBytes_behind (before cs : List Char) (n : Nat) :
    dropBytes (n + byteLength before) (before ++ cs) = dropBytes n cs := by
  induction before with
  | nil => rfl
  | cons c before ih =>
    have hpos := c.utf8Size_pos
    have hne : n + byteLength (c :: before) ≠ 0 := by
      rw [byteLength_cons]
      omega
    have hrest : n + byteLength (c :: before) - c.utf8Size = n + byteLength before := by
      rw [byteLength_cons]
      omega
    rw [List.cons_append, dropBytes, if_neg hne, hrest, ih]

/-- A part of a text is the same part when text is put before, further behind by its bytes. -/
theorem slice_behind (before cs : List Char) (start stop : Nat) :
    slice (start + byteLength before) (stop + byteLength before) (before ++ cs) =
      slice start stop cs := by
  rw [slice, slice, dropBytes_behind, Nat.add_sub_add_right]

end Text

namespace Token

variable {cs : List Char} {ts : List Token}

theorem scanFrom_add_of_parts (h : Parts cs ts) (pos n : Nat) :
    scanFrom (pos + n) cs = (scanFrom pos cs).map (relocate (· + n)) := by
  induction h generalizing pos with
  | nil =>
    rw [scanFrom, scanFrom]
    rfl
  | blank hc _ ih => rw [scanFrom_blank hc, scanFrom_blank hc, Nat.add_right_comm, ih]
  | directive hline hend _ ih =>
    rw [scanFrom_hash hline hend, scanFrom_hash hline hend, Nat.add_right_comm, ih]
  | token ht _ hend _ ih =>
    rw [ht _ _ hend, ht _ _ hend, Nat.add_right_comm, ih, List.map_cons]
    rfl

/-- The tokens of a text that stands further behind. -/
theorem scanFrom_add (pos n : Nat) (cs : List Char) :
    scanFrom (pos + n) cs = (scanFrom pos cs).map (relocate (· + n)) :=
  scanFrom_add_of_parts (parts pos cs) pos n

end Token

/-! ### Declarations further behind -/

namespace Declaration

variable (before source : List Char)

theorem read_behind (first : Token) (inner : List Token) :
    read (before ++ source) (first.relocate (· + byteLength before))
        (inner.map (Token.relocate (· + byteLength before))) =
      (Outcome.relocate (· + byteLength before) (read source first inner)).map
        (relocate (· + byteLength before)) := by
  have hstop : ((inner.getLast?.getD first).relocate (· + byteLength before)).stop =
      (inner.getLast?.getD first).stop + byteLength before :=
    Nat.add_right_comm ..
  rw [read_relocate _ _ source, hstop, slice_behind]
  cases hread : read source first inner with
  | error e => rfl
  | ok d =>
    obtain ⟨_, _, _, _, _, _, _, rfl⟩ := read_eq_ok_iff.mp hread
    rfl

/-- The tokens of a text are read as the declarations that they are, wherever the text stands. -/
theorem readTokens_behind (ts : List Token) :
    readTokens (before ++ source) (ts.map (Token.relocate (· + byteLength before))) =
      (Outcome.relocate (· + byteLength before) (readTokens source ts)).map
        (List.map (relocate (· + byteLength before))) :=
  readTokens_relocate _ ts (read_behind before source) fun _ => rfl

end Declaration

/-! ### Lines behind others -/

/-- The bytes of some lines and of the line feed behind them. -/
theorem Text.byteLength_line (a : String) :
    byteLength (a.toList ++ ['\n']) = a.utf8ByteSize + 1 := by
  rw [byteLength_append, byteLength_eq_utf8ByteSize, String.ofList_toList]
  rfl

theorem Text.toList_append_line (a b : String) :
    (a ++ "\n" ++ b).toList = a.toList ++ '\n' :: b.toList := by
  simp

/-- Lines that are put behind others add their own tokens to those of the others. -/
theorem Token.scan_append_line (a b : String) :
    scan (a ++ "\n" ++ b) = scan a ++ (scan b).map (relocate (· + (a.utf8ByteSize + 1))) := by
  rw [scan, toList_append_line, scanFrom_append_feed, byteLength_line, scanFrom_add]
  rfl

namespace Declaration

/-- Lines behind others that are read add their own declarations, or fail as they do alone. -/
theorem readAll_append_line {a : String} {ds : List Declaration} (h : readAll a = .ok ds)
    (b : String) :
    readAll (a ++ "\n" ++ b) =
      (Outcome.relocate (· + (a.utf8ByteSize + 1)) (readAll b)).map
        fun ds' => ds ++ ds'.map (relocate (· + (a.utf8ByteSize + 1))) := by
  have hjoined := readTokens_append_of_readAll h ('\n' :: b.toList)
    ((Token.scan b).map (Token.relocate (· + (a.utf8ByteSize + 1))))
  have hbehind := readTokens_behind (a.toList ++ ['\n']) b.toList (Token.scan b)
  rw [byteLength_line, List.append_assoc, List.singleton_append] at hbehind
  rw [readAll, Token.scan_append_line, toList_append_line, hjoined, hbehind, readAll]
  cases readTokens b.toList (Token.scan b) <;> rfl

/-- What stops the reading of declarations is a fault at some position. -/
theorem exists_malformed_of_readAll {source : String} {e : ReflectError}
    (h : readAll source = .error e) : ∃ offset fault, e = .malformed offset fault := by
  obtain ⟨_, _, -, offset, fault, he, -⟩ := exists_begun_of_readTokens h
  exact ⟨offset, fault, he⟩

/-- The tokens of lines that are put behind others are those of the others and then their own.
If the others can be read, then so are the declarations, and where the lines cannot be read the
whole fails as they do. What stems from the lines stands further behind by the bytes of the others
and of the line feed. -/
theorem readAll_append_line_exact (a b : String) :
    Token.scan (a ++ "\n" ++ b) =
        Token.scan a ++ (Token.scan b).map (Token.relocate (· + (a.utf8ByteSize + 1))) ∧
      ∀ ds, readAll a = .ok ds →
        (∀ ds', readAll b = .ok ds' → readAll (a ++ "\n" ++ b) =
          .ok (ds ++ ds'.map (relocate (· + (a.utf8ByteSize + 1))))) ∧
        ∀ e, readAll b = .error e → ∃ offset fault, e = .malformed offset fault ∧
          readAll (a ++ "\n" ++ b) =
            .error (.malformed (offset + (a.utf8ByteSize + 1)) fault) := by
  refine ⟨Token.scan_append_line a b, ?_⟩
  intro ds hds
  have hjoined := readAll_append_line hds b
  constructor
  · intro ds' hds'
    rw [hjoined, hds']
    rfl
  · intro e he
    obtain ⟨offset, fault, rfl⟩ := exists_malformed_of_readAll he
    refine ⟨offset, fault, rfl, ?_⟩
    rw [hjoined, he]
    rfl

/-- A line with a brace that is not closed and a preprocessor directive behind it. -/
def openLine : String :=
  "float half \x7b #if 1.5"

/-- A line that closes a brace, and an input. -/
def inputLine : String :=
  "\x7d layout(location = 0) in vec3 p;"

/-- A line that closes a brace, and an input with a key that lacks its value. -/
def faultyLine : String :=
  "\x7d layout(location = ) in vec3 p;"

/-- The declaration of the input. -/
def lineInput : Declaration :=
  ⟨2, "layout(location = 0) in vec3 p", [⟨"location", some "0"⟩],
    [⟨.ident, "in", 23⟩, ⟨.ident, "vec3", 26⟩, ⟨.ident, "p", 31⟩]⟩

/-- Neither the brace nor the directive goes on in the next line. -/
theorem readAll_append_line_exact_open :
    readAll (openLine ++ "\n" ++ inputLine) = .ok [lineInput.relocate (· + 21)] ∧
      readAll (openLine ++ "\n" ++ faultyLine) = .error (.malformed 30 .missingQualifierValue) := by
  have hopen : readAll openLine = .ok [] := by decide +kernel
  have hinput : readAll inputLine = .ok [lineInput] := by decide +kernel
  have hfaulty : readAll faultyLine = .error (.malformed 9 .missingQualifierValue) := by
    decide +kernel
  have hsize : openLine.utf8ByteSize + 1 = 21 := by decide +kernel
  constructor
  · have hread := ((readAll_append_line_exact openLine inputLine).2 [] hopen).1 _ hinput
    rwa [hsize] at hread
  · obtain ⟨offset, fault, he, hstop⟩ :=
      ((readAll_append_line_exact openLine faultyLine).2 [] hopen).2 _ hfaulty
    cases he
    rwa [hsize] at hstop

end Declaration

end Glint
