import Glint.Proofs.Access
import Glint.Proofs.CommentBytes
import Glint.Token

/-!
# Comments and tokens by position

The scan for comments looks at a byte and the next one, at a position that it counts up, and
the spans that it finds are cut out of the text from the last to the first. The scan for tokens
cuts the text of each token out of the whole text. Written with checks, both make sound
accesses only, in every text.

## Main definitions

* `Comment.scanAt`, `Comment.stripAt` — the scan and the removal of comments with checks
* `Token.scanAt` — the scan for tokens with checks

## Main results

* `Comment.stripAt_eq` — the accesses of stripping are sound
* `Token.scanAt_eq`, `Token.scanAt_zero` — the accesses of the scan for tokens are sound
-/

namespace Glint

open Text

/-! ### Comments -/

namespace Comment

/-- The scan of the bytes of a text at a position. Both bytes are read at their positions, and
the length of an open block comment is only measured from a start that is not behind the
position. -/
def scanAt (bytes : List UInt8) (mode : Mode) (pos : Nat) : Option (Mode × List Span) :=
  if pos + 1 < bytes.length then do
    let byte ← bytes[pos]?
    let next ← bytes[pos + 1]?
    match mode with
    | .text =>
      if byte = '/'.toUInt8 ∧ next = '*'.toUInt8 then scanAt bytes (.block pos) (pos + 1)
      else if byte = '/'.toUInt8 ∧ next = '/'.toUInt8 then scanAt bytes (.line pos) (pos + 1)
      else scanAt bytes .text (pos + 1)
    | .block start =>
      if byte = '*'.toUInt8 ∧ next = '/'.toUInt8 then
        if pos < start then none
        else if 1 < pos - start then
          (scanAt bytes .text (pos + 2)).map (pairScan.found ⟨start, pos + 2⟩)
        else scanAt bytes (.block start) (pos + 1)
      else scanAt bytes (.block start) (pos + 1)
    | .line start =>
      if endsLineByte next then
        (scanAt bytes .text (pos + 1)).map (pairScan.found ⟨start, pos + 1⟩)
      else scanAt bytes (.line start) (pos + 1)
  else
    match mode with
    | .text => some (.text, [])
    | .block start => some (.block start, [])
    | .line start => some (.line start, [⟨start, bytes.length⟩])
termination_by bytes.length - pos

/-- A text without its comments. Every span is cut out of what is left when its turn comes. -/
def stripAt (source : String) : Option String := do
  let (_, spans) ← scanAt source.toUTF8.data.toList .text 0
  let left ← spans.foldrM removeSpan? source.toList
  return String.ofList left

/-- The mode began at a position or before it. -/
def Mode.BeganBy (pos : Nat) : Mode → Prop
  | .text => True
  | .line start | .block start => start ≤ pos

variable {bytes : List UInt8} {mode : Mode} {pos : Nat}

/-- The scan ends at the last byte of a text. -/
theorem scanAt_last (hlast : ¬ pos + 1 < bytes.length) (hpos : pos ≤ bytes.length) :
    scanAt bytes mode pos = some (pairScan mode pos (bytes.drop pos)) := by
  have hlength : (bytes.drop pos).length = bytes.length - pos := List.length_drop
  have hend : pos + (bytes.drop pos).length = bytes.length := by omega
  have hone : (bytes.drop pos).length ≤ 1 := by omega
  generalize bytes.drop pos = rest at hend hone ⊢
  rw [scanAt.eq_def, if_neg hlast, ← hend]
  match rest with
  | [] => cases mode <;> rfl
  | [byte] => cases mode <;> rfl
  | _ :: _ :: _ => simp at hone

/-- The scan by positions is the scan of the bytes behind the position. -/
theorem scanAt_eq (hmode : mode.BeganBy pos) (hpos : pos ≤ bytes.length) :
    scanAt bytes mode pos = some (pairScan mode pos (bytes.drop pos)) := by
  induction hrest : bytes.length - pos using Nat.strongRecOn generalizing mode pos with
  | _ n ih =>
    subst hrest
    by_cases hmore : pos + 1 < bytes.length
    · have hbyte : bytes[pos]? = some bytes[pos] := List.getElem?_eq_getElem _
      have hnext : bytes[pos + 1]? = some bytes[pos + 1] := List.getElem?_eq_getElem _
      have hdrop' : bytes.drop (pos + 1) = bytes[pos + 1] :: bytes.drop (pos + 2) :=
        List.drop_eq_getElem_cons hmore
      have hdrop : bytes.drop pos = bytes[pos] :: bytes.drop (pos + 1) :=
        List.drop_eq_getElem_cons (by omega)
      have hone (mode' : Mode) (hmode' : mode'.BeganBy (pos + 1)) :
          scanAt bytes mode' (pos + 1) =
            some (pairScan mode' (pos + 1) (bytes[pos + 1] :: bytes.drop (pos + 2))) := by
        rw [ih (bytes.length - (pos + 1)) (by omega) hmode' (by omega) rfl, hdrop']
      have htwo : scanAt bytes .text (pos + 2) =
          some (pairScan .text (pos + 2) (bytes.drop (pos + 2))) :=
        ih (bytes.length - (pos + 2)) (by omega) trivial (by omega) rfl
      rw [scanAt.eq_def, if_pos hmore, hbyte, hnext, hdrop, hdrop']
      simp only [Option.bind_eq_bind, Option.bind_some]
      cases mode with
      | text =>
        dsimp only
        rw [pairScan, hone (.block pos) (Nat.le_succ pos), hone (.line pos) (Nat.le_succ pos),
          hone .text trivial, apply_ite some, apply_ite some]
      | block start =>
        have hstart : ¬ pos < start := Nat.not_lt.mpr hmode
        dsimp only
        rw [pairScan, hone (.block start) (Nat.le_succ_of_le hmode), htwo, if_neg hstart]
        by_cases hclose : bytes[pos] = '*'.toUInt8 ∧ bytes[pos + 1] = '/'.toUInt8
        · -- A star and a slash close the comment unless the star is that of the opening.
          rw [if_pos hclose]
          by_cases hlong : 1 < pos - start
          · rw [if_pos hlong, if_pos ⟨hclose.1, hclose.2, hlong⟩]
            rfl
          · rw [if_neg hlong, if_neg fun h => hlong h.2.2]
        · rw [if_neg hclose, if_neg fun h => hclose ⟨h.1, h.2.1⟩]
      | line start =>
        dsimp only
        rw [pairScan, hone .text trivial, hone (.line start) (Nat.le_succ_of_le hmode),
          apply_ite some]
        rfl
    · exact scanAt_last hmore hpos

/-- The accesses of stripping are sound. -/
theorem stripAt_eq (source : String) : stripAt source = some (strip source) := by
  have hstart : Mode.text.BeganBy 0 := trivial
  have hscan := scanAt_eq hstart (Nat.zero_le source.toUTF8.data.toList.length)
  rw [stripAt, hscan, List.drop_zero, toUTF8_eq]
  have hspans : (pairScan .text 0 (utf8 source.toList)).2 = spans source.toList :=
    pairScan_spans 0 source.toList
  simp only [Option.bind_eq_bind, Option.bind_some, hspans, foldrM_removeSpan?]
  rfl

end Comment

/-! ### Tokens -/

namespace Token

/-- The token between two positions of a text. -/
def sliceAt (source : List Char) (kind : TokenKind) (pos stop : Nat) : Option Token :=
  (slice? pos stop source).map fun text => ⟨kind, String.ofList text, pos⟩

/-- The tokens of the part of a text that starts at byte `pos`. The text of every token is a
slice of the whole text. -/
def scanAt (source : List Char) (pos : Nat) : List Char → Option (List Token)
  | [] => some []
  | c :: cs =>
    if c == '#' then
      scanAt source (pos + byteLength (c :: cs.takeWhile isLinePart)) (cs.dropWhile isLinePart)
    else if isBlank c then scanAt source (pos + c.utf8Size) cs
    else if isIdentStart c then do
      let stop := pos + byteLength (c :: cs.takeWhile isIdentPart)
      let t ← sliceAt source .ident pos stop
      let ts ← scanAt source stop (cs.dropWhile isIdentPart)
      return t :: ts
    else if c.isDigit then do
      let stop := pos + byteLength (c :: cs.takeWhile isNumberPart)
      let t ← sliceAt source .number pos stop
      let ts ← scanAt source stop (cs.dropWhile isNumberPart)
      return t :: ts
    else do
      let stop := pos + byteLength [c]
      let t ← sliceAt source (.punct c) pos stop
      let ts ← scanAt source stop cs
      return t :: ts
termination_by cs => cs.length
decreasing_by
  all_goals simp only [List.length_cons]
  all_goals first
    | exact Nat.lt_succ_self _
    | exact Nat.lt_succ_of_le (List.dropWhile_suffix _).length_le

/-- The accesses of the scan for tokens are sound. -/
theorem scanAt_eq (before cs : List Char) :
    scanAt (before ++ cs) (byteLength before) cs = some (scanFrom (byteLength before) cs) := by
  induction hlength : cs.length using Nat.strongRecOn generalizing before cs with
  | _ n ih =>
    subst hlength
    cases cs with
    | nil => rw [scanAt, scanFrom]
    | cons c cs =>
      -- The scan goes on behind a part of the text that is not empty.
      have hrest {part rest : List Char} (hcs : c :: cs = c :: part ++ rest) :
          scanAt (before ++ c :: cs) (byteLength before + byteLength (c :: part)) rest =
            some (scanFrom (byteLength before + byteLength (c :: part)) rest) := by
        have hshorter : rest.length < (c :: cs).length := by
          rw [hcs, List.length_append, List.length_cons]
          omega
        have hscan := ih _ hshorter (before ++ c :: part) rest rfl
        rwa [List.append_assoc, ← hcs, byteLength_append] at hscan
      have hslice {part rest : List Char} (hcs : c :: cs = c :: part ++ rest) (kind : TokenKind) :
          sliceAt (before ++ c :: cs) kind (byteLength before)
              (byteLength before + byteLength (c :: part)) =
            some ⟨kind, String.ofList (c :: part), byteLength before⟩ := by
        rw [sliceAt, hcs, ← List.append_assoc, slice?_append]
        rfl
      have split_at (p : Char → Bool) : c :: cs = (c :: cs.takeWhile p) ++ cs.dropWhile p := by
        rw [List.cons_append, List.takeWhile_append_dropWhile]
      have hchar : c :: cs = [c] ++ cs := rfl
      rw [scanAt, scanFrom]
      split
      · exact hrest (split_at isLinePart)
      · split
        · exact hrest hchar
        · split
          · simp only [hslice (split_at isIdentPart), hrest (split_at isIdentPart),
              Option.bind_eq_bind, Option.bind_some, Option.pure_def]
          · split
            · simp only [hslice (split_at isNumberPart), hrest (split_at isNumberPart),
                Option.bind_eq_bind, Option.bind_some, Option.pure_def]
            · simp only [hslice hchar, hrest hchar, Option.bind_eq_bind, Option.bind_some,
                Option.pure_def]
              rfl

/-- The accesses made for the tokens of a whole text are sound. -/
theorem scanAt_zero (text : String) : scanAt text.toList 0 text.toList = some (scan text) :=
  scanAt_eq [] text.toList

end Token

end Glint
