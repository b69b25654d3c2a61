import Glint.Proofs.Division
import Glint.Proofs.ScanAccess

/-!
# Declarations by position

The declarations are found with a position among the tokens: the tokens of a declaration are the
range up to its semicolon, its qualifier is read with a cursor, and its text is the slice from
its first token to its last one. Written with checks, this makes sound accesses only.

## Main definitions

* `Declaration.endAt` — the position of the semicolon of a declaration
* `Declaration.entriesAt` — the entries of a qualifier, and the position behind them
* `Declaration.readAt`, `Declaration.readTokensAt` — declarations with checks

## Main results

* `Declaration.readTokensAt_eq`, `Declaration.readTokensAt_scan` — the accesses made for the
  declarations of a text are sound
-/

namespace Glint

open Text

/-! ### The end of a declaration -/

namespace Declaration

open Checked (outcome access fault)

/-- The position of the semicolon that ends the declaration at `start`, which is searched among
the tokens from `index` on. -/
def endAt (tokens : List Token) (start depth index : Nat) : List Token → Checked Nat
  | [] => do
    let first ← access tokens[start]?
    outcome (.error (.malformed first.offset .unterminated))
  | t :: ts =>
    if t.isPunct '{' then endAt tokens start (depth + 1) (index + 1) ts
    else if t.isPunct '}' then
      if depth = 0 then outcome (.error (.malformed t.offset .unbalancedBrace))
      else endAt tokens start (depth - 1) (index + 1) ts
    else if t.isPunct ';' && depth == 0 then outcome (.ok index)
    else endAt tokens start depth (index + 1) ts

theorem endAt_eq {tokens : List Token} {start : Nat} {first : Token}
    (hfirst : tokens[start]? = some first) (depth index : Nat) (ts : List Token) :
    endAt tokens start depth index ts =
      outcome ((splitEnd first.offset depth ts).map fun parts => index + parts.1.length) := by
  induction ts generalizing depth index with
  | nil =>
    rw [endAt, hfirst]
    rfl
  | cons t ts ih =>
    -- A token that is passed over counts for one position.
    have hprepend (depth : Nat) : endAt tokens start depth (index + 1) ts =
        outcome ((splitEnd.prepend t (splitEnd first.offset depth ts)).map
          fun parts => index + parts.1.length) := by
      rw [ih, splitEnd.prepend]
      cases splitEnd first.offset depth ts with
      | error e => rfl
      | ok parts =>
        simp only [Except.map, List.length_cons, Nat.add_assoc, Nat.add_comm 1]
    rw [endAt, splitEnd]
    split
    · exact hprepend _
    · split
      · split
        · rfl
        · exact hprepend _
      · split
        · rfl
        · exact hprepend _

/-! ### The qualifier -/

/-- The value behind a key, if an equals sign stands at the cursor, and the position behind
it. -/
def valueAt (tokens : List Token) (key : Token) (cursor : Nat) :
    Except ReflectError (Option String × Nat) :=
  if tokens[cursor]?.any (·.isPunct '=') then
    match tokens[cursor + 1]?.filter (!·.isAnyPunct) with
    | some value => .ok (some value.text, cursor + 2)
    | none => .error (.malformed key.offset .missingQualifierValue)
  else .ok (none, cursor)

theorem le_of_valueAt {tokens : List Token} {key : Token} {cursor next : Nat}
    {value? : Option String} (h : valueAt tokens key cursor = .ok (value?, next)) :
    cursor ≤ next := by
  rw [valueAt] at h
  split at h
  · split at h
    · cases h
      omega
    · cases h
  · cases h
    exact Nat.le_refl _

/-- Go on behind an entry: behind a comma, or at the closing parenthesis. -/
def followAt (tokens : List Token) (last : Nat) (entry : LayoutEntry) (cursor : Nat)
    (afterComma atClose : Except ReflectError (List LayoutEntry × Nat)) :
    Except ReflectError (List LayoutEntry × Nat) :=
  match tokens[cursor]? with
  | none => .error (.malformed last .unclosedQualifier)
  | some t =>
    if t.isPunct ',' then afterComma.map fun (entries, cursor) => (entry :: entries, cursor)
    else if t.isPunct ')' then atClose.map fun (entries, cursor) => (entry :: entries, cursor)
    else .error (.malformed t.offset .missingQualifierSeparator)

/-- The entries of a qualifier from a cursor on, and the position behind its closing parenthesis.
An error at the end of the declaration is reported at `last`. -/
def entriesAt (tokens : List Token) (last cursor : Nat) :
    Except ReflectError (List LayoutEntry × Nat) :=
  match _hkey : tokens[cursor]? with
  | none => .error (.malformed last .unclosedQualifier)
  | some key =>
    if key.isPunct ')' then .ok ([], cursor + 1)
    else if !key.isIdent then .error (.malformed key.offset .missingQualifierName)
    else
      match _hvalue : valueAt tokens key (cursor + 1) with
      | .error e => .error e
      | .ok (value?, next) =>
        followAt tokens last ⟨key.text, value?⟩ next (entriesAt tokens last (next + 1))
          (entriesAt tokens last next)
termination_by tokens.length - cursor
decreasing_by
  all_goals
    have := le_of_valueAt _hvalue
    have := (List.getElem?_eq_some_iff.mp _hkey).1
    omega

/-- What is left behind the entries says where they end. -/
def endsAt (tokens : List Token) (parts : List LayoutEntry × List Token) : List LayoutEntry × Nat :=
  (parts.1, tokens.length - parts.2.length)

section Entries

variable {tokens : List Token} {last cursor : Nat} {key : Token}

theorem entriesAt_none (hkey : tokens[cursor]? = none) :
    entriesAt tokens last cursor = .error (.malformed last .unclosedQualifier) := by
  rw [entriesAt]
  split
  · rfl
  · rename_i h
    rw [hkey] at h
    cases h

theorem entriesAt_some (hkey : tokens[cursor]? = some key) :
    entriesAt tokens last cursor =
      if key.isPunct ')' then .ok ([], cursor + 1)
      else if !key.isIdent then .error (.malformed key.offset .missingQualifierName)
      else valueAt tokens key (cursor + 1) >>= fun found =>
        followAt tokens last ⟨key.text, found.1⟩ found.2 (entriesAt tokens last (found.2 + 1))
          (entriesAt tokens last found.2) := by
  rw [entriesAt]
  split
  · rename_i h
    rw [hkey] at h
    cases h
  · rename_i key' h
    obtain rfl : key = key' := Option.some.inj (hkey.symm.trans h)
    congr 2
    split
    · rename_i hvalue
      rw [hvalue]
      rfl
    · rename_i hvalue
      rw [hvalue]
      rfl

/-- No value stands behind a key where there is no equals sign. -/
theorem valueAt_other (before rest : List Token)
    (hrest : ∀ t ∈ rest.head?, t.isPunct '=' = false) :
    valueAt (before ++ rest) key before.length = .ok (none, before.length) := by
  have hhead : (before ++ rest)[before.length]? = rest.head? := by
    rw [List.getElem?_append_right (Nat.le_refl _), Nat.sub_self, List.head?_eq_getElem?]
  rw [valueAt, hhead]
  cases hsign : rest.head? with
  | none => rfl
  | some sign =>
    rw [Option.any_some, hrest sign hsign]
    rfl

/-- Behind an equals sign has to be a value. -/
theorem valueAt_sign (before : List Token) {sign : Token} (rest : List Token)
    (hsign : sign.isPunct '=' = true) :
    valueAt (before ++ sign :: rest) key before.length =
      match rest.head?.filter (!·.isAnyPunct) with
      | some value => .ok (some value.text, before.length + 2)
      | none => .error (.malformed key.offset .missingQualifierValue) := by
  have hhead : (before ++ sign :: rest)[before.length]? = some sign := by simp
  have hnext : (before ++ sign :: rest)[before.length + 1]? = rest.head? := by
    simp [List.getElem?_append_right, List.head?_eq_getElem?]
  rw [valueAt, hhead, hnext, Option.any_some, if_pos hsign]

theorem endsAt_append (before : List Token) (t : Token) (entries : List LayoutEntry)
    (rest : List Token) :
    endsAt (before ++ t :: rest) (entries, rest) = (entries, before.length + 1) := by
  have hend : (before ++ t :: rest).length - rest.length = before.length + 1 := by
    rw [List.length_append, List.length_cons]
    omega
  rw [endsAt, hend]

theorem followAt_nil (before : List Token) (entry : LayoutEntry)
    (afterComma atClose : Except ReflectError (List LayoutEntry × Nat)) :
    followAt before last entry before.length afterComma atClose =
      .error (.malformed last .unclosedQualifier) := by
  rw [followAt, List.getElem?_eq_none (Nat.le_refl _)]

/-- Behind an entry the cursor goes on as the reader does. -/
theorem followAt_eq (before : List Token) (entry : LayoutEntry) (t : Token) (rest : List Token)
    (hmore : entriesAt (before ++ [t] ++ rest) last (before ++ [t]).length =
      (readEntries last rest).map (endsAt (before ++ [t] ++ rest))) :
    followAt (before ++ t :: rest) last entry before.length
        (entriesAt (before ++ t :: rest) last (before.length + 1))
        (entriesAt (before ++ t :: rest) last before.length) =
      (readEntries.readNext entry t rest (readEntries last rest)).map
        (endsAt (before ++ t :: rest)) := by
  have ht : (before ++ t :: rest)[before.length]? = some t := by simp
  rw [List.append_assoc, List.singleton_append, List.length_append, List.length_singleton] at hmore
  rw [followAt, ht, readEntries.readNext]
  dsimp only
  split
  · rw [hmore]
    cases readEntries last rest <;> rfl
  · split
    · rename_i hclose
      rw [entriesAt_some ht, if_pos hclose, Except.map, Except.map, endsAt_append]
    · rfl

/-- The entries that are read at a cursor are those of the tokens from there on. -/
theorem entriesAt_eq (before ts : List Token) :
    entriesAt (before ++ ts) last before.length =
      (readEntries last ts).map (endsAt (before ++ ts)) := by
  induction hlength : ts.length using Nat.strongRecOn generalizing before ts with
  | _ n ih =>
    subst hlength
    cases ts with
    | nil =>
      rw [entriesAt_none (by simp)]
      rfl
    | cons key ts =>
      have hkey : (before ++ key :: ts)[before.length]? = some key := by simp
      rw [entriesAt_some hkey, readEntries.eq_def]
      dsimp only
      split
      · rw [Except.map, endsAt_append]
      · split
        · rfl
        · -- The cursor stands behind the key.
          have hcons (ts : List Token) : before ++ key :: ts = (before ++ [key]) ++ ts := by simp
          have hcursor : before.length + 1 = (before ++ [key]).length := by simp
          have hshorter {ts' : List Token} (h : ts'.length ≤ ts.length) :
              ts'.length < (key :: ts).length := Nat.lt_succ_of_le h
          rw [hcons, hcursor]
          generalize before ++ [key] = before
          cases ts with
          | nil =>
            rw [valueAt_other before [] (by rintro t ⟨⟩), List.append_nil]
            exact followAt_nil before _ _ _
          | cons sign ts =>
            dsimp only
            cases hsign : sign.isPunct '=' with
            | false =>
              rw [valueAt_other before (sign :: ts) (by rintro t ⟨⟩; exact hsign),
                if_neg Bool.false_ne_true]
              exact followAt_eq before _ sign ts (ih _ (hshorter (Nat.le_succ _)) _ ts rfl)
            | true =>
              rw [valueAt_sign before ts hsign, if_pos rfl]
              cases ts with
              | nil => rfl
              | cons value ts =>
                dsimp only [List.head?_cons]
                cases hpunct : value.isAnyPunct with
                | true =>
                  rw [Option.filter_some_neg (by simp [hpunct])]
                  rfl
                | false =>
                  have hvalue : before ++ sign :: value :: ts = before ++ [sign, value] ++ ts := by
                    simp
                  have hlength : before.length + 2 = (before ++ [sign, value]).length := by simp
                  rw [Option.filter_some_pos (by simp [hpunct]), hvalue, if_neg Bool.false_ne_true,
                    hlength]
                  cases ts with
                  | nil =>
                    rw [List.append_nil]
                    exact followAt_nil (before ++ [sign, value]) _ _ _
                  | cons t ts =>
                    have hlater : ts.length ≤ (sign :: value :: t :: ts).length := by
                      simp only [List.length_cons]
                      omega
                    exact followAt_eq (before ++ [sign, value]) _ t ts
                      (ih _ (hshorter hlater) _ ts rfl)

end Entries

/-! ### Declarations -/

/-- The declaration that consists of the given tokens. -/
def readAt (source : List Char) (tokens : List Token) : Checked Declaration := do
  let first ← access tokens[0]?
  let last ← access tokens[tokens.length - 1]?
  let text ← access (slice? first.offset last.stop source)
  if tokens[1]?.any (·.isPunct '(') then do
    let (entries, cursor) ← outcome (entriesAt tokens last.offset 2)
    let body ← access (range? cursor tokens.length tokens)
    return ⟨first.offset, String.ofList text, entries, body⟩
  else outcome (.error (.malformed last.offset .missingQualifier))

/-- The declarations among the tokens of a text from a position on. -/
def readTokensAt (source : List Char) (tokens : List Token) (index : Nat) :
    Checked (List Declaration) :=
  if index < tokens.length then do
    let t ← access tokens[index]?
    if t.spellsAnyCase "layout" then do
      let stop ← endAt tokens index 0 index (tokens.drop index)
      match _hrange : range? index stop tokens with
      | none => fault
      | some part => do
        let d ← readAt source part
        let ds ← readTokensAt source tokens (stop + 1)
        return if d.isStageSetting then ds else d :: ds
    else readTokensAt source tokens (index + 1)
  else return []
termination_by tokens.length - index
decreasing_by
  · have := le_of_range? _hrange
    omega
  · omega

variable {source : List Char}

/-- From the first to the last of some tokens of a text goes a slice of it. -/
theorem slice?_of_placed {before more after : List Token} {first last : Token}
    (h : Token.Placed 0 source (before ++ (first :: more ++ after)))
    (hlast : (first :: more).getLast? = some last) :
    slice? first.offset last.stop source = some (slice first.offset last.stop source) := by
  obtain ⟨done, rest, rfl, hplaced⟩ := h.of_append before
  obtain ⟨gap, text, rest, rfl, hfirst, htext, -⟩ := hplaced.exists_text hlast
  have hstart : byteLength (done ++ gap) = first.offset := by
    rw [byteLength_append, ← hfirst, Nat.zero_add]
  rw [← htext, ← hstart, ← List.append_assoc, ← List.append_assoc, slice?_append, slice_append]

/-- The body behind a qualifier is the range from where the entries end. -/
theorem range?_endsAt (before : List Token) {ts body : List Token} {entries : List LayoutEntry}
    {last : Nat} (h : readEntries last ts = .ok (entries, body)) :
    range? (endsAt (before ++ ts) (entries, body)).2 (before ++ ts).length (before ++ ts) =
      some body := by
  obtain ⟨inside, rfl, -⟩ := readEntries_eq_ok_iff.mp h
  have hend : (before ++ (inside ++ body)).length - body.length = (before ++ inside).length := by
    simp only [List.length_append]
    omega
  rw [endsAt, hend, ← List.append_assoc, range?_length]

/-- The accesses made for a declaration are sound if its text is a slice. -/
theorem readAt_eq {first last : Token} {inner : List Token}
    (hlast : (first :: inner).getLast? = some last)
    (hslice : slice? first.offset last.stop source =
      some (slice first.offset last.stop source)) :
    readAt source (first :: inner) = outcome (read source first inner) := by
  have hfirst : (first :: inner)[0]? = some first := rfl
  have hend : (first :: inner)[(first :: inner).length - 1]? = some last := by
    rw [← List.getLast?_eq_getElem?]
    exact hlast
  have hdefault : inner.getLast?.getD first = last := by
    rw [List.getLast?_cons] at hlast
    exact Option.some.inj hlast
  rw [readAt, hfirst, hend, read.eq_def, hdefault]
  simp only [Checked.access_some, Checked.outcome_ok_bind, hslice]
  cases inner with
  | nil => rfl
  | cons opening ts =>
    have hopening : (first :: opening :: ts)[1]? = some opening := rfl
    have hentries : entriesAt (first :: opening :: ts) last.offset 2 =
        (readEntries last.offset ts).map (endsAt (first :: opening :: ts)) :=
      entriesAt_eq [first, opening] ts
    rw [hopening, hentries, Option.any_some]
    dsimp only
    cases opening.isPunct '(' with
    | false => rfl
    | true =>
      rw [if_pos rfl, if_pos rfl]
      cases hread : readEntries last.offset ts with
      | error e => rfl
      | ok parts =>
        have hbody := range?_endsAt [first, opening] hread
        rw [Except.map, Checked.outcome_ok_bind]
        exact congrArg (access · >>= _) hbody

theorem readTokensAt_layout {tokens : List Token} {index : Nat} {t : Token}
    (ht : tokens[index]? = some t) (hlayout : t.spellsAnyCase "layout" = true) :
    readTokensAt source tokens index = do
      let stop ← endAt tokens index 0 index (tokens.drop index)
      let part ← access (range? index stop tokens)
      let d ← readAt source part
      let ds ← readTokensAt source tokens (stop + 1)
      return if d.isStageSetting then ds else d :: ds := by
  have hmore : index < tokens.length := (List.getElem?_eq_some_iff.mp ht).1
  rw [readTokensAt, if_pos hmore, ht, Checked.access_some, Checked.outcome_ok_bind,
    if_pos hlayout]
  congr 1
  funext stop
  split
  · rename_i hrange
    rw [hrange]
    rfl
  · rename_i part hrange
    rw [hrange, Checked.access_some, Checked.outcome_ok_bind]

theorem readTokensAt_skip {tokens : List Token} {index : Nat} {t : Token}
    (ht : tokens[index]? = some t) (hother : t.spellsAnyCase "layout" = false) :
    readTokensAt source tokens index = readTokensAt source tokens (index + 1) := by
  have hmore : index < tokens.length := (List.getElem?_eq_some_iff.mp ht).1
  rw [readTokensAt, if_pos hmore, ht, Checked.access_some, Checked.outcome_ok_bind, hother,
    if_neg Bool.false_ne_true]

/-- The search for the end passes over the word that starts the declaration. -/
theorem endAt_layout {tokens : List Token} {index : Nat} {t : Token} {ts : List Token}
    (ht : tokens[index]? = some t) (hlayout : t.spellsAnyCase "layout" = true) :
    endAt tokens index 0 index (t :: ts) =
      outcome ((splitEnd t.offset 0 ts).map fun parts => index + 1 + parts.1.length) := by
  rw [Token.spellsAnyCase, Bool.and_eq_true] at hlayout
  have hpunct := Token.isPunct_of_isIdent hlayout.1
  rw [endAt, hpunct, hpunct, hpunct]
  exact endAt_eq ht 0 (index + 1) ts

/-- The accesses made for the declarations of a text are sound. -/
theorem readTokensAt_eq {before ts : List Token} (h : Token.Placed 0 source (before ++ ts)) :
    readTokensAt source (before ++ ts) before.length = outcome (readTokens source ts) := by
  induction ts using readTokens.induct generalizing before with
  | case1 =>
    rw [readTokensAt, if_neg (by simp), readTokens]
    rfl
  | case2 t ts hlayout e hsplit =>
    have ht : (before ++ t :: ts)[before.length]? = some t := by simp
    rw [readTokensAt_layout ht hlayout, readTokens_stop hlayout hsplit, List.drop_left,
      endAt_layout ht hlayout, hsplit]
    rfl
  | case3 t ts hlayout inner rest hsplit ih =>
    have ht : (before ++ t :: ts)[before.length]? = some t := by simp
    rw [readTokensAt_layout ht hlayout, readTokens_next hlayout hsplit, List.drop_left,
      endAt_layout ht hlayout, hsplit]
    obtain ⟨semicolon, rfl, -, -⟩ := splitEnd_eq_ok_iff.mp hsplit
    -- The range up to the semicolon, and the tokens behind it.
    have hrange : range? before.length (before.length + 1 + inner.length)
        (before ++ t :: (inner ++ semicolon :: rest)) = some (t :: inner) := by
      have hpart := range?_append before (t :: inner) (semicolon :: rest)
      rw [List.append_assoc, List.length_cons] at hpart
      rwa [Nat.add_assoc, Nat.add_comm 1]
    have hcons : before ++ t :: (inner ++ semicolon :: rest) =
        (before ++ t :: inner ++ [semicolon]) ++ rest := by
      simp
    have hcursor : before.length + 1 + inner.length + 1 =
        (before ++ t :: inner ++ [semicolon]).length := by
      simp only [List.length_append, List.length_cons, List.length_nil]
      omega
    obtain ⟨last, hlast⟩ : ∃ last, (t :: inner).getLast? = some last :=
      ⟨_, List.getLast?_eq_some_getLast (List.cons_ne_nil t inner)⟩
    have hread := readAt_eq hlast (slice?_of_placed h hlast)
    have hrest : readTokensAt source (before ++ t :: (inner ++ semicolon :: rest))
        (before.length + 1 + inner.length + 1) = outcome (readTokens source rest) := by
      rw [hcursor, hcons]
      exact ih (hcons ▸ h)
    simp only [Except.map, Checked.outcome_ok_bind, hrange, Checked.access_some, hread, hrest]
    exact Checked.outcome_bind _ fun d _ => Checked.outcome_bind _ fun ds _ => rfl
  | case4 t ts hlayout ih =>
    rw [Bool.not_eq_true] at hlayout
    have ht : (before ++ t :: ts)[before.length]? = some t := by simp
    have hcons : before ++ t :: ts = before ++ [t] ++ ts := by simp
    have hcursor : before.length + 1 = (before ++ [t]).length := by simp
    rw [readTokensAt_skip ht hlayout, readTokens_skip hlayout, hcursor, hcons]
    exact ih (hcons ▸ h)

/-- The accesses made for the declarations of a whole text are sound. -/
theorem readTokensAt_scan (text : String) :
    readTokensAt text.toList (Token.scan text) 0 = outcome (readAll text) := by
  have hplaced : Token.Placed 0 text.toList ([] ++ Token.scan text) :=
    Token.placed_scanFrom 0 text.toList
  exact readTokensAt_eq hplaced

end Declaration

end Glint
