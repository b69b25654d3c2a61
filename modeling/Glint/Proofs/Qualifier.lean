import Glint.Declaration
import Glint.Proofs.Outcome

/-!
# The layout qualifier

After the word `layout` stands a list in parentheses. An entry of the list is a key, which is an
identifier, or a key with an equals sign and a value, which is an identifier or a number. Commas
separate the entries, and one more may follow the last. The reader accepts this list and nothing
else, and it stops at the closing parenthesis.

## Main definitions

* `Declaration.IsEntry` — the tokens of one entry
* `Declaration.IsList` — the tokens of a list of entries, with its closing parenthesis

## Main results

* `Declaration.readEntries_eq_ok_iff` — which lists are read, and as what
* `Declaration.read_eq_ok_iff` — which declarations are read, and as what
-/

namespace Glint

/-! ### Kinds of token -/

namespace Token

variable {t : Token} {c d : Char}

theorem isPunct_iff : t.isPunct c = true ↔ t.kind = .punct c := by
  simp [isPunct]

/-- A token is one punctuation character only. -/
theorem isPunct_eq_false (h : t.isPunct c = true) (hne : c ≠ d) : t.isPunct d = false := by
  rw [isPunct_iff] at h
  simp [isPunct, h, hne]

theorem isPunct_of_isIdent (h : t.isIdent = true) (c : Char) : t.isPunct c = false := by
  have hkind : t.kind = .ident := by simpa [isIdent] using h
  simp [isPunct, hkind]

theorem isPunct_of_isAnyPunct (h : t.isAnyPunct = false) (c : Char) : t.isPunct c = false := by
  rw [Bool.eq_false_iff]
  intro hpunct
  rw [isPunct_iff] at hpunct
  simp [isAnyPunct, hpunct] at h

end Token

namespace Declaration

/-! ### The grammar -/

/-- The tokens of an entry: a key, or a key, an equals sign and a value. -/
inductive IsEntry : LayoutEntry → List Token → Prop
  | key {key : Token} (hkey : key.isIdent = true) : IsEntry ⟨key.text, none⟩ [key]
  | value {key sign value : Token} (hkey : key.isIdent = true) (hsign : sign.isPunct '=' = true)
    (hvalue : value.isAnyPunct = false) :
    IsEntry ⟨key.text, some value.text⟩ [key, sign, value]

/-- The tokens of a list of entries, from its first entry to its closing parenthesis. -/
inductive IsList : List LayoutEntry → List Token → Prop
  | nil {close : Token} (hclose : close.isPunct ')' = true) : IsList [] [close]
  | last {entry : LayoutEntry} {ts : List Token} {close : Token} (hentry : IsEntry entry ts)
    (hclose : close.isPunct ')' = true) : IsList [entry] (ts ++ [close])
  -- The entries after a comma may be none.
  | next {entry : LayoutEntry} {entries : List LayoutEntry} {ts more : List Token} {comma : Token}
    (hentry : IsEntry entry ts) (hcomma : comma.isPunct ',' = true)
    (hmore : IsList entries more) : IsList (entry :: entries) (ts ++ comma :: more)

variable {entry : LayoutEntry} {entries : List LayoutEntry} {ts inside rest : List Token}

/-- No brace and no semicolon stands in an entry. -/
theorem IsEntry.isPunct_eq_false {c : Char} (hne : c ≠ '=') (h : IsEntry entry ts) :
    ∀ t ∈ ts, t.isPunct c = false := by
  cases h with
  | key hkey =>
    intro t ht
    rw [List.mem_singleton.mp ht]
    exact Token.isPunct_of_isIdent hkey c
  | value hkey hsign hvalue =>
    intro t ht
    simp only [List.mem_cons, List.not_mem_nil, or_false] at ht
    rcases ht with rfl | rfl | rfl
    · exact Token.isPunct_of_isIdent hkey c
    · exact Token.isPunct_eq_false hsign hne.symm
    · exact Token.isPunct_of_isAnyPunct hvalue c

/-- The only punctuation of a list are equals signs, commas and its closing parenthesis. -/
theorem IsList.isPunct_eq_false {c : Char} (hsign : c ≠ '=') (hcomma : c ≠ ',') (hclose : c ≠ ')')
    (h : IsList entries ts) : ∀ t ∈ ts, t.isPunct c = false := by
  induction h with
  | nil hparen =>
    intro t ht
    rw [List.mem_singleton.mp ht]
    exact Token.isPunct_eq_false hparen hclose.symm
  | last hentry hparen =>
    intro t ht
    rcases List.mem_append.mp ht with ht | ht
    · exact hentry.isPunct_eq_false hsign t ht
    · rw [List.mem_singleton.mp ht]
      exact Token.isPunct_eq_false hparen hclose.symm
  | next hentry hseparator _ ih =>
    intro t ht
    rcases List.mem_append.mp ht with ht | ht
    · exact hentry.isPunct_eq_false hsign t ht
    · rcases List.mem_cons.mp ht with rfl | ht
      · exact Token.isPunct_eq_false hseparator hcomma.symm
      · exact ih t ht

/-! ### The reader -/

theorem readNext_eq_ok_iff {next : Token}
    {more : Except ReflectError (List LayoutEntry × List Token)} :
    readEntries.readNext entry next ts more = .ok (entries, rest) ↔
      (next.isPunct ',' = true ∧ ∃ tail, more = .ok (tail, rest) ∧ entries = entry :: tail) ∨
        next.isPunct ')' = true ∧ entries = [entry] ∧ rest = ts := by
  rw [readEntries.readNext]
  cases hcomma : next.isPunct ',' with
  | true =>
    have hparen : next.isPunct ')' = false := Token.isPunct_eq_false hcomma (by decide)
    rw [if_pos rfl, Outcome.map_eq_ok]
    constructor
    · rintro ⟨⟨tail, rest'⟩, hmore, hpair⟩
      cases hpair
      exact .inl ⟨rfl, tail, hmore, rfl⟩
    · rintro (⟨-, tail, hmore, rfl⟩ | ⟨h, -⟩)
      · exact ⟨(tail, rest), hmore, rfl⟩
      · rw [hparen] at h
        cases h
  | false =>
    cases hparen : next.isPunct ')' with
    | true => simp [eq_comm]
    | false => simp

/-- An entry is read up to the token that follows it. -/
theorem readEntries_entry (h : IsEntry entry inside) (last : Nat) {next : Token}
    (hnext : next.isPunct '=' = false) :
    readEntries last (inside ++ next :: ts) =
      readEntries.readNext entry next ts (readEntries last ts) := by
  cases h with
  | key hkey =>
    rw [List.singleton_append, readEntries.eq_def]
    simp [hkey, Token.isPunct_of_isIdent hkey, hnext]
  | value hkey hsign hvalue =>
    rw [List.cons_append, List.cons_append, List.singleton_append, readEntries.eq_def]
    simp [hkey, Token.isPunct_of_isIdent hkey, hsign, hvalue]

/-- A list is read up to its closing parenthesis. -/
theorem readEntries_append (h : IsList entries inside) (last : Nat) (rest : List Token) :
    readEntries last (inside ++ rest) = .ok (entries, rest) := by
  induction h with
  | nil hclose =>
    rw [List.singleton_append, readEntries.eq_def]
    simp [hclose]
  | last hentry hclose =>
    have hsign := Token.isPunct_eq_false hclose (d := '=') (by decide)
    rw [List.append_assoc, List.singleton_append, readEntries_entry hentry last hsign,
      readNext_eq_ok_iff]
    exact .inr ⟨hclose, rfl, rfl⟩
  | next hentry hcomma _ ih =>
    have hsign := Token.isPunct_eq_false hcomma (d := '=') (by decide)
    rw [List.append_assoc, List.cons_append, readEntries_entry hentry last hsign,
      readNext_eq_ok_iff]
    exact .inl ⟨hcomma, _, ih, rfl⟩

/-- An entry that is read, with what is read after it, is a list. -/
theorem exists_isList_of_readNext {next : Token} {head : List Token}
    {more : Except ReflectError (List LayoutEntry × List Token)} (hentry : IsEntry entry head)
    (hmore : ∀ {tail}, more = .ok (tail, rest) →
      ∃ inside, ts = inside ++ rest ∧ IsList tail inside)
    (h : readEntries.readNext entry next ts more = .ok (entries, rest)) :
    ∃ inside, head ++ next :: ts = inside ++ rest ∧ IsList entries inside := by
  rcases readNext_eq_ok_iff.mp h with ⟨hcomma, tail, htail, rfl⟩ | ⟨hclose, rfl, rfl⟩
  · obtain ⟨inside, rfl, hinside⟩ := hmore htail
    exact ⟨head ++ next :: inside, by simp, .next hentry hcomma hinside⟩
  · exact ⟨head ++ [next], by simp, .last hentry hclose⟩

/-- The reader accepts the lists of entries, and what follows the closing parenthesis is left. -/
theorem readEntries_eq_ok_iff {last : Nat} :
    readEntries last ts = .ok (entries, rest) ↔
      ∃ inside, ts = inside ++ rest ∧ IsList entries inside := by
  constructor
  · intro h
    fun_induction readEntries last ts generalizing entries with
    | case2 close ts hclose =>
      cases h
      exact ⟨[close], rfl, .nil hclose⟩
    | case8 key _ hkey sign hsign value hvalue next ts ih =>
      exact exists_isList_of_readNext
        (.value (by simpa using hkey) hsign (by simpa using hvalue)) ih h
    | case9 key _ hkey next ts _ ih =>
      exact exists_isList_of_readNext (.key (by simpa using hkey)) ih h
    -- Every other case is an error.
    | _ => cases h
  · rintro ⟨inside, rfl, hinside⟩
    exact readEntries_append hinside last rest

/-- The reader accepts a declaration whose tokens after the first are a parenthesis, a list of
entries and anything else, which is the body. -/
theorem read_eq_ok_iff {source : List Char} {first : Token} {inner : List Token}
    {d : Declaration} :
    read source first inner = .ok d ↔
      ∃ opening inside entries body, inner = opening :: (inside ++ body) ∧
        opening.isPunct '(' = true ∧ IsList entries inside ∧
        d = ⟨first.offset,
          String.ofList (Text.slice first.offset (inner.getLast?.getD first).stop source),
          entries, body⟩ := by
  constructor
  · intro h
    cases inner with
    | nil => cases h
    | cons opening ts =>
      rw [read] at h
      split at h
      · rename_i hopening
        obtain ⟨⟨entries, body⟩, hread, rfl⟩ := Outcome.map_eq_ok.mp h
        obtain ⟨inside, rfl, hinside⟩ := readEntries_eq_ok_iff.mp hread
        exact ⟨opening, inside, entries, body, rfl, hopening, hinside, rfl⟩
      · cases h
  · rintro ⟨opening, inside, entries, body, rfl, hopening, hinside, rfl⟩
    rw [read, if_pos hopening, readEntries_append hinside]
    rfl

end Declaration

end Glint
