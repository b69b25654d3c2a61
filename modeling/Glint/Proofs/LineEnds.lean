import Glint.Proofs.Gist
import Glint.Proofs.StripTwice
import Glint.Proofs.TokenSeam
import Mathlib.Data.List.TakeWhile

/-!
# Ends of lines

A line comment ends at a line feed or a carriage return, and a preprocessor line at a line feed
alone. Where every line feed of a shader is written as a carriage return and a line feed, comments
and tokens are therefore the same. Where it is written as a carriage return alone, comments are the
same, but the first preprocessor line goes on to the end of the text, and nothing after its hash
sign is read.

## Main definitions

* `Text.endLinesWith` — a text with other ends of lines
* `Token.Parts` — a text is made of blanks, preprocessor lines and tokens

## Main results

* `Comment.stripChars_endLinesWith` — comments end where they did
* `Token.scanFrom_append_feed` — the tokens of lines that stand one after the other
* `Token.map_unplaced_scanFrom_returnFeed` — the tokens with both characters at the end of a line
* `Token.map_unplaced_scanFrom_return` — the tokens with carriage returns alone
* `Interface.ofText_withLineEnds` — interfaces with either end of lines
-/

namespace Glint

open Text Comment

/-! ### Texts with other ends of lines -/

/-- The text with every line feed written as other characters. -/
def Text.endLinesWith (ending cs : List Char) : List Char :=
  cs.flatMap fun c => if c = '\n' then ending else [c]

/-- The characters can stand at the end of a line: carriage returns and line feeds, at least
one. -/
def Text.IsLineEnd (ending : List Char) : Prop :=
  ending ≠ [] ∧ ∀ c ∈ ending, endsLine c = true

namespace Text

variable {ending cs : List Char} {c : Char}

theorem isLineEnd_return : IsLineEnd ['\r'] :=
  ⟨List.cons_ne_nil _ _, by simp [endsLine]⟩

theorem isLineEnd_returnFeed : IsLineEnd ['\r', '\n'] :=
  ⟨List.cons_ne_nil _ _, by simp [endsLine]⟩

@[simp] theorem endLinesWith_nil : endLinesWith ending [] = [] := rfl

@[simp] theorem endLinesWith_feed (ending cs : List Char) :
    endLinesWith ending ('\n' :: cs) = ending ++ endLinesWith ending cs := rfl

theorem endLinesWith_cons (hc : c ≠ '\n') (ending cs : List Char) :
    endLinesWith ending (c :: cs) = c :: endLinesWith ending cs := by
  rw [endLinesWith, List.flatMap_cons, if_neg hc]
  rfl

theorem endLinesWith_append (ending cs cs' : List Char) :
    endLinesWith ending (cs ++ cs') = endLinesWith ending cs ++ endLinesWith ending cs' :=
  List.flatMap_append

/-- A text of one line stays as it is. -/
theorem endLinesWith_eq_self (h : '\n' ∉ cs) : endLinesWith ending cs = cs := by
  induction cs with
  | nil => rfl
  | cons c cs ih =>
    rw [List.mem_cons, not_or] at h
    rw [endLinesWith_cons (Ne.symm h.1), ih h.2]

/-- A text that starts with no character of a class starts with none after its lines have other
ends, if these are not of the class either. -/
theorem breaks_endLinesWith {p : Char → Bool} (hending : IsLineEnd ending)
    (hp : ∀ c, endsLine c = true → p c = false) (h : Breaks p cs) :
    Breaks p (endLinesWith ending cs) := by
  cases cs with
  | nil => exact h
  | cons c cs =>
    by_cases hc : c = '\n'
    · subst hc
      cases ending with
      | nil => exact absurd rfl hending.1
      | cons e es =>
        rintro _ ⟨⟩
        exact hp e (hending.2 e List.mem_cons_self)
    · rw [endLinesWith_cons hc]
      exact h

/-- A character that is no end of a line comes first only where it came first before. -/
theorem exists_of_cons_prefix_endLinesWith {ps : List Char} (hending : IsLineEnd ending)
    (hc : endsLine c = false) (h : c :: ps <+: endLinesWith ending cs) :
    ∃ rest, cs = c :: rest ∧ ps <+: endLinesWith ending rest := by
  cases cs with
  | nil => cases List.prefix_nil.mp h
  | cons d ds =>
    by_cases hd : d = '\n'
    · subst hd
      cases ending with
      | nil => exact absurd rfl hending.1
      | cons e es =>
        obtain ⟨rfl, -⟩ := List.cons_prefix_cons.mp h
        rw [hending.2 c List.mem_cons_self] at hc
        cases hc
    · rw [endLinesWith_cons hd] at h
      obtain ⟨rfl, hps⟩ := List.cons_prefix_cons.mp h
      exact ⟨ds, rfl, hps⟩

variable {x y : Char}

theorem pair_prefix_of_endLinesWith (hending : IsLineEnd ending) (hx : endsLine x = false)
    (hy : endsLine y = false) (h : [x, y] <+: endLinesWith ending cs) : [x, y] <+: cs := by
  obtain ⟨rest, rfl, hrest⟩ := exists_of_cons_prefix_endLinesWith hending hx h
  obtain ⟨rest', rfl, -⟩ := exists_of_cons_prefix_endLinesWith hending hy hrest
  exact ⟨rest', rfl⟩

/-- Two characters that are no ends of lines meet only where they met before. -/
theorem pair_infix_of_endLinesWith (hending : IsLineEnd ending) (hx : endsLine x = false)
    (hy : endsLine y = false) (h : [x, y] <:+: endLinesWith ending cs) : [x, y] <:+: cs := by
  induction cs with
  | nil => exact h
  | cons c cs ih =>
    rcases Decidable.em (c = '\n') with rfl | hc
    · -- The pair does not start at an end of a line.
      have hskip {es : List Char} (hes : ∀ e ∈ es, endsLine e = true)
          (h : [x, y] <:+: es ++ endLinesWith ending cs) : [x, y] <:+: endLinesWith ending cs := by
        induction es with
        | nil => exact h
        | cons e es ih =>
          obtain ⟨he, hes⟩ := List.forall_mem_cons.mp hes
          rcases List.infix_cons_iff.mp h with h | h
          · obtain ⟨rfl, -⟩ := List.cons_prefix_cons.mp h
            rw [he] at hx
            cases hx
          · exact ih hes h
      exact List.infix_cons (ih (hskip hending.2 h))
    · rw [endLinesWith_cons hc, List.infix_cons_iff, ← endLinesWith_cons hc] at h
      rcases h with h | h
      · exact (pair_prefix_of_endLinesWith hending hx hy h).isInfix
      · exact List.infix_cons (ih h)

end Text

/-! ### Comments -/

namespace Comment

variable {ending comment rest cs : List Char} {c : Char}

theorem not_opens_endLinesWith (hending : IsLineEnd ending) (h : ¬ Opens cs) :
    ¬ Opens (endLinesWith ending cs) :=
  fun hopens => h (hopens.imp (pair_prefix_of_endLinesWith hending rfl rfl)
    (pair_prefix_of_endLinesWith hending rfl rfl))

/-- A comment stays one, with its own line feeds written otherwise. -/
theorem IsComment.endLinesWith (hending : IsLineEnd ending) (h : IsComment comment rest) :
    IsComment (Text.endLinesWith ending comment) (Text.endLinesWith ending rest) := by
  cases h with
  | @line body rest hbody hend =>
    have hline : '\n' ∉ '/' :: '/' :: body := by
      simp only [List.mem_cons, not_or]
      exact ⟨by decide, by decide, fun h => absurd (hbody _ h) (by decide)⟩
    rw [endLinesWith_eq_self hline]
    refine .line hbody ?_
    have hbreaks : Breaks (fun c => !endsLine c) rest := fun c hc => by simp [hend c hc]
    intro c hc
    simpa using breaks_endLinesWith hending (fun c hc => by simp [hc]) hbreaks c hc
  | @block body rest hbody =>
    -- The ends of lines in the body change, but no star meets a slash there.
    have htext : Text.endLinesWith ending ('/' :: '*' :: (body ++ ['*', '/'])) =
        '/' :: '*' :: (Text.endLinesWith ending body ++ ['*', '/']) := by
      rw [endLinesWith_cons (by decide), endLinesWith_cons (by decide), endLinesWith_append]
      rfl
    rw [htext]
    exact .block fun h => hbody (pair_infix_of_endLinesWith hending rfl rfl h)

/-- Comments are found whichever way lines end. -/
theorem stripChars_endLinesWith (hending : IsLineEnd ending) (cs : List Char) :
    stripChars (Text.endLinesWith ending cs) = Text.endLinesWith ending (stripChars cs) := by
  induction parts cs with
  | nil => rfl
  | @text c cs hplain _ ih =>
    rw [stripChars_text hplain]
    by_cases hc : c = '\n'
    · -- No comment starts at the end of a line, whatever follows it.
      subst hc
      have hslash : '/' ∉ ending := fun h => absurd (hending.2 _ h) (by decide)
      rw [endLinesWith_feed, endLinesWith_feed, stripChars_append hslash, ih]
    · have hplain := not_opens_endLinesWith hending hplain
      rw [endLinesWith_cons hc] at hplain ⊢
      rw [stripChars_text hplain, ih, endLinesWith_cons hc]
  | comment hcomment _ ih =>
    rw [endLinesWith_append, stripChars_comment (hcomment.endLinesWith hending),
      stripChars_comment hcomment, ih]
  | @unclosed body hbody =>
    -- A comment that is not closed stays open, since a new end of line closes none.
    have hopen : ¬ ['*', '/'] <:+: Text.endLinesWith ending body := fun h =>
      hbody (pair_infix_of_endLinesWith hending rfl rfl h)
    rw [stripChars_unclosed hbody, endLinesWith_cons (by decide), endLinesWith_cons (by decide),
      stripChars_unclosed hopen]

/-- A part of a stripped text from its start is left as it is. -/
theorem stripChars_of_prefix {part : List Char} (h : part <+: stripChars cs) :
    stripChars part = part := by
  induction parts cs generalizing part with
  | nil =>
    rw [List.prefix_nil.mp h]
    rfl
  | @text c cs hplain _ ih =>
    rw [stripChars_text hplain] at h
    rcases List.prefix_cons_iff.mp h with rfl | ⟨part, rfl, hpart⟩
    · rfl
    · have hnone : ¬ Opens (c :: part) := by
        intro hopens
        obtain ⟨rest, hrest⟩ := hpart
        refine not_opens_stripChars hplain ?_
        rw [← hrest]
        exact hopens.imp (·.trans (List.prefix_append _ rest)) (·.trans (List.prefix_append _ rest))
      rw [stripChars_text hnone, ih hpart]
  | comment hcomment _ ih =>
    rw [stripChars_comment hcomment] at h
    exact ih h
  | @unclosed body hbody =>
    rw [stripChars_unclosed hbody] at h
    rcases List.prefix_cons_iff.mp h with rfl | ⟨part, rfl, hpart⟩
    · rfl
    · rcases List.prefix_cons_iff.mp hpart with rfl | ⟨part, rfl, hbodyPart⟩
      · rfl
      · exact stripChars_unclosed fun hclose => hbody (hclose.trans hbodyPart.isInfix)

end Comment

/-! ### Tokens -/

namespace Token

/-- A text is made of blanks, of preprocessor lines and of the given tokens, in this order. -/
inductive Parts : List Char → List Token → Prop
  | nil : Parts [] []
  | blank {c : Char} {cs : List Char} {ts : List Token} (hc : isBlank c = true) :
      Parts cs ts → Parts (c :: cs) ts
  | directive {line rest : List Char} {ts : List Token} (hline : line.all isLinePart = true)
      (hend : Breaks isLinePart rest) : Parts rest ts → Parts ('#' :: line ++ rest) ts
  | token {t : Token} {rest : List Char} {ts : List Token} (ht : t.IsLexeme)
      (htext : ∀ c ∈ t.text.toList, isBlank c = false ∧ c ≠ '#') (hend : Breaks t.continues rest) :
      Parts rest ts → Parts (t.text.toList ++ rest) (t :: ts)

/-- A text is made of the tokens that it is read as. -/
theorem parts (pos : Nat) (cs : List Char) : Parts cs (scanFrom pos cs) := by
  have longest {t : Token} {rest : List Char} {ts : List Token} (ht : t.IsLongest rest)
      (hts : Parts rest ts) : Parts (t.text.toList ++ rest) (t :: ts) :=
    .token ht.isLexeme ht.separates_none ht.breaks hts
  fun_induction scanFrom pos cs with
  | case1 pos => exact .nil
  | case2 pos c cs hhash ih =>
    have hline : (cs.takeWhile isLinePart).all isLinePart = true := List.all_takeWhile
    have hparts := Parts.directive hline (breaks_dropWhile isLinePart cs) ih
    rwa [List.cons_append, List.takeWhile_append_dropWhile, ← beq_iff_eq.mp hhash] at hparts
  | case3 pos c cs hhash hblank ih => exact .blank hblank ih
  | case4 pos c cs hhash hblank hstart ih =>
    have hparts := longest (isLongest_ident hstart cs pos) ih
    rwa [String.toList_ofList, List.cons_append, List.takeWhile_append_dropWhile] at hparts
  | case5 pos c cs hhash hblank hstart hdigit ih =>
    have hparts := longest (isLongest_number hdigit cs pos) ih
    rwa [String.toList_ofList, List.cons_append, List.takeWhile_append_dropWhile] at hparts
  | case6 pos c cs hhash hblank hstart hdigit ih =>
    rw [beq_iff_eq] at hhash
    rw [Bool.not_eq_true] at hblank hstart hdigit
    have hparts := longest (isLongest_punct hhash hblank hstart hdigit pos cs) ih
    rwa [String.toList_ofList, List.singleton_append] at hparts

variable {cs : List Char} {ts : List Token}

/-- What a text is made of is read, wherever the text stands. -/
theorem map_unplaced_scanFrom_of_parts (h : Parts cs ts) (pos : Nat) :
    (scanFrom pos cs).map unplaced = ts.map unplaced := by
  induction h generalizing pos with
  | nil => rw [scanFrom]
  | blank hc _ ih => rw [scanFrom_blank hc, ih]
  | directive hline hend _ ih => rw [scanFrom_hash hline hend, ih]
  | token ht _ hend _ ih =>
    rw [ht _ _ hend, List.map_cons, List.map_cons, ih]
    rfl

/-- A text has the same tokens wherever it stands, up to their positions. -/
theorem map_unplaced_scanFrom (pos pos' : Nat) (cs : List Char) :
    (scanFrom pos cs).map unplaced = (scanFrom pos' cs).map unplaced :=
  map_unplaced_scanFrom_of_parts (parts pos' cs) pos

/-- A line feed ends every token and every preprocessor line, so a text adds to the tokens of the
lines before it those that it has alone. -/
theorem scanFrom_append_feed_of_parts (h : Parts cs ts) (pos : Nat) (rest : List Char) :
    scanFrom pos (cs ++ '\n' :: rest) =
      scanFrom pos cs ++ scanFrom (pos + byteLength (cs ++ ['\n'])) rest := by
  have hfeed : isBlank '\n' = true := by decide
  have hbreaks (p : Char → Bool) (hp : p '\n' = false) : Breaks p ('\n' :: rest) := by
    rintro c ⟨⟩
    exact hp
  induction h generalizing pos with
  | nil =>
    rw [List.nil_append, scanFrom_blank hfeed, scanFrom]
    rfl
  | blank hc _ ih =>
    rw [List.cons_append, scanFrom_blank hc, scanFrom_blank hc, ih, List.cons_append,
      byteLength_cons, Nat.add_assoc]
  | directive hline hend _ ih =>
    rw [List.append_assoc, scanFrom_hash hline hend,
      scanFrom_hash hline (breaks_append hend (hbreaks _ (by decide))), ih, List.append_assoc,
      byteLength_append ('#' :: _), Nat.add_assoc]
  | @token t after ts ht _ hend _ ih =>
    have hjoined : Breaks t.continues (after ++ '\n' :: rest) :=
      breaks_append hend (breaks_continues (hbreaks _ (by decide)) t)
    rw [List.append_assoc, ht _ _ hend, ht _ _ hjoined, ih, List.append_assoc,
      byteLength_append t.text.toList, Nat.add_assoc, List.cons_append]

theorem scanFrom_append_feed (pos : Nat) (cs rest : List Char) :
    scanFrom pos (cs ++ '\n' :: rest) =
      scanFrom pos cs ++ scanFrom (pos + byteLength (cs ++ ['\n'])) rest :=
  scanFrom_append_feed_of_parts (parts pos cs) pos rest

theorem feed_not_mem_of_isLinePart {line : List Char} (h : line.all isLinePart = true) :
    '\n' ∉ '#' :: line := by
  rw [List.mem_cons, not_or]
  exact ⟨by decide, fun hfeed => absurd (List.all_eq_true.mp h _ hfeed) (by decide)⟩

theorem feed_not_mem_of_isBlank {text : List Char} (h : ∀ c ∈ text, isBlank c = false ∧ c ≠ '#') :
    '\n' ∉ text :=
  fun hfeed => absurd (h _ hfeed).1 (by decide)

/-- A token ends where it did when lines end in other characters. -/
theorem breaks_continues_endLinesWith {ending : List Char} (hending : IsLineEnd ending) {t : Token}
    (h : Breaks t.continues cs) : Breaks t.continues (endLinesWith ending cs) := by
  refine breaks_endLinesWith hending (fun c hc => ?_) h
  rcases endsLine_iff.mp hc with rfl | rfl <;> cases hkind : t.kind <;> simp [continues, hkind] <;>
    decide

/-- A text whose lines end in a carriage return and a line feed is read as what it is made of. -/
theorem map_unplaced_scanFrom_returnFeed (h : Parts cs ts) (pos : Nat) :
    (scanFrom pos (endLinesWith ['\r', '\n'] cs)).map unplaced = ts.map unplaced := by
  induction h generalizing pos with
  | nil => rw [endLinesWith_nil, scanFrom]
  | @blank c cs ts hc _ ih =>
    by_cases hfeed : c = '\n'
    · subst hfeed
      rw [endLinesWith_feed, List.cons_append, List.singleton_append, scanFrom_blank (by decide),
        scanFrom_blank (by decide), ih]
    · rw [endLinesWith_cons hfeed, scanFrom_blank hc, ih]
  | @directive line rest ts hline hend _ ih =>
    rw [endLinesWith_append, endLinesWith_eq_self (feed_not_mem_of_isLinePart hline), ← ih 0]
    cases rest with
    | nil => rw [endLinesWith_nil, List.append_nil, scanFrom_hash_end hline, scanFrom]
    | cons c rest =>
      -- The carriage return goes with the line, and the line feed ends it as before.
      obtain rfl : c = '\n' := by simpa [isLinePart] using hend c rfl
      have hlonger : (line ++ ['\r']).all isLinePart = true := by
        rw [List.all_append, hline]
        rfl
      have hsame : '#' :: line ++ (['\r', '\n'] ++ endLinesWith ['\r', '\n'] rest) =
          '#' :: (line ++ ['\r']) ++ '\n' :: endLinesWith ['\r', '\n'] rest := by simp
      rw [endLinesWith_feed, hsame, scanFrom_hash hlonger (by rintro c ⟨⟩; rfl),
        List.cons_append, List.singleton_append, scanFrom_blank (by decide) 0]
      exact map_unplaced_scanFrom _ _ _
  | @token t rest ts ht htext hend _ ih =>
    rw [endLinesWith_append, endLinesWith_eq_self (feed_not_mem_of_isBlank htext),
      ht _ _ (breaks_continues_endLinesWith isLineEnd_returnFeed hend), List.map_cons,
      List.map_cons, ih]
    rfl

/-- Where no line ends in a line feed, a preprocessor line has no end. -/
theorem all_isLinePart_endLinesWith {ending : List Char} (h : ending.all isLinePart = true)
    (cs : List Char) : (endLinesWith ending cs).all isLinePart = true := by
  induction cs with
  | nil => rfl
  | cons c cs ih =>
    by_cases hfeed : c = '\n'
    · subst hfeed
      rw [endLinesWith_feed, List.all_append, h, ih, Bool.true_and]
    · rw [endLinesWith_cons hfeed, List.all_cons, ih, Bool.and_true, isLinePart, bne_iff_ne]
      exact hfeed

theorem breaks_takeWhile {p : Char → Bool} (h : Breaks p cs) (q : Char → Bool) :
    Breaks p (cs.takeWhile q) := by
  cases cs with
  | nil => exact h
  | cons d cs =>
    rw [List.takeWhile_cons]
    split
    · exact h
    · rintro c ⟨⟩

/-- A text whose lines end in a carriage return is read up to the first hash sign: what starts
there is a preprocessor line without an end. -/
theorem map_unplaced_scanFrom_return (h : Parts cs ts) (pos pos' : Nat) :
    (scanFrom pos (endLinesWith ['\r'] cs)).map unplaced =
      (scanFrom pos' (cs.takeWhile (· != '#'))).map unplaced := by
  induction h generalizing pos pos' with
  | nil => rw [endLinesWith_nil, List.takeWhile_nil, scanFrom, scanFrom]
  | @blank c cs ts hc _ ih =>
    have hhash : (c != '#') = true := by
      rw [bne_iff_ne]
      rintro rfl
      exact absurd hc (by decide)
    rw [List.takeWhile_cons, if_pos hhash, scanFrom_blank hc]
    by_cases hfeed : c = '\n'
    · subst hfeed
      rw [endLinesWith_feed, List.singleton_append, scanFrom_blank (by decide), ih]
    · rw [endLinesWith_cons hfeed, scanFrom_blank hc, ih]
  | @directive line rest ts hline hend _ _ =>
    -- The line goes on to the end of the text, so what is behind it does not matter.
    have hall : (line ++ endLinesWith ['\r'] rest).all isLinePart = true := by
      rw [List.all_append, hline, Bool.true_and]
      exact all_isLinePart_endLinesWith (by decide) rest
    rw [endLinesWith_append, endLinesWith_eq_self (feed_not_mem_of_isLinePart hline),
      List.cons_append, scanFrom_hash_end hall, List.cons_append,
      List.takeWhile_cons_of_neg (by decide), scanFrom]
  | @token t rest ts ht htext hend _ ih =>
    -- No token has a hash sign in it.
    have hplain : ∀ c ∈ t.text.toList, (c != '#') = true := fun c hc =>
      bne_iff_ne.mpr (htext c hc).2
    rw [endLinesWith_append, endLinesWith_eq_self (feed_not_mem_of_isBlank htext),
      ht _ _ (breaks_continues_endLinesWith isLineEnd_return hend),
      List.takeWhile_append_of_pos hplain, ht _ _ (breaks_takeWhile hend _),
      List.map_cons, List.map_cons, ih]
    rfl

end Token

/-! ### Interfaces -/

/-- The shader with every line feed of its text written as other characters. -/
def ShaderText.withLineEnds (ending : String) (source : ShaderText) : ShaderText :=
  { source with text := String.ofList (endLinesWith ending.toList source.text.toList) }

/-- The shader without its comments, up to its first preprocessor line. -/
def ShaderText.beforeDirectives (source : ShaderText) : ShaderText :=
  { source with
    text := String.ofList ((stripChars source.text.toList).takeWhile (· != '#')) }

namespace Interface

open Outcome

variable {ending : String}

theorem scan_strip_withLineEnds (hending : IsLineEnd ending.toList) (source : ShaderText) :
    Token.scan (strip (source.withLineEnds ending).text) =
      Token.scanFrom 0 (endLinesWith ending.toList (stripChars source.text.toList)) := by
  rw [ShaderText.withLineEnds, Token.scan, strip, String.toList_ofList, String.toList_ofList,
    stripChars_endLinesWith hending]

theorem scan_strip_beforeDirectives (source : ShaderText) :
    Token.scan (strip source.beforeDirectives.text) =
      Token.scanFrom 0 ((stripChars source.text.toList).takeWhile (· != '#')) := by
  rw [ShaderText.beforeDirectives, Token.scan, strip, String.toList_ofList, String.toList_ofList,
    stripChars_of_prefix (List.takeWhile_prefix _)]

theorem scan_strip (source : ShaderText) :
    Token.scan (strip source.text) = Token.scanFrom 0 (stripChars source.text.toList) := by
  rw [Token.scan, strip, String.toList_ofList]

/-- Where the lines of a shader end in a carriage return and a line feed, nothing changes. Where
they end in a carriage return alone, comments end as before, but the first preprocessor line does
not end: the shader is read up to it, and as before if it has none. -/
theorem ofText_withLineEnds (env : TypeEnv) (source : ShaderText) :
    Alike gist (ofText env (source.withLineEnds "\r\n")) (ofText env source) ∧
      Alike gist (ofText env (source.withLineEnds "\r")) (ofText env source.beforeDirectives) ∧
      ('#' ∉ (strip source.text).toList →
        Alike gist (ofText env (source.withLineEnds "\r")) (ofText env source)) := by
  have hparts := Token.parts 0 (stripChars source.text.toList)
  have alike_of_tokens {text text' : String}
      (h : (Token.scan (strip text)).map Token.unplaced =
        (Token.scan (strip text')).map Token.unplaced) :
      Alike gist (ofText env ⟨source.name, source.stage, text⟩)
        (ofText env ⟨source.name, source.stage, text'⟩) :=
    alike_ofText env source.name source.stage (Declaration.alike_readTokens h _ _)
  have hreturnFeed : (Token.scan (strip (source.withLineEnds "\r\n").text)).map Token.unplaced =
      (Token.scan (strip source.text)).map Token.unplaced := by
    have hending : IsLineEnd "\r\n".toList := isLineEnd_returnFeed
    rw [scan_strip_withLineEnds hending, scan_strip]
    exact Token.map_unplaced_scanFrom_returnFeed hparts 0
  have hreturn : (Token.scan (strip (source.withLineEnds "\r").text)).map Token.unplaced =
      (Token.scan (strip source.beforeDirectives.text)).map Token.unplaced := by
    have hending : IsLineEnd "\r".toList := isLineEnd_return
    rw [scan_strip_withLineEnds hending, scan_strip_beforeDirectives]
    exact Token.map_unplaced_scanFrom_return hparts 0 0
  refine ⟨alike_of_tokens hreturnFeed, alike_of_tokens hreturn, fun hnone => ?_⟩
  refine alike_of_tokens (hreturn.trans ?_)
  have hwhole : (stripChars source.text.toList).takeWhile (· != '#') =
      stripChars source.text.toList := by
    rw [strip, String.toList_ofList] at hnone
    refine List.takeWhile_eq_self_iff.mpr fun c hc => bne_iff_ne.mpr ?_
    rintro rfl
    exact hnone hc
  rw [scan_strip_beforeDirectives, hwhole, scan_strip]

/-- A shader of four lines, with a hash sign in a comment only. -/
def stripes : ShaderText :=
  ⟨"lit.frag", .fragment, "layout(location=0) // #0\nout vec4 /*\n*/ color;\n"⟩

theorem ofText_withLineEnds_stripes :
    '#' ∉ (strip stripes.text).toList ∧
      Alike gist (ofText .glsl (stripes.withLineEnds "\r")) (ofText .glsl stripes) := by
  have hnone : '#' ∉ (strip stripes.text).toList := by decide +kernel
  exact ⟨hnone, (ofText_withLineEnds .glsl stripes).2.2 hnone⟩

/-- A shader that starts with the line of its version. -/
def versioned : ShaderText :=
  ⟨"lit.frag", .fragment, "#version 450\nlayout(location = 0) out vec4 color;"⟩

/-- With carriage returns, the line of the version takes up the output behind it. -/
theorem ofText_versioned :
    '\r' ∉ versioned.text.toList ∧
      ¬ Alike gist (ofText .glsl (versioned.withLineEnds "\r")) (ofText .glsl versioned) := by
  have hreturn : (ofText .glsl (versioned.withLineEnds "\r")).toOption.map (·.outputs.length) =
      some 0 := by
    decide +kernel
  have hfeed : (ofText .glsl versioned).toOption.map (·.outputs.length) = some 1 := by
    decide +kernel
  refine ⟨by decide +kernel, fun halike => ?_⟩
  generalize ofText .glsl (versioned.withLineEnds "\r") = x at *
  generalize ofText .glsl versioned = y at *
  cases halike with
  | error h => cases hfeed
  | @ok i i' h =>
    have houtputs := congrArg (·.outputs.length) h
    simp only [gist, List.length_map] at houtputs
    rw [Except.toOption, Option.map_some, ← houtputs] at hfeed
    rw [Except.toOption, Option.map_some, hfeed] at hreturn
    cases hreturn

end Interface

end Glint
