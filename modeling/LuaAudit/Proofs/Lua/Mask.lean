import LuaAudit.Lua.Mask
import LuaAudit.Proofs.Lua.Lexeme

/-!
# Masking blanks the lexemes

`mask` reads a text once, character by character, with the region it stands in as its only memory.
Here it is compared with the lexemes of the text.

* one equation per region and start of a text says what `maskFrom` does next;
* `maskFrom_leads`: masking a lexeme blanks it and goes on in code after it;
* `mask_eq_flatMap_blanked`: masking a text blanks its lexemes, one after the other.
-/

namespace LuaAudit.Lua

open Bracket (opener closer ofLevel)

/-! ### Blanking -/

/-- Blanking keeps line feeds and carriage returns and makes a space of any other character. -/
def blankOut (c : Char) : Char := if c = '\r' ∨ c = '\n' then c else ' '

/-- A lexeme after blanking: code stays, comments and strings are blanked. -/
def Lexeme.blanked : Lexeme → List Char
  | .code c => [c]
  | l => l.chars.map blankOut

theorem maskChar_eq_blankOut (c : Char) : maskChar c = blankOut c := by
  simp [maskChar, blankOut]

theorem blankOut_of_ne {c : Char} (hr : c ≠ '\r') (hn : c ≠ '\n') : blankOut c = ' ' := by
  simp [blankOut, hr, hn]

/-- Blanking twice is blanking once. -/
theorem blankOut_blankOut (c : Char) : blankOut (blankOut c) = blankOut c := by
  by_cases h : c = '\r' ∨ c = '\n'
  · rw [show blankOut c = c from if_pos h, show blankOut c = c from if_pos h]
  · rw [show blankOut c = ' ' from if_neg h]
    rfl

/-- A long bracket holds no line end, so it is blanked to spaces. -/
theorem map_blankOut_ofLevel {bracket : Char} (hr : bracket ≠ '\r') (hn : bracket ≠ '\n')
    (n : Nat) : (ofLevel bracket n).map blankOut = spaces (Bracket.length n) := by
  simp only [ofLevel, List.map_cons, List.map_append, List.map_replicate, List.map_nil,
    blankOut_of_ne hr hn, spaces, Bracket.length]
  rw [show blankOut '=' = ' ' from rfl, ← List.replicate_succ', ← List.replicate_succ]

@[simp] theorem map_blankOut_opener (n : Nat) :
    (opener n).map blankOut = spaces (Bracket.length n) :=
  map_blankOut_ofLevel (by decide) (by decide) n

@[simp] theorem map_blankOut_closer (n : Nat) :
    (closer n).map blankOut = spaces (Bracket.length n) :=
  map_blankOut_ofLevel (by decide) (by decide) n

/-! ### One step of the reader in each region -/

@[simp] theorem maskFrom_nil (r : Region) : maskFrom r [] = [] := by
  rw [maskFrom]

/-- What follows a bracket is what is left after dropping as many characters as it has. -/
theorem drop_ofLevel_tail (bracket : Char) (n : Nat) (rest : List Char) :
    (List.replicate n '=' ++ [bracket] ++ rest).drop (n + 1) = rest :=
  List.drop_left' (by simp)

theorem maskFrom_lineComment_cons {c : Char} (hc : c ≠ '\n') (cs : List Char) :
    maskFrom .lineComment (c :: cs) = blankOut c :: maskFrom .lineComment cs := by
  rw [maskFrom, if_neg (by simpa using hc), maskChar_eq_blankOut]

/-- A closer of its level ends a long bracket. -/
theorem maskFrom_long_closer (n : Nat) (rest : List Char) :
    maskFrom (.long n) (closer n ++ rest) = spaces (Bracket.length n) ++ maskFrom .code rest := by
  have hclose : Bracket.closeLevel? (closer n ++ rest) = some n :=
    (Bracket.closeLevel?_eq_some_iff n _).2 (List.prefix_append _ _)
  rw [show closer n ++ rest = ']' :: (List.replicate n '=' ++ [']'] ++ rest) from rfl] at hclose ⊢
  rw [maskFrom, if_pos hclose, drop_ofLevel_tail]

/-- Anything else goes on with it. -/
theorem maskFrom_long_cons {n : Nat} {c : Char} {cs : List Char} (h : ¬ closer n <+: c :: cs) :
    maskFrom (.long n) (c :: cs) = blankOut c :: maskFrom (.long n) cs := by
  rw [maskFrom, if_neg (mt (Bracket.closeLevel?_eq_some_iff n _).1 h), maskChar_eq_blankOut]

theorem maskFrom_quoted_escape (q e : Char) (cs : List Char) :
    maskFrom (.quoted q) ('\\' :: e :: cs) = ' ' :: blankOut e :: maskFrom (.quoted q) cs := by
  rw [maskFrom, maskChar_eq_blankOut]

/-- A character of a short string that is not the first of an escape. -/
theorem maskFrom_quoted_cons {q c : Char} {cs : List Char} (h : c = '\\' → cs = []) :
    maskFrom (.quoted q) (c :: cs) =
      blankOut c :: maskFrom (if c = q then .code else .quoted q) cs := by
  rw [maskFrom.eq_def]
  split <;> simp_all [maskChar_eq_blankOut]

/-- `--` and an opener start a block comment. -/
theorem maskFrom_code_block (n : Nat) (cs : List Char) :
    maskFrom .code ('-' :: '-' :: (opener n ++ cs)) =
      ' ' :: ' ' :: (spaces (Bracket.length n) ++ maskFrom (.long n) cs) := by
  have hopen : Bracket.openLevel? (opener n ++ cs) = some n :=
    (Bracket.openLevel?_eq_some_iff n _).2 (List.prefix_append _ _)
  rw [maskFrom, hopen]
  simp only []
  rw [List.drop_left' (by simp [opener]), Nat.add_comm]
  rfl

/-- `--` and anything else start a line comment. -/
theorem maskFrom_code_line {cs : List Char} (h : ∀ n, ¬ opener n <+: cs) :
    maskFrom .code ('-' :: '-' :: cs) = ' ' :: ' ' :: maskFrom .lineComment cs := by
  rw [maskFrom, (Bracket.openLevel?_eq_none_iff cs).2 h]
  rfl

/-- An opener starts a long string. -/
theorem maskFrom_code_long (n : Nat) (cs : List Char) :
    maskFrom .code (opener n ++ cs) = spaces (Bracket.length n) ++ maskFrom (.long n) cs := by
  have hopen : Bracket.openLevel? (opener n ++ cs) = some n :=
    (Bracket.openLevel?_eq_some_iff n _).2 (List.prefix_append _ _)
  rw [show opener n ++ cs = '[' :: (List.replicate n '=' ++ ['['] ++ cs) from rfl] at hopen ⊢
  rw [maskFrom, hopen]
  · simp only []
    rw [drop_ofLevel_tail]
  · simp

/-- Where no comment or long string starts, a quote starts a short string and any other character
    is code. -/
theorem maskFrom_code_cons {c : Char} {cs : List Char} (hdash : ¬ ['-', '-'] <+: c :: cs)
    (hopen : ∀ n, ¬ opener n <+: c :: cs) :
    maskFrom .code (c :: cs) =
      if c = '\'' ∨ c = '"' then ' ' :: maskFrom (.quoted c) cs else c :: maskFrom .code cs := by
  rw [maskFrom, (Bracket.openLevel?_eq_none_iff _).2 hopen]
  · simp [isQuote]
  · -- The equation for this case asks that the one for `--` does not apply.
    rintro cs' rfl rfl
    exact hdash ⟨cs', rfl⟩

/-- A quote starts a short string. -/
theorem maskFrom_code_quote {q : Char} (hq : q = '\'' ∨ q = '"') (cs : List Char) :
    maskFrom .code (q :: cs) = ' ' :: maskFrom (.quoted q) cs := by
  have hdash : ¬ ['-', '-'] <+: q :: cs := by rcases hq with rfl | rfl <;> simp
  have hopen : q ≠ '[' := by rcases hq with rfl | rfl <;> decide
  rw [maskFrom_code_cons hdash (Bracket.not_ofLevel_prefix_cons hopen · cs), if_pos hq]

/-! ### A whole region -/

/-- A line comment is blanked up to its end; the line feed after it reads the same as code. -/
theorem maskFrom_lineComment {body rest : List Char} (hbody : '\n' ∉ body)
    (hrest : rest = [] ∨ ['\n'] <+: rest) :
    maskFrom .lineComment (body ++ rest) = body.map blankOut ++ maskFrom .code rest := by
  induction body with
  | nil =>
    rcases hrest with rfl | ⟨r, rfl⟩
    · simp
    · -- The reader leaves the comment with the line feed, not before it.
      have hcode : maskFrom .code ('\n' :: r) = '\n' :: maskFrom .code r := by
        rw [maskFrom_code_cons (by simp) (Bracket.not_ofLevel_prefix_cons (by decide) · r)]
        simp
      simpa [hcode] using (maskFrom.eq_2 '\n' r).trans (if_pos rfl)
  | cons c body ih =>
    rw [List.mem_cons, not_or] at hbody
    rw [List.cons_append, maskFrom_lineComment_cons (Ne.symm hbody.1), ih hbody.2]
    rfl

/-- What is left of a region after its first character ends where the region ends. -/
theorem EndsFirst.tail {close body rest : List Char} {c : Char} {closed : Bool}
    (h : EndsFirst close (c :: body) closed rest) : EndsFirst close body closed rest :=
  ⟨h.1, fun i hi => h.2 (i + 1) (by simpa using hi)⟩

/-- A long bracket is blanked up to its end. -/
theorem maskFrom_long {n : Nat} {body rest : List Char} {closed : Bool}
    (h : EndsFirst (closer n) body closed rest) :
    maskFrom (.long n) (body ++ ending (closer n) closed ++ rest) =
      (body ++ ending (closer n) closed).map blankOut ++ maskFrom .code rest := by
  induction body with
  | nil =>
    cases closed with
    | true => simpa using maskFrom_long_closer n rest
    | false => simp [h.1 rfl]
  | cons c body ih =>
    -- The closer comes after the body, so it does not stand at its first character.
    have hfirst : ¬ closer n <+: c :: (body ++ ending (closer n) closed ++ rest) := by
      simpa using h.2 0 (by simp)
    rw [List.cons_append, List.cons_append, maskFrom_long_cons hfirst, ih h.tail]
    rfl

/-- A short string is blanked up to its end. -/
theorem maskFrom_quoted {q : Char} {items : List Item} {rest : List Char} {closed : Bool}
    (hq : q ≠ '\\') (hrest : closed = false → rest = [])
    (h : ItemsLead q items (ending [q] closed ++ rest)) :
    maskFrom (.quoted q) (itemChars items ++ (ending [q] closed ++ rest)) =
      (itemChars items ++ ending [q] closed).map blankOut ++ maskFrom .code rest := by
  induction items with
  | nil =>
    cases closed with
    | true =>
      -- The quote is no backslash, so it does not hide what follows it.
      have hlast : q = '\\' → rest = [] := fun e => absurd e hq
      have hstep := maskFrom_quoted_cons (q := q) hlast
      simpa [itemChars] using hstep
    | false => simp [itemChars, hrest rfl]
  | cons i items ih =>
    cases i with
    | plain c =>
      obtain ⟨hc, hlast, hitems⟩ := h
      have hstep := maskFrom_quoted_cons (q := q) hlast
      rw [if_neg hc, ih hitems] at hstep
      exact hstep
    | escape e =>
      have hstep := maskFrom_quoted_escape q e (itemChars items ++ (ending [q] closed ++ rest))
      rw [ih h] at hstep
      exact hstep

/-! ### Lexeme by lexeme -/

/-- **One lexeme.**  Masking blanks the lexeme at the start of a text and goes on in code. -/
theorem maskFrom_leads {l : Lexeme} {rest : List Char} (h : l.Leads rest) :
    maskFrom .code (l.chars ++ rest) = l.blanked ++ maskFrom .code rest := by
  cases l with
  | code c => exact (maskFrom_code_cons h.2.1 h.2.2).trans (if_neg h.1)
  | lineComment body =>
    rw [Lexeme.chars, List.cons_append, List.cons_append, maskFrom_code_line h.1,
      maskFrom_lineComment h.2.1 h.2.2]
    rfl
  | blockComment n body closed =>
    have hstep := maskFrom_code_block n (body ++ ending (closer n) closed ++ rest)
    rw [maskFrom_long h] at hstep
    simpa [Lexeme.chars, Lexeme.blanked, blankOut] using hstep
  | longString n body closed =>
    have hstep := maskFrom_code_long n (body ++ ending (closer n) closed ++ rest)
    rw [maskFrom_long h] at hstep
    simpa [Lexeme.chars, Lexeme.blanked] using hstep
  | shortString q items closed =>
    obtain ⟨hquote, hrest, hitems⟩ := h
    have hslash : q ≠ '\\' := by rcases hquote with rfl | rfl <;> decide
    have hblank : blankOut q = ' ' := by rcases hquote with rfl | rfl <;> decide
    have hstep := maskFrom_code_quote hquote (itemChars items ++ (ending [q] closed ++ rest))
    rw [maskFrom_quoted hslash hrest hitems] at hstep
    simpa [Lexeme.chars, Lexeme.blanked, hblank] using hstep

/-- Masking a text blanks the lexemes that it falls into. -/
theorem mask_eq_of_lexes {t : List Char} {ls : List Lexeme} (h : Lexes t ls) :
    mask t = ls.flatMap Lexeme.blanked := by
  induction h with
  | nil => exact maskFrom_nil .code
  | cons lead more ih =>
    rw [mask] at ih ⊢
    rw [maskFrom_leads lead, ih, List.flatMap_cons]

/-- **Masking is blanking.**  Every text falls into comments, strings and characters of code in
    exactly one way, and masking the text keeps the code and blanks the rest, up to line ends. -/
theorem mask_eq_flatMap_blanked (t : List Char) :
    ∃ ls, Lexes t ls ∧ (∀ ls', Lexes t ls' → ls' = ls) ∧ mask t = ls.flatMap Lexeme.blanked := by
  obtain ⟨ls, hls⟩ := exists_lexes t
  exact ⟨ls, hls, fun ls' hls' => lexes_unique hls' hls, mask_eq_of_lexes hls⟩

end LuaAudit.Lua
