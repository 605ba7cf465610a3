import LuaAudit.Proofs.Lua.Standing

/-!
# What a comment or string says does not show

A comment or string is masked to blanks, so that a masked text keeps nothing of its body but the
line ends.  For two texts that differ in one such body this needs two things: up to the opening the
reader must do the same in both, and after the ending it must stand at the same place.

* `Literal`: the forms of a comment or string, with `opening` and `closing`;
* `Literal.Closes`: a body that ends at the closing written after it, and not before;
* `SameLayout`: two bodies with the same line ends;
* `mask_literal`: what is masked of a text that starts with a literal;
* `mask_eq_of_sameLayout`: two such bodies cannot be told apart after masking.
-/

namespace LuaAudit.Lua

open Bracket (opener closer ofLevel)

/-! ### Forms of comments and strings -/

/-- A form of comment or string: a line comment, a block comment or long string of a level, and a
    short string between two quotes. -/
inductive Literal where
  | lineComment
  | blockComment (level : Nat)
  | longString (level : Nat)
  | shortString (quote : Char) (isQuote : quote = '\'' ∨ quote = '"')

namespace Literal

/-- The text that a literal opens with. -/
def opening : Literal → List Char
  | .lineComment => ['-', '-']
  | .blockComment n => '-' :: '-' :: opener n
  | .longString n => opener n
  | .shortString q _ => [q]

/-- The text that a literal ends with. -/
def closing : Literal → List Char
  | .lineComment => ['\n']
  | .blockComment n => closer n
  | .longString n => closer n
  | .shortString q _ => [q]

/-- A literal with its body. -/
def text (l : Literal) (body : List Char) : List Char := l.opening ++ body ++ l.closing

/-- A body ends at the closing that is written after it: nothing in it closes the literal earlier,
    the closing is not escaped, and a line comment does not turn out to be a block comment. -/
def Closes : Literal → (body : List Char) → Prop
  | .lineComment, body => '\n' ∉ body ∧ ∀ n, ¬ opener n <+: body
  | .blockComment n, body => EndsFirst (closer n) body true []
  | .longString n, body => EndsFirst (closer n) body true []
  | .shortString q _, body => ∃ items, itemChars items = body ∧ ItemsLead q items [q]

/-- No bracket runs through an opening, so that nothing after it is looked at before it. -/
theorem decisive_opening (l : Literal) : Decisive l.opening := by
  cases l with
  | lineComment =>
    have hdash : ∀ b : Char, b ≠ '-' → Stops b ['-', '-'] := fun b hb =>
      .inl ⟨'-', by simp, Ne.symm hb, by decide⟩
    exact ⟨hdash _ (by decide), hdash _ (by decide)⟩
  | blockComment n =>
    have hdash : ∀ b : Char, b ≠ '-' → Stops b ('-' :: '-' :: opener n) := fun b hb =>
      .inl ⟨'-', by simp, Ne.symm hb, by decide⟩
    exact ⟨hdash _ (by decide), hdash _ (by decide)⟩
  | longString n =>
    refine ⟨.inr ?_, .inl ⟨'[', by simp [opening, opener, ofLevel], by decide, by decide⟩⟩
    simp [opening, opener, ofLevel, List.count_replicate]
  | shortString q hq =>
    have hquote : ∀ b : Char, b = '[' ∨ b = ']' → Stops b [q] := by
      intro b hb
      refine .inl ⟨q, by simp, ?_, ?_⟩ <;> rcases hq with rfl | rfl <;> rcases hb with rfl | rfl <;>
        decide
    exact ⟨hquote _ (.inl rfl), hquote _ (.inr rfl)⟩

end Literal

/-! ### A literal that closes is one lexeme -/

/-- A closer that comes first comes first whatever follows: one that starts in the body ends before
    the closer behind the body does. -/
theorem EndsFirst.append {close body : List Char} (h : EndsFirst close body true [])
    (rest : List Char) : EndsFirst close body true rest := by
  refine ⟨by simp, fun i hi hclose => h.2 i hi ?_⟩
  simp only [ending_true, List.append_nil] at hclose ⊢
  rw [List.drop_append_of_le_length (by simp; omega)] at hclose
  refine List.prefix_of_prefix_length_le hclose (List.prefix_append _ _) ?_
  simp only [List.length_drop, List.length_append]
  omega

/-- Items before a quote stay items whatever follows the quote. -/
theorem ItemsLead.append {q : Char} {items : List Item} (h : ItemsLead q items [q])
    (rest : List Char) : ItemsLead q items ([q] ++ rest) := by
  induction items with
  | nil => trivial
  | cons i items ih =>
    cases i with
    | plain c =>
      obtain ⟨hc, hslash, hitems⟩ := h
      -- A quote follows, so that the character is no backslash at all.
      exact ⟨hc, fun e => absurd (hslash e) (by simp), ih hitems⟩
    | escape c => exact ih h

/-- **A literal masked.**  Of a literal that closes, only the line ends are left, and the reader
    goes on in code. -/
theorem mask_literal {l : Literal} {body : List Char} (h : l.Closes body) (rest : List Char) :
    mask (l.text body ++ rest) = (l.text body).map blankOut ++ mask rest := by
  unfold mask
  cases l with
  | lineComment =>
    have hline : (Lexeme.lineComment body).Leads ('\n' :: rest) := by
      refine ⟨fun n hopen => ?_, h.1, .inr ⟨rest, rfl⟩⟩
      -- An opener holds no line feed, so it would stand in the body.
      have hstops : Stops '[' ['\n'] := .inl ⟨'\n', by simp, by decide, by decide⟩
      rw [List.append_cons, opener, hstops.ofLevel_prefix_iff (by decide)] at hopen
      have hlast : '\n' ∉ ofLevel '[' n := by simp [ofLevel]
      rcases List.prefix_concat_iff.1 hopen with e | hin
      · exact hlast (e ▸ by simp)
      · exact h.2 n hin
    have hfeed : (Lexeme.code '\n').Leads rest :=
      ⟨by decide, by simp, fun n => Bracket.not_ofLevel_prefix_cons (by decide) n rest⟩
    have hmask := maskFrom_leads hline
    have hcode : maskFrom .code ('\n' :: rest) = '\n' :: maskFrom .code rest := maskFrom_leads hfeed
    rw [hcode] at hmask
    simpa [Literal.text, Literal.opening, Literal.closing, Lexeme.blanked, Lexeme.chars, blankOut]
      using hmask
  | blockComment n =>
    have hleads : (Lexeme.blockComment n body true).Leads rest := EndsFirst.append h rest
    have hmask := maskFrom_leads hleads
    simpa [Literal.text, Literal.opening, Literal.closing, Lexeme.blanked, Lexeme.chars] using hmask
  | longString n =>
    have hleads : (Lexeme.longString n body true).Leads rest := EndsFirst.append h rest
    have hmask := maskFrom_leads hleads
    simpa [Literal.text, Literal.opening, Literal.closing, Lexeme.blanked, Lexeme.chars] using hmask
  | shortString q hq =>
    obtain ⟨items, rfl, hitems⟩ := h
    have hleads : (Lexeme.shortString q items true).Leads rest := ⟨hq, by simp, hitems.append rest⟩
    have hmask := maskFrom_leads hleads
    simpa [Literal.text, Literal.opening, Literal.closing, Lexeme.blanked, Lexeme.chars] using hmask

/-! ### Two bodies -/

/-- Two texts of one length, with carriage returns and line feeds at the same places. -/
structure SameLayout (body body' : List Char) : Prop where
  length : body.length = body'.length
  returns : ∀ i : Nat, body[i]? = some '\r' ↔ body'[i]? = some '\r'
  feeds : ∀ i : Nat, body[i]? = some '\n' ↔ body'[i]? = some '\n'

/-- Whether two texts have the same layout shows in the offsets of one of them. -/
instance (body body' : List Char) : Decidable (SameLayout body body') :=
  decidable_of_iff
    (body.length = body'.length ∧ ∀ i < body.length,
      (body[i]? = some '\r' ↔ body'[i]? = some '\r') ∧
      (body[i]? = some '\n' ↔ body'[i]? = some '\n'))
    (by
      refine ⟨fun ⟨hlength, hends⟩ => ⟨hlength, fun i => ?_, fun i => ?_⟩, fun h =>
        ⟨h.length, fun i _ => ⟨h.returns i, h.feeds i⟩⟩⟩
      all_goals
        by_cases hi : i < body.length
        · simp [hends i hi]
        · have hbody := Nat.le_of_not_lt hi
          simp [List.getElem?_eq_none hbody, List.getElem?_eq_none (hlength ▸ hbody)])

/-- Such texts are blanked to the same text. -/
theorem SameLayout.map_blankOut_eq {body body' : List Char} (h : SameLayout body body') :
    body.map blankOut = body'.map blankOut := by
  apply List.ext_getElem?
  intro i
  rw [List.getElem?_map, List.getElem?_map]
  by_cases hi : i < body.length
  · have hi' : i < body'.length := h.length ▸ hi
    have hreturns := h.returns i
    have hfeeds := h.feeds i
    rw [List.getElem?_eq_getElem hi, List.getElem?_eq_getElem hi'] at hreturns hfeeds ⊢
    simp only [Option.some.injEq] at hreturns hfeeds
    by_cases hend : body[i] = '\r' ∨ body[i] = '\n'
    · -- Both hold the same line end.
      rcases hend with hend | hend
      · rw [hend, hreturns.1 hend]
      · rw [hend, hfeeds.1 hend]
    · have hend' : ¬ (body'[i] = '\r' ∨ body'[i] = '\n') := by
        rwa [← hreturns, ← hfeeds]
      simp only [Option.map_some, blankOut, if_neg hend, if_neg hend']
  · rw [List.getElem?_eq_none (Nat.le_of_not_lt hi),
      List.getElem?_eq_none (h.length ▸ Nat.le_of_not_lt hi)]

/-- **Bodies do not show.**  A text in which the reader stands in code where a literal opens is
    masked alike for every two bodies of one layout that close. -/
theorem mask_eq_of_sameLayout {l : Literal} {a body body' : List Char}
    (ha : regionAt (a ++ l.opening) a.length = some .code) (hbody : l.Closes body)
    (hbody' : l.Closes body') (hlayout : SameLayout body body') (rest : List Char) :
    mask (a ++ l.text body ++ rest) = mask (a ++ l.text body' ++ rest) := by
  -- What is masked before the opening depends on nothing behind it.
  obtain ⟨masked, hmasked⟩ := exists_masked_before l.decisive_opening ha
  have hsplit : ∀ b, l.Closes b →
      mask (a ++ l.text b ++ rest) = masked ++ ((l.text b).map blankOut ++ mask rest) := by
    intro b hb
    have hopening := hmasked (b ++ l.closing ++ rest)
    have hliteral := mask_literal hb rest
    rw [Literal.text] at hliteral ⊢
    simp only [mask, List.append_assoc] at hopening hliteral ⊢
    rw [hopening, hliteral]
  rw [hsplit body hbody, hsplit body' hbody', Literal.text, Literal.text]
  simp only [List.map_append, hlayout.map_blankOut_eq]

end LuaAudit.Lua
