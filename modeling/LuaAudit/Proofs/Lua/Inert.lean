import LuaAudit.Proofs.Lua.Reworded

/-!
# Masked texts open nothing

A masked text has nothing left that opens a comment or a string, and a text that has nothing of the
kind is masked to itself.  Blanking puts spaces between what is kept, so it cannot bring two dashes
or the two ends of a long bracket together: what stands side by side in the masked text did so
before, and would have opened there.

* `Inert`: no quote, no two dashes side by side, no opener of a long bracket;
* `exists_mask_drop`: from a masked word on, the masked text is the masked rest of the text;
* `head?_mask_opening`: an opening is blanked;
* `inert_mask` and `mask_eq_self`: masking makes a text inert and leaves inert texts as they are.
-/

namespace LuaAudit.Lua

open Bracket (opener ofLevel)
open Text (isBlank)

/-- A text in which nothing opens a comment or a string. -/
structure Inert (t : List Char) : Prop where
  quotes : '\'' ∉ t ∧ '"' ∉ t
  dashes : ¬ ['-', '-'] <:+: t
  brackets : ∀ n, ¬ opener n <:+: t

/-! ### What a masked text holds -/

/-- From a word of a masked text on, the reader might as well start anew: the word is written there,
    in code. -/
theorem exists_mask_drop {t cs : List Char} {c : Char} (hc : isBlank c = false)
    (hspace : ' ' ∉ c :: cs) (h : c :: cs <:+: mask t) :
    ∃ k, (mask t).drop k = mask (t.drop k) ∧ c :: cs <+: (mask t).drop k ∧
      c :: cs <+: t.drop k := by
  obtain ⟨before, after, hmask⟩ := h
  have hdrop : (mask t).drop before.length = c :: cs ++ after := by
    rw [← hmask, List.append_assoc, List.drop_left]
  have hprefix : c :: cs <+: (mask t).drop before.length := hdrop ▸ List.prefix_append _ _
  have hat : (mask t)[before.length]? = some c := by
    rw [← List.head?_drop, hdrop]
    rfl
  obtain ⟨-, hresume, -⟩ := (Reworded.refl t).drop hc hat
  refine ⟨before.length, hresume, hprefix, ?_⟩
  obtain ⟨-, hwritten⟩ := eq_word_of_veils (forall₂_veils_mask t) hprefix (by simp) hspace
  rw [List.drop_take, Nat.add_sub_cancel_left] at hwritten
  exact hwritten ▸ List.take_prefix _ _

/-- The first character of a comment or string is blanked. -/
theorem head?_mask_opening (l : Literal) (rest : List Char) :
    (mask (l.opening ++ rest)).head? = some ' ' := by
  have hdashes : ∀ s, (mask ('-' :: '-' :: s)).head? = some ' ' := by
    intro s
    by_cases hblock : ∃ n, opener n <+: s
    · obtain ⟨n, s, rfl⟩ := hblock
      rw [mask, maskFrom_code_block]
      rfl
    · rw [mask, maskFrom_code_line fun n hn => hblock ⟨n, hn⟩]
      rfl
  cases l with
  | lineComment => exact hdashes rest
  | blockComment n => exact hdashes (opener n ++ rest)
  | longString n =>
    show (mask (opener n ++ rest)).head? = some ' '
    rw [mask, maskFrom_code_long]
    rfl
  | shortString q hq =>
    show (mask (q :: rest)).head? = some ' '
    rw [mask, maskFrom_code_quote hq]
    rfl

/-- An opening starts with no blank and holds no space. -/
theorem Literal.opening_solid (l : Literal) :
    (∃ c cs, l.opening = c :: cs ∧ isBlank c = false) ∧ ' ' ∉ l.opening := by
  cases l with
  | lineComment => exact ⟨⟨'-', ['-'], rfl, by decide⟩, by simp [opening]⟩
  | blockComment n =>
    exact ⟨⟨'-', '-' :: opener n, rfl, by decide⟩, by simp [opening, opener, ofLevel]⟩
  | longString n =>
    exact ⟨⟨'[', List.replicate n '=' ++ ['['], rfl, by decide⟩, by simp [opening, opener, ofLevel]⟩
  | shortString q hq =>
    have hsolid : isBlank q = false ∧ ' ' ≠ q := by rcases hq with rfl | rfl <;> decide
    exact ⟨⟨q, [], rfl, hsolid.1⟩, by simpa [opening] using hsolid.2⟩

/-- **Nothing opens in a masked text.** -/
theorem not_opening_infix_mask (l : Literal) (t : List Char) : ¬ l.opening <:+: mask t := by
  intro h
  obtain ⟨⟨c, cs, hopening, hc⟩, hspace⟩ := l.opening_solid
  rw [hopening] at h hspace
  obtain ⟨k, hresume, ⟨after, hmasked⟩, ⟨rest, hwritten⟩⟩ := exists_mask_drop hc hspace h
  -- Masking the rest of the text blanks the opening, and yet shows it.
  have hblank := head?_mask_opening l rest
  rw [hopening, hwritten, ← hresume, ← hmasked] at hblank
  obtain rfl : c = ' ' := Option.some.inj hblank
  cases hc

theorem inert_mask (t : List Char) : Inert (mask t) where
  quotes := by
    have hquote : ∀ q : Char, q = '\'' ∨ q = '"' → q ∉ mask t := by
      intro q hq hmem
      obtain ⟨a, b, hab⟩ := List.append_of_mem hmem
      exact not_opening_infix_mask (.shortString q hq) t ⟨a, b, by simp [Literal.opening, hab]⟩
    exact ⟨hquote _ (.inl rfl), hquote _ (.inr rfl)⟩
  dashes := not_opening_infix_mask .lineComment t
  brackets n := not_opening_infix_mask (.longString n) t

/-! ### Texts that are masked to themselves -/

theorem Inert.tail {c : Char} {cs : List Char} (h : Inert (c :: cs)) : Inert cs where
  quotes := ⟨fun hmem => h.quotes.1 (.tail c hmem), fun hmem => h.quotes.2 (.tail c hmem)⟩
  dashes := fun hin => h.dashes (hin.trans (List.suffix_cons c cs).isInfix)
  brackets := fun n hin => h.brackets n (hin.trans (List.suffix_cons c cs).isInfix)

/-- The reader of an inert text never leaves the code. -/
theorem mask_eq_self {t : List Char} (h : Inert t) : mask t = t := by
  induction t with
  | nil => exact maskFrom_nil .code
  | cons c cs ih =>
    have hquote : ¬ (c = '\'' ∨ c = '"') := by
      rintro (rfl | rfl)
      · exact h.quotes.1 (.head _)
      · exact h.quotes.2 (.head _)
    have hdash : ¬ ['-', '-'] <+: c :: cs := fun hpre => h.dashes hpre.isInfix
    have hopen : ∀ n, ¬ opener n <+: c :: cs := fun n hpre => h.brackets n hpre.isInfix
    have htail : maskFrom .code cs = cs := ih h.tail
    rw [mask, maskFrom_code_cons hdash hopen, if_neg hquote, htail]

/-- **Masking is a normal form.**  A masked text is inert, the texts that are masked to themselves
    are the inert ones, and masking twice is masking once. -/
theorem mask_normal_form (t : List Char) :
    Inert (mask t) ∧ (Inert t ↔ mask t = t) ∧ mask (mask t) = mask t :=
  ⟨inert_mask t, ⟨mask_eq_self, fun h => h ▸ inert_mask t⟩, mask_eq_self (inert_mask t)⟩

end LuaAudit.Lua
