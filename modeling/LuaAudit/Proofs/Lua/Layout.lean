import LuaAudit.Proofs.Lua.Mask
import LuaAudit.Text.Line
import Mathlib.Data.List.Forall2

/-!
# The layout of a masked text

Masking puts each character in the place of one character, and never touches a line end.  So the
masked text has the lines of the written one, with the same columns.

* `Veils c m`: `m` may stand in a masked text where `c` is written;
* `forall₂_veils_mask`: masking veils a text character by character;
* `forall₂_veils_splitLines`: hence line by line;
* `eq_word_of_veils`: a masked word without spaces stands in the written text as well;
* `take_drop_lineStart` and `lineStart_eq_of_veils`: a line stands at the same offset in both.
-/

namespace LuaAudit.Lua

open List (Forall₂)

/-! ### Character by character -/

/-- A masked character is the written one, or a space in place of one that ends no line. -/
def Veils (c m : Char) : Prop := m = c ∨ m = ' ' ∧ c ≠ '\r' ∧ c ≠ '\n'

theorem veils_refl (c : Char) : Veils c c := .inl rfl

theorem veils_blankOut (c : Char) : Veils c (blankOut c) := by
  by_cases h : c = '\r' ∨ c = '\n'
  · exact .inl (if_pos h)
  · exact .inr ⟨if_neg h, not_or.1 h⟩

/-- Blanking a lexeme veils it. -/
theorem forall₂_veils_blanked (l : Lexeme) : Forall₂ Veils l.chars l.blanked := by
  have hblank : ∀ cs : List Char, Forall₂ Veils cs (cs.map blankOut) := fun cs =>
    List.forall₂_map_right_iff.2 (List.forall₂_same.2 fun c _ => veils_blankOut c)
  cases l with
  | code c => exact .cons (veils_refl c) .nil
  | lineComment body => exact hblank _
  | blockComment n body closed => exact hblank _
  | longString n body closed => exact hblank _
  | shortString q items closed => exact hblank _

/-- Masking veils a text. -/
theorem forall₂_veils_mask (t : List Char) : Forall₂ Veils t (mask t) := by
  obtain ⟨ls, hls⟩ := exists_lexes t
  rw [mask_eq_of_lexes hls]
  induction hls with
  | nil => exact .nil
  | cons lead more ih => exact List.rel_append (forall₂_veils_blanked _) ih

/-- A text and a list related to it have related members at the same index. -/
theorem exists_getElem?_of_forall₂ {α β : Type} {R : α → β → Prop} {xs : List α} {ys : List β}
    (h : Forall₂ R xs ys) {i : Nat} {x : α} (hx : xs[i]? = some x) :
    ∃ y, ys[i]? = some y ∧ R x y := by
  induction h generalizing i with
  | nil => simp at hx
  | @cons a b xs ys hab _ ih =>
    cases i with
    | zero => exact ⟨b, rfl, by simpa using Option.some.inj hx ▸ hab⟩
    | succ i => exact ih (by simpa using hx)

/-! ### Masked words stand in the written line -/

theorem eq_of_forall₂_veils {written word : List Char} (h : Forall₂ Veils written word)
    (hspace : ' ' ∉ word) : written = word := by
  induction h with
  | nil => rfl
  | cons hveils _ ih =>
    rw [List.mem_cons, not_or] at hspace
    rcases hveils with rfl | ⟨rfl, -⟩
    · rw [ih hspace.2]
    · exact absurd rfl hspace.1

/-- A word without spaces in a masked line stands in the written line as well. -/
theorem eq_word_of_veils {raw masked word : List Char} (h : Forall₂ Veils raw masked) {first : Nat}
    (hword : word <+: masked.drop first) (hne : word ≠ []) (hspace : ' ' ∉ word) :
    first + word.length ≤ raw.length ∧ (raw.take (first + word.length)).drop first = word := by
  have hpos := List.length_pos_iff.2 hne
  have hlength := hword.length_le
  rw [List.length_drop, ← h.length_eq] at hlength
  have hslice := List.forall₂_take word.length (List.forall₂_drop first h)
  rw [← List.prefix_iff_eq_take.1 hword] at hslice
  refine ⟨by omega, ?_⟩
  rw [List.drop_take, Nat.add_sub_cancel_left]
  exact eq_of_forall₂_veils hslice hspace

/-! ### Line by line -/

/-- A line end is never veiled. -/
theorem Veils.eq_of_lineEnd {c m : Char} (h : Veils c m) (hc : c = '\r' ∨ c = '\n') : m = c := by
  rcases h with h | ⟨-, hr, hn⟩
  · exact h
  · exact absurd hc (not_or.2 ⟨hr, hn⟩)

/-- What is not a line end is not masked as one. -/
theorem Veils.eq_of_masked_lineEnd {c m : Char} (h : Veils c m) (hm : m = '\r' ∨ m = '\n') :
    m = c := by
  rcases h with h | ⟨rfl, -, -⟩
  · exact h
  · rcases hm with h | h <;> cases h

/-- A line feed is masked as one, and nothing else is. -/
theorem Veils.feed_iff {c m : Char} (h : Veils c m) : m = '\n' ↔ c = '\n' := by
  constructor
  · rintro rfl
    exact (h.eq_of_masked_lineEnd (.inr rfl)).symm
  · rintro rfl
    exact h.eq_of_lineEnd (.inr rfl)

open Text (splitLines consLine)

/-- A character that ends no line belongs to the first line. -/
theorem splitLines_cons {c : Char} {cs : List Char} (hn : c ≠ '\n')
    (hr : c = '\r' → ∀ r, cs ≠ '\n' :: r) : splitLines (c :: cs) = consLine c (splitLines cs) := by
  rw [splitLines]
  · rintro r rfl rfl
    exact hr rfl r rfl
  · exact hn

theorem forall₂_veils_consLine {c m : Char} (h : Veils c m) {xs ys : List (List Char)}
    (hl : Forall₂ (Forall₂ Veils) xs ys) :
    Forall₂ (Forall₂ Veils) (consLine c xs) (consLine m ys) := by
  cases hl with
  | nil => exact .cons (.cons h .nil) .nil
  | cons hline hlines => exact .cons (.cons h hline) hlines

/-- Veiling a text veils its lines: both texts are cut at the same places. -/
theorem forall₂_veils_splitLines {t u : List Char} (h : Forall₂ Veils t u) :
    Forall₂ (Forall₂ Veils) (splitLines t) (splitLines u) := by
  fun_induction splitLines t generalizing u with
  | case1 =>
    cases h
    exact .cons .nil .nil
  | case2 cs ih =>
    -- A carriage return and a line feed: both are kept, so the other text is cut here as well.
    obtain ⟨a, u, ha, hu, rfl⟩ := List.forall₂_cons_left_iff.1 h
    obtain ⟨b, v, hb, hv, rfl⟩ := List.forall₂_cons_left_iff.1 hu
    obtain rfl := ha.eq_of_lineEnd (.inl rfl)
    obtain rfl := hb.eq_of_lineEnd (.inr rfl)
    rw [splitLines]
    exact .cons .nil (ih hv)
  | case3 cs ih =>
    obtain ⟨a, u, ha, hu, rfl⟩ := List.forall₂_cons_left_iff.1 h
    obtain rfl := ha.eq_of_lineEnd (.inr rfl)
    rw [splitLines]
    exact .cons .nil (ih hu)
  | case4 c cs hcr hlf ih =>
    obtain ⟨m, u, hm, hu, rfl⟩ := List.forall₂_cons_left_iff.1 h
    have hn : m ≠ '\n' := fun e => hlf (hm.eq_of_masked_lineEnd (.inr e) ▸ e)
    have hr : m = '\r' → ∀ r, u ≠ '\n' :: r := by
      -- A masked pair would be a written pair, and that was the second case.
      rintro e r rfl
      obtain ⟨b, cs', hb, -, rfl⟩ := List.forall₂_cons_right_iff.1 hu
      have hb' : '\n' = b := hb.eq_of_masked_lineEnd (.inr rfl)
      exact hcr cs' (hm.eq_of_masked_lineEnd (.inl e) ▸ e) (by rw [hb'])
    rw [splitLines_cons hn hr]
    exact forall₂_veils_consLine hm (ih hu)

/-- The written and the masked lines of a text. -/
theorem forall₂_veils_lines (t : List Char) :
    Forall₂ (Forall₂ Veils) (splitLines t) (splitLines (mask t)) :=
  forall₂_veils_splitLines (forall₂_veils_mask t)

/-! ### Where a line starts -/

/-- The offset of a line of a text: behind as many line feeds as there are lines before it. -/
def lineStart : List Char → (i : Nat) → Nat
  | _, 0 => 0
  | [], _ + 1 => 0
  | c :: cs, i + 1 => lineStart cs (if c = '\n' then i else i + 1) + 1

theorem lineStart_zero (t : List Char) : lineStart t 0 = 0 := by
  cases t <;> rfl

theorem splitLines_ne_nil (t : List Char) : splitLines t ≠ [] := by
  fun_induction splitLines t with
  | case1 => simp
  | case2 => simp
  | case3 => simp
  | case4 c cs => cases splitLines cs <;> simp [consLine]

/-- A line stands where it starts. -/
theorem take_drop_lineStart {t line : List Char} {i : Nat} (h : (splitLines t)[i]? = some line) :
    (t.drop (lineStart t i)).take line.length = line := by
  fun_induction splitLines t generalizing i line with
  | case1 =>
    cases i with
    | zero =>
      obtain rfl : [] = line := by simpa using h
      rfl
    | succ i => simp at h
  | case2 cs ih =>
    cases i with
    | zero =>
      obtain rfl : [] = line := by simpa using h
      rfl
    | succ i => simpa [lineStart] using ih h
  | case3 cs ih =>
    cases i with
    | zero =>
      obtain rfl : [] = line := by simpa using h
      rfl
    | succ i => simpa [lineStart] using ih h
  | case4 c cs hcr hlf ih =>
    -- The character goes before the first line of the rest; later lines start one further.
    obtain ⟨first, more, hlines⟩ := List.exists_cons_of_ne_nil (splitLines_ne_nil cs)
    rw [hlines] at h ih
    cases i with
    | zero =>
      obtain rfl : c :: first = line := by simpa [consLine] using h
      have hfirst : (cs.drop (lineStart cs 0)).take first.length = first := ih rfl
      simpa [lineStart_zero] using hfirst
    | succ i =>
      have hmore : (cs.drop (lineStart cs (i + 1))).take line.length = line :=
        ih (by simpa [consLine] using h)
      rwa [lineStart, if_neg hlf]

/-- Veiling moves no line. -/
theorem lineStart_eq_of_veils {t u : List Char} (h : Forall₂ Veils t u) (i : Nat) :
    lineStart t i = lineStart u i := by
  induction h generalizing i with
  | nil => rfl
  | @cons c m t u hc _ ih =>
    cases i with
    | zero => rfl
    | succ i =>
      rw [lineStart, lineStart, ih]
      simp only [hc.feed_iff]

end LuaAudit.Lua
