import LuaAudit.Proofs.Lua.Reworded

/-!
# Which characters are code

A text falls into lexemes, and a character of code is a lexeme of its own.  Masking keeps such a
character; what it keeps besides, line ends and spaces, is what blanking leaves of anything.

* `CodeAt t n`: the character at offset `n` of `t` is code, by the lexemes alone;
* `codeAt_append`: behind a lexeme, code is what is code in the rest;
* `getElem?_mask_iff`: a character that blanking would change is masked as itself where it is code.
-/

namespace LuaAudit.Lua

/-- The character at an offset is one of code: the lexemes before it end there, and it is the
    next. -/
def CodeAt (t : List Char) (n : Nat) : Prop :=
  ∃ before c after, Lexes t (before ++ .code c :: after) ∧
    (before.flatMap Lexeme.chars).length = n

/-- Code in a text with a first lexeme: that lexeme, or code behind it. -/
theorem codeAt_append {l : Lexeme} {rest : List Char} (lead : l.Leads rest) (n : Nat) :
    CodeAt (l.chars ++ rest) n ↔
      (∃ c, l = .code c) ∧ n = 0 ∨ ∃ m, n = l.chars.length + m ∧ CodeAt rest m := by
  obtain ⟨ls, hls⟩ := exists_lexes rest
  constructor
  · rintro ⟨before, c, after, h, rfl⟩
    have hsame := lexes_unique h (.cons lead hls)
    cases before with
    | nil => exact .inl ⟨⟨c, (List.cons.inj hsame).1.symm⟩, rfl⟩
    | cons first before =>
      obtain ⟨rfl, rfl⟩ := List.cons.inj hsame
      exact .inr ⟨_, by simp, before, c, after, hls, rfl⟩
  · rintro (⟨⟨c, rfl⟩, rfl⟩ | ⟨m, rfl, before, c, after, h, rfl⟩)
    · exact ⟨[], c, ls, .cons lead hls, rfl⟩
    · exact ⟨l :: before, c, after, .cons lead h, by simp⟩

/-- **Masking shows code.**  A character that blanking would change stands in the masked text
    exactly where it is written and is code. -/
theorem getElem?_mask_iff {c : Char} (hc : blankOut c ≠ c) (t : List Char) (n : Nat) :
    (mask t)[n]? = some c ↔ t[n]? = some c ∧ CodeAt t n := by
  obtain ⟨ls, hls⟩ := exists_lexes t
  induction hls generalizing n with
  | nil => simp [mask]
  | @cons l rest ls lead more ih =>
    have hlength : l.blanked.length = l.chars.length := (forall₂_veils_blanked l).length_eq.symm
    have hpos := List.length_pos_iff.2 l.chars_ne_nil
    have hmask : mask (l.chars ++ rest) = l.blanked ++ mask rest := maskFrom_leads lead
    rw [hmask, codeAt_append lead]
    by_cases hn : n < l.chars.length
    · -- In the first lexeme: it is the character itself, or blanking has hidden it.
      rw [List.getElem?_append_left (hlength ▸ hn), List.getElem?_append_left hn]
      constructor
      · intro h
        obtain ⟨rfl, rfl⟩ := Lexeme.eq_code_of_blanked hc h
        exact ⟨rfl, .inl ⟨⟨c, rfl⟩, rfl⟩⟩
      · rintro ⟨h, ⟨⟨d, rfl⟩, rfl⟩ | ⟨m, rfl, -⟩⟩
        · exact h
        · omega
    · obtain ⟨m, rfl⟩ := Nat.exists_eq_add_of_le (Nat.le_of_not_lt hn)
      rw [← hlength, List.getElem?_append_right (by omega), hlength,
        List.getElem?_append_right (by omega), Nat.add_sub_cancel_left, ih]
      refine and_congr_right fun _ => ⟨fun h => .inr ⟨m, rfl, h⟩, ?_⟩
      rintro (⟨-, h⟩ | ⟨k, hk, h⟩)
      · omega
      · obtain rfl : m = k := by omega
        exact h

end LuaAudit.Lua
