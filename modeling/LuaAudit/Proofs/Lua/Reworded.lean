import LuaAudit.Proofs.Lua.Layout
import LuaAudit.Proofs.Lua.Literal
import LuaAudit.Text.Scan

/-!
# Comments in other words

Two texts that say different things in their comments, and are the same otherwise: they have the
same code, the same strings, and comments of the same kind and layout at the same places.

* `Lexeme.Alike` and `Reworded`: lexeme by lexeme, nothing but the body of a comment differs;
* `Reworded.mask_eq`: such texts are masked alike;
* `Reworded.drop`: from a character of code on, the rest is reworded too, and the character before
  it is the same;
* `Reworded.eq_or_dash`: from there on both texts are equal up to the dash of the next comment, and
  what stands before that dash is `Balanced`.
-/

namespace LuaAudit.Lua

open List (Forall₂)
open Bracket (opener closer ofLevel)
open Text (isBlank isQuoteMark)

/-! ### Lexeme by lexeme -/

/-- Two lexemes that are equal, or comments of one kind whose bodies have the same line ends. -/
inductive Lexeme.Alike : Lexeme → Lexeme → Prop where
  | refl (l : Lexeme) : Alike l l
  | line {body body' : List Char} (layout : SameLayout body body') :
      Alike (.lineComment body) (.lineComment body')
  | block (level : Nat) {body body' : List Char} (closed : Bool) (layout : SameLayout body body') :
      Alike (.blockComment level body closed) (.blockComment level body' closed)

/-- Two texts read side by side, from left to right, as lexemes that are alike. -/
inductive Reworded : List Char → List Char → Prop where
  | nil : Reworded [] []
  | cons {l l' : Lexeme} {rest rest' : List Char} (alike : l.Alike l') (lead : l.Leads rest)
      (lead' : l'.Leads rest') (more : Reworded rest rest') :
      Reworded (l.chars ++ rest) (l'.chars ++ rest')

/-- Texts with other comments are those that fall into lexemes which are alike one by one. -/
theorem reworded_iff {t t' : List Char} :
    Reworded t t' ↔ ∃ ls ls', Lexes t ls ∧ Lexes t' ls' ∧ Forall₂ Lexeme.Alike ls ls' := by
  constructor
  · intro h
    induction h with
    | nil => exact ⟨[], [], .nil, .nil, .nil⟩
    | cons hl lead lead' _ ih =>
      obtain ⟨ls, ls', hls, hls', halike⟩ := ih
      exact ⟨_, _, .cons lead hls, .cons lead' hls', .cons hl halike⟩
  · rintro ⟨ls, ls', hls, hls', halike⟩
    induction halike generalizing t t' with
    | nil =>
      cases hls
      cases hls'
      exact .nil
    | cons hl _ ih =>
      cases hls with
      | cons lead more =>
        cases hls' with
        | cons lead' more' => exact .cons hl lead lead' (ih more more')

theorem SameLayout.symm {body body' : List Char} (h : SameLayout body body') :
    SameLayout body' body :=
  ⟨h.length.symm, fun i => (h.returns i).symm, fun i => (h.feeds i).symm⟩

theorem Lexeme.Alike.symm {l l' : Lexeme} (h : l.Alike l') : l'.Alike l := by
  cases h with
  | refl l => exact .refl l
  | line layout => exact .line layout.symm
  | block n closed layout => exact .block n closed layout.symm

theorem Reworded.symm {t t' : List Char} (h : Reworded t t') : Reworded t' t := by
  induction h with
  | nil => exact .nil
  | cons hl lead lead' _ ih => exact .cons hl.symm lead' lead ih

theorem forall₂_alike_refl (ls : List Lexeme) : Forall₂ Lexeme.Alike ls ls :=
  List.forall₂_same.2 fun l _ => .refl l

theorem Reworded.refl (t : List Char) : Reworded t t := by
  obtain ⟨ls, hls⟩ := exists_lexes t
  exact reworded_iff.2 ⟨ls, ls, hls, hls, forall₂_alike_refl ls⟩

/-- One block comment in other words. -/
theorem reworded_of_block {t t' body body' : List Char} {ls ls' : List Lexeme} {n : Nat}
    {closed : Bool} (h : Lexes t (ls ++ .blockComment n body closed :: ls'))
    (h' : Lexes t' (ls ++ .blockComment n body' closed :: ls')) (layout : SameLayout body body') :
    Reworded t t' :=
  reworded_iff.2 ⟨_, _, h, h', List.rel_append (forall₂_alike_refl ls)
    (.cons (.block n closed layout) (forall₂_alike_refl ls'))⟩

theorem Lexeme.Alike.blanked_eq {l l' : Lexeme} (h : l.Alike l') : l.blanked = l'.blanked := by
  cases h with
  | refl => rfl
  | line layout => simp [blanked, chars, layout.map_blankOut_eq]
  | block n closed layout => simp [blanked, chars, layout.map_blankOut_eq]

theorem Lexeme.Alike.length_eq {l l' : Lexeme} (h : l.Alike l') :
    l.chars.length = l'.chars.length := by
  rw [(forall₂_veils_blanked l).length_eq, (forall₂_veils_blanked l').length_eq, h.blanked_eq]

/-- Comments in other words are masked alike. -/
theorem Reworded.mask_eq {t t' : List Char} (h : Reworded t t') : mask t = mask t' := by
  induction h with
  | nil => rfl
  | @cons l l' rest rest' hl lead lead' _ ih =>
    rw [mask, mask, maskFrom_leads lead, maskFrom_leads lead', hl.blanked_eq]
    exact congrArg (l'.blanked ++ ·) ih

/-! ### From a character of code on -/

/-- A comment that is not the last thing on its line ends with its closing bracket, whatever it
    says. -/
theorem Lexeme.Alike.getLast?_eq {l l' : Lexeme} (h : l.Alike l') {c : Char} {rest : List Char}
    (hlead : l.Leads (c :: rest)) (hc : c ≠ '\n') : l.chars.getLast? = l'.chars.getLast? := by
  cases h with
  | refl => rfl
  | line layout =>
    obtain ⟨-, -, hnil | ⟨r, hr⟩⟩ := hlead
    · cases hnil
    · exact absurd (List.cons.inj hr).1.symm hc
  | block n closed layout =>
    cases closed with
    | false => cases hlead.1 rfl
    | true => simp [chars, closer, ofLevel, List.getLast?_append, List.getLast?_cons]

/-- Blanking leaves spaces and line ends only. -/
theorem isBlank_blankOut (c : Char) : isBlank (blankOut c) = true := by
  unfold blankOut
  split
  next hend => rcases hend with rfl | rfl <;> decide
  · decide

/-- What blanking would change is no outcome of blanking. -/
theorem blankOut_ne_of_solid {c : Char} (hc : isBlank c = false) : blankOut c ≠ c := by
  intro e
  rw [← e, isBlank_blankOut] at hc
  cases hc

/-- A character that blanking would change is kept only as a lexeme of code. -/
theorem Lexeme.eq_code_of_blanked {l : Lexeme} {k : Nat} {c : Char} (hc : blankOut c ≠ c)
    (h : l.blanked[k]? = some c) : l = .code c ∧ k = 0 := by
  have hmap : ∀ cs : List Char, (cs.map blankOut)[k]? ≠ some c := by
    intro cs e
    rw [List.getElem?_map, Option.map_eq_some_iff] at e
    obtain ⟨d, -, rfl⟩ := e
    exact hc (blankOut_blankOut d)
  cases l with
  | code d =>
    cases k with
    | zero => exact ⟨congrArg Lexeme.code (Option.some.inj h), rfl⟩
    | succ k => simp [blanked] at h
  | lineComment body => exact absurd h (hmap _)
  | blockComment n body closed => exact absurd h (hmap _)
  | longString n body closed => exact absurd h (hmap _)
  | shortString q items closed => exact absurd h (hmap _)

/-- **From code on.**  Where a text shows a character of code, a text with other comments shows it
    too, after the same character and before comments in other words; masking can start there. -/
theorem Reworded.drop {t t' : List Char} (h : Reworded t t') {k : Nat} {c : Char}
    (hc : isBlank c = false) (hm : (mask t)[k]? = some c) :
    Reworded (t.drop k) (t'.drop k) ∧ (mask t).drop k = mask (t.drop k) ∧
      (t.drop k).head? = some c ∧ ∀ j, j + 1 = k → t[j]? = t'[j]? := by
  induction h generalizing k with
  | nil => simp [mask] at hm
  | @cons l l' rest rest' hl lead lead' h ih =>
    have hlength : l.blanked.length = l.chars.length := (forall₂_veils_blanked l).length_eq.symm
    have hlength' := hl.length_eq
    have hmask : mask (l.chars ++ rest) = l.blanked ++ mask rest := maskFrom_leads lead
    rw [hmask] at hm ⊢
    by_cases hk : k < l.chars.length
    · -- The character is in the first lexeme, which is that character then.
      rw [List.getElem?_append_left (hlength ▸ hk)] at hm
      obtain ⟨rfl, rfl⟩ := Lexeme.eq_code_of_blanked (blankOut_ne_of_solid hc) hm
      cases hl
      exact ⟨.cons (.refl _) lead lead' h, hmask.symm, rfl, by simp⟩
    · obtain ⟨k, rfl⟩ := Nat.exists_eq_add_of_le (Nat.le_of_not_lt hk)
      rw [← hlength, List.getElem?_append_right (by omega), Nat.add_sub_cancel_left] at hm
      obtain ⟨hdrop, hmaskDrop, hhead, hbefore⟩ := ih hm
      rw [List.drop_length_add_append, ← hlength, List.drop_length_add_append, hlength, hlength',
        List.drop_length_add_append]
      refine ⟨hdrop, hmaskDrop, hhead, fun j hj => ?_⟩
      cases k with
      | zero =>
        -- The character before is the last one of the lexeme before.
        obtain ⟨r, rfl⟩ : ∃ r, rest = c :: r := List.head?_eq_some_iff.1 hhead
        have hlast := hl.getLast?_eq lead (by rintro rfl; cases hc)
        rw [List.getLast?_eq_getElem?, List.getLast?_eq_getElem?, hlength'] at hlast
        obtain rfl : j = l'.chars.length - 1 := by omega
        rwa [List.getElem?_append_left (by omega), List.getElem?_append_left (by omega)]
      | succ k =>
        rw [List.getElem?_append_right (by omega), List.getElem?_append_right (by omega),
          hlength', show j - l'.chars.length = k by omega]
        exact hbefore k rfl

/-! ### Up to the next comment -/

/-- Whether a lexeme is a comment. -/
def Lexeme.isComment : Lexeme → Bool
  | .lineComment _ => true
  | .blockComment _ _ _ => true
  | _ => false

theorem Lexeme.exists_chars_eq_dash {l : Lexeme} (h : l.isComment = true) :
    ∃ cs, l.chars = '-' :: cs := by
  cases l with
  | lineComment body => exact ⟨_, rfl⟩
  | blockComment n body closed => exact ⟨_, rfl⟩
  | code c => cases h
  | longString n body closed => cases h
  | shortString q items closed => cases h

theorem Lexeme.Alike.isComment_eq {l l' : Lexeme} (h : l.Alike l') :
    l.isComment = l'.isComment := by
  cases h <;> rfl

theorem Lexeme.Alike.eq_of_not_comment {l l' : Lexeme} (h : l.Alike l')
    (hl : l.isComment = false) : l = l' := by
  cases h with
  | refl => rfl
  | line => cases hl
  | block => cases hl

/-- A character that starts neither a comment nor a string. -/
def isPlain (c : Char) : Bool := c != '-' && c != '[' && !isQuoteMark c

/-- If only plain characters stand before the first quote, it is not the only one. -/
def Balanced (w : List Char) : Prop :=
  ∀ u q v, w = u ++ q :: v → (∀ c ∈ u, isPlain c = true) → isQuoteMark q = true →
    ∃ c ∈ v, isQuoteMark c = true

theorem isQuoteMark_iff (c : Char) : isQuoteMark c = true ↔ c = '\'' ∨ c = '"' := by
  simp [isQuoteMark]

/-- A short string that something follows has both its quotes, and a long string starts with a
    bracket. -/
theorem Balanced.append {w : List Char} (h : Balanced w) {l : Lexeme} {c : Char} {rest : List Char}
    (hlead : l.Leads (c :: rest)) (hl : l.isComment = false) : Balanced (l.chars ++ w) := by
  intro u q v e hu hq
  cases l with
  | code d =>
    cases u with
    | nil =>
      obtain ⟨rfl, -⟩ := List.cons.inj e
      exact absurd ((isQuoteMark_iff d).1 hq) hlead.1
    | cons d' u =>
      exact h u q v (List.cons.inj e).2 (fun c hc => hu c (List.mem_cons_of_mem _ hc)) hq
  | lineComment body => cases hl
  | blockComment n body closed => cases hl
  | longString n body closed =>
    cases u with
    | nil =>
      obtain ⟨rfl, -⟩ := List.cons.inj e
      cases hq
    | cons d u =>
      obtain ⟨rfl, -⟩ := List.cons.inj e
      cases hu '[' List.mem_cons_self
  | shortString q' items closed =>
    obtain ⟨hquote, hclosed, -⟩ := hlead
    cases u with
    | nil =>
      obtain ⟨rfl, rfl⟩ := List.cons.inj e
      cases closed with
      | false => cases hclosed rfl
      | true => exact ⟨q', by simp, hq⟩
    | cons d u =>
      -- The quote of the string would be one of the characters before the first quote.
      obtain ⟨rfl, -⟩ := List.cons.inj e
      have hplain := hu q' List.mem_cons_self
      rcases hquote with rfl | rfl <;> cases hplain

/-- **Up to the next comment.**  Texts that differ in comments are equal up to the first dash of
    one, if they are not equal altogether. -/
theorem Reworded.eq_or_dash {t t' : List Char} (h : Reworded t t') :
    t = t' ∨ ∃ w r r', t = w ++ '-' :: r ∧ t' = w ++ '-' :: r' ∧ Balanced w := by
  induction h with
  | nil => exact .inl rfl
  | @cons l l' rest rest' hl lead lead' _ ih =>
    cases hcomment : l.isComment with
    | true =>
      obtain ⟨cs, hcs⟩ := l.exists_chars_eq_dash hcomment
      obtain ⟨cs', hcs'⟩ := l'.exists_chars_eq_dash (hl.isComment_eq ▸ hcomment)
      refine .inr ⟨[], cs ++ rest, cs' ++ rest', by rw [hcs]; rfl, by rw [hcs']; rfl, ?_⟩
      intro u q v e
      simp at e
    | false =>
      obtain rfl := hl.eq_of_not_comment hcomment
      rcases ih with rfl | ⟨w, r, r', rfl, rfl, hw⟩
      · exact .inl rfl
      · refine .inr ⟨l.chars ++ w, r, r', by simp, by simp, ?_⟩
        -- Something follows the lexeme: the rest of the text, up to the dash.
        obtain ⟨c, s, hs⟩ := List.exists_cons_of_ne_nil (show w ++ '-' :: r ≠ [] by simp)
        exact hw.append (hs ▸ lead) hcomment

end LuaAudit.Lua
