import LuaAudit.Proofs.Lua.Layout
import LuaAudit.Proofs.Lua.Standing

/-!
# Texts joined at a line end

What the reader does before a line feed depends on nothing behind it: no long bracket holds a line
feed, two dashes are no line apart, and a backslash before a line feed has the character that it
escapes.  So a text that ends with a line feed is masked alike whatever is written after it, and
what is written after it is masked from the region in which the reader stands there.

* `EndsLine`: a text that is empty or ends with a line feed;
* `Region.next_append_endsLine`: one step in such a text is the same whatever follows;
* `exists_regionFrom`: the reader of a text stands at its end, in some region;
* `maskFrom_append`: a whole run, then the rest from that region.
-/

namespace LuaAudit.Lua

/-- A text that is empty or ends with a line feed. -/
def EndsLine (t : List Char) : Prop := t = [] ∨ t.getLast? = some '\n'

instance (t : List Char) : Decidable (EndsLine t) := inferInstanceAs (Decidable (_ ∨ _))

/-! ### Texts that end with a line feed -/

theorem EndsLine.exists_concat {t : List Char} (h : EndsLine t) (hne : t ≠ []) :
    ∃ s, t = s ++ ['\n'] := by
  rcases h with hnil | hlast
  · exact absurd hnil hne
  · exact List.getLast?_eq_some_iff.1 hlast

theorem EndsLine.drop {t : List Char} (h : EndsLine t) (n : Nat) : EndsLine (t.drop n) := by
  by_cases hn : n < t.length
  · have hne : t ≠ [] := by
      rintro rfl
      cases hn
    obtain ⟨s, rfl⟩ := h.exists_concat hne
    rw [List.length_append, List.length_singleton] at hn
    rw [List.drop_append_of_le_length (by omega)]
    exact .inr (by simp)
  · exact .inl (List.drop_eq_nil_of_le (Nat.le_of_not_lt hn))

/-- The last character of such a text is a line feed, so any other one has another behind it. -/
theorem EndsLine.ne_nil_of_ne {c : Char} {cs : List Char} (h : EndsLine (c :: cs)) (hc : c ≠ '\n') :
    cs ≠ [] := by
  rintro rfl
  rcases h with hnil | hlast
  · cases hnil
  · exact hc (Option.some.inj hlast)

theorem decisive_feed : Decisive ['\n'] :=
  ⟨.inl ⟨'\n', by simp, by decide, by decide⟩, .inl ⟨'\n', by simp, by decide, by decide⟩⟩

theorem EndsLine.openLevel?_append {t : List Char} (h : EndsLine t) (hne : t ≠ [])
    (x : List Char) : Bracket.openLevel? (t ++ x) = Bracket.openLevel? t := by
  obtain ⟨s, rfl⟩ := h.exists_concat hne
  exact decisive_feed.openLevel?_eq s x

theorem EndsLine.closeLevel?_append {t : List Char} (h : EndsLine t) (hne : t ≠ [])
    (x : List Char) : Bracket.closeLevel? (t ++ x) = Bracket.closeLevel? t := by
  obtain ⟨s, rfl⟩ := h.exists_concat hne
  exact decisive_feed.closeLevel?_eq s x

/-! ### Steps -/

/-- A step does not pass the end of the text. -/
theorem Region.next_le (r : Region) (c : Char) (cs : List Char) :
    (r.next c cs).2 ≤ cs.length + 1 := by
  -- A bracket that is read stands in the text, so it is no longer than the text.
  have hopen : ∀ {n s}, Bracket.openLevel? s = some n → Bracket.length n ≤ s.length := by
    intro n s h
    simpa [Bracket.opener] using ((Bracket.openLevel?_eq_some_iff n s).1 h).length_le
  have hclose : ∀ {n s}, Bracket.closeLevel? s = some n → Bracket.length n ≤ s.length := by
    intro n s h
    simpa [Bracket.closer] using ((Bracket.closeLevel?_eq_some_iff n s).1 h).length_le
  cases r with
  | lineComment => simp [next]
  | long n =>
    simp only [next]
    split
    next h => simpa using hclose h
    · simp
  | quoted q =>
    simp only [next]
    split
    next h =>
      have hpos := List.length_pos_iff.2 h.2
      show 2 ≤ cs.length + 1
      omega
    · simp
  | code =>
    simp only [next]
    split
    next hdash =>
      have htwo := hdash.length_le
      simp only [List.length_cons, List.length_nil] at htwo
      split
      next n h =>
        have hlevel := hopen h
        rw [List.length_drop] at hlevel
        show 2 + Bracket.length n ≤ cs.length + 1
        omega
      · exact htwo
    next =>
      split
      next n h => simpa using hopen h
      · simp

/-- **Stability of a step.**  A step in a text that ends with a line feed is the same whatever
    follows the text. -/
theorem Region.next_append_endsLine (r : Region) {c : Char} {cs : List Char}
    (h : EndsLine (c :: cs)) (x : List Char) : r.next c (cs ++ x) = r.next c cs := by
  cases r with
  | lineComment => rfl
  | long n =>
    have hclose := h.closeLevel?_append (by simp) x
    rw [List.cons_append] at hclose
    simp only [next, hclose]
  | quoted q =>
    -- A backslash is not the last character, so it escapes one of the text itself.
    by_cases hc : c = '\\'
    · have hcs := h.ne_nil_of_ne (by rw [hc]; decide)
      simp [next, hcs]
    · simp [next, hc]
  | code =>
    have hopen := h.openLevel?_append (by simp) x
    rw [List.cons_append] at hopen
    by_cases hc : c = '\n'
    · subst hc
      have hdash : ∀ s, ¬ ['-', '-'] <+: '\n' :: s := by simp
      simp only [next, if_neg (hdash _), hopen]
    · obtain ⟨d, s, rfl⟩ := List.exists_cons_of_ne_nil (h.ne_nil_of_ne hc)
      rw [List.cons_append] at hopen ⊢
      have hiff : ['-', '-'] <+: c :: d :: (s ++ x) ↔ ['-', '-'] <+: c :: d :: s := by simp
      by_cases hdash : ['-', '-'] <+: c :: d :: s
      · -- Behind the second dash the text goes on, at least with its line feed.
        have hd : d ≠ '\n' := by
          obtain ⟨_, hs⟩ := hdash
          obtain ⟨-, rfl, -⟩ : '-' = c ∧ '-' = d ∧ _ = s := by simpa using hs
          decide
        have hends : EndsLine s := h.drop 2
        have hs : s ≠ [] := (h.drop 1).ne_nil_of_ne hd
        have hblock := hends.openLevel?_append hs x
        simp only [next, if_pos hdash, if_pos (hiff.2 hdash), List.drop_succ_cons, List.drop_zero,
          hblock]
      · simp only [next, if_neg hdash, if_neg (mt hiff.1 hdash), hopen]

theorem Region.left_append_endsLine (r : Region) {c : Char} {cs : List Char}
    (h : EndsLine (c :: cs)) (x : List Char) : r.left c (cs ++ x) = r.left c cs := by
  have hpassed : (c :: (cs ++ x)).take (r.next c cs).2 = (c :: cs).take (r.next c cs).2 := by
    rw [← List.cons_append, List.take_append_of_le_length]
    simpa using r.next_le c cs
  rw [left, left, r.next_append_endsLine h x, hpassed]

/-! ### Runs -/

/-- One step towards the end of a text. -/
theorem regionFrom_cons (r : Region) (c : Char) (cs : List Char) :
    regionFrom r (c :: cs) (c :: cs).length =
      regionFrom (r.next c cs).1 ((c :: cs).drop (r.next c cs).2)
        ((c :: cs).drop (r.next c cs).2).length := by
  rw [regionFrom.eq_def, if_neg (by simp), List.length_drop]
  simp only [List.length_cons, if_pos (r.next_le c cs)]

/-- The reader of a text stands at its end. -/
theorem exists_regionFrom (r : Region) (t : List Char) :
    ∃ r', regionFrom r t t.length = some r' := by
  -- A step passes one character or more, so the induction is on the length.
  induction hn : t.length using Nat.strongRecOn generalizing r t with
  | ind n ih =>
    cases t with
    | nil =>
      subst hn
      exact ⟨r, by rw [regionFrom.eq_def, List.length_nil, if_pos rfl]⟩
    | cons c cs =>
      have hpos := r.next_pos c cs
      rw [← hn, regionFrom_cons]
      refine ih _ ?_ _ _ rfl
      rw [← hn, List.length_drop, List.length_cons]
      omega

/-- **Stability of a run.**  A text that ends with a line feed is masked alike whatever follows it,
    and what follows is masked from the region in which the reader stands at the end of the text. -/
theorem maskFrom_append {r r' : Region} {t : List Char} (h : EndsLine t)
    (hend : regionFrom r t t.length = some r') (x : List Char) :
    maskFrom r (t ++ x) = maskFrom r t ++ maskFrom r' x := by
  induction hn : t.length using Nat.strongRecOn generalizing r t with
  | ind n ih =>
    cases t with
    | nil =>
      rw [regionFrom.eq_def, if_pos List.length_nil] at hend
      obtain rfl := Option.some.inj hend
      simp
    | cons c cs =>
      have hpos := r.next_pos c cs
      have hle := r.next_le c cs
      rw [regionFrom_cons] at hend
      have hrest := ih ((c :: cs).drop (r.next c cs).2).length
        (by rw [← hn, List.length_drop, List.length_cons]; omega) (h.drop _) hend rfl
      have hdrop : (c :: (cs ++ x)).drop (r.next c cs).2 = (c :: cs).drop (r.next c cs).2 ++ x := by
        rw [← List.cons_append, List.drop_append_of_le_length (by simpa using hle)]
      rw [List.cons_append, maskFrom_next, r.left_append_endsLine h, r.next_append_endsLine h,
        hdrop, hrest, maskFrom_next r c cs, List.append_assoc]

/-- **Masking line by line.**  Of a text that is empty or ends with a line feed, the masked form
    does not depend on what follows.  At its end the reader stands in a region, and what follows is
    masked from that region; so two texts are masked separately where the reader stands in code. -/
theorem mask_append_of_endsLine {p : List Char} (h : EndsLine p) (q : List Char) :
    (mask (p ++ q)).take p.length = mask p ∧
    (regionAt p p.length = some .code → mask (p ++ q) = mask p ++ mask q) ∧
    ∃ r, regionAt p p.length = some r ∧ mask (p ++ q) = mask p ++ maskFrom r q := by
  have happend : ∀ r, regionAt p p.length = some r → mask (p ++ q) = mask p ++ maskFrom r q :=
    fun r hr => maskFrom_append h hr q
  obtain ⟨r, hr⟩ := exists_regionFrom .code p
  refine ⟨?_, happend .code, r, hr, happend r hr⟩
  rw [happend r hr]
  exact List.take_left' (forall₂_veils_mask p).length_eq.symm

/-- A short string over an escaped line end, and a block comment with a shorter closer in it: the
    reader is back in code, and the comment behind them is masked on its own. -/
theorem mask_append_of_escapedFeed :
    EndsLine "s = 'it\\\n' --[=[ x\n]]]=]\n".toList ∧
    mask ("s = 'it\\\n' --[=[ x\n]]]=]\n".toList ++ "--]] y".toList) =
      mask "s = 'it\\\n' --[=[ x\n]]]=]\n".toList ++ mask "--]] y".toList :=
  ⟨by decide, (mask_append_of_endsLine (by decide) _).2.1 (by decide +kernel)⟩

end LuaAudit.Lua
