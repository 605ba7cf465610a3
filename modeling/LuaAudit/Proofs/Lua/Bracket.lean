import LuaAudit.Lua.Bracket

/-!
# Long brackets as fixed texts

For each level there is one opener and one closer.  The readers of `Bracket` find a bracket of a
level exactly when the text starts with that fixed text.

* `opener` and `closer` are the brackets of a level, spelled out;
* `openLevel?_eq_some_iff` and `closeLevel?_eq_some_iff` tie the readers to them;
* `opener_append_inj` is the uniqueness of the level;
* `signs_run` and `closeWithin_eq`: counting equals signs up to a limit beyond the level is enough;
* `brackets_exact` puts the readers at any offset of a text.
-/

namespace LuaAudit.Lua.Bracket

/-- `n` equals signs between two copies of a bracket. -/
def ofLevel (bracket : Char) (n : Nat) : List Char :=
  bracket :: (List.replicate n '=' ++ [bracket])

/-- The long bracket that opens a region of level `n`. -/
def opener (n : Nat) : List Char := ofLevel '[' n

/-- The long bracket that closes a region of level `n`. -/
def closer (n : Nat) : List Char := ofLevel ']' n

@[simp] theorem length_ofLevel (bracket : Char) (n : Nat) :
    (ofLevel bracket n).length = Bracket.length n := by
  simp [ofLevel, Bracket.length]

/-- A run of equals signs and the bracket after it are read as the length of the run. -/
theorem levelBefore?_replicate {last : Char} (hlast : last ≠ '=') (level n : Nat)
    (rest : List Char) :
    levelBefore? last level (List.replicate n '=' ++ last :: rest) = some (level + n) := by
  induction n generalizing level with
  | zero => simp [levelBefore?, hlast]
  | succ n ih =>
    rw [List.replicate_succ, List.cons_append, levelBefore?, if_pos (by rfl), ih]
    congr 1
    omega

/-- What is read as a level is such a run. -/
theorem eq_replicate_of_levelBefore? {last : Char} {level m : Nat} {cs : List Char}
    (h : levelBefore? last level cs = some m) :
    ∃ n rest, m = level + n ∧ cs = List.replicate n '=' ++ last :: rest := by
  induction cs generalizing level with
  | nil => cases h
  | cons c cs ih =>
    rw [levelBefore?] at h
    -- Another equals sign, the second bracket, or neither.
    by_cases hc : c = '='
    · subst hc
      rw [if_pos (by rfl)] at h
      obtain ⟨n, rest, rfl, rfl⟩ := ih h
      exact ⟨n + 1, rest, by omega, rfl⟩
    · rw [if_neg (by simpa using hc)] at h
      by_cases hl : c = last
      · rw [if_pos (by simpa using hl)] at h
        exact ⟨0, cs, by simpa using h.symm, by simp [hl]⟩
      · rw [if_neg (by simpa using hl)] at h
        cases h

/-- Reading a bracket of either kind, after its first character. -/
theorem levelBefore?_eq_some_iff {bracket : Char} (hb : bracket ≠ '=') (n : Nat)
    (cs : List Char) :
    levelBefore? bracket 0 cs = some n ↔ ofLevel bracket n <+: bracket :: cs := by
  constructor
  · intro h
    obtain ⟨m, rest, rfl, rfl⟩ := eq_replicate_of_levelBefore? h
    exact ⟨rest, by simp [ofLevel]⟩
  · rintro ⟨rest, hrest⟩
    have hcs : cs = List.replicate n '=' ++ bracket :: rest := by
      simpa [ofLevel] using hrest.symm
    rw [hcs, levelBefore?_replicate hb, Nat.zero_add]

/-- A bracket at the start of a text fixes the text's first character. -/
theorem not_ofLevel_prefix_cons {bracket c : Char} (h : c ≠ bracket) (n : Nat)
    (cs : List Char) : ¬ ofLevel bracket n <+: c :: cs := by
  rintro ⟨rest, hrest⟩
  exact h (List.cons.inj hrest).1.symm

/-- An opener is read exactly where one stands. -/
theorem openLevel?_eq_some_iff (n : Nat) (cs : List Char) :
    openLevel? cs = some n ↔ opener n <+: cs := by
  unfold openLevel?
  split
  · exact levelBefore?_eq_some_iff (by decide) n _
  next hne =>
    cases cs with
    | nil => simp [opener, ofLevel]
    | cons c cs =>
      have hc : c ≠ '[' := fun e => hne cs (by rw [e])
      simp [opener, not_ofLevel_prefix_cons hc]

/-- A closer is read exactly where one stands. -/
theorem closeLevel?_eq_some_iff (n : Nat) (cs : List Char) :
    closeLevel? cs = some n ↔ closer n <+: cs := by
  unfold closeLevel?
  split
  · exact levelBefore?_eq_some_iff (by decide) n _
  next hne =>
    cases cs with
    | nil => simp [closer, ofLevel]
    | cons c cs =>
      have hc : c ≠ ']' := fun e => hne cs (by rw [e])
      simp [closer, not_ofLevel_prefix_cons hc]

/-- No opener is read exactly where none stands. -/
theorem openLevel?_eq_none_iff (cs : List Char) :
    openLevel? cs = none ↔ ∀ n, ¬ opener n <+: cs := by
  rw [Option.eq_none_iff_forall_ne_some]
  exact forall_congr' fun n => not_congr (openLevel?_eq_some_iff n cs)

/-- A text starts with the opener of at most one level. -/
theorem opener_append_inj {m n : Nat} {as bs : List Char} (h : opener m ++ as = opener n ++ bs) :
    m = n ∧ as = bs := by
  -- Both levels are what is read at the start of the one text.
  have hm := (openLevel?_eq_some_iff m _).2 (List.prefix_append (opener m) as)
  have hn := (openLevel?_eq_some_iff n _).2 (List.prefix_append (opener n) bs)
  rw [h, hn] at hm
  obtain rfl : n = m := Option.some.inj hm
  exact ⟨rfl, List.append_cancel_left h⟩

/-! ### Counting up to a limit -/

/-- Every text starts with a run of equals signs, which may be empty, and goes on otherwise. -/
theorem exists_run (cs : List Char) :
    ∃ n rest, cs = List.replicate n '=' ++ rest ∧ rest.head? ≠ some '=' := by
  induction cs with
  | nil => exact ⟨0, [], rfl, by simp⟩
  | cons c cs ih =>
    by_cases hc : c = '='
    · obtain ⟨n, rest, rfl, hrest⟩ := ih
      exact ⟨n + 1, rest, by rw [hc]; rfl, hrest⟩
    · exact ⟨0, c :: cs, rfl, by simpa using hc⟩

/-- A run is counted to its end or to the limit. -/
theorem signs_run {rest : List Char} (hrest : rest.head? ≠ some '=') (most n : Nat) :
    signs most (List.replicate n '=' ++ rest) = min most n := by
  induction most generalizing n with
  | zero => simp [signs]
  | succ most ih =>
    cases n with
    | zero =>
      have hnone : signs (most + 1) rest = 0 := by
        rw [signs]
        rintro _ cs - rfl
        exact hrest rfl
      simpa using hnone
    | succ n =>
      rw [List.replicate_succ, List.cons_append, signs, ih]
      omega

/-- A closer stands before a run exactly when the run has its length and the second bracket is
    next. -/
theorem closer_prefix_run_iff {rest : List Char} (hrest : rest.head? ≠ some '=') (n level : Nat) :
    closer level <+: ']' :: (List.replicate n '=' ++ rest) ↔ n = level ∧ rest.head? = some ']' := by
  constructor
  · rintro ⟨tail, htail⟩
    have hruns : List.replicate level '=' ++ ']' :: tail = List.replicate n '=' ++ rest := by
      simpa [closer, ofLevel] using htail
    -- Both runs are counted in the one text, with a limit that neither reaches.
    have hcount := congrArg (signs (n + level)) hruns
    rw [signs_run (by simp) _ level, signs_run hrest _ n] at hcount
    obtain rfl : n = level := by omega
    rw [← List.append_cancel_left hruns]
    exact ⟨rfl, rfl⟩
  · rintro ⟨rfl, hlast⟩
    obtain ⟨tail, rfl⟩ : ∃ tail, rest = ']' :: tail := by
      cases rest with
      | nil => simp at hlast
      | cons c tail => exact ⟨tail, by simpa using hlast⟩
    exact ⟨tail, by simp [closer, ofLevel]⟩

/-- Counting up to any limit beyond the level finds the closers of that level. -/
theorem closeWithin_eq {most level : Nat} (h : level < most) (cs : List Char) :
    closeWithin most level cs = if closer level <+: cs then Bracket.length level else 0 := by
  unfold closeWithin
  split
  next cs =>
    obtain ⟨n, rest, rfl, hrest⟩ := exists_run cs
    simp only [signs_run hrest, closer_prefix_run_iff hrest, Int.ofNat_inj]
    rcases Nat.lt_or_ge n most with hn | hn
    · -- The whole run is counted.
      rw [Nat.min_eq_right (by omega), List.drop_left' (by simp)]
      by_cases hlevel : n = level <;> simp [hlevel]
    · -- The limit cuts the run, which is too long for the level with or without it.
      rw [Nat.min_eq_left hn, if_neg, if_neg]
      · rintro ⟨rfl, -⟩
        omega
      · rintro ⟨hmost, -⟩
        omega
  next hne =>
    rw [if_neg]
    rintro ⟨tail, htail⟩
    exact hne _ htail.symm

/-! ### Brackets at an offset -/

theorem openAt?_eq_some_iff (t : List Char) (i k m : Nat) :
    openAt? t i = some (k, m) ↔ opener m <+: t.drop i ∧ k = m + 2 := by
  rw [openAt?, Option.map_eq_some_iff]
  constructor
  · rintro ⟨level, hlevel, hpair⟩
    obtain ⟨rfl, rfl⟩ := Prod.mk.inj hpair
    exact ⟨(openLevel?_eq_some_iff level _).1 hlevel, rfl⟩
  · rintro ⟨hopen, rfl⟩
    exact ⟨m, (openLevel?_eq_some_iff m _).2 hopen, rfl⟩

theorem closeAt_eq (t : List Char) (i level : Nat) :
    closeAt t i level = if closer level <+: t.drop i then level + 2 else 0 := by
  have hmost : ((level : Int) + 1).toNat = level + 1 := by omega
  rw [closeAt, hmost]
  exact closeWithin_eq (by omega) _

/-- **Long brackets match exactly.**  At every offset of every text, an opener is found with its
    length and level exactly where one stands, its level is the only one, and nothing is found
    exactly where none stands.  A closer of a level is found exactly where it stands, whether equals
    signs are counted up to one beyond the level, up to any greater limit, or all. -/
theorem brackets_exact (t : List Char) (i : Nat) :
    (∀ k m, openAt? t i = some (k, m) ↔ opener m <+: t.drop i ∧ k = m + 2) ∧
    (∀ m n, opener m <+: t.drop i → opener n <+: t.drop i → m = n) ∧
    (openAt? t i = none ↔ ¬ ∃ m, opener m <+: t.drop i) ∧
    ∀ n : Nat,
      closeAt t i n = (if closer n <+: t.drop i then n + 2 else 0) ∧
      (∀ most, n < most → closeWithin most n (t.drop i) = closeAt t i n) ∧
      (closeLevel? (t.drop i) = some n ↔ closeAt t i n = n + 2) := by
  refine ⟨openAt?_eq_some_iff t i, ?_, ?_, fun n => ⟨closeAt_eq t i n, ?_, ?_⟩⟩
  · rintro m n ⟨as, hm⟩ ⟨bs, hn⟩
    exact (opener_append_inj (hm.trans hn.symm)).1
  · rw [openAt?, Option.map_eq_none_iff, openLevel?_eq_none_iff, not_exists]
  · intro most hmost
    rw [closeWithin_eq hmost, closeAt_eq]
    rfl
  · rw [closeLevel?_eq_some_iff, closeAt_eq]
    split
    next hclose => simp [hclose]
    next hclose => simp [hclose]

/-- A run that is one sign too short, one that fits and one that is one sign too long. -/
example : closeAt "]=]]==]]===]".toList 0 2 = 0 ∧ closeAt "]=]]==]]===]".toList 3 2 = 4 ∧
    closeAt "]=]]==]]===]".toList 7 2 = 0 := by
  decide

end LuaAudit.Lua.Bracket
