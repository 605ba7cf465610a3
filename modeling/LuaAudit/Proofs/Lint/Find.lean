import LuaAudit.Proofs.Lint.Place
import LuaAudit.Proofs.Text.Scan

/-!
# Where finds stand

A find takes at least one character, all of them in the line that is searched, and starts behind the
finds before it.  The first holds for what each rule looks for, the second for every search.

* `Text.Recogniser.Fits`: what is recognised is neither empty nor longer than the text;
* `Text.Recogniser.at`: what is recognised at a place;
* `at_of_mem_occurrences` and `mem_occurrences_or_covered`: what a find says is recognised where it
  starts, and what is recognised somewhere is found there or lies inside a find;
* `pairwise_start_occurrences` and `stop_le_of_start_lt`: finds come from left to right, apart;
* `Text.Recogniser.Apart`: where nothing is recognised inside a find, a search finds all there is.
-/

namespace LuaAudit.Text

/-! ### Readers -/

theorem length_of_after? {lead cs rest : List Char} (h : after? lead cs = some rest) :
    cs.length = lead.length + rest.length := by
  rw [eq_append_of_after? h, List.length_append]

/-- A mark takes a character. -/
theorem length_lt_of_afterMark? {mark : Char} {cs rest : List Char}
    (h : afterMark? mark cs = some rest) : rest.length < cs.length := by
  have hblanks := Lua.length_dropWhile_le isBlank cs
  unfold afterMark? at h
  split at h
  next c tail hdrop =>
    split at h
    · rw [hdrop, List.length_cons, Option.some.inj h] at hblanks
      omega
    · cases h
  · cases h

theorem length_le_of_afterWord? {word cs rest : List Char} (h : afterWord? word cs = some rest) :
    rest.length ≤ cs.length := by
  have hblanks := Lua.length_dropWhile_le isBlank cs
  have hword := length_of_after? h
  omega

/-- Passing the leading characters with a property leaves the rest. -/
theorem drop_countWhile (p : Char → Bool) (cs : List Char) :
    cs.drop (countWhile p cs) = cs.dropWhile p := by
  unfold countWhile
  induction cs with
  | nil => rfl
  | cons c cs ih => by_cases hc : p c <;> simp [hc, ih]

/-! ### Finds of a search -/

/-- What is recognised takes at least one character, and no more than there are. -/
def Recogniser.Fits {α : Type} (find : Recogniser α) : Prop :=
  ∀ before cs value length, find before cs = some (value, length) →
    0 < length ∧ length ≤ cs.length

/-- What a recogniser says at a place of a text. -/
def Recogniser.at {α : Type} (find : Recogniser α) (cs : List Char) (j : Nat) : Option (α × Nat) :=
  find (cs.take j).getLast? (cs.drop j)

/-- What is recognised right behind a text. -/
theorem Recogniser.at_append {α : Type} (find : Recogniser α) (pre cs : List Char) :
    find.at (pre ++ cs) pre.length = find pre.getLast? cs := by
  rw [Recogniser.at, List.take_left, List.drop_left]

/-- The last character before a place. -/
theorem getLast?_take_succ {raw : List Char} {j : Nat} (hj : j < raw.length) :
    (raw.take (j + 1)).getLast? = raw[j]? := by
  simp [List.getLast?_take, List.getElem?_eq_getElem hj]

theorem at_of_mem_occurrencesFrom {α : Type} {find : Recogniser α} {skip offset : Nat}
    {before : Option Char} {cs : List Char} {o : Occurrence α}
    (h : o ∈ occurrencesFrom find skip offset before cs) (pre : List Char)
    (hoffset : pre.length = offset) (hbefore : pre.getLast? = before) :
    ∃ length, find.at (pre ++ cs) o.start = some (o.value, length) ∧ o.stop = o.start + length := by
  -- What has been passed grows by one character with each step.
  fun_induction occurrencesFrom find skip offset before cs generalizing pre with
  | case1 => cases h
  | case2 _ skip offset c cs ih =>
    rw [List.append_cons]
    exact ih h _ (by simp [hoffset]) (by simp)
  | case3 offset before c cs value length hfind ih =>
    rcases List.mem_cons.1 h with rfl | h
    · exact ⟨length, by rw [← hoffset, find.at_append, hbefore, hfind], rfl⟩
    · rw [List.append_cons]
      exact ih h _ (by simp [hoffset]) (by simp)
  | case4 offset before c cs _ ih =>
    rw [List.append_cons]
    exact ih h _ (by simp [hoffset]) (by simp)

/-- What a find says is recognised where it starts. -/
theorem at_of_mem_occurrences {α : Type} {find : Recogniser α} {cs : List Char}
    {o : Occurrence α} (h : o ∈ occurrences find cs) :
    ∃ length, find.at cs o.start = some (o.value, length) ∧ o.stop = o.start + length :=
  at_of_mem_occurrencesFrom h [] rfl rfl

theorem recognised_of_mem_occurrences {α : Type} {find : Recogniser α} {cs : List Char}
    {o : Occurrence α} (h : o ∈ occurrences find cs) :
    ∃ before length, find before (cs.drop o.start) = some (o.value, length) ∧
      o.stop = o.start + length :=
  ⟨_, at_of_mem_occurrences h⟩

theorem mem_occurrencesFrom_or_covered {α : Type} {find : Recogniser α} {skip offset : Nat}
    {before : Option Char} {cs : List Char} (pre : List Char) (hoffset : pre.length = offset)
    (hbefore : pre.getLast? = before) {j : Nat} (hj : offset + skip ≤ j)
    (hlt : j < offset + cs.length) {value : α} {length : Nat}
    (hat : find.at (pre ++ cs) j = some (value, length)) :
    ⟨j, j + length, value⟩ ∈ occurrencesFrom find skip offset before cs ∨
      ∃ o ∈ occurrencesFrom find skip offset before cs, o.start < j ∧ j < o.stop := by
  fun_induction occurrencesFrom find skip offset before cs generalizing pre with
  | case1 =>
    rw [List.length_nil] at hlt
    omega
  | case2 _ skip offset c cs ih =>
    rw [List.append_cons] at hat
    rw [List.length_cons] at hlt
    exact ih _ (by simp [hoffset]) (by simp) (by omega) (by omega) hat
  | case3 offset before c cs found taken hfind ih =>
    -- Three kinds of places: where this find starts, inside it, and behind it.
    by_cases h0 : j = offset
    · -- The recogniser says one thing at one place.
      rw [h0, ← hoffset, find.at_append, hbefore, hfind] at hat
      cases hat
      exact .inl (by simp [h0])
    · by_cases hin : j < offset + taken
      · have hstart : offset < j := by omega
        exact .inr ⟨_, List.mem_cons_self, hstart, hin⟩
      · rw [List.append_cons] at hat
        rw [List.length_cons] at hlt
        rcases ih _ (by simp [hoffset]) (by simp) (by omega) (by omega) hat with
          hmem | ⟨o, ho, hcover⟩
        · exact .inl (List.mem_cons_of_mem _ hmem)
        · exact .inr ⟨o, List.mem_cons_of_mem _ ho, hcover⟩
  | case4 offset before c cs hfind ih =>
    have h0 : j ≠ offset := by
      rintro rfl
      rw [← hoffset, find.at_append, hbefore, hfind] at hat
      cases hat
    rw [List.append_cons] at hat
    rw [List.length_cons] at hlt
    exact ih _ (by simp [hoffset]) (by simp) (by omega) (by omega) hat

/-- What is recognised at a place is found there, unless an earlier find takes the place in. -/
theorem mem_occurrences_or_covered {α : Type} {find : Recogniser α} {cs : List Char} {j : Nat}
    (hj : j < cs.length) {value : α} {length : Nat} (hat : find.at cs j = some (value, length)) :
    ⟨j, j + length, value⟩ ∈ occurrences find cs ∨
      ∃ o ∈ occurrences find cs, o.start < j ∧ j < o.stop :=
  mem_occurrencesFrom_or_covered [] rfl rfl (Nat.zero_le j) (by omega) hat

/-- A find of a fitting recogniser takes some columns of the line. -/
theorem Recogniser.Fits.within {α : Type} {find : Recogniser α} (hfind : find.Fits)
    {cs : List Char} {o : Occurrence α} (h : o ∈ occurrences find cs) :
    o.start < o.stop ∧ o.stop ≤ cs.length := by
  obtain ⟨before, length, hat, hstop⟩ := recognised_of_mem_occurrences h
  have hlength := hfind _ _ _ _ hat
  rw [List.length_drop] at hlength
  omega

/-- Finds start one behind the other, and none inside another. -/
theorem pairwise_occurrencesFrom {α : Type} (find : Recogniser α) (skip offset : Nat)
    (before : Option Char) (cs : List Char) :
    (occurrencesFrom find skip offset before cs).Pairwise fun o p =>
      o.start < p.start ∧ o.stop ≤ p.start := by
  fun_induction occurrencesFrom find skip offset before cs with
  | case1 => exact .nil
  | case2 _ skip offset c cs ih => exact ih
  | case3 offset before c cs value length _ ih =>
    refine List.pairwise_cons.2 ⟨fun p hp => ?_, ih⟩
    have hstart := Lint.start_of_mem_occurrencesFrom hp
    show offset < p.start ∧ offset + length ≤ p.start
    omega
  | case4 offset before c cs _ ih => exact ih

theorem pairwise_start_occurrences {α : Type} (find : Recogniser α) (cs : List Char) :
    (occurrences find cs).Pairwise fun o p => o.start < p.start :=
  (pairwise_occurrencesFrom find 0 0 none cs).imp And.left

/-- No find starts inside another. -/
theorem stop_le_of_start_lt {α : Type} {find : Recogniser α} {cs : List Char} {o p : Occurrence α}
    (ho : o ∈ occurrences find cs) (hp : p ∈ occurrences find cs) (hlt : o.start < p.start) :
    o.stop ≤ p.start := by
  obtain ⟨i, hi, rfl⟩ := List.getElem_of_mem ho
  obtain ⟨j, hj, rfl⟩ := List.getElem_of_mem hp
  have hpairs := List.pairwise_iff_getElem.1 (pairwise_occurrencesFrom find 0 0 none cs)
  rcases Nat.lt_trichotomy i j with hij | rfl | hji
  · exact (hpairs i j hi hj hij).2
  · exact absurd hlt (Nat.lt_irrefl _)
  · exact absurd (hpairs j i hj hi hji).1 (Nat.lt_asymm hlt)

/-- Nothing is recognised from inside of what is recognised. -/
def Recogniser.Apart {α : Type} (find : Recogniser α) : Prop :=
  ∀ cs j value length, find.at cs j = some (value, length) →
    ∀ k, j < k → k < j + length → find.at cs k = none

/-- A search passes over what starts inside a find.  Where that is nothing, it finds all there
    is. -/
theorem Recogniser.Apart.mem_occurrences_iff {α : Type} {find : Recogniser α} (hapart : find.Apart)
    (hfits : find.Fits) (cs : List Char) (o : Occurrence α) :
    o ∈ occurrences find cs ↔
      ∃ n, find.at cs o.start = some (o.value, n) ∧ o.stop = o.start + n := by
  refine ⟨at_of_mem_occurrences, ?_⟩
  rintro ⟨n, hat, hstop⟩
  have hlength := hfits _ _ _ _ hat
  rw [List.length_drop] at hlength
  rcases mem_occurrences_or_covered (by omega) hat with hmem | ⟨p, hp, hstart, hcover⟩
  · rwa [← hstop] at hmem
  · obtain ⟨m, hat', hstop'⟩ := at_of_mem_occurrences hp
    rw [hapart cs p.start p.value m hat' o.start hstart (by omega)] at hat
    cases hat

end LuaAudit.Text

namespace LuaAudit.Lint

/-! ### What the rules look for fits -/

/-- The last `do` ends in the text. -/
theorem le_length_of_afterLastDo? {cs : List Char} {n : Nat} (h : afterLastDo? cs = some n) :
    n ≤ cs.length := by
  fun_induction afterLastDo? cs generalizing n with
  | case1 => cases h
  | case2 c cs m hmore ih =>
    have hm := ih hmore
    rw [← Option.some.inj h, List.length_cons]
    omega
  | case3 c rest hword _ _ =>
    rw [← Option.some.inj h]
    simp only [List.length_cons]
    omega
  | case4 => cases h
  | case5 => cases h

theorem fits_whileOpener : whileOpener.Fits := by
  intro before cs value length h
  unfold whileOpener at h
  split at h
  · cases h
  · split at h
    next b c rest hafter =>
      split at h
      · obtain ⟨n, hdo, heq⟩ := Option.map_eq_some_iff.1 h
        have hn := le_length_of_afterLastDo? hdo
        have hcs := Text.length_of_after? hafter
        have hwhile : "while".toList.length = 5 := by decide
        simp only [List.length_cons] at hcs
        have hlength : n + 7 = length := (Prod.mk.inj heq).2
        omega
      · cases h
    · cases h

theorem fits_repeatOpener : repeatOpener.Fits := by
  intro before cs value length h
  unfold repeatOpener at h
  split at h
  · cases h
  · split at h
    next rest hafter =>
      split at h
      · cases h
      · have hcs := Text.length_of_after? hafter
        have hrepeat : "repeat".toList.length = 6 := by decide
        have hlength : 6 = length := (Prod.mk.inj (Option.some.inj h)).2
        omega
    · cases h

theorem fits_crowdedSource : crowdedSource.Fits := by
  intro before cs value length h
  simp only [crowdedSource, Option.bind_eq_bind, Option.bind_eq_some_iff] at h
  obtain ⟨rest₁, h₁, rest₂, h₂, rest₃, h₃, rest₄, h₄, h⟩ := h
  split at h
  · cases h
  · have hcs := Text.length_of_after? h₁
    have hopen := Text.length_lt_of_afterMark? h₂
    have hsource := Text.length_le_of_afterWord? h₃
    have hcomma := Text.length_lt_of_afterMark? h₄
    have hlength : cs.length - rest₄.length = length := (Prod.mk.inj (Option.some.inj h)).2
    omega

end LuaAudit.Lint
