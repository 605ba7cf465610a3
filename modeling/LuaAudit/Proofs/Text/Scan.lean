import LuaAudit.Proofs.Text.Read
import Mathlib.Data.List.TakeWhile

/-!
# Readers at the start of a text

What the small readers find, said of the text alone: a mark, a word or a quoted text, with blanks
before it or not.

* `Spaced` and `Parted`: what stands behind any number of blanks, and behind one or more;
* `afterBlanks?_eq_some_iff`, `afterWord?_eq_some_iff`, `afterMark?_eq_some_iff`,
  `quoted?_eq_some_iff`: one equivalence for each reader.
-/

namespace LuaAudit.Text

/-! ### Behind blanks -/

/-- A text is some blanks, maybe none, and then `rest`. -/
def Spaced (cs rest : List Char) : Prop := ∃ blanks, allBlank blanks = true ∧ cs = blanks ++ rest

/-- A text is at least one blank and then `rest`. -/
def Parted (cs rest : List Char) : Prop :=
  ∃ blanks, blanks ≠ [] ∧ allBlank blanks = true ∧ cs = blanks ++ rest

theorem spaced_dropWhile (cs : List Char) : Spaced cs (cs.dropWhile isBlank) :=
  ⟨cs.takeWhile isBlank, List.all_takeWhile, List.takeWhile_append_dropWhile.symm⟩

/-- Where no blank follows, the blanks are all those that the text starts with. -/
theorem dropWhile_eq_cons_iff {c : Char} (hc : isBlank c = false) (cs rest : List Char) :
    cs.dropWhile isBlank = c :: rest ↔ Spaced cs (c :: rest) := by
  constructor
  · intro h
    rw [← h]
    exact spaced_dropWhile cs
  · rintro ⟨blanks, hblanks, rfl⟩
    rw [List.dropWhile_append_of_pos (List.all_eq_true.1 hblanks),
      List.dropWhile_cons_of_neg (by simp [hc])]

theorem parted_iff (cs rest : List Char) :
    Parted cs rest ↔ ∃ b bs, cs = b :: bs ∧ isBlank b = true ∧ Spaced bs rest := by
  constructor
  · rintro ⟨blanks, hne, hblanks, rfl⟩
    obtain ⟨b, bs, rfl⟩ := List.exists_cons_of_ne_nil hne
    rw [allBlank, List.all_cons, Bool.and_eq_true] at hblanks
    exact ⟨b, bs ++ rest, rfl, hblanks.1, bs, hblanks.2, rfl⟩
  · rintro ⟨b, -, rfl, hb, blanks, hblanks, rfl⟩
    refine ⟨b :: blanks, by simp, ?_, rfl⟩
    rw [allBlank, List.all_cons, hb]
    exact hblanks

theorem afterBlanks?_eq_some_iff {c : Char} (hc : isBlank c = false) (cs rest : List Char) :
    afterBlanks? cs = some (c :: rest) ↔ Parted cs (c :: rest) := by
  rw [parted_iff]
  constructor
  · intro h
    cases cs with
    | nil => cases h
    | cons b bs =>
      rw [afterBlanks?] at h
      split at h
      next hb => exact ⟨b, bs, rfl, hb, (dropWhile_eq_cons_iff hc bs rest).1 (Option.some.inj h)⟩
      · cases h
  · rintro ⟨b, bs, rfl, hb, hbs⟩
    rw [afterBlanks?, if_pos hb, (dropWhile_eq_cons_iff hc bs rest).2 hbs]

/-! ### Words and marks -/

theorem eq_append_of_after? {lead cs rest : List Char} (h : after? lead cs = some rest) :
    cs = lead ++ rest := by
  fun_induction after? lead cs with
  | case1 cs => rw [List.nil_append, Option.some.inj h]
  | case2 => cases h
  | case3 l ls c cs hc ih =>
    rw [eq_of_beq hc, List.cons_append, ← ih h]
  | case4 => cases h

theorem after?_eq_some_iff (lead cs rest : List Char) :
    after? lead cs = some rest ↔ cs = lead ++ rest := by
  constructor
  · exact eq_append_of_after?
  · rintro rfl
    exact after?_append lead rest

/-- A word that starts with no blank stands behind all blanks that the text starts with. -/
theorem afterWord?_eq_some_iff {c : Char} (hc : isBlank c = false) (word cs rest : List Char) :
    afterWord? (c :: word) cs = some rest ↔ Spaced cs (c :: word ++ rest) := by
  rw [afterWord?, after?_eq_some_iff]
  exact dropWhile_eq_cons_iff hc cs (word ++ rest)

/-- A mark is a word of one character. -/
theorem afterMark?_eq (mark : Char) : afterMark? mark = afterWord? [mark] := by
  funext cs
  unfold afterMark? afterWord?
  cases cs.dropWhile isBlank with
  | nil => rfl
  | cons c rest => simp only [after?, Bool.beq_comm, beq_iff_eq]

theorem afterMark?_eq_some_iff {mark : Char} (hmark : isBlank mark = false) (cs rest : List Char) :
    afterMark? mark cs = some rest ↔ Spaced cs (mark :: rest) := by
  rw [afterMark?_eq]
  exact afterWord?_eq_some_iff hmark [] cs rest

/-! ### Quotes -/

theorem isBlank_eq_false_of_quote {q : Char} (hq : isQuoteMark q = true) : isBlank q = false := by
  rcases Bool.or_eq_true_iff.1 hq with hq | hq <;> rw [eq_of_beq hq] <;> decide

/-- What is read of a text between quotes. -/
theorem quoted?_eq {lead name : List Char} {q q' : Char} (hlead : ∀ c ∈ lead, isBlank c = true)
    (hq : isQuoteMark q = true) (hname : ∀ c ∈ name, isQuoteMark c = false)
    (hq' : isQuoteMark q' = true) (rest : List Char) :
    quoted? (lead ++ q :: (name ++ q' :: rest)) =
      if name = [] then none else some (name, rest) := by
  have hstart : (lead ++ q :: (name ++ q' :: rest)).dropWhile isBlank =
      q :: (name ++ q' :: rest) := by
    rw [List.dropWhile_append_of_pos hlead,
      List.dropWhile_cons_of_neg (by simp [isBlank_eq_false_of_quote hq])]
  have hname' : ∀ c ∈ name, (!isQuoteMark c) = true := fun c hc => by simp [hname c hc]
  have htake : (name ++ q' :: rest).takeWhile (!isQuoteMark ·) = name := by
    rw [List.takeWhile_append_of_pos hname', List.takeWhile_cons_of_neg (by simp [hq']),
      List.append_nil]
  have hdrop : (name ++ q' :: rest).dropWhile (!isQuoteMark ·) = q' :: rest := by
    rw [List.dropWhile_append_of_pos hname', List.dropWhile_cons_of_neg (by simp [hq'])]
  rw [quoted?, hstart]
  simp only [hq, htake, hdrop]
  cases name <;> rfl

/-- A text with a quote in it has a first one. -/
theorem exists_first_quote {v : List Char} (h : ∃ c ∈ v, isQuoteMark c = true) :
    ∃ name q v', v = name ++ q :: v' ∧ (∀ c ∈ name, isQuoteMark c = false) ∧
      isQuoteMark q = true := by
  induction v with
  | nil => simp at h
  | cons c v ih =>
    cases hc : isQuoteMark c with
    | true => exact ⟨[], c, v, rfl, by simp, hc⟩
    | false =>
      obtain ⟨name, q, v', rfl, hname, hq⟩ := ih (by simpa [hc] using h)
      exact ⟨c :: name, q, v', rfl, List.forall_mem_cons.2 ⟨hc, hname⟩, hq⟩

/-- What was read of a text between quotes. -/
theorem eq_append_of_quoted? {cs name rest : List Char} (h : quoted? cs = some (name, rest)) :
    ∃ lead q q', cs = lead ++ q :: (name ++ q' :: rest) ∧ (∀ c ∈ lead, isBlank c = true) ∧
      isQuoteMark q = true ∧ (∀ c ∈ name, isQuoteMark c = false) ∧ isQuoteMark q' = true := by
  have hblank : ∀ c ∈ cs.takeWhile isBlank, isBlank c = true := fun c hc =>
    List.mem_takeWhile_imp hc
  have hsplit := List.takeWhile_append_dropWhile (p := isBlank) (l := cs)
  cases hdrop : cs.dropWhile isBlank with
  | nil => simp [quoted?, hdrop] at h
  | cons q v =>
    rw [hdrop] at hsplit
    cases hq : isQuoteMark q with
    | false => simp [quoted?, hdrop, hq] at h
    | true =>
      by_cases hv : ∃ c ∈ v, isQuoteMark c = true
      · obtain ⟨name', q', v', rfl, hname, hq'⟩ := exists_first_quote hv
        rw [← hsplit, quoted?_eq hblank hq hname hq'] at h
        split at h
        · cases h
        · cases h
          exact ⟨_, q, q', hsplit.symm, hblank, hq, hname, hq'⟩
      · -- Without a second quote nothing is read.
        have hnil : v.dropWhile (!isQuoteMark ·) = [] :=
          List.dropWhile_eq_nil_iff.2 fun c hc => by
            simpa using fun hquote => hv ⟨c, hc, hquote⟩
        simp only [quoted?, hdrop, hq, hnil] at h
        revert h
        cases v.takeWhile (!isQuoteMark ·) <;> simp

theorem quoted?_eq_some_iff (cs name rest : List Char) :
    quoted? cs = some (name, rest) ↔
      name ≠ [] ∧ (∀ c ∈ name, isQuoteMark c = false) ∧ ∃ q q', isQuoteMark q = true ∧
        isQuoteMark q' = true ∧ Spaced cs (q :: (name ++ q' :: rest)) := by
  constructor
  · intro h
    obtain ⟨lead, q, q', rfl, hlead, hq, hname, hq'⟩ := eq_append_of_quoted? h
    rw [quoted?_eq hlead hq hname hq'] at h
    refine ⟨?_, hname, q, q', hq, hq', lead, List.all_eq_true.2 hlead, rfl⟩
    rintro rfl
    cases h
  · rintro ⟨hne, hname, q, q', hq, hq', lead, hlead, rfl⟩
    rw [quoted?_eq (List.all_eq_true.1 hlead) hq hname hq', if_neg hne]

end LuaAudit.Text
