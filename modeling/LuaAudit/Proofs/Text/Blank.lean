import LuaAudit.Text.Blank
import LuaAudit.Text.Word
import Mathlib.Data.List.DropRight

/-!
# Trimmed texts

Trimming twice is trimming once, so a trimmed text stays as it is.  What starts and ends with no
blank is trimmed, and so is a word.
-/

namespace LuaAudit.Text

/-- Dropping blanks at the end keeps a first character that is no blank. -/
theorem trimEnd_cons {c : Char} (hc : isBlank c = false) (cs : List Char) :
    trimEnd (c :: cs) = c :: trimEnd cs := by
  unfold trimEnd
  rw [List.reverse_cons, List.dropWhile_append]
  split
  next hnil =>
    rw [List.isEmpty_iff.1 hnil]
    simp [hc]
  · simp

/-- A trimmed text starts with no blank. -/
theorem trimStart_trim (cs : List Char) : trimStart (trim cs) = trim cs := by
  have hhead := List.head?_dropWhile_not isBlank cs
  unfold trim
  cases hcs : trimStart cs with
  | nil => rfl
  | cons c rest =>
    have hc : isBlank c = false := by
      rw [trimStart] at hcs
      simpa [hcs] using hhead
    rw [trimEnd_cons hc]
    simp [trimStart, hc]

/-- A trimmed text is the start of what is left behind the leading blanks. -/
theorem trim_prefix_trimStart (cs : List Char) : trim cs <+: trimStart cs := by
  rw [trim, trimEnd, ← List.reverse_suffix, List.reverse_reverse]
  exact List.dropWhile_suffix _

/-- A text with a character that is no blank is not blank. -/
theorem trim_ne_nil_of_mem {c : Char} (hc : isBlank c = false) {cs : List Char} (h : c ∈ cs) :
    trim cs ≠ [] := by
  intro hnil
  have hstart : ∀ d ∈ trimStart cs, isBlank d = true := by
    rw [trim, trimEnd, List.reverse_eq_nil_iff, List.dropWhile_eq_nil_iff] at hnil
    simpa using hnil
  have hblank : isBlank c = true := by
    rw [← List.takeWhile_append_dropWhile (p := isBlank) (l := cs), List.mem_append] at h
    exact h.elim List.mem_takeWhile_imp (hstart c)
  rw [hc] at hblank
  cases hblank

theorem trim_trim (cs : List Char) : trim (trim cs) = trim cs := by
  have htwice : trimEnd (trimEnd (trimStart cs)) = trimEnd (trimStart cs) :=
    List.rdropWhile_idempotent isBlank (trimStart cs)
  rw [trim, trimStart_trim]
  exact htwice

/-! ### Blanks and words -/

/-- The code points of all blanks. -/
def blankPoints : List Nat :=
  [0x09, 0x0A, 0x0B, 0x0C, 0x0D, 0x1C, 0x1D, 0x1E, 0x1F, 0x20, 0x85, 0xA0, 0x1680, 0x2000, 0x2001,
    0x2002, 0x2003, 0x2004, 0x2005, 0x2006, 0x2007, 0x2008, 0x2009, 0x200A, 0x2028, 0x2029, 0x202F,
    0x205F, 0x3000]

theorem mem_blankPoints {c : Char} (h : isBlank c) : c.toNat ∈ blankPoints := by
  simp only [isBlank, Bool.or_eq_true, Bool.and_eq_true, decide_eq_true_eq, beq_iff_eq] at h
  simp only [blankPoints, List.mem_cons, List.not_mem_nil, or_false]
  omega

/-- Characters of a class that holds none of these points are no blanks. -/
theorem isBlank_eq_false_of_class {p : Char → Bool}
    (hp : ∀ n ∈ blankPoints, p (Char.ofNat n) = false) {c : Char} (h : p c) :
    isBlank c = false := by
  by_contra hblank
  have hc := hp _ (mem_blankPoints (by simpa using hblank))
  rw [Char.ofNat_toNat, h] at hc
  cases hc

theorem solid_of_all {cs : List Char} (h : cs.all (!isBlank ·) = true) :
    ∀ c ∈ cs, isBlank c = false := by
  simpa using h

theorem isBlank_eq_false_of_isWord {c : Char} (h : isWord c) : isBlank c = false :=
  isBlank_eq_false_of_class (by decide +kernel) h

/-- A letter or digit is an ASCII character, since no class of them goes beyond `z`. -/
theorem toNat_lt_of_isAlphanum {c : Char} (h : c.isAlphanum = true) : c.toNat < 0x80 := by
  have hlast : ∃ last ≤ 'z'.val, c.val ≤ last := by
    rcases Bool.or_eq_true_iff.1 h with halpha | hdigit
    · rcases Bool.or_eq_true_iff.1 halpha with hupper | hlower
      · exact ⟨'Z'.val, by decide, (of_decide_eq_true hupper).2⟩
      · exact ⟨'z'.val, by decide, of_decide_eq_true (Bool.and_eq_true_iff.1 hlower).2⟩
    · exact ⟨'9'.val, by decide, of_decide_eq_true (Bool.and_eq_true_iff.1 hdigit).2⟩
  obtain ⟨last, hz, hle⟩ := hlast
  calc c.val.toNat
    _ ≤ last.toNat := UInt32.le_iff_toNat_le.1 hle
    _ ≤ 'z'.val.toNat := UInt32.le_iff_toNat_le.1 hz
    _ < 0x80 := by decide

/-! ### Blanks at the ends -/

/-- A trimmed text has no blank to drop at either end. -/
theorem trimmed_ends {cs : List Char} (h : trim cs = cs) : trimStart cs = cs ∧ trimEnd cs = cs := by
  have hstart : trimStart cs = cs := by
    have htwice := trimStart_trim cs
    rwa [h] at htwice
  refine ⟨hstart, ?_⟩
  rwa [trim, hstart] at h

/-- A text that ends without a blank ends so behind any other. -/
theorem trimEnd_append {b : List Char} (h : trimEnd b = b) (hb : b ≠ []) (a : List Char) :
    trimEnd (a ++ b) = a ++ b := by
  have hlast := List.rdropWhile_eq_self_iff.1 h hb
  refine List.rdropWhile_eq_self_iff.2 fun hne => ?_
  rwa [List.getLast_append_of_ne_nil hne hb]

/-- A text with no blank at either end is trimmed. -/
theorem trim_cons {c : Char} {cs : List Char} (hc : isBlank c = false)
    (hend : trimEnd (c :: cs) = c :: cs) : trim (c :: cs) = c :: cs := by
  have hstart : trimStart (c :: cs) = c :: cs := by simp [trimStart, hc]
  rw [trim, hstart, hend]

theorem trimEnd_of_solid {cs : List Char} (h : ∀ c ∈ cs, isBlank c = false) : trimEnd cs = cs :=
  List.rdropWhile_eq_self_iff.2 fun hne => by simpa using h _ (List.getLast_mem hne)

theorem trim_of_solid {cs : List Char} (h : ∀ c ∈ cs, isBlank c = false) : trim cs = cs := by
  cases cs with
  | nil => rfl
  | cons c cs => exact trim_cons (h c List.mem_cons_self) (trimEnd_of_solid h)

theorem trim_blank_cons {c : Char} (hc : isBlank c) (cs : List Char) :
    trim (c :: cs) = trim cs := by
  simp [trim, trimStart, hc]

theorem trimStart_append {a : List Char} (ha : a ≠ []) (hsolid : ∀ c ∈ a, isBlank c = false)
    (b : List Char) : trimStart (a ++ b) = a ++ b := by
  obtain ⟨c, a, rfl⟩ := List.exists_cons_of_ne_nil ha
  simp [trimStart, hsolid c List.mem_cons_self]

end LuaAudit.Text
