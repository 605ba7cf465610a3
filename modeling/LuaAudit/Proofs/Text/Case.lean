import LuaAudit.Proofs.Text.Utf8
import LuaAudit.Text.Case

/-!
# Words in any letter case

Looking for a word in the lower case of a text finds it in any letter case.  It could also find
more: the lower case of a character beyond ASCII may hold an ASCII letter.  Only two letters come
about like that, `i` and `k`, so a word without them is found exactly where its own letters stand.

* `IsPlainSmall`: a small letter that is the lower case of ASCII letters only;
* `lowerAfter_cons`: what one character becomes;
* `infix_toLower_iff`: a word of such letters is found exactly where it stands in some letter case.
-/

namespace LuaAudit.Text

/-- A small ASCII letter other than `i` and `k`, which are also the lower case of the capital with a
    dot and of the Kelvin sign. -/
def IsPlainSmall (c : Char) : Prop := 97 ≤ c.toNat ∧ c.toNat ≤ 122 ∧ c ≠ 'i' ∧ c ≠ 'k'

instance (c : Char) : Decidable (IsPlainSmall c) := inferInstanceAs (Decidable (_ ∧ _))

/-! ### One character -/

/-- The tables lead beyond ASCII, but for the Kelvin sign. -/
theorem lowerRuns_target : ∀ r ∈ lowerRuns,
    r.first = r.last ∧ r.target = 0x6B ∨
      128 ≤ r.target ∧ (r.target + (r.last - r.first) < 0xD800 ∨
        0xDFFF < r.target ∧ r.target + (r.last - r.first) < 0x110000) := by
  decide +kernel

theorem not_isPlainSmall_image {n m : Nat} (h : lowerRuns.findSome? (·.image? n) = some m) :
    ¬ IsPlainSmall (Char.ofNat m) := by
  obtain ⟨r, hr, himage⟩ := List.exists_of_findSome?_eq_some h
  simp only [CaseRun.image?, Bool.and_eq_true, decide_eq_true_eq] at himage
  split at himage
  next hn =>
    obtain rfl : r.target + (n - r.first) = m := Option.some.inj himage
    rcases lowerRuns_target r hr with ⟨hone, hkelvin⟩ | ⟨hbeyond, hvalid⟩
    · have hsum : r.target + (n - r.first) = 0x6B := by omega
      rw [hsum]
      decide
    · rintro ⟨-, hle, -⟩
      rw [Utf8.toNat_ofNat (by omega)] at hle
      omega
  · cases himage

/-- What a character beyond ASCII becomes holds none of these letters. -/
theorem not_isPlainSmall_of_mem_lowerChar {c d : Char} (hc : 128 ≤ c.toNat)
    (hd : d ∈ lowerChar c) : ¬ IsPlainSmall d := by
  rw [lowerChar, if_neg (by omega)] at hd
  split at hd
  · simp only [List.mem_cons, List.not_mem_nil, or_false] at hd
    rcases hd with rfl | rfl <;> decide
  · split at hd
    next m hm =>
      obtain rfl := List.mem_singleton.1 hd
      exact not_isPlainSmall_image hm
    · obtain rfl := List.mem_singleton.1 hd
      rintro ⟨-, hle, -⟩
      omega

/-- A character beyond ASCII has no other form for ASCII. -/
theorem toLower_of_beyond {c : Char} (hc : 128 ≤ c.toNat) : c.toLower = c := by
  apply dif_neg
  rintro ⟨-, hle⟩
  have hle : c.toNat ≤ 90 := UInt32.le_iff_toNat_le.1 hle
  omega

/-- A text in lower case starts with what its first character becomes: the small form of an ASCII
    character, and else a text without any of these letters. -/
theorem lowerAfter_cons (before : List Char) (c : Char) (cs : List Char) :
    ∃ piece, lowerAfter before (c :: cs) = piece ++ lowerAfter (c :: before) cs ∧
      (piece = [c.toLower] ∨ 128 ≤ c.toNat ∧ piece ≠ [] ∧ ∀ d ∈ piece, ¬ IsPlainSmall d) := by
  refine ⟨_, rfl, ?_⟩
  split
  next hsigma =>
    -- Both small forms of the sigma are beyond ASCII.
    obtain rfl := beq_iff_eq.1 hsigma
    refine .inr ⟨by decide, by simp, fun d hd => ?_⟩
    obtain rfl := List.mem_singleton.1 hd
    split <;> decide
  · rcases Nat.lt_or_ge c.toNat 128 with hascii | hbeyond
    · exact .inl (if_pos hascii)
    · refine .inr ⟨hbeyond, ?_, fun d => not_isPlainSmall_of_mem_lowerChar hbeyond⟩
      rw [lowerChar, if_neg (by omega)]
      repeat' split
      all_goals simp

/-! ### Words -/

variable {word : List Char} (hword : ∀ c ∈ word, IsPlainSmall c)
include hword

/-- A word at the start of the lower case. -/
theorem prefix_lowerAfter_iff (before cs : List Char) :
    word <+: lowerAfter before cs ↔ ∃ w, w <+: cs ∧ w.map Char.toLower = word := by
  induction word generalizing before cs with
  | nil => exact iff_of_true (List.nil_prefix ..) ⟨[], List.nil_prefix .., rfl⟩
  | cons a word ih =>
    obtain ⟨ha, hmore⟩ := List.forall_mem_cons.1 hword
    cases cs with
    | nil => simp [lowerAfter]
    | cons c cs =>
      obtain ⟨piece, hlower, hpiece⟩ := lowerAfter_cons before c cs
      have hsplit : (∃ w, w <+: c :: cs ∧ w.map Char.toLower = a :: word) ↔
          c.toLower = a ∧ ∃ w, w <+: cs ∧ w.map Char.toLower = word := by
        constructor
        · rintro ⟨w, hw, hmap⟩
          obtain ⟨d, w, rfl, rfl, rfl⟩ := List.map_eq_cons_iff.1 hmap
          obtain ⟨rfl, htail⟩ := List.cons_prefix_cons.1 hw
          exact ⟨rfl, w, htail, rfl⟩
        · rintro ⟨rfl, w, hw, rfl⟩
          exact ⟨c :: w, List.cons_prefix_cons.2 ⟨rfl, hw⟩, rfl⟩
      rw [hlower, hsplit]
      rcases hpiece with rfl | ⟨hbeyond, hne, hnone⟩
      · rw [List.singleton_append, List.cons_prefix_cons, ih hmore, eq_comm]
      · -- The first letter of the word comes from nothing beyond ASCII.
        obtain ⟨d, piece, rfl⟩ := List.exists_cons_of_ne_nil hne
        refine iff_of_false (fun h => ?_) (fun h => ?_)
        · obtain ⟨rfl, -⟩ := List.cons_prefix_cons.1 h
          exact hnone _ (.head _) ha
        · rw [toLower_of_beyond hbeyond] at h
          obtain ⟨-, hle, -⟩ := h.1 ▸ ha
          omega

/-- A text that holds no letter of a word can be dropped before it. -/
theorem infix_append_iff_of_not_isPlainSmall {piece : List Char}
    (hnone : ∀ d ∈ piece, ¬ IsPlainSmall d) (hne : word ≠ []) (cs : List Char) :
    word <:+: piece ++ cs ↔ word <:+: cs := by
  induction piece with
  | nil => rfl
  | cons d piece ih =>
    obtain ⟨hd, hmore⟩ := List.forall_mem_cons.1 hnone
    have hfirst : ¬ word <+: d :: (piece ++ cs) := by
      obtain ⟨a, word, rfl⟩ := List.exists_cons_of_ne_nil hne
      intro h
      exact hd ((List.cons_prefix_cons.1 h).1 ▸ hword a (.head _))
    rw [List.cons_append, List.infix_cons_iff, ih hmore]
    exact or_iff_right hfirst

/-- A word anywhere in the lower case. -/
theorem infix_lowerAfter_iff (hne : word ≠ []) (before cs : List Char) :
    word <:+: lowerAfter before cs ↔ ∃ w, w <:+: cs ∧ w.map Char.toLower = word := by
  induction cs generalizing before with
  | nil => simp [lowerAfter]
  | cons c cs ih =>
    have hstart := prefix_lowerAfter_iff hword before (c :: cs)
    obtain ⟨piece, hlower, hpiece⟩ := lowerAfter_cons before c cs
    simp only [List.infix_cons_iff, or_and_right, exists_or, ← hstart, ← ih (c :: before)]
    rcases hpiece with rfl | ⟨-, -, hnone⟩
    · rw [hlower, List.singleton_append, List.infix_cons_iff]
    · rw [hlower, infix_append_iff_of_not_isPlainSmall hword hnone hne, or_iff_right_of_imp]
      exact fun h => (infix_append_iff_of_not_isPlainSmall hword hnone hne _).1 h.isInfix

/-- **Any letter case.**  A word of such letters stands in the lower case of a text exactly if the
    text has its letters, each small or capital, in a row. -/
theorem infix_toLower_iff (hne : word ≠ []) (cs : List Char) :
    word <:+: toLower cs ↔ ∃ w, w <:+: cs ∧ w.map Char.toLower = word :=
  infix_lowerAfter_iff hword hne [] cs

end LuaAudit.Text
