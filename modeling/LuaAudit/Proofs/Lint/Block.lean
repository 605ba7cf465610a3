import LuaAudit.Lint.Block
import LuaAudit.Proofs.Text.Read
import Mathlib.Data.List.Infix
import Mathlib.Data.Nat.Find
import Mathlib.Order.Bounds.Basic

/-!
# Blocks by balance

The search for the end of a block keeps a depth that goes up and down with the lines and asks for
zero only where a line closes something.  The same end is found by counting: it is the first line up
to which the lines that mention the closing word are one more than those that mention the opening
word.

* `mentions` and `BlockWords.surplus`: the count;
* `closing?_cons`: one line, as a change of the depth by `BlockWords.change`;
* `closing?_eq_some_iff`: the search from any depth, by induction on the lines;
* `blockEnd?_eq_some_iff` and `blockEnd?_eq_none_iff`: the end of a block, and blocks without one.
-/

namespace LuaAudit.Lint

/-! ### Counting lines -/

/-- A line that is not blank and has a word in it, between the blanks at its ends. -/
def mentions (word line : List Char) : Bool :=
  decide (Text.trim line ≠ [] ∧ word <:+: Text.trim line)

theorem mentions_eq (word line : List Char) :
    mentions word line =
      (!(Text.trim line).isEmpty && Text.containsText word (Text.trim line)) := by
  rw [Bool.eq_iff_iff]
  simp [mentions, Text.containsText_iff]

namespace BlockWords

variable (words : BlockWords)

/-- By how many the lines with the closing word outnumber those with the opening word. -/
def surplus (lines : List (List Char)) : Int :=
  lines.countP (mentions words.closing) - lines.countP (mentions words.opening)

/-- What one line adds to the surplus. -/
def change (line : List Char) : Int :=
  (if mentions words.closing line then 1 else 0) - (if mentions words.opening line then 1 else 0)

@[simp] theorem surplus_nil : words.surplus [] = 0 := rfl

@[simp] theorem surplus_cons (line : List Char) (lines : List (List Char)) :
    words.surplus (line :: lines) = words.change line + words.surplus lines := by
  simp only [surplus, change, List.countP_cons]
  split <;> split <;> omega

theorem change_le (line : List Char) : words.change line ≤ 1 := by
  unfold change
  split <;> split <;> omega

/-- One line of the search: it ends here when the line takes away all of the depth, which a line can
    only do to a depth of one. -/
theorem closing?_cons {depth : Nat} (hdepth : 1 ≤ depth) (line : List Char)
    (lines : List (List Char)) :
    words.closing? depth (line :: lines) =
      if (depth : Int) = words.change line then some 0
      else (words.closing? (depth - words.change line).toNat lines).map (· + 1) := by
  have hmore : depth ≠ 0 := by omega
  rw [closing?, change, mentions_eq, mentions_eq]
  cases hblank : (Text.trim line).isEmpty with
  | true => simp [hmore]
  | false =>
    cases hopen : Text.containsText words.opening (Text.trim line) <;>
      cases hclose : Text.containsText words.closing (Text.trim line)
    · simp [hmore]
    · -- The line closes and opens nothing: here alone the depth is compared with one.
      by_cases hone : depth = 1
      · simp [hone]
      · have hne : (depth : Int) ≠ 1 := by omega
        have hrest : ((depth : Int) - 1).toNat = depth - 1 := by omega
        simp [hone, hne, hrest]
    · have hne : (depth : Int) ≠ -1 := by omega
      have hrest : ((depth : Int) + 1).toNat = depth + 1 := by omega
      simp [hne, hrest]
    · simp [hmore]

end BlockWords

/-! ### The end of a block -/

/-- The least member of a set that leaves out zero, from that of the set moved down by one. -/
theorem isLeast_succ_iff {s s' : Set Nat} (hzero : 0 ∉ s) (hsucc : ∀ m, m + 1 ∈ s ↔ m ∈ s')
    (n : Nat) : (∃ m, IsLeast s' m ∧ m + 1 = n) ↔ IsLeast s n := by
  constructor
  · rintro ⟨m, ⟨hm, hleast⟩, rfl⟩
    refine ⟨(hsucc m).2 hm, fun k hk => ?_⟩
    cases k with
    | zero => exact absurd hk hzero
    | succ k => exact Nat.succ_le_succ (hleast ((hsucc k).1 hk))
  · rintro ⟨hn, hleast⟩
    cases n with
    | zero => exact absurd hn hzero
    | succ n =>
      refine ⟨n, ⟨(hsucc n).1 hn, fun k hk => ?_⟩, rfl⟩
      exact Nat.le_of_succ_le_succ (hleast ((hsucc k).2 hk))

variable {words : BlockWords}

/-- **The search from a depth.**  It ends at the first line up to which the surplus is that
    depth. -/
theorem closing?_eq_some_iff {depth : Nat} (hdepth : 1 ≤ depth) (lines : List (List Char))
    (n : Nat) :
    words.closing? depth lines = some n ↔
      IsLeast {m | m < lines.length ∧ words.surplus (lines.take (m + 1)) = depth} n := by
  -- The depth that is left is what the surplus still has to reach; it stays above zero.
  induction lines generalizing depth n with
  | nil =>
    constructor
    · intro h
      cases h
    · intro h
      exact absurd h.1.1 (Nat.not_lt_zero n)
  | cons line lines ih =>
    rw [words.closing?_cons hdepth]
    by_cases hhere : (depth : Int) = words.change line
    · rw [if_pos hhere, Option.some.injEq]
      have hzero : 0 < (line :: lines).length ∧
          words.surplus ((line :: lines).take (0 + 1)) = depth := by
        simp [hhere]
      constructor
      · rintro rfl
        exact ⟨hzero, fun m _ => Nat.zero_le m⟩
      · intro h
        exact (Nat.le_zero.1 (h.2 hzero)).symm
    · have hle := words.change_le line
      have hleft : ((depth - words.change line).toNat : Int) = depth - words.change line := by omega
      rw [if_neg hhere, Option.map_eq_some_iff]
      rw [exists_congr fun m => and_congr_left fun _ => ih (by omega) m]
      apply isLeast_succ_iff
      · rintro ⟨-, hsum⟩
        rw [List.take_succ_cons, List.take_zero, words.surplus_cons, words.surplus_nil] at hsum
        omega
      · intro m
        simp only [Set.mem_ofPred_eq, List.length_cons, List.take_succ_cons, words.surplus_cons,
          hleft]
        omega

/-- The lines after line `i`, up to line `e`. -/
def linesUpTo (lines : List (List Char)) (i e : Nat) : List (List Char) :=
  (lines.take (e + 1)).drop (i + 1)

/-- After line `i`, up to line `e`, one line more mentions the closing word than the opening
    word. -/
def BlockWords.Balance (words : BlockWords) (lines : List (List Char)) (i e : Nat) : Prop :=
  i < e ∧ e < lines.length ∧ words.surplus (linesUpTo lines i e) = 1

/-- **The end of a block.**  The block opened at a line ends at the first later line where the words
    balance. -/
theorem blockEnd?_eq_some_iff (lines : List (List Char)) (i e : Nat) :
    blockEnd? words lines i = some e ↔ IsLeast {e | words.Balance lines i e} e := by
  rw [blockEnd?, Option.map_eq_some_iff]
  rw [exists_congr fun n => and_congr_left fun _ => closing?_eq_some_iff le_rfl _ n]
  -- Offsets behind the opening line, and lines of the script.
  have hshift : ∀ n, n < (lines.drop (i + 1)).length ∧
      words.surplus ((lines.drop (i + 1)).take (n + 1)) = (1 : Nat) ↔
        words.Balance lines i (i + 1 + n) := by
    intro n
    have hlines : linesUpTo lines i (i + 1 + n) = (lines.drop (i + 1)).take (n + 1) := by
      rw [linesUpTo, List.drop_take]
      congr 1
      omega
    rw [BlockWords.Balance, hlines, List.length_drop]
    omega
  constructor
  · rintro ⟨n, ⟨hn, hleast⟩, rfl⟩
    refine ⟨(hshift n).1 hn, fun e he => ?_⟩
    obtain ⟨m, rfl⟩ := Nat.exists_eq_add_of_le he.1
    exact Nat.add_le_add_left (hleast ((hshift m).2 he)) (i + 1)
  · rintro ⟨he, hleast⟩
    obtain ⟨n, rfl⟩ := Nat.exists_eq_add_of_le he.1
    refine ⟨n, ⟨(hshift n).2 he, fun m hm => ?_⟩, rfl⟩
    exact Nat.le_of_add_le_add_left (hleast ((hshift m).1 hm))

/-- A block without an end is one whose words balance nowhere. -/
theorem blockEnd?_eq_none_iff (lines : List (List Char)) (i : Nat) :
    blockEnd? words lines i = none ↔ ∀ e, ¬ words.Balance lines i e := by
  rw [Option.eq_none_iff_forall_ne_some]
  constructor
  · intro hnone e he
    classical
    -- If they balance somewhere, they do so at a first line.
    have hex : ∃ e, words.Balance lines i e := ⟨e, he⟩
    refine hnone (Nat.find hex) ((blockEnd?_eq_some_iff lines i _).2 ⟨Nat.find_spec hex, ?_⟩)
    exact fun m hm => Nat.find_min' hex hm
  · intro hnone e he
    exact hnone e ((blockEnd?_eq_some_iff lines i e).1 he).1

/-- From a line of the script the search does not fail. -/
theorem blockEndFrom_natCast (lines : List (List Char)) (i : Nat) :
    blockEndFrom words lines i = .ok ((blockEnd? words lines i).map Int.ofNat) := by
  have hlines : linesFrom lines ((i : Int) + 1) = .ok (lines.drop (i + 1)) := by
    rw [linesFrom, if_pos (by omega), show ((i : Int) + 1).toNat = i + 1 by omega]
  rw [blockEndFrom, hlines, blockEnd?]
  show Except.ok _ = Except.ok _
  cases words.closing? 1 (lines.drop (i + 1)) with
  | none => rfl
  | some n => rfl

end LuaAudit.Lint
