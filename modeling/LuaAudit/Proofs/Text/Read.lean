import LuaAudit.Proofs.Text.Blank
import LuaAudit.Text.Line
import LuaAudit.Text.Scan
import Mathlib.Order.Bounds.Basic

/-!
# Texts cut and read

What is joined is cut where it was joined, what stands at the start of a text is read there, and
what is looked for by its first character is found at that character only.

* `splitOn_eq`, `map_trim_splitOn_joined`: the pieces of a text that was joined from them;
* `exists_splitOn_append`: what is appended to a text belongs to its last piece;
* `after?_append`, `afterBlanks?_cons`: readers on a text that starts with what they read;
* `containsText_iff`: the search for a whole text;
* `first?_of_recognised`, `first?_eq_none`: the first find where a text starts with it, and where
  nothing starts with it;
* `indicesOf`: the lines with a property, of which the last one counts where a line is added.
-/

namespace LuaAudit.Text

/-! ### Pieces between separators -/

/-- Cutting a text at a character is the cutting of lists. -/
theorem splitOn_eq (sep : Char) (cs : List Char) : splitOn sep cs = cs.splitOn sep := by
  rw [List.splitOn_eq_splitOnP]
  induction cs with
  | nil => simp [splitOn]
  | cons c cs ih =>
    rw [splitOn, ih, List.splitOnP_cons_eq_if_modifyHead]
    split
    · rfl
    · obtain ⟨piece, pieces, hpieces⟩ :=
        List.exists_cons_of_ne_nil (List.splitOnP_ne_nil (· == sep) cs)
      rw [hpieces]
      rfl

theorem mem_of_mem_intercalate {sep : List Char} {pieces : List (List Char)} {c : Char}
    (h : c ∈ sep.intercalate pieces) : c ∈ sep ∨ ∃ piece ∈ pieces, c ∈ piece := by
  induction pieces with
  | nil => simp at h
  | cons piece pieces ih =>
    cases pieces with
    | nil =>
      rw [List.intercalate_singleton] at h
      exact .inr ⟨piece, by simp, h⟩
    | cons second pieces =>
      rw [List.intercalate_cons_cons, List.mem_append, List.mem_append] at h
      rcases h with (h | h) | h
      · exact .inr ⟨piece, by simp, h⟩
      · exact .inl h
      · exact (ih h).imp_right fun ⟨p, hp, hc⟩ => ⟨p, List.mem_cons_of_mem piece hp, hc⟩

/-- What is appended without a separator belongs to the last piece. -/
theorem exists_splitOn_append {sep : Char} {added : List Char} (h : sep ∉ added) (cs : List Char) :
    ∃ pieces last, splitOn sep cs = pieces ++ [last] ∧
      splitOn sep (cs ++ added) = pieces ++ [last ++ added] := by
  induction cs with
  | nil =>
    refine ⟨[], [], rfl, ?_⟩
    rw [List.nil_append, splitOn_eq, List.splitOn_eq_singleton h]
    rfl
  | cons c cs ih =>
    obtain ⟨pieces, last, hcut, hjoined⟩ := ih
    rw [List.cons_append, splitOn, splitOn, hcut, hjoined]
    split
    · exact ⟨[] :: pieces, last, rfl, rfl⟩
    · cases pieces with
      | nil => exact ⟨[], c :: last, rfl, rfl⟩
      | cons piece pieces => exact ⟨(c :: piece) :: pieces, last, rfl, rfl⟩

/-- No piece holds the separator. -/
theorem notMem_of_mem_splitOn {sep : Char} {cs piece : List Char} (h : piece ∈ splitOn sep cs) :
    sep ∉ piece := by
  induction cs generalizing piece with
  | nil =>
    rw [splitOn, List.mem_singleton] at h
    simp [h]
  | cons c cs ih =>
    rw [splitOn] at h
    split at h
    next =>
      rcases List.mem_cons.1 h with rfl | h
      · simp
      · exact ih h
    next hc =>
      have hne : sep ≠ c := fun heq => hc (beq_iff_eq.2 heq.symm)
      cases hpieces : splitOn sep cs with
      | nil =>
        rw [hpieces, consLine, List.mem_singleton] at h
        simp [h, hne]
      | cons first pieces =>
        rw [hpieces, consLine] at h
        rcases List.mem_cons.1 h with rfl | h
        · have hfirst := ih (hpieces ▸ List.mem_cons_self)
          simp [hne, hfirst]
        · exact ih (hpieces ▸ List.mem_cons_of_mem first h)

/-- A character that is no separator stands in a piece. -/
theorem exists_mem_splitOn {sep c : Char} (hc : c ≠ sep) {cs : List Char} (h : c ∈ cs) :
    ∃ piece ∈ splitOn sep cs, c ∈ piece := by
  induction cs with
  | nil => simp at h
  | cons d cs ih =>
    rw [splitOn]
    rcases List.mem_cons.1 h with rfl | h
    · rw [if_neg (by simpa using hc)]
      cases splitOn sep cs <;> simp [consLine]
    · obtain ⟨piece, hpiece, hmem⟩ := ih h
      split
      · exact ⟨piece, List.mem_cons_of_mem [] hpiece, hmem⟩
      · cases hpieces : splitOn sep cs with
        | nil => simp [hpieces] at hpiece
        | cons first pieces =>
          rw [hpieces] at hpiece
          rcases List.mem_cons.1 hpiece with rfl | hpiece
          · exact ⟨d :: piece, List.mem_cons_self, List.mem_cons_of_mem d hmem⟩
          · exact ⟨piece, List.mem_cons_of_mem _ hpiece, hmem⟩

theorem intercalate_concat_append (sep added last : List Char) (pieces : List (List Char)) :
    sep.intercalate (pieces ++ [last]) ++ added = sep.intercalate (pieces ++ [last ++ added]) := by
  induction pieces with
  | nil => simp [List.intercalate_singleton]
  | cons piece pieces ih =>
    cases pieces with
    | nil => simp [List.intercalate_cons_cons]
    | cons second pieces =>
      rw [List.cons_append, List.cons_append, List.intercalate_cons_cons, List.append_assoc,
        ← List.cons_append, ih, List.cons_append, List.cons_append, List.cons_append,
        List.intercalate_cons_cons]

/-- Trimmed pieces that are joined by a comma and a space are the pieces between the commas. -/
theorem map_trim_splitOn_joined {names : List (List Char)} (hne : names ≠ [])
    (hcomma : ∀ name ∈ names, ',' ∉ name) (htrim : ∀ name ∈ names, trim name = name) :
    (splitOn ',' ([',', ' '].intercalate names)).map trim = names := by
  rw [splitOn_eq]
  induction names with
  | nil => exact absurd rfl hne
  | cons name names ih =>
    rw [List.forall_mem_cons] at hcomma htrim
    cases names with
    | nil =>
      rw [List.intercalate_singleton, List.splitOn_eq_singleton hcomma.1]
      simp [htrim.1]
    | cons second names =>
      have hrest := ih (by simp) hcomma.2 htrim.2
      generalize hjoined : [',', ' '].intercalate (second :: names) = joined at hrest
      -- The space behind the comma belongs to the next piece, and is trimmed off.
      obtain ⟨piece, pieces, hpieces⟩ := List.exists_cons_of_ne_nil (List.splitOn_ne_nil ',' joined)
      rw [List.intercalate_cons_cons, hjoined, List.append_assoc, List.cons_append,
        List.splitOn_append_cons_self_of_not_mem hcomma.1, List.singleton_append,
        List.splitOn_cons_eq_if_modifyHead, if_neg (by decide), ← hrest, hpieces]
      simp [htrim.1, trim_blank_cons (show isBlank ' ' by decide)]

/-! ### Readers at the start of a text -/

theorem after?_append (lead rest : List Char) : after? lead (lead ++ rest) = some rest := by
  induction lead with
  | nil => cases rest <;> rfl
  | cons c lead ih => simpa [after?] using ih

/-- One blank before a text that starts with none. -/
theorem afterBlanks?_cons {c : Char} (hc : isBlank c) {cs : List Char}
    (hcs : trimStart cs = cs) : afterBlanks? (c :: cs) = some cs := by
  rw [afterBlanks?, if_pos hc]
  exact congrArg some hcs

/-! ### Searches -/

/-- A text is contained in another exactly if it stands somewhere in it. -/
theorem containsText_iff (needle cs : List Char) :
    containsText needle cs = true ↔ needle <:+: cs := by
  induction cs with
  | nil => simp [containsText]
  | cons c cs ih =>
    rw [containsText, Bool.or_eq_true, ih, List.isPrefixOf_iff_prefix, List.infix_cons_iff]

section Search

variable {α : Type} {find : Recogniser α} {lead : Char}

/-- What is recognised at the start of a text is found first. -/
theorem first?_of_recognised {cs : List Char} {value : α} {length : Nat}
    (h : find none cs = some (value, length)) (hcs : cs ≠ []) :
    (first? find cs).map (·.value) = some value := by
  obtain ⟨c, cs, rfl⟩ := List.exists_cons_of_ne_nil hcs
  simp [first?, occurrences, occurrencesFrom, h]

variable (hfind : ∀ before c cs, c ≠ lead → find before (c :: cs) = none)
include hfind

/-- What starts with one character is not found in a text without it. -/
theorem occurrencesFrom_eq_nil {cs : List Char} (hcs : lead ∉ cs) (offset : Nat)
    (before : Option Char) : occurrencesFrom find 0 offset before cs = [] := by
  induction cs generalizing offset before with
  | nil => rfl
  | cons c cs ih =>
    rw [List.mem_cons, not_or] at hcs
    rw [occurrencesFrom, hfind before c cs (Ne.symm hcs.1)]
    exact ih hcs.2 _ _

/-- Nor where the text has it at its start only, and is refused there. -/
theorem first?_eq_none {c : Char} {cs : List Char} (hrefused : find none (c :: cs) = none)
    (hcs : lead ∉ cs) : first? find (c :: cs) = none := by
  rw [first?, occurrences, occurrencesFrom, hrefused]
  exact congrArg List.head? (occurrencesFrom_eq_nil hfind hcs _ _)

end Search

/-! ### Lines with a property -/

/-- The indices of the lines with a property. -/
def indicesOf (p : List Char → Prop) (lines : List (List Char)) : Set Nat :=
  {i | ∃ line, lines[i]? = some line ∧ p line}

section Indices

variable (p : List Char → Prop) (lines : List (List Char)) {line : List Char}

theorem isGreatest_length_indicesOf (hline : p line) :
    IsGreatest (indicesOf p (lines ++ [line])) lines.length := by
  refine ⟨⟨line, List.getElem?_concat_length, hline⟩, ?_⟩
  rintro i ⟨other, hi, -⟩
  have hlt := (List.getElem?_eq_some_iff.1 hi).1
  rw [List.length_append, List.length_singleton] at hlt
  omega

theorem indicesOf_concat_of_not (hline : ¬ p line) :
    indicesOf p (lines ++ [line]) = indicesOf p lines := by
  ext i
  constructor
  · rintro ⟨other, hi, hother⟩
    rw [List.getElem?_append] at hi
    split at hi
    · exact ⟨other, hi, hother⟩
    · obtain rfl := List.mem_singleton.1 (List.mem_of_getElem? hi)
      exact absurd hother hline
  · rintro ⟨other, hi, hother⟩
    exact ⟨other, List.getElem?_append_left (List.getElem?_eq_some_iff.1 hi).1 ▸ hi, hother⟩

end Indices

end LuaAudit.Text
