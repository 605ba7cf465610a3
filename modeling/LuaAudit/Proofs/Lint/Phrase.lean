import LuaAudit.Proofs.Lint.Comment
import LuaAudit.Proofs.Lint.WellFormed
import LuaAudit.Proofs.Lua.Code

/-!
# Phrases are found wherever they stand in code

A search goes on behind what it has found, and it reads the masked lines.  Both could cost a phrase
its report, or give it one that it should not have.  Neither happens with the phrases of the tables:
none of them overlaps itself, and none has a character that blanking could make.

* `StandsAt`: a text stands at a line and column;
* `Unbordered`: a text that cannot start inside itself;
* `mem_occurrences_phraseAt_iff`: such a text is found everywhere it stands;
* `standsAt_masked_iff`: in the masked lines stands what is written and is code all through;
* `phrases_reported`: the reports of both tables.
-/

namespace LuaAudit.Lint

open Lua (CodeAt blankOut lineStart)
open Text (Occurrence Recogniser occurrences)

/-! ### Where a phrase stands -/

/-- A text stands at a line and column. -/
def StandsAt (phrase : List Char) (lines : List (List Char)) (i j : Nat) : Prop :=
  ∃ raw, lines[i]? = some raw ∧ phrase <+: raw.drop j

instance (phrase : List Char) (lines : List (List Char)) (i j : Nat) :
    Decidable (StandsAt phrase lines i j) :=
  decidable_of_iff (lines[i]?.any (fun raw => phrase.isPrefixOf (raw.drop j)) = true) (by
    simp [StandsAt, Option.any_eq_true])

/-- No end of a text is a start of it, the whole text apart. -/
def Unbordered (phrase : List Char) : Prop :=
  ∀ k < phrase.length, 0 < k → ¬ phrase.drop k <+: phrase

instance (phrase : List Char) : Decidable (Unbordered phrase) :=
  inferInstanceAs (Decidable (∀ k < phrase.length, 0 < k → ¬ phrase.drop k <+: phrase))

/-- A text that stands at two places, one inside the other, has a border. -/
theorem Unbordered.not_prefix_drop {phrase cs : List Char} (h : Unbordered phrase) {j k : Nat}
    (hj : phrase <+: cs.drop j) (hjk : j < k) (hk : k < j + phrase.length) :
    ¬ phrase <+: cs.drop k := by
  intro hlater
  obtain ⟨d, rfl⟩ := Nat.exists_eq_add_of_le (Nat.le_of_lt hjk)
  have hend : phrase.drop d <+: cs.drop (j + d) := by
    obtain ⟨rest, hrest⟩ := hj
    rw [← List.drop_drop, ← hrest, List.drop_append_of_le_length (by omega)]
    exact List.prefix_append _ _
  exact h d (by omega) (by omega)
    (List.prefix_of_prefix_length_le hend hlater (by rw [List.length_drop]; omega))

/-! ### The search -/

theorem phraseAt_eq_some_iff (phrase : List Char) (before : Option Char) (cs : List Char)
    (found : Unit × Nat) :
    phraseAt phrase before cs = some found ↔ phrase <+: cs ∧ found = ((), phrase.length) := by
  rw [phraseAt, ← List.isPrefixOf_iff_prefix]
  by_cases h : phrase.isPrefixOf cs = true
  · rw [if_pos h, Option.some.injEq, eq_comm]
    exact (and_iff_right h).symm
  · simp [h]

theorem fits_phraseAt {phrase : List Char} (hne : phrase ≠ []) : (phraseAt phrase).Fits := by
  rintro before cs value n h
  obtain ⟨hlead, heq⟩ := (phraseAt_eq_some_iff ..).1 h
  cases heq
  exact ⟨List.length_pos_iff.2 hne, hlead.length_le⟩

theorem Unbordered.apart_phraseAt {phrase : List Char} (h : Unbordered phrase) :
    (phraseAt phrase).Apart := by
  intro cs j value n hat k hjk hk
  obtain ⟨hlead, heq⟩ := (phraseAt_eq_some_iff ..).1 hat
  cases heq
  rw [Option.eq_none_iff_forall_ne_some]
  intro found hlater
  exact h.not_prefix_drop hlead hjk hk ((phraseAt_eq_some_iff ..).1 hlater).1

/-- **The search is complete.**  A phrase that does not overlap itself is found wherever it
    stands. -/
theorem mem_occurrences_phraseAt_iff {phrase : List Char} (hne : phrase ≠ [])
    (h : Unbordered phrase) (raw : List Char) (o : Occurrence Unit) :
    o ∈ occurrences (phraseAt phrase) raw ↔
      phrase <+: raw.drop o.start ∧ o.stop = o.start + phrase.length := by
  rw [h.apart_phraseAt.mem_occurrences_iff (fits_phraseAt hne)]
  simp only [Recogniser.at, phraseAt_eq_some_iff]
  constructor
  · rintro ⟨n, ⟨hlead, heq⟩, hstop⟩
    cases heq
    exact ⟨hlead, hstop⟩
  · rintro ⟨hlead, hstop⟩
    exact ⟨_, ⟨hlead, rfl⟩, hstop⟩

/-! ### Masked and written lines -/

/-- A masked line shows the code of the written line. -/
theorem getElem?_masked_iff {t raw masked : List Char} {i : Nat}
    (hraw : (Script.ofText t).lines[i]? = some raw)
    (hmasked : (Script.ofText t).masked[i]? = some masked) {c : Char} (hc : blankOut c ≠ c)
    (j : Nat) : masked[j]? = some c ↔ raw[j]? = some c ∧ CodeAt t (lineStart t i + j) := by
  have hlength : raw.length = masked.length := by
    obtain ⟨raw', hraw', hveils⟩ := Script.exists_line_ofText hmasked
    obtain rfl : raw = raw' := Option.some.inj (hraw.symm.trans hraw')
    exact hveils.length_eq
  by_cases hj : j < raw.length
  · rw [getElem?_line hraw hj, getElem?_line hmasked (hlength ▸ hj),
      ← Lua.lineStart_eq_of_veils (Lua.forall₂_veils_mask t), Lua.getElem?_mask_iff hc]
  · rw [List.getElem?_eq_none (by omega), List.getElem?_eq_none (by omega)]
    simp

/-- **Masked is written in code.**  A phrase that blanking would change all through stands in the
    masked lines exactly where it is written and each of its characters is code. -/
theorem standsAt_masked_iff {phrase : List Char} (hsolid : ∀ c ∈ phrase, blankOut c ≠ c)
    (t : List Char) (i j : Nat) :
    StandsAt phrase (Script.ofText t).masked i j ↔
      StandsAt phrase (Script.ofText t).lines i j ∧
        ∀ k < phrase.length, CodeAt t (lineStart t i + (j + k)) := by
  have hlines : ∀ raw masked, (Script.ofText t).lines[i]? = some raw →
      (Script.ofText t).masked[i]? = some masked →
        (phrase <+: masked.drop j ↔ phrase <+: raw.drop j ∧
        ∀ k < phrase.length, CodeAt t (lineStart t i + (j + k))) := by
    intro raw masked hraw hmasked
    simp only [List.prefix_iff_getElem?, List.getElem?_drop, ← forall₂_and]
    refine forall₂_congr fun k hk => ?_
    exact getElem?_masked_iff hraw hmasked (hsolid _ (List.getElem_mem hk)) (j + k)
  constructor
  · rintro ⟨masked, hmasked, hlead⟩
    obtain ⟨raw, hraw, -⟩ := Script.exists_line_ofText hmasked
    obtain ⟨hlead, hcode⟩ := (hlines raw masked hraw hmasked).1 hlead
    exact ⟨⟨raw, hraw, hlead⟩, hcode⟩
  · rintro ⟨⟨raw, hraw, hlead⟩, hcode⟩
    obtain ⟨masked, hmasked, -⟩ :=
      Lua.exists_getElem?_of_forall₂ (Lua.forall₂_veils_lines t) hraw
    exact ⟨masked, hmasked, (hlines raw masked hraw hmasked).2 ⟨hlead, hcode⟩⟩

/-! ### The reports -/

/-- The report of a phrase at a line and column. -/
def PhraseRule.reportAt (rule : PhraseRule) (i j : Nat) : Diagnostic :=
  rule.report i ⟨j, j + rule.phrase.toList.length, ()⟩

theorem mem_checkPhrases_iff {rules : List PhraseRule}
    (h : ∀ rule ∈ rules, rule.phrase.toList ≠ [] ∧ Unbordered rule.phrase.toList) (s : Script)
    (d : Diagnostic) :
    d ∈ checkPhrases rules s ↔
      ∃ rule ∈ rules, ∃ i j, StandsAt rule.phrase.toList s.masked i j ∧ d = rule.reportAt i j := by
  have hfound := fun rule hrule => mem_occurrences_phraseAt_iff (h rule hrule).1 (h rule hrule).2
  rw [checkPhrases, List.mem_flatMap]
  constructor
  · rintro ⟨⟨raw, i⟩, hmem, hd⟩
    obtain ⟨rule, hrule, hd⟩ := List.mem_flatMap.1 hd
    obtain ⟨o, ho, rfl⟩ := List.mem_map.1 hd
    obtain ⟨hlead, hstop⟩ := (hfound rule hrule raw o).1 ho
    refine ⟨rule, hrule, i, o.start, ⟨raw, List.mk_mem_zipIdx_iff_getElem?.1 hmem, hlead⟩, ?_⟩
    rw [PhraseRule.reportAt, ← hstop]
  · rintro ⟨rule, hrule, i, j, ⟨raw, hraw, hlead⟩, rfl⟩
    refine ⟨(raw, i), List.mk_mem_zipIdx_iff_getElem?.2 hraw, List.mem_flatMap.2 ⟨rule, hrule, ?_⟩⟩
    exact List.mem_map.2 ⟨_, (hfound rule hrule raw _).2 ⟨hlead, rfl⟩, rfl⟩

/-- What the tables are made of: phrases that are found wherever they stand. -/
theorem phrase_unbordered : ∀ rule ∈ deprecatedCalls ++ legacyNames,
    Unbordered rule.phrase.toList ∧ rule.phrase.toList.all (fun c => blankOut c != c) = true := by
  decide +kernel

/-- A code says which phrase a report is about. -/
theorem phrase_eq_of_code : ∀ rule ∈ deprecatedCalls ++ legacyNames,
    ∀ rule' ∈ deprecatedCalls ++ legacyNames, rule.code = rule'.code →
      rule.phrase = rule'.phrase := by
  decide

/-- **Every occurrence is reported once.**  Each report of a table is one of its rules at some
    place, and no two are equal.  A rule is reported at a place exactly if its phrase stands there
    in the masked line, whatever other phrases stand around it; and that is exactly if it is written
    there and each of its characters is code. -/
theorem phrases_reported {rules : List PhraseRule} (hrules : rules ∈ [deprecatedCalls, legacyNames])
    (t : List Char) :
    (checkPhrases rules (.ofText t)).Nodup ∧
    (∀ d ∈ checkPhrases rules (.ofText t), ∃ rule ∈ rules, ∃ i j, d = rule.reportAt i j) ∧
    ∀ rule ∈ rules, ∀ i j,
      (rule.reportAt i j ∈ checkPhrases rules (.ofText t) ↔
        StandsAt rule.phrase.toList (Script.ofText t).masked i j) ∧
      (StandsAt rule.phrase.toList (Script.ofText t).masked i j ↔
        StandsAt rule.phrase.toList (Script.ofText t).lines i j ∧
          ∀ k < rule.phrase.toList.length, CodeAt t (lineStart t i + (j + k))) := by
  have htable : rules ⊆ deprecatedCalls ++ legacyNames := by
    rcases List.mem_pair.1 hrules with rfl | rfl
    · exact List.subset_append_left _ _
    · exact List.subset_append_right _ _
  have hcodes : rules.Pairwise fun rule rule' => rule.code ≠ rule'.code := by
    rcases List.mem_pair.1 hrules with rfl | rfl <;> decide
  have hmem := mem_checkPhrases_iff (s := .ofText t) fun rule hrule =>
    ⟨(phrase_solid rule (htable hrule)).1, (phrase_unbordered rule (htable hrule)).1⟩
  refine ⟨?_, fun d hd => ?_, fun rule hrule i j => ⟨?_, ?_⟩⟩
  · exact (reportsFrom_phrases t htable hcodes).ordered.imp fun h =>
      ne_of_apply_ne Diagnostic.key h.2
  · obtain ⟨rule, hrule, i, j, -, rfl⟩ := (hmem d).1 hd
    exact ⟨rule, hrule, i, j, rfl⟩
  · rw [hmem]
    refine ⟨?_, fun hstands => ⟨rule, hrule, i, j, hstands, rfl⟩⟩
    -- The report shows its code and its place, and the code its phrase.
    rintro ⟨rule', hrule', i', j', hstands, heq⟩
    have hphrase : rule.phrase = rule'.phrase := phrase_eq_of_code rule (htable hrule) rule'
      (htable hrule') (congrArg Diagnostic.code heq)
    have hi : i = i' := congrArg (·.range.start.line) heq
    have hj : j = j' := congrArg (·.range.start.character) heq
    rwa [hphrase, hi, hj]
  · refine standsAt_masked_iff (fun c hc => ?_) t i j
    exact bne_iff_ne.1 (List.all_eq_true.1 (phrase_unbordered rule (htable hrule)).2 c hc)

/-- A phrase twice in a row, and once more in a comment. -/
def waitsText : List Char := "Citizen.WaitCitizen.Wait--Citizen.Wait".toList

/-- The two in code are reported, the one in the comment is not. -/
theorem phrases_reported_waits : legacyNames ∈ [deprecatedCalls, legacyNames] ∧
    ∃ rule ∈ legacyNames, rule.code = "legacy-citizen-wait" ∧
      rule.reportAt 0 0 ∈ checkPhrases legacyNames (.ofText waitsText) ∧
      rule.reportAt 0 12 ∈ checkPhrases legacyNames (.ofText waitsText) ∧
      StandsAt rule.phrase.toList (Script.ofText waitsText).lines 0 26 ∧
      rule.reportAt 0 26 ∉ checkPhrases legacyNames (.ofText waitsText) := by
  have hrules : legacyNames ∈ [deprecatedCalls, legacyNames] := .tail _ (.head _)
  have hat : ∀ rule ∈ legacyNames, ∀ j,
      rule.reportAt 0 j ∈ checkPhrases legacyNames (.ofText waitsText) ↔
        StandsAt rule.phrase.toList (Script.ofText waitsText).masked 0 j :=
    fun rule hrule j => ((phrases_reported hrules waitsText).2.2 rule hrule 0 j).1
  refine ⟨hrules, _, .tail _ (.head _), rfl, (hat _ (.tail _ (.head _)) _).2 ?_,
    (hat _ (.tail _ (.head _)) _).2 ?_, ?_, fun h => ?_⟩
  · decide +kernel
  · decide +kernel
  · decide +kernel
  · exact absurd ((hat _ (.tail _ (.head _)) _).1 h) (by decide +kernel)

end LuaAudit.Lint
