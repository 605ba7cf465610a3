import LuaAudit.Lint.Passes
import LuaAudit.Proofs.Lua.Layout

/-!
# No pass leaves its script

The event rules find words in the written lines and look the place of each find up in the masked
ones.  A script built from a text has every such place, so that the look-ups succeed and no pass
breaks off.

* `Script.At s i j c m`: line `i` and column `j` hold `c` as written and `m` as masked;
* `Script.Regular`: every written place is a masked place too, as in every script of a text;
* `Script.finds`, `eventReports`, `Pass.reports`: what the look-ups and passes give there, without
  failure;
* `runPasses_eq`: on such a script the passes run to their end.
-/

namespace LuaAudit.Lint

open List (Forall₂)
open Lua (Veils mask)
open Text (Recogniser Occurrence occurrences occurrencesFrom splitLines)

/-! ### Where finds start -/

/-- A find starts at a character of the text that is searched, behind those to skip. -/
theorem start_of_mem_occurrencesFrom {α : Type} {find : Recogniser α} {skip offset : Nat}
    {before : Option Char} {cs : List Char} {o : Occurrence α}
    (h : o ∈ occurrencesFrom find skip offset before cs) :
    offset + skip ≤ o.start ∧ o.start < offset + cs.length := by
  fun_induction occurrencesFrom find skip offset before cs with
  | case1 => simp at h
  | case2 skip offset _ c cs ih =>
    -- Inside an earlier find nothing starts.
    have := ih h
    simp only [List.length_cons]
    omega
  | case3 offset before c cs value length _ ih =>
    rcases List.mem_cons.1 h with rfl | h
    · simp
    · have := ih h
      simp only [List.length_cons]
      omega
  | case4 offset before c cs _ ih =>
    have := ih h
    simp only [List.length_cons]
    omega

/-- A find on a line starts in a column of it. -/
theorem start_lt_of_mem_occurrences {α : Type} {find : Recogniser α} {line : List Char}
    {o : Occurrence α} (h : o ∈ occurrences find line) : o.start < line.length := by
  have := start_of_mem_occurrencesFrom h
  omega

/-! ### Places of a script -/

theorem atPlace?_natCast {α : Type} (xs : List α) (i : Nat) : atPlace? xs (i : Int) = xs[i]? := by
  simp [atPlace?]

/-- Line `i` and column `j` are in both views of a script and hold `c` as written, `m` as masked. -/
def Script.At (s : Script) (i j : Nat) (c m : Char) : Prop :=
  ∃ raw masked, s.lines[i]? = some raw ∧ raw[j]? = some c ∧
    s.masked[i]? = some masked ∧ masked[j]? = some m

/-- Looking up a place that is there succeeds. -/
theorem Script.At.isCodeAt_eq {s : Script} {i j : Nat} {c m : Char} (h : s.At i j c m) :
    s.isCodeAt i j = .ok (c != ' ' && m == c) := by
  obtain ⟨raw, masked, hraw, hc, hmasked, hm⟩ := h
  -- The column is one of the line, so the test for columns past its end does not answer.
  have hj : ¬ (raw.length : Int) ≤ j := by
    have := (List.getElem?_eq_some_iff.1 hc).1
    omega
  simp only [isCodeAt, atPlace?_natCast, hraw, hc, hmasked, hm, if_neg hj]
  by_cases hspace : c = ' ' <;> simp [hspace]

/-- Every place of the written lines is one of the masked lines. -/
def Script.Regular (s : Script) : Prop :=
  ∀ i raw, s.lines[i]? = some raw → ∀ j < raw.length, ∃ c m, s.At i j c m

/-- What a script of a text shows at a written place is veiled in the masked view. -/
theorem Script.exists_at_ofText {t raw : List Char} {i j : Nat}
    (hraw : (ofText t).lines[i]? = some raw) (hj : j < raw.length) :
    ∃ c m, (ofText t).At i j c m ∧ Veils c m := by
  obtain ⟨masked, hmasked, hline⟩ :=
    Lua.exists_getElem?_of_forall₂ (Lua.forall₂_veils_lines t) hraw
  have hc : raw[j]? = some raw[j] := List.getElem?_eq_getElem hj
  obtain ⟨m, hm, hveils⟩ := Lua.exists_getElem?_of_forall₂ hline hc
  exact ⟨raw[j], m, ⟨raw, masked, hraw, hc, hmasked, hm⟩, hveils⟩

/-- The script of a text is regular. -/
theorem Script.regular_ofText (t : List Char) : (ofText t).Regular := by
  intro i raw hraw j hj
  obtain ⟨c, m, hat, -⟩ := exists_at_ofText hraw hj
  exact ⟨c, m, hat⟩

/-! ### Look-ups without failure -/

/-- A step that succeeds hands its value on. -/
@[simp] theorem ok_bind {ε α β : Type} (a : α) (f : α → Except ε β) :
    (Except.ok a >>= f) = f a := rfl

@[simp] theorem pure_eq_ok {ε α : Type} (a : α) : (pure a : Except ε α) = .ok a := rfl

/-- Steps that all succeed succeed together. -/
theorem mapM_eq_ok {ε α β : Type} {f : α → Except ε β} {g : α → β} {xs : List α}
    (h : ∀ x ∈ xs, f x = .ok (g x)) : xs.mapM f = .ok (xs.map g) := by
  induction xs with
  | nil => rfl
  | cons x xs ih =>
    rw [List.forall_mem_cons] at h
    rw [List.mapM_cons, h.1, ok_bind, ih h.2, ok_bind, pure_eq_ok, List.map_cons]

/-- Whether a place holds code; a place that the script does not have holds none. -/
def Script.holdsCode (s : Script) (i j : Nat) : Bool :=
  match s.isCodeAt i j with
  | .ok b => b
  | .error _ => false

/-- The finds on a line that start in code. -/
def Script.finds {α : Type} (s : Script) (find : Recogniser α) (i : Nat) : List (Occurrence α) :=
  ((s.lines[i]?.map (occurrences find)).getD []).filter fun o => s.holdsCode i o.start

/-- On a regular script a find can be looked up. -/
theorem Script.Regular.isCodeAt_eq {α : Type} {s : Script} (hs : s.Regular) {find : Recogniser α}
    {i : Nat} {raw : List Char} (hraw : s.lines[i]? = some raw) {o : Occurrence α}
    (ho : o ∈ occurrences find raw) : s.isCodeAt i o.start = .ok (s.holdsCode i o.start) := by
  obtain ⟨c, m, hat⟩ := hs i raw hraw o.start (start_lt_of_mem_occurrences ho)
  rw [holdsCode, hat.isCodeAt_eq]

theorem Script.keepCode_eq {α : Type} {s : Script} {i : Nat} {os : List (Occurrence α)}
    (h : ∀ o ∈ os, s.isCodeAt i o.start = .ok (s.holdsCode i o.start)) :
    s.keepCode i os = .ok (os.filter fun o => s.holdsCode i o.start) := by
  induction os with
  | nil => rfl
  | cons o os ih =>
    rw [List.forall_mem_cons] at h
    rw [keepCode, h.1, ok_bind, ih h.2, ok_bind, pure_eq_ok, List.filter_cons]

theorem Script.firstCode_eq {α : Type} {s : Script} {i : Nat} {os : List (Occurrence α)}
    (h : ∀ o ∈ os, s.isCodeAt i o.start = .ok (s.holdsCode i o.start)) :
    s.firstCode i os = .ok (os.filter fun o => s.holdsCode i o.start).head? := by
  induction os with
  | nil => rfl
  | cons o os ih =>
    rw [List.forall_mem_cons] at h
    rw [firstCode, h.1, ok_bind, ih h.2, List.filter_cons]
    split <;> rfl

theorem Script.lineAt_eq {s : Script} {i : Nat} {raw : List Char} (h : s.lines[i]? = some raw) :
    s.lineAt i = .ok raw := by
  rw [lineAt, h]

section Regular

variable {s : Script} (hs : s.Regular) {i : Nat}
include hs

theorem Script.codeFinds_eq {α : Type} (find : Recogniser α) (hi : i < s.lines.length) :
    s.codeFinds find i = .ok (s.finds find i) := by
  have hraw : s.lines[i]? = some s.lines[i] := List.getElem?_eq_getElem hi
  rw [codeFinds, lineAt_eq hraw, ok_bind, keepCode_eq fun o ho => hs.isCodeAt_eq hraw ho]
  simp [finds, hraw]

theorem Script.codeFind?_eq {α : Type} (find : Recogniser α) (hi : i < s.lines.length) :
    s.codeFind? find i = .ok (s.finds find i).head? := by
  have hraw : s.lines[i]? = some s.lines[i] := List.getElem?_eq_getElem hi
  rw [codeFind?, lineAt_eq hraw, ok_bind, firstCode_eq fun o ho => hs.isCodeAt_eq hraw ho]
  simp [finds, hraw]

end Regular

/-! ### The event rules without failure -/

/-- The report of a server registration that no handler follows. -/
def registrationReports (s : Script) (i : Nat) (line : List Char) : List Diagnostic :=
  match (s.finds serverRegistration i).head?, (s.finds handlerWord (i + 1)).head? with
  | some _, none => [modernRegister i line]
  | _, _ => []

/-- The report of a handler right after the registration of its event. -/
def handlerReports (s : Script) (i : Nat) (line : List Char) : List Diagnostic :=
  match (s.finds handlerCall i).head? with
  | some handler =>
    if i ≠ 0 ∧ (s.finds netRegistration (i - 1)).head?.map (·.value) = some handler.value then
      [combineHandler i line handler.value]
    else []
  | none => []

/-- The event reports for one line. -/
def eventReportsOn (s : Script) (i : Nat) (line : List Char) : List Diagnostic :=
  registrationReports s i line ++ handlerReports s i line ++
    (s.finds crowdedSource i).map (crowdedComma i)

/-- The event reports of a script. -/
def eventReports (s : Script) : List Diagnostic :=
  s.lines.zipIdx.flatMap fun (line, i) => eventReportsOn s i line

theorem Script.finds_eq_nil {α : Type} {s : Script} (find : Recogniser α) {i : Nat}
    (hi : ¬ i < s.lines.length) : s.finds find i = [] := by
  simp [finds, List.getElem?_eq_none (Nat.le_of_not_lt hi)]

section Regular

variable {s : Script} (hs : s.Regular) {i : Nat} (hi : i < s.lines.length)
include hs hi

theorem checkRegistration_eq (line : List Char) :
    checkRegistration s i line = .ok (registrationReports s i line) := by
  rw [checkRegistration, registrationReports, s.codeFind?_eq hs _ hi, ok_bind]
  cases (s.finds serverRegistration i).head? with
  | none => rfl
  | some o =>
    by_cases hnext : i + 1 < s.lines.length
    · simp only [if_pos hnext, s.codeFind?_eq hs _ hnext, ok_bind, pure_eq_ok]
      cases (s.finds handlerWord (i + 1)).head? <;> rfl
    · -- The line after the last one is not looked up, and has no finds.
      simp [if_neg hnext, s.finds_eq_nil _ hnext]

theorem checkHandler_eq (line : List Char) :
    checkHandler s i line = .ok (handlerReports s i line) := by
  rw [checkHandler, handlerReports, s.codeFind?_eq hs _ hi, ok_bind]
  cases (s.finds handlerCall i).head? with
  | none => rfl
  | some handler =>
    by_cases h0 : i = 0
    · simp [h0]
    · -- The line before is one of the script, since this one is and is not the first.
      simp [h0, s.codeFind?_eq hs netRegistration (show i - 1 < s.lines.length by omega)]

theorem checkEventsOn_eq (line : List Char) :
    checkEventsOn s i line = .ok (eventReportsOn s i line) := by
  rw [checkEventsOn, checkRegistration_eq hs hi, ok_bind, checkHandler_eq hs hi, ok_bind,
    s.codeFinds_eq hs _ hi, ok_bind, pure_eq_ok, eventReportsOn]

end Regular

/-- On a regular script the event rules find their reports. -/
theorem checkEvents_eq {s : Script} (hs : s.Regular) : checkEvents s = .ok (eventReports s) := by
  have hlines : ∀ x ∈ s.lines.zipIdx,
      (fun (line, i) => checkEventsOn s i line) x =
        .ok ((fun (line, i) => eventReportsOn s i line) x) := by
    rintro ⟨line, i⟩ hx
    exact checkEventsOn_eq hs (List.getElem?_eq_some_iff.1 (List.mk_mem_zipIdx_iff_getElem?.1 hx)).1
      line
  rw [checkEvents, mapM_eq_ok hlines, ok_bind, pure_eq_ok, eventReports, List.flatMap_def]

/-! ### The passes without failure -/

/-- The reports of a pass; none when it breaks off. -/
def Pass.reports (p : Pass) (s : Settings) (script : Script) : List Diagnostic :=
  match p.check s script with
  | .ok found => found
  | .error _ => []

/-- On a regular script no pass breaks off. -/
theorem Pass.check_eq {p : Pass} (hp : p ∈ passes) (s : Settings) {script : Script}
    (hs : script.Regular) : p.check s script = .ok (p.reports s script) := by
  simp only [passes, List.mem_cons, List.not_mem_nil, or_false] at hp
  rcases hp with rfl | rfl | rfl | rfl | rfl | rfl | rfl
  -- Only the event rules look places up; the other passes have nothing that could fail.
  case inr.inr.inr.inr.inl => simp only [reports, checkEvents_eq hs]
  all_goals rfl

/-- On a regular script the passes run to their end. -/
theorem runPasses_eq (s : Settings) {script : Script} (hs : script.Regular) :
    runPasses s script = .ok ((enabledPasses s).flatMap fun p => p.reports s script) := by
  have hpasses : ∀ p ∈ enabledPasses s, p.check s script = .ok (p.reports s script) := by
    intro p hp
    exact p.check_eq (List.mem_filter.1 hp).1 s hs
  rw [runPasses, mapM_eq_ok hpasses, ok_bind, pure_eq_ok, List.flatMap_def]

/-! ### The layout of every text -/

/-- **Layout and look-ups.**  A masked text has the length of the written one, its line ends where
    they were, and otherwise the written characters or spaces; so both have the same lines and
    columns, every find on a written line can be looked up in both views, and no pass breaks off. -/
theorem mask_layout (t : List Char) :
    (mask t).length = t.length ∧
    (∀ (i : Nat) c, t[i]? = some c → c = '\r' ∨ c = '\n' → (mask t)[i]? = some c) ∧
    (∀ (i : Nat) c, t[i]? = some c → (mask t)[i]? = some c ∨ (mask t)[i]? = some ' ') ∧
    (splitLines (mask t)).map List.length = (splitLines t).map List.length ∧
    (∀ (α : Type) (find : Recogniser α) (i : Nat) (raw : List Char),
      (Script.ofText t).lines[i]? = some raw → ∀ o ∈ occurrences find raw,
        ∃ c m, (Script.ofText t).At i o.start c m) ∧
    ∀ s : Settings, (∀ p ∈ passes, ∃ found, p.check s (Script.ofText t) = .ok found) ∧
      ∃ found, runPasses s (Script.ofText t) = .ok found := by
  have hveils := Lua.forall₂_veils_mask t
  have hregular := Script.regular_ofText t
  refine ⟨hveils.length_eq.symm, ?_, ?_, ?_, ?_, ?_⟩
  · intro i c hc hend
    obtain ⟨m, hm, hcm⟩ := Lua.exists_getElem?_of_forall₂ hveils hc
    rw [hm, hcm.eq_of_lineEnd hend]
  · intro i c hc
    obtain ⟨m, hm, rfl | ⟨rfl, -⟩⟩ := Lua.exists_getElem?_of_forall₂ hveils hc
    · exact .inl hm
    · exact .inr hm
  · -- Equal lists are lists whose members are equal one by one.
    have hlines := Lua.forall₂_veils_lines t
    symm
    rw [← List.forall₂_eq_eq_eq, List.forall₂_map_left_iff, List.forall₂_map_right_iff]
    exact hlines.imp fun _ _ h => h.length_eq
  · intro α find i raw hraw o ho
    exact hregular i raw hraw o.start (start_lt_of_mem_occurrences ho)
  · intro s
    exact ⟨fun p hp => ⟨_, p.check_eq hp s hregular⟩, ⟨_, runPasses_eq s hregular⟩⟩

end LuaAudit.Lint
