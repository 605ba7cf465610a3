import LuaAudit.Docs.Comment
import LuaAudit.Proofs.OrderedMap
import LuaAudit.Proofs.Text.Read

/-!
# Reading comments

What the parts of a comment are read as, line by line.

* `typeAndText?_append`: a type ends at the blank behind it;
* `parameterNote_eq_none`, `returnNote_eq_none`: annotations start with `@`;
* `splitFrom_tagLines`: annotations alone hold no example;
* `get?_parameterNotes`: of several annotations of a name, the first counts.
-/

namespace LuaAudit.Docs.Comment

open Text (isBlank isWord trim first?)

/-- A type ends at the blank behind it. -/
theorem typeAndText?_append {type rest : List Char} (hne : type ≠ [])
    (hsolid : ∀ c ∈ type, isBlank c = false) (hrest : rest = [] ∨ ∃ cs, rest = ' ' :: cs) :
    typeAndText? (type ++ rest) =
      some (type, trim ((rest.dropWhile isBlank).takeWhile (· != '\n'))) := by
  have hpos : ∀ c ∈ type, (!isBlank c) = true := fun c hc => by simp [hsolid c hc]
  have hstop : rest.takeWhile (!isBlank ·) = [] ∧ rest.dropWhile (!isBlank ·) = rest := by
    rcases hrest with rfl | ⟨cs, rfl⟩
    · exact ⟨rfl, rfl⟩
    · have hblank : isBlank ' ' = true := by decide
      simp [hblank]
  obtain ⟨c, cs, rfl⟩ := List.exists_cons_of_ne_nil hne
  rw [typeAndText?, List.takeWhile_append_of_pos hpos, List.dropWhile_append_of_pos hpos,
    hstop.1, hstop.2, List.append_nil]

/-- No annotation of a parameter starts with another character than `@`. -/
theorem parameterNote_eq_none (before : Option Char) (c : Char) (cs : List Char) (hc : c ≠ '@') :
    parameterNote before (c :: cs) = none := by
  have hafter : Text.after? "@param".toList (c :: cs) = none := by
    simp [Text.after?, Ne.symm hc]
  rw [parameterNote, hafter]
  rfl

/-- Nor does one of a result. -/
theorem returnNote_eq_none (before : Option Char) (c : Char) (cs : List Char) (hc : c ≠ '@') :
    returnNote before (c :: cs) = none := by
  have hafter : Text.after? "@return".toList (c :: cs) = none := by
    simp [Text.after?, Ne.symm hc]
  rw [returnNote, hafter]
  rfl

/-- Annotation lines hold no example, and nothing but annotation lines is left of them: what an
    annotation announces has no line before the next one. -/
theorem splitFrom_tagLines {lines : List (List Char)} (h : ∀ line ∈ lines, isTagLine line)
    {current : Option (List (List Char))} (hcurrent : current = none ∨ current = some []) :
    (splitFrom current lines).1 = [] ∧
      ∀ line ∈ (splitFrom current lines).2, isTagLine line := by
  have hclose : closeExample current = [] := by
    rcases hcurrent with rfl | rfl <;> rfl
  induction lines generalizing current with
  | nil => exact ⟨hclose, by simp [splitFrom]⟩
  | cons line lines ih =>
    obtain ⟨hline, hlines⟩ := List.forall_mem_cons.1 h
    obtain ⟨hnone, hnone'⟩ := ih hlines (.inl rfl) rfl
    obtain ⟨hopen, hopen'⟩ := ih hlines (.inr rfl) rfl
    rcases hcurrent with rfl | rfl
    all_goals
      rw [splitFrom]
      split
      · exact ⟨by simp [hclose, hopen], hopen'⟩
    · exact ⟨by simp [hnone], by simpa [hline] using hnone'⟩
    · exact ⟨by simp [hclose, hnone], by simpa [hline] using hnone'⟩

/-- One line of a comment: the annotation of a name is kept unless the name has one. -/
def keepFirst (notes : OrderedMap String Parameter) (line : List Char) :
    OrderedMap String Parameter :=
  (first? parameterNote line).elim notes fun o =>
    if notes.contains o.value.name then notes else notes.insert o.value.name o.value

theorem parameterNotes_eq_foldl (lines : List (List Char)) :
    parameterNotes lines = lines.foldl keepFirst .empty := by
  unfold parameterNotes
  congr 1
  funext notes line
  unfold keepFirst
  cases first? parameterNote line <;> rfl

/-- The first annotation of a name counts. -/
theorem get?_parameterNotes (lines : List (List Char)) (name : String) :
    (parameterNotes lines).get? name =
      (lines.filterMap fun line => (first? parameterNote line).map (·.value)).find?
        (·.name = name) := by
  rw [parameterNotes_eq_foldl]
  -- What is known of the name before a line stays known after it.
  suffices h : ∀ notes, (lines.foldl keepFirst notes).get? name = (notes.get? name).or
      ((lines.filterMap fun line => (first? parameterNote line).map (·.value)).find?
        (·.name = name)) from h .empty
  induction lines with
  | nil => simp
  | cons line lines ih =>
    intro notes
    rw [List.foldl_cons, ih, List.filterMap_cons, keepFirst]
    cases first? parameterNote line with
    | none => rfl
    | some o =>
      have hcontains := notes.contains_iff o.value.name
      by_cases hname : o.value.name = name
      · subst hname
        by_cases hknown : notes.contains o.value.name
        · obtain ⟨v, hv⟩ := hcontains.1 hknown
          simp [hknown, hv]
        · have hnew : notes.get? o.value.name = none :=
            Option.eq_none_iff_forall_ne_some.2 fun v hv => hknown (hcontains.2 ⟨v, hv⟩)
          simp [hknown, hnew]
      · by_cases hknown : notes.contains o.value.name
        · simp [hknown, hname]
        · simp [hknown, hname, OrderedMap.get?_insert_of_ne _ _ (Ne.symm hname)]

/-- Of things with different names, each is the first of its name. -/
theorem find?_eq_of_nodup {ps : List Parameter} (h : (ps.map (·.name)).Nodup) {p : Parameter}
    (hp : p ∈ ps) : ps.find? (·.name = p.name) = some p := by
  induction ps with
  | nil => cases hp
  | cons q ps ih =>
    rw [List.map_cons, List.nodup_cons] at h
    rcases List.mem_cons.1 hp with rfl | hp
    · simp
    · have hq : q.name ≠ p.name := fun e => h.1 (e ▸ List.mem_map_of_mem hp)
      simp [hq, ih h.2 hp]

/-- A name of word characters has no question mark to drop. -/
theorem dropQuestion_eq_self {cs : List Char} (h : '?' ∉ cs) : dropQuestion cs = cs := by
  induction cs with
  | nil => rfl
  | cons c cs ih =>
    rw [List.mem_cons, not_or] at h
    rw [dropQuestion, if_neg (by simpa using Ne.symm h.1), ih h.2]

end LuaAudit.Docs.Comment
