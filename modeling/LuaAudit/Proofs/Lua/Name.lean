import LuaAudit.Lua.Name
import LuaAudit.Proofs.Text.Scan
import Mathlib.Data.List.TakeWhile

/-!
# Names in a text

What the readers of names find, said of the text alone: a name goes as far as it can.

* `IsName`: a text that is a name;
* `NameLeads`: the longest name at the start of a text, as `name?` reads it.
-/

namespace LuaAudit.Lua

open Text (Spaced isBlank isWord)

/-! ### Names -/

/-- A text that is one name and nothing else. -/
def IsName (word : List Char) : Prop := name? word = some (word, [])

/-- A character that starts a name can go on with it. -/
theorem isNameChar_of_isNameStart {c : Char} (h : isNameStart c) : isNameChar c := by
  simp only [isNameStart, isNameChar, Bool.or_eq_true] at h ⊢
  exact h.imp (fun h => by simp [Char.isAlphanum, h]) id

/-- What is read as a name is one, and stands at the start of the text. -/
theorem name_of_name? {cs name rest : List Char} (h : name? cs = some (name, rest)) :
    IsName name ∧ cs = name ++ rest := by
  unfold name? runOf? at h
  split at h
  · cases h
  next c tail =>
    split at h
    next hc =>
      obtain ⟨rfl, rfl⟩ := Prod.mk.inj (Option.some.inj h)
      have hmore : ∀ x ∈ tail.takeWhile isNameChar, isNameChar x := fun _ => List.mem_takeWhile_imp
      refine ⟨?_, by simp⟩
      simp only [IsName, name?, runOf?, if_pos hc, Option.some.injEq, Prod.mk.injEq]
      exact ⟨by rw [List.takeWhile_eq_self_iff.2 hmore], List.dropWhile_eq_nil_iff.2 hmore⟩
    · cases h

theorem IsName.isNameChar_of_mem {word : List Char} (h : IsName word) :
    ∀ c ∈ word, isNameChar c := by
  unfold IsName name? runOf? at h
  split at h
  · cases h
  next c tail =>
    split at h
    next hc =>
      have htail := (Prod.mk.inj (Option.some.inj h)).2
      exact List.forall_mem_cons.2 ⟨isNameChar_of_isNameStart hc, List.dropWhile_eq_nil_iff.1 htail⟩
    · cases h

theorem IsName.ne_nil {word : List Char} (h : IsName word) : word ≠ [] := by
  rintro rfl
  cases h

theorem IsName.space_notMem {word : List Char} (h : IsName word) : ' ' ∉ word := fun hmem =>
  absurd (h.isNameChar_of_mem ' ' hmem) (by decide)

/-- A character of a name is a word character. -/
theorem isWord_of_isNameChar {c : Char} (h : isNameChar c = true) : isWord c = true := by
  have hlt : c.toNat < 128 := by
    rcases Bool.or_eq_true_iff.1 h with halnum | hunder
    · exact Text.toNat_lt_of_isAlphanum halnum
    · rw [eq_of_beq hunder]
      decide
  rw [isWord, if_pos hlt]
  exact h

theorem isBlank_eq_false_of_isNameChar {c : Char} (h : isNameChar c = true) : isBlank c = false :=
  Text.isBlank_eq_false_of_isWord (isWord_of_isNameChar h)

/-! ### The name at the start of a text -/

/-- A text starts with a name, which goes as far as it can, and goes on with `rest`. -/
structure NameLeads (cs name rest : List Char) : Prop where
  append : cs = name ++ rest
  start : ∃ c more, name = c :: more ∧ isNameStart c = true
  chars : ∀ c ∈ name, isNameChar c = true
  longest : ∀ c ∈ rest.head?, isNameChar c = false

theorem name?_eq_some_iff (cs name rest : List Char) :
    name? cs = some (name, rest) ↔ NameLeads cs name rest := by
  constructor
  · intro h
    obtain ⟨hname, heq⟩ := name_of_name? h
    unfold name? runOf? at h
    split at h
    · cases h
    next c tail =>
      split at h
      next hc =>
        obtain ⟨rfl, rfl⟩ := Prod.mk.inj (Option.some.inj h)
        refine ⟨heq, ⟨c, _, rfl, hc⟩, hname.isNameChar_of_mem, fun d hd => ?_⟩
        have hstop := List.head?_dropWhile_not isNameChar tail
        rw [Option.mem_def.1 hd] at hstop
        simpa using hstop
      · cases h
  · rintro ⟨rfl, ⟨c, more, rfl, hc⟩, hchars, hlongest⟩
    have hmore : ∀ d ∈ more, isNameChar d = true := (List.forall_mem_cons.1 hchars).2
    have hrest : rest.takeWhile isNameChar = [] ∧ rest.dropWhile isNameChar = rest := by
      cases rest with
      | nil => exact ⟨rfl, rfl⟩
      | cons d rest =>
        have hd : ¬ isNameChar d = true := by simpa using hlongest d rfl
        exact ⟨List.takeWhile_cons_of_neg hd, List.dropWhile_cons_of_neg hd⟩
    rw [List.cons_append, name?, runOf?, if_pos hc, List.takeWhile_append_of_pos hmore,
      List.dropWhile_append_of_pos hmore, hrest.1, hrest.2, List.append_nil]

namespace NameLeads

variable {cs name rest : List Char}

/-- The text fixes the name and what follows it. -/
theorem unique {name' rest' : List Char} (h : NameLeads cs name rest)
    (h' : NameLeads cs name' rest') : name = name' ∧ rest = rest' := by
  have hread := (name?_eq_some_iff cs name rest).2 h
  rw [(name?_eq_some_iff cs name' rest').2 h'] at hread
  obtain ⟨rfl, rfl⟩ := Prod.mk.inj (Option.some.inj hread)
  exact ⟨rfl, rfl⟩

/-- A name starts with no blank. -/
theorem exists_cons (h : NameLeads cs name rest) :
    ∃ c tail, cs = c :: tail ∧ isBlank c = false := by
  obtain ⟨rfl, ⟨c, more, rfl, -⟩, hchars, -⟩ := h
  exact ⟨c, more ++ rest, rfl, isBlank_eq_false_of_isNameChar (hchars c (.head _))⟩

end NameLeads

/-- The name behind the blanks that a text starts with. -/
theorem name?_dropWhile_eq_some_iff (cs name rest : List Char) :
    name? (cs.dropWhile isBlank) = some (name, rest) ↔
      ∃ next, Spaced cs next ∧ NameLeads next name rest := by
  rw [name?_eq_some_iff]
  constructor
  · intro h
    exact ⟨_, Text.spaced_dropWhile cs, h⟩
  · rintro ⟨next, hnext, h⟩
    obtain ⟨c, tail, rfl, hc⟩ := h.exists_cons
    rwa [(Text.dropWhile_eq_cons_iff hc cs tail).2 hnext]

end LuaAudit.Lua
