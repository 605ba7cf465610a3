import LuaAudit.Proofs.Lint.Block
import LuaAudit.Proofs.Lint.WellFormed

/-!
# Which global variables are reported

The rule for global variables goes down the lines with two depths and the names declared so far.
What it reports on a line is said here of the lines alone: which name the line assigns, how deep the
lines up to it lead, and which of them declare the name.

* `DeclaresLocal` and `Assigns`: what a line declares and what it assigns;
* `Leaks.next` and `Leaks.step_eq_some_iff`: one line, as a change of what is remembered and as a
  report;
* `depthAfter`, `Leaks.tables_after`, `Leaks.functions_after` and `Leaks.mem_locals_after`: what is
  remembered after some lines;
* `mem_leaksFrom_iff`: the reports, each with what is remembered before its line;
* `Leaking`: all conditions together.
-/

namespace LuaAudit.Lint

open Lua (NameLeads)
open Text (Spaced Parted allBlank isBlank trim)

/-! ### What a line declares -/

/-- A text starts with names that have commas between them, and blanks around the commas at most. -/
inductive NameList : List Char → List (List Char) → Prop
  | one {cs name rest : List Char} (lead : NameLeads cs name rest) : NameList cs [name]
  | more {cs name rest tail next : List Char} {names : List (List Char)}
      (lead : NameLeads cs name rest) (comma : Spaced rest (',' :: tail))
      (blanks : Spaced tail next) (list : NameList next names) : NameList cs (name :: names)

/-- A line starts with `local` and a list of names, one of which is `name`. -/
def DeclaresLocal (line name : List Char) : Prop :=
  ∃ rest list names, line = "local".toList ++ rest ∧ Parted rest list ∧ NameList list names ∧
    name ∈ names

theorem NameList.exists_leads {cs : List Char} {names : List (List Char)} (h : NameList cs names) :
    ∃ name rest, NameLeads cs name rest := by
  cases h with
  | one lead => exact ⟨_, _, lead⟩
  | more lead => exact ⟨_, _, lead⟩

theorem nextName?_eq_some_iff (cs name rest : List Char) :
    nextName? cs = some (name, rest) ↔
      ∃ tail next, Spaced cs (',' :: tail) ∧ Spaced tail next ∧ NameLeads next name rest := by
  have hcomma : isBlank ',' = false := by decide
  unfold nextName?
  split
  next tail hdrop =>
    rw [Lua.name?_dropWhile_eq_some_iff]
    constructor
    · rintro ⟨next, hnext, hlead⟩
      exact ⟨tail, next, (Text.dropWhile_eq_cons_iff hcomma cs tail).1 hdrop, hnext, hlead⟩
    · rintro ⟨tail', next, htail, hnext, hlead⟩
      rw [(Text.dropWhile_eq_cons_iff hcomma cs tail').2 htail] at hdrop
      obtain ⟨-, rfl⟩ := List.cons.inj hdrop
      exact ⟨next, hnext, hlead⟩
  next hdrop =>
    constructor
    · intro h
      cases h
    · rintro ⟨tail, next, htail, -⟩
      exact absurd ((Text.dropWhile_eq_cons_iff hcomma cs tail).2 htail) (hdrop tail)

theorem moreNames_of_some {cs name rest : List Char} (h : nextName? cs = some (name, rest)) :
    moreNames cs = name :: moreNames rest := by
  rw [moreNames]
  split
  next name' rest' h' =>
    obtain ⟨rfl, rfl⟩ := Prod.mk.inj (Option.some.inj (h'.symm.trans h))
    rfl
  next h' =>
    rw [h] at h'
    cases h'

/-- The names that are read form a list. -/
theorem nameList_moreNames {cs name rest : List Char} (h : NameLeads cs name rest) :
    NameList cs (name :: moreNames rest) := by
  fun_induction moreNames rest generalizing cs name with
  | case1 rest name' rest' hnext _ ih =>
    obtain ⟨tail, next, hcomma, hblanks, hlead⟩ := (nextName?_eq_some_iff _ _ _).1 hnext
    exact .more h hcomma hblanks (ih hlead)
  | case2 => exact .one h

/-- They are the longest such list. -/
theorem NameList.prefix_moreNames {cs : List Char} {names : List (List Char)}
    (h : NameList cs names) {name rest : List Char} (hlead : NameLeads cs name rest) :
    names <+: name :: moreNames rest := by
  induction h generalizing name rest with
  | one lead =>
    obtain ⟨rfl, rfl⟩ := hlead.unique lead
    exact List.cons_prefix_cons.2 ⟨rfl, List.nil_prefix⟩
  | more lead comma blanks list ih =>
    obtain ⟨rfl, rfl⟩ := hlead.unique lead
    obtain ⟨name', rest', hlead'⟩ := list.exists_leads
    have hnext := (nextName?_eq_some_iff _ name' rest').2 ⟨_, _, comma, blanks, hlead'⟩
    rw [moreNames_of_some hnext]
    exact List.cons_prefix_cons.2 ⟨rfl, ih hlead'⟩

theorem mem_declaredNames_iff (line name : List Char) :
    name ∈ declaredNames line ↔ DeclaresLocal line name := by
  constructor
  · intro h
    unfold declaredNames at h
    split at h
    next b rest hafter =>
      split at h
      next hb =>
        split at h
        next first tail hname =>
          obtain ⟨list, hlist, hlead⟩ := (Lua.name?_dropWhile_eq_some_iff _ _ _).1 hname
          have hparted : Parted (b :: rest) list :=
            (Text.parted_iff _ _).2 ⟨b, rest, rfl, hb, hlist⟩
          exact ⟨b :: rest, list, _, Text.eq_append_of_after? hafter, hparted,
            nameList_moreNames hlead, h⟩
        · cases h
      · cases h
    · cases h
  · rintro ⟨rest, list, names, rfl, hparted, hnames, hmem⟩
    obtain ⟨first, tail, hlead⟩ := hnames.exists_leads
    obtain ⟨b, rest, rfl, hb, hlist⟩ := (Text.parted_iff _ _).1 hparted
    have hname := (Lua.name?_dropWhile_eq_some_iff rest first tail).2 ⟨list, hlist, hlead⟩
    have hread : declaredNames ("local".toList ++ b :: rest) = first :: moreNames tail := by
      simp only [declaredNames, Text.after?_append, hb, if_true, hname]
    rw [hread]
    exact (hnames.prefix_moreNames hlead).subset hmem

/-! ### What a line assigns -/

/-- A line starts with a name and, behind blanks at most, an equals sign that is not doubled. -/
def Assigns (line name : List Char) : Prop :=
  ∃ rest tail, NameLeads line name rest ∧ Spaced rest ('=' :: tail) ∧ tail.head? ≠ some '='

theorem assignedName?_eq_some_iff (line name : List Char) :
    assignedName? line = some name ↔ Assigns line name := by
  have hsign : isBlank '=' = false := by decide
  constructor
  · intro h
    unfold assignedName? at h
    split at h
    next name' rest hname =>
      split at h
      next tail hdrop =>
        split at h
        · cases h
        next hsingle =>
          obtain rfl := Option.some.inj h
          exact ⟨rest, tail, (Lua.name?_eq_some_iff _ _ _).1 hname,
            (Text.dropWhile_eq_cons_iff hsign rest tail).1 hdrop, by simpa using hsingle⟩
      · cases h
    · cases h
  · rintro ⟨rest, tail, hlead, hspaced, hsingle⟩
    simp only [assignedName?, (Lua.name?_eq_some_iff _ _ _).2 hlead,
      (Text.dropWhile_eq_cons_iff hsign rest tail).2 hspaced]
    rw [if_neg (by simpa using hsingle)]

/-- A field is not assigned so: a dot stands where the blanks or the equals sign do. -/
theorem Assigns.startsDotted_eq {line name : List Char} (h : Assigns line name) :
    startsDotted line = false := by
  obtain ⟨rest, tail, hlead, ⟨blanks, hblanks, hrest⟩, -⟩ := h
  have hdot : ∀ more, rest ≠ '.' :: more := by
    rintro more rfl
    cases blanks with
    | nil => cases hrest
    | cons b bs =>
      obtain ⟨rfl, -⟩ := List.cons.inj hrest
      cases hblanks
  unfold startsDotted
  split
  next more hname =>
    rw [(Lua.name?_eq_some_iff _ _ _).2 hlead] at hname
    obtain ⟨-, rfl⟩ := Prod.mk.inj (Option.some.inj hname)
    exact absurd rfl (hdot more)
  · rfl

/-- A line that opens no function and has no brace, and does not start with `local` and a space. -/
structure Plain (line : List Char) : Prop where
  not_local : ¬ "local ".toList <+: line
  no_function : ¬ "function".toList <:+: line
  no_braces : '\x7b' ∉ line ∧ '\x7d' ∉ line

theorem Assigns.canLeak_iff {line name : List Char} (h : Assigns line name) :
    canLeak line = true ↔ Plain line := by
  have hlocal := @List.isPrefixOf_iff_prefix _ _ _ "local ".toList line
  have hfunction := Text.containsText_iff "function".toList line
  rw [canLeak, h.startsDotted_eq, Bool.or_false, Bool.not_eq_true', ← Bool.not_eq_true]
  simp only [Bool.or_eq_true, not_or, hlocal, hfunction, List.contains_iff_mem]
  constructor
  · rintro ⟨⟨⟨hl, hf⟩, ho⟩, hc⟩
    exact ⟨hl, hf, ho, hc⟩
  · rintro ⟨hl, hf, ho, hc⟩
    exact ⟨⟨⟨hl, hf⟩, ho⟩, hc⟩

/-! ### One line -/

/-- What is remembered after a masked line. -/
def Leaks.next (s : Leaks) (masked : List Char) : Leaks :=
  if trim masked = [] then s
  else {
    locals := declaredNames (trim masked) ++ s.locals
    tables := tableDepth s.tables (trim masked)
    functions := functionDepth s.functions (trim masked) }

theorem not_assigns_nil (name : List Char) : ¬ Assigns [] name := by
  rintro ⟨rest, tail, hlead, -⟩
  obtain ⟨c, more, hcons, -⟩ := hlead.exists_cons
  cases hcons

theorem Leaks.step_fst (exceptions : List (List Char)) (s : Leaks) (masked : List Char) :
    (s.step exceptions masked).1 = s.next masked := by
  unfold Leaks.step Leaks.next
  by_cases hblank : trim masked = []
  · simp [hblank]
  · have hempty : (trim masked).isEmpty = false := by simpa using hblank
    simp only [hempty, if_neg hblank, Bool.false_eq_true, if_false]
    repeat' split
    all_goals rfl

/-- **One line.**  A line leaks the name that it assigns, if it is plain, both depths are zero
    behind it, and the name is neither declared up to it nor excepted. -/
theorem Leaks.step_eq_some_iff (exceptions : List (List Char)) (s : Leaks)
    (masked name : List Char) :
    (s.step exceptions masked).2 = some name ↔
      Assigns (trim masked) name ∧ Plain (trim masked) ∧
        ((s.next masked).tables = 0 ∧ (s.next masked).functions = 0) ∧
        name ∉ (s.next masked).locals ∧ name ∉ exceptions := by
  by_cases hblank : trim masked = []
  · simp [Leaks.step, hblank, not_assigns_nil]
  · have hempty : (trim masked).isEmpty = false := by simpa using hblank
    have hassigns := assignedName?_eq_some_iff (trim masked)
    rw [show s.next masked = _ from if_neg hblank]
    unfold Leaks.step
    simp only [hempty, Bool.false_eq_true, if_false]
    constructor
    · intro h
      split at h
      · cases h
      next hdepth =>
        split at h
        next name' hname =>
          split at h
          next hleak =>
            obtain rfl : name' = name := Option.some.inj h
            have hname' := (hassigns name').1 hname
            rw [Bool.and_eq_true, Bool.and_eq_true] at hleak
            obtain ⟨⟨hplain, hlocal⟩, hexcept⟩ := hleak
            exact ⟨hname', hname'.canLeak_iff.1 hplain, by simpa using hdepth,
              by simpa using hlocal, by simpa using hexcept⟩
          · cases h
        · cases h
    · rintro ⟨hname, hplain, hdepth, hlocal, hexcept⟩
      have hleak : canLeak (trim masked) = true := hname.canLeak_iff.2 hplain
      rw [if_neg (by simpa using hdepth)]
      simp only [(hassigns name).2 hname, hleak, Bool.true_and]
      rw [if_pos]
      rw [Bool.and_eq_true]
      exact ⟨by simpa using hlocal, by simpa using hexcept⟩

/-! ### What is remembered after some lines -/

/-- A depth after some lines: those that are not blank are fed to it one by one, without the blanks
    at their ends. -/
def depthAfter (feed : Nat → List Char → Nat) (lines : List (List Char)) : Nat :=
  ((lines.map trim).filter (· ≠ [])).foldl feed 0

theorem depthAfter_concat (feed : Nat → List Char → Nat) (lines : List (List Char))
    (line : List Char) :
    depthAfter feed (lines ++ [line]) =
      if trim line = [] then depthAfter feed lines
      else feed (depthAfter feed lines) (trim line) := by
  unfold depthAfter
  rw [List.map_append, List.filter_append, List.foldl_append, List.map_singleton]
  split
  next hblank => simp [hblank]
  next hblank => simp [hblank]

/-- What is remembered after some lines, from the start of a script. -/
def Leaks.after (lines : List (List Char)) : Leaks := lines.foldl Leaks.next {}

namespace Leaks

theorem after_concat (lines : List (List Char)) (line : List Char) :
    after (lines ++ [line]) = (after lines).next line := by
  rw [after, List.foldl_append]
  rfl

/-- A depth that each line feeds is the depth after all of them. -/
theorem depth_after {depth : Leaks → Nat} {feed : Nat → List Char → Nat} (hstart : depth {} = 0)
    (hnext : ∀ s line, depth (s.next line) =
      if trim line = [] then depth s else feed (depth s) (trim line))
    (lines : List (List Char)) : depth (after lines) = depthAfter feed lines := by
  induction lines using List.reverseRecOn with
  | nil => exact hstart
  | append_singleton lines line ih => rw [after_concat, hnext, depthAfter_concat, ih]

theorem tables_after (lines : List (List Char)) :
    (after lines).tables = depthAfter tableDepth lines := by
  apply depth_after rfl
  intro s line
  rw [next]
  split <;> rfl

theorem functions_after (lines : List (List Char)) :
    (after lines).functions = depthAfter functionDepth lines := by
  apply depth_after rfl
  intro s line
  rw [next]
  split <;> rfl

/-- The names that are remembered are those that some line declared. -/
theorem mem_locals_after (lines : List (List Char)) (name : List Char) :
    name ∈ (after lines).locals ↔ ∃ line ∈ lines, DeclaresLocal (trim line) name := by
  induction lines using List.reverseRecOn with
  | nil => simp [after]
  | append_singleton lines line ih =>
    have hline : name ∈ ((after lines).next line).locals ↔
        DeclaresLocal (trim line) name ∨ name ∈ (after lines).locals := by
      rw [next]
      split
      next hblank =>
        have hnone : declaredNames [] = [] := rfl
        rw [hblank, ← mem_declaredNames_iff, hnone]
        simp
      · rw [List.mem_append, mem_declaredNames_iff]
    rw [after_concat, hline, ih]
    simp only [List.mem_append, List.mem_singleton, or_and_right, exists_or, exists_eq_left]
    rw [or_comm]

end Leaks

/-! ### A run over the lines -/

theorem leaksFrom_cons (exceptions : List (List Char)) (i : Nat) (s : Leaks) (line : List Char)
    (lines : List (List Char)) :
    leaksFrom exceptions i s (line :: lines) =
      ((s.step exceptions line).2.map (leakDiagnostic i line)).toList ++
        leaksFrom exceptions (i + 1) (s.next line) lines := by
  rw [leaksFrom, ← s.step_fst exceptions line]
  split
  next next name hstep => simp [hstep]
  next next hstep => simp [hstep]

/-- **A run.**  Each report is one of a line, with what is remembered after the lines before it. -/
theorem mem_leaksFrom_iff (exceptions : List (List Char)) (i : Nat) (s : Leaks)
    (lines : List (List Char)) (d : Diagnostic) :
    d ∈ leaksFrom exceptions i s lines ↔ ∃ k line name, lines[k]? = some line ∧
      (((lines.take k).foldl Leaks.next s).step exceptions line).2 = some name ∧
        d = leakDiagnostic (i + k) line name := by
  induction lines generalizing i s with
  | nil => simp [leaksFrom]
  | cons line lines ih =>
    rw [leaksFrom_cons, List.mem_append, ih]
    constructor
    · rintro (h | ⟨k, line', name, hline, hstep, rfl⟩)
      · simp only [Option.mem_toList, Option.map_eq_some_iff] at h
        obtain ⟨name, hstep, rfl⟩ := h
        exact ⟨0, line, name, rfl, hstep, rfl⟩
      · exact ⟨k + 1, line', name, hline, hstep, by rw [Nat.add_right_comm, Nat.add_assoc]⟩
    · rintro ⟨k, line', name, hline, hstep, rfl⟩
      cases k with
      | zero =>
        obtain rfl : line = line' := Option.some.inj hline
        left
        simp only [Option.mem_toList, Option.map_eq_some_iff]
        exact ⟨name, hstep, rfl⟩
      | succ k =>
        exact .inr ⟨k, line', name, hline, hstep, by rw [Nat.add_right_comm, Nat.add_assoc]⟩

/-- The reports go down the script, at most one for each line. -/
theorem pairwise_leaksFrom (exceptions : List (List Char)) (i : Nat) (s : Leaks)
    (lines : List (List Char)) :
    (leaksFrom exceptions i s lines).Pairwise fun d e => d.line < e.line := by
  induction lines generalizing i s with
  | nil => exact .nil
  | cons line lines ih =>
    rw [leaksFrom_cons, List.pairwise_append]
    refine ⟨?_, ih _ _, fun d hd e he => ?_⟩
    · cases (s.step exceptions line).2 with
      | none => exact .nil
      | some name => exact List.pairwise_singleton _ _
    · obtain ⟨name, -, rfl⟩ := Option.map_eq_some_iff.1 (Option.mem_toList.1 hd)
      obtain ⟨k, line', name', -, -, rfl⟩ := (mem_leaksFrom_iff _ _ _ _ _).1 he
      show i < i + 1 + k
      omega

/-! ### The reports of a script -/

/-- Line `i` assigns a name that leaks: it stands outside tables and functions, and no line up to it
    declares the name. -/
structure Leaking (exceptions lines : List (List Char)) (i : Nat) (line name : List Char) :
    Prop where
  stands : lines[i]? = some line
  assigns : Assigns (trim line) name
  plain : Plain (trim line)
  outside : depthAfter tableDepth (lines.take (i + 1)) = 0 ∧
    depthAfter functionDepth (lines.take (i + 1)) = 0
  undeclared : ∀ j earlier, j ≤ i → lines[j]? = some earlier → ¬ DeclaresLocal (trim earlier) name
  not_excepted : name ∉ exceptions

/-- **One line of a script**, in terms of all lines up to it. -/
theorem leaking_iff (exceptions : List (List Char)) {lines : List (List Char)} {i : Nat}
    {line : List Char} (hline : lines[i]? = some line) (name : List Char) :
    ((Leaks.after (lines.take i)).step exceptions line).2 = some name ↔
      Leaking exceptions lines i line name := by
  -- What is remembered behind the line is what is remembered after the lines up to it.
  have hafter : (Leaks.after (lines.take i)).next line = Leaks.after (lines.take (i + 1)) := by
    rw [List.take_add_one, hline, ← Leaks.after_concat]
    rfl
  have hlocals : name ∉ (Leaks.after (lines.take (i + 1))).locals ↔
      ∀ j earlier, j ≤ i → lines[j]? = some earlier → ¬ DeclaresLocal (trim earlier) name := by
    rw [Leaks.mem_locals_after]
    constructor
    · intro h j earlier hj hearlier hdeclares
      apply h
      refine ⟨earlier, List.mem_iff_getElem?.2 ⟨j, ?_⟩, hdeclares⟩
      rw [List.getElem?_take_of_lt (by omega), hearlier]
    · rintro h ⟨earlier, hmem, hdeclares⟩
      obtain ⟨j, hearlier⟩ := List.mem_iff_getElem?.1 hmem
      rw [List.getElem?_take] at hearlier
      split at hearlier
      next hj => exact h j earlier (by omega) hearlier hdeclares
      · cases hearlier
  rw [Leaks.step_eq_some_iff, hafter, Leaks.tables_after, Leaks.functions_after, hlocals]
  constructor
  · rintro ⟨hassigns, hplain, houtside, hundeclared, hexcepted⟩
    exact ⟨hline, hassigns, hplain, houtside, hundeclared, hexcepted⟩
  · rintro ⟨-, hassigns, hplain, houtside, hundeclared, hexcepted⟩
    exact ⟨hassigns, hplain, houtside, hundeclared, hexcepted⟩

/-- A word is the first thing in a masked line, at column `first`, and is written there. -/
structure FirstWord (raw line word : List Char) (first : Nat) : Prop where
  indent : allBlank (line.take first) = true
  masked : word <+: line.drop first
  written : word <+: raw.drop first

/-- The name that a line assigns is its first word, right behind the blanks that it starts with. -/
theorem Assigns.firstWord_iff {raw line name : List Char} (hveils : List.Forall₂ Lua.Veils raw line)
    (h : Assigns (trim line) name) (first : Nat) :
    FirstWord raw line name first ↔ first = Text.countWhile isBlank line := by
  obtain ⟨rest, -, hlead, -⟩ := h
  have hsolid : ∃ c more, name = c :: more ∧ isBlank c = false ∧ ' ' ∉ name := by
    obtain ⟨c, more, rfl, -⟩ := hlead.start
    refine ⟨c, more, rfl, Lua.isBlank_eq_false_of_isNameChar (hlead.chars c (.head _)),
      fun hmem => ?_⟩
    exact absurd (hlead.chars ' ' hmem) (by decide)
  obtain ⟨c, more, hcons, hc, hspace⟩ := hsolid
  constructor
  · rintro ⟨hindent, ⟨after, hafter⟩, -⟩
    -- The blanks before the word are all, since the word starts with none.
    have hcount : line.takeWhile isBlank = line.take first := by
      conv_lhs => rw [← List.take_append_drop first line, ← hafter, hcons]
      rw [List.takeWhile_append_of_pos (List.all_eq_true.1 hindent), List.cons_append,
        List.takeWhile_cons_of_neg (by simp [hc]), List.append_nil]
    have hlt : first < line.length := by
      apply Nat.lt_of_not_le
      intro hle
      rw [List.drop_eq_nil_of_le hle, hcons] at hafter
      cases hafter
    rw [Text.countWhile, hcount, List.length_take]
    omega
  · rintro rfl
    have hmasked : name <+: line.drop (Text.countWhile isBlank line) := by
      rw [Text.drop_countWhile]
      have hname : name <+: trim line := ⟨rest, hlead.append.symm⟩
      exact hname.trans (Text.trim_prefix_trimStart line)
    refine ⟨?_, hmasked, ?_⟩
    · have hindent := List.takeWhile_prefix isBlank (l := line)
      rw [Text.countWhile, ← List.prefix_iff_eq_take.1 hindent]
      exact List.all_takeWhile
    · obtain ⟨-, hwritten⟩ := Lua.eq_word_of_veils hveils hmasked (by rw [hcons]; simp) hspace
      rw [List.drop_take] at hwritten
      exact hwritten ▸ List.take_prefix _ _

/-- The report of a name that leaks. -/
def leakReport (i first : Nat) (name : List Char) : Diagnostic where
  range := .onLine i first (first + name.length)
  message := s!"Potential global variable '{String.ofList name}' detected. Consider using 'local'."
  severity := .information
  code := "global-variable-leak"

/-- **The global variables that are reported.**  For every text and all settings, the rule reports
    exactly the names that leak: a name that a masked line assigns at its start, on a plain line
    behind which both depths are zero, declared by no line up to it and not excepted.  The report
    marks the name as it is written, the first word of the masked line; there is at most one report
    a line, in the order of the lines. -/
theorem leaks_reported (t : List Char) (settings : Settings) :
    (∀ d, d ∈ checkLeaks ((settings.roster .globalExceptions).map String.toList) (.ofText t) ↔
      ∃ i line raw first name,
        Leaking ((settings.roster .globalExceptions).map String.toList) (Script.ofText t).masked
          i line name ∧
        (Script.ofText t).lines[i]? = some raw ∧ FirstWord raw line name first ∧
        d = leakReport i first name) ∧
    (checkLeaks ((settings.roster .globalExceptions).map String.toList) (.ofText t)).Pairwise
      fun d e => d.line < e.line := by
  refine ⟨fun d => ?_, pairwise_leaksFrom _ _ _ _⟩
  rw [checkLeaks, mem_leaksFrom_iff]
  constructor
  · rintro ⟨i, line, name, hline, hstep, rfl⟩
    have hleak := (leaking_iff _ hline name).1 hstep
    obtain ⟨raw, hraw, hveils⟩ := Script.exists_line_ofText hline
    refine ⟨i, line, raw, _, name, hleak, hraw, (hleak.assigns.firstWord_iff hveils _).2 rfl, ?_⟩
    rw [Nat.zero_add]
    rfl
  · rintro ⟨i, line, raw, first, name, hleak, hraw, hfirst, rfl⟩
    obtain ⟨raw', hraw', hveils⟩ := Script.exists_line_ofText hleak.stands
    obtain rfl : raw = raw' := Option.some.inj (hraw.symm.trans hraw')
    refine ⟨i, line, name, hleak.stands, (leaking_iff _ hleak.stands name).2 hleak, ?_⟩
    rw [(hleak.assigns.firstWord_iff hveils first).1 hfirst, Nat.zero_add]
    rfl

/-- A declared name, a field inside a table, and two assignments of one name behind it. -/
example :
    checkLeaks [] (.ofText
      "local a, b = 2\nb = 3\nlocal t = \x7b\n  y = 1,\n\x7d\n  z = 4\nz = 5".toList) =
    [leakReport 5 2 "z".toList, leakReport 6 0 "z".toList] := by
  decide +kernel

end LuaAudit.Lint
