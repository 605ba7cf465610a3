import LuaAudit.Proofs.Lint.Loop

/-!
# What a list of yielding functions does

The list of yielding functions takes reports of loops away and does nothing else: which loops there
are is settled without it.  A loop loses its report when one of the functions is called in it, so a
longer list leaves fewer reports.  A name is looked for as it is written, whatever its characters;
only the empty name is special, since alone it stands for no name at all.

* `Called` and `yields_iff`: a line yields where one of the names is called;
* `yields_of_sublist`, `yields_eq_of_perm`: longer lists yield more, and their order does not count;
* `LoopRule.loops` and `LoopRule.check_eq`: the reports are those of the loops that do not yield;
* `yield_names_silence`: what follows for the reports.
-/

namespace LuaAudit.Lint

open Text (first? isBlank)

/-! ### Calls by name -/

/-- A text starts with a name, blanks and an opening parenthesis. -/
def CallLeads (name cs : List Char) : Prop :=
  ∃ blanks after, cs = name ++ (blanks ++ '(' :: after) ∧ ∀ c ∈ blanks, isBlank c = true

/-- A name is called on a line, and where the call starts a word starts or ends. -/
def Called (name raw : List Char) : Prop :=
  ∃ before cs, raw = before ++ cs ∧ isBoundary before.getLast? cs.head? = true ∧ CallLeads name cs

theorem callLength?_eq_none_iff (name cs : List Char) :
    callLength? name cs = none ↔ ¬ CallLeads name cs := by
  rw [callLength?_eq, Option.bind_eq_none_iff]
  constructor
  · rintro h ⟨blanks, after, rfl, hblanks⟩
    have hparen := h _ ((Text.after?_eq_some_iff ..).2 rfl)
    rw [List.dropWhile_append_of_pos hblanks] at hparen
    cases hparen
  · rintro h tail hafter
    obtain rfl := (Text.after?_eq_some_iff ..).1 hafter
    refine if_neg fun hparen => h ?_
    obtain ⟨after, hdrop⟩ := List.head?_eq_some_iff.1 hparen
    refine ⟨tail.takeWhile isBlank, after, ?_, List.all_eq_true.1 List.all_takeWhile⟩
    rw [← hdrop, List.takeWhile_append_dropWhile]

/-- What is recognised is the call of any of the names; alone, the empty name is none. -/
theorem yieldCall_eq_none_iff (names : List (List Char)) (before : Option Char) (cs : List Char) :
    yieldCall names before cs = none ↔
      (names ≠ [[]] → isBoundary before cs.head? = true → ∀ name ∈ names, ¬ CallLeads name cs) := by
  simp only [← callLength?_eq_none_iff]
  rw [yieldCall]
  by_cases hempty : names = [[]]
  · simp [hempty]
  by_cases hnil : names = []
  · simp [hnil]
  rw [if_neg (by simp [hempty, hnil])]
  split
  next hedge => simp [hempty, hedge]
  next hedge => simp [hedge]

/-- **A line yields** where any of the names is called. -/
theorem yields_iff (names : List (List Char)) (raw : List Char) :
    yields names raw = true ↔ names ≠ [[]] ∧ ∃ name ∈ names, Called name raw := by
  have hnone : yields names raw = false ↔ ∀ k, (yieldCall names).at raw k = none := by
    rw [yields, Option.isSome_eq_false_iff, Option.isNone_iff_eq_none,
      first?_eq_none_iff (fits_yieldCall names)]
  rw [← Bool.not_eq_false, hnone]
  simp only [Text.Recogniser.at, yieldCall_eq_none_iff]
  constructor
  · intro h
    push Not at h
    obtain ⟨k, hne, hedge, name, hname, hlead⟩ := h
    exact ⟨hne, name, hname, _, _, (List.take_append_drop k raw).symm, hedge, hlead⟩
  · rintro ⟨hne, name, hname, before, cs, rfl, hedge, hlead⟩ h
    have hno := h before.length
    rw [List.take_left, List.drop_left] at hno
    exact hno hne hedge name hname hlead

/-- A longer list yields wherever a shorter one does.  It cannot be the empty name alone: then the
    shorter one would be that too, or nothing. -/
theorem yields_of_sublist {names names' : List (List Char)} (h : names.Sublist names')
    {raw : List Char} (hraw : yields names raw = true) : yields names' raw = true := by
  rw [yields_iff] at hraw ⊢
  obtain ⟨hne, name, hname, hcalled⟩ := hraw
  refine ⟨?_, name, h.subset hname, hcalled⟩
  rintro rfl
  rcases List.sublist_singleton.1 h with rfl | rfl
  · cases hname
  · exact hne rfl

theorem yields_eq_of_perm {names names' : List (List Char)} (h : names.Perm names') :
    yields names = yields names' := by
  funext raw
  have hempty : names = [[]] ↔ names' = [[]] := by
    constructor
    · rintro rfl
      exact List.perm_singleton.1 h.symm
    · rintro rfl
      exact List.perm_singleton.1 h
  rw [Bool.eq_iff_iff, yields_iff, yields_iff, ne_eq, ne_eq, hempty]
  simp only [h.mem_iff]

/-! ### Loops and their reports -/

/-- A loop whose end is found: the report that it gets, and the lines between its opener and its
    end. -/
structure FoundLoop where
  report : Diagnostic
  body : List (List Char)

/-- The loop that opens on a line, if one does and its end is found. -/
def LoopRule.loopAt (rule : LoopRule) (lines : List (List Char)) (i : Nat) (raw : List Char) :
    Option FoundLoop := do
  let opener ← first? rule.opener raw
  let stop ← blockEnd? rule.words lines i
  some ⟨rule.report i opener.start opener.stop, (lines.take stop).drop (i + 1)⟩

/-- The loops of a script whose end is found. -/
def LoopRule.loops (rule : LoopRule) (s : Script) : List FoundLoop :=
  s.masked.zipIdx.filterMap fun (raw, i) => rule.loopAt s.masked i raw

/-- No line of a loop yields. -/
def FoundLoop.silent (names : List (List Char)) (l : FoundLoop) : Bool := !l.body.any (yields names)

theorem LoopRule.checkLine_eq (rule : LoopRule) (names lines : List (List Char)) (i : Nat)
    (raw : List Char) :
    rule.checkLine names lines i raw =
      ((rule.loopAt lines i raw).filter (FoundLoop.silent names)).map FoundLoop.report := by
  rw [LoopRule.checkLine, LoopRule.loopAt]
  cases first? rule.opener raw with
  | none => rfl
  | some opener =>
    cases blockEnd? rule.words lines i with
    | none => rfl
    | some stop =>
      simp only [Option.bind_eq_bind, Option.bind_some]
      split
      next hyields =>
        rw [Option.filter_some_neg (by rw [FoundLoop.silent, hyields]; decide)]
        rfl
      next hyields =>
        rw [Option.filter_some_pos (by rw [FoundLoop.silent, Bool.eq_false_iff.2 hyields]; rfl)]
        rfl

/-- **The names only filter.**  The reports of a rule are those of the loops that do not yield. -/
theorem LoopRule.check_eq (rule : LoopRule) (names : List (List Char)) (s : Script) :
    rule.check names s = ((rule.loops s).filter (FoundLoop.silent names)).map FoundLoop.report := by
  rw [LoopRule.check, LoopRule.loops, List.filter_filterMap, List.map_filterMap]
  simp only [LoopRule.checkLine_eq]

theorem LoopRule.check_sublist (rule : LoopRule) {names names' : List (List Char)}
    (h : names.Sublist names') (s : Script) :
    (rule.check names' s).Sublist (rule.check names s) := by
  rw [check_eq, check_eq]
  refine (List.monotone_filter_right _ fun l hsilent => ?_).map _
  -- A line that yields under the shorter list does so under the longer one.
  simp only [FoundLoop.silent, Bool.not_eq_true', List.any_eq_false] at hsilent ⊢
  exact fun raw hraw hyields => hsilent raw hraw (yields_of_sublist h hyields)

theorem LoopRule.check_eq_of_perm (rule : LoopRule) {names names' : List (List Char)}
    (h : names.Perm names') (s : Script) : rule.check names s = rule.check names' s := by
  have hsilent : FoundLoop.silent names = FoundLoop.silent names' := by
    funext l
    rw [FoundLoop.silent, FoundLoop.silent, yields_eq_of_perm h]
  rw [check_eq, check_eq, hsilent]

/-- Without a name a loop never yields. -/
theorem endless_nil_iff (opener : Pattern) (words : BlockWords) (lines : List (List Char))
    (i first last : Nat) :
    Endless opener words [] lines i first last ↔
      (∃ raw, lines[i]? = some raw ∧ opener.Finds raw first last) ∧
      ∃ e, words.Balance lines i e := by
  constructor
  · rintro ⟨hopens, e, hleast, -⟩
    exact ⟨hopens, e, hleast.1⟩
  · rintro ⟨hopens, e, hbalance⟩
    obtain ⟨stop, hstop⟩ : ∃ stop, blockEnd? words lines i = some stop :=
      Option.ne_none_iff_exists'.1 fun hnone => (blockEnd?_eq_none_iff lines i).1 hnone e hbalance
    refine ⟨hopens, stop, (blockEnd?_eq_some_iff lines i stop).1 hstop, ?_⟩
    intro j raw _ _ _ k
    simp [Pattern.lengthsAt, yieldPattern, Pattern.lengths]

/-- **What the list of yielding functions does.**  For every text and both kinds of loops: the
    reports under a list are among those under any shorter one, in the same order; the order of the
    list does not count; and the empty list leaves all loops whose end is found, each once.  A line
    counts as yielding where one of the names is called as it is written, unless the list is the
    empty name alone. -/
theorem yield_names_silence {rule : LoopRule} {opener : Pattern}
    (hrule : (rule, opener) ∈ loopRules) (t : List Char) :
    (∀ names names' : List String, names.Sublist names' →
      (rule.check (names'.map String.toList) (.ofText t)).Sublist
        (rule.check (names.map String.toList) (.ofText t))) ∧
    (∀ names names' : List String, names.Perm names' →
      rule.check (names.map String.toList) (.ofText t) =
        rule.check (names'.map String.toList) (.ofText t)) ∧
    ((∀ d, d ∈ rule.check [] (.ofText t) ↔ ∃ i first last,
        (∃ raw, (Script.ofText t).masked[i]? = some raw ∧ opener.Finds raw first last) ∧
        (∃ e, rule.words.Balance (Script.ofText t).masked i e) ∧ d = rule.report i first last) ∧
      (rule.check [] (.ofText t)).Pairwise fun d e => d.line < e.line) ∧
    ∀ (names : List String) (raw : List Char), yields (names.map String.toList) raw = true ↔
      names ≠ [""] ∧ ∃ name ∈ names, Called name.toList raw := by
  have hmem : ∀ d, d ∈ rule.check [] (.ofText t) ↔ ∃ i first last,
      Endless opener rule.words [] (Script.ofText t).masked i first last ∧
        d = rule.report i first last := by
    rcases List.mem_pair.1 hrule with heq | heq <;> cases heq
    · exact LoopRule.mem_check_iff recognises_whileOpener fits_whileOpener [] t
    · exact LoopRule.mem_check_iff recognises_repeatOpener fits_repeatOpener [] t
  refine ⟨fun names names' h => rule.check_sublist (h.map _) _,
    fun names names' h => rule.check_eq_of_perm (h.map _) _,
    ⟨fun d => ?_, rule.pairwise_check _ _⟩, fun names raw => ?_⟩
  · simp only [hmem, endless_nil_iff, and_assoc]
  · have hempty : names.map String.toList = [[]] ↔ names = [""] := by
      rw [List.map_eq_singleton_iff]
      simp
    rw [yields_iff, ne_eq, hempty]
    simp

/-- A loop with a call of `Wait`. -/
def waitingLoop : List Char := "while a do\n  Wait (0)\nend".toList

/-- The characters of a name mean nothing but themselves, and two empty names are not one. -/
theorem yield_names_silence_literal :
    (LoopRule.while, whilePattern) ∈ loopRules ∧ [".*"].Sublist ["Wait", ".*"] ∧
    (LoopRule.while.check (["Wait", ".*"].map String.toList) (.ofText waitingLoop)).Sublist
      (LoopRule.while.check ([".*"].map String.toList) (.ofText waitingLoop)) ∧
    LoopRule.while.check ([".*"].map String.toList) (.ofText waitingLoop) =
      [LoopRule.while.report 0 0 10] ∧
    LoopRule.while.check (["Wait", ".*"].map String.toList) (.ofText waitingLoop) = [] ∧
    LoopRule.while.check ([""].map String.toList) (.ofText waitingLoop) =
      [LoopRule.while.report 0 0 10] ∧
    LoopRule.while.check (["", ""].map String.toList) (.ofText waitingLoop) = [] := by
  have hlist : [".*"].Sublist ["Wait", ".*"] := .cons _ (.refl _)
  refine ⟨.head _, hlist, (yield_names_silence (.head _) waitingLoop).1 _ _ hlist, ?_⟩
  decide +kernel

end LuaAudit.Lint
