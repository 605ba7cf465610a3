import LuaAudit.Proofs.Lint.Find
import LuaAudit.Proofs.Text.Read

/-!
# Patterns

A pattern is a list of parts that are matched one after the other.  A part that can take more or
less first takes as much as it can and gives back when the rest does not match.  The recognisers of
the loop rules look at a line once, without trying anything twice; here they are compared with
patterns.

* `Pattern.lengths`: the matches at a place, in the order in which they are tried;
* `Pattern.Finds`: the leftmost match in a text, and the one tried first there;
* `first?_eq_some_iff` and `first?_eq_none_iff`: the first find of a search, in these terms;
* `Pattern.Recognises`: a recogniser that gives the first match; `whilePattern`, `repeatPattern` and
  `yieldPattern` are recognised so.
-/

namespace LuaAudit.Lint

open Text (Recogniser Occurrence occurrences first? after? isBlank isWord countWhile)

/-! ### Matching -/

/-- A part of a pattern: one character of a class, any number of them, one of several words, or a
    boundary between a word character and something else. -/
inductive Part where
  | one (p : Char → Bool)
  | many (p : Char → Bool)
  | oneOf (words : List (List Char))
  | edge

/-- Parts that are matched one after the other. -/
abbrev Pattern := List Part

/-- The pattern that is a fixed text. -/
def literal (text : List Char) : Pattern := text.map fun c => .one (· == c)

/-- The lengths of the matches at the start of a text, behind the character `before`, in the order
    in which they are tried: more characters go before fewer, and earlier words before later
    ones. -/
def Pattern.lengths : Pattern → (before : Option Char) → List Char → List Nat
  | [], _, _ => [0]
  | .one _ :: _, _, [] => []
  | .one p :: rest, _, c :: cs => if p c then (lengths rest (some c) cs).map (· + 1) else []
  | .many _ :: rest, before, [] => lengths rest before []
  | .many p :: rest, before, c :: cs =>
    (if p c then (lengths (.many p :: rest) (some c) cs).map (· + 1) else []) ++
      lengths rest before (c :: cs)
  | .oneOf words :: rest, before, cs =>
    words.flatMap fun word =>
      (after? word cs).elim [] fun tail =>
        (lengths rest (word.getLast?.or before) tail).map (word.length + ·)
  | .edge :: rest, before, cs => if isBoundary before cs.head? then lengths rest before cs else []
  termination_by pattern _ cs => (pattern.length, cs.length)

/-- The lengths of the matches at a place of a text. -/
def Pattern.lengthsAt (pattern : Pattern) (cs : List Char) (k : Nat) : List Nat :=
  pattern.lengths (cs.take k).getLast? (cs.drop k)

/-- The leftmost match of a pattern in a text, and of those at that place the one tried first. -/
structure Pattern.Finds (pattern : Pattern) (cs : List Char) (start stop : Nat) : Prop where
  matched : ∃ n, (pattern.lengthsAt cs start).head? = some n ∧ stop = start + n
  leftmost : ∀ k < start, pattern.lengthsAt cs k = []

/-! ### Searching -/

section Search

variable {α : Type} {find : Recogniser α}

theorem at_of_first? {cs : List Char} {o : Occurrence α} (h : first? find cs = some o) :
    (∃ n, find.at cs o.start = some (o.value, n) ∧ o.stop = o.start + n) ∧
      ∀ k < o.start, find.at cs k = none := by
  have ho : o ∈ occurrences find cs := List.mem_of_head? h
  refine ⟨Text.at_of_mem_occurrences ho, fun k hk => ?_⟩
  by_contra hsome
  obtain ⟨⟨value, n⟩, hat⟩ := Option.ne_none_iff_exists'.1 hsome
  have hlt : k < cs.length := Nat.lt_trans hk (start_lt_of_mem_occurrences ho)
  -- Something would be found at or before `k`, and `o` is the first find.
  obtain ⟨p, hp, hstart⟩ : ∃ p ∈ occurrences find cs, p.start ≤ k := by
    rcases Text.mem_occurrences_or_covered hlt hat with hmem | ⟨p, hp, hcover, -⟩
    · exact ⟨_, hmem, Nat.le_refl k⟩
    · exact ⟨p, hp, Nat.le_of_lt hcover⟩
  obtain ⟨later, hfinds⟩ := List.head?_eq_some_iff.1 h
  have hpairs := Text.pairwise_start_occurrences find cs
  rw [hfinds] at hp hpairs
  rcases List.mem_cons.1 hp with rfl | hp
  · omega
  · have hafter := (List.pairwise_cons.1 hpairs).1 p hp
    omega

/-- A search finds nothing where nothing is recognised. -/
theorem first?_eq_none_iff (hfind : find.Fits) (cs : List Char) :
    first? find cs = none ↔ ∀ k, find.at cs k = none := by
  constructor
  · intro h k
    by_contra hsome
    obtain ⟨⟨value, n⟩, hat⟩ := Option.ne_none_iff_exists'.1 hsome
    -- What is recognised takes characters, so the place is one of the text.
    have hfits := hfind _ _ _ _ hat
    rw [List.length_drop] at hfits
    have hnil : occurrences find cs = [] := List.head?_eq_none_iff.1 h
    rcases Text.mem_occurrences_or_covered (by omega) hat with hmem | ⟨p, hp, -⟩
    · rw [hnil] at hmem
      cases hmem
    · rw [hnil] at hp
      cases hp
  · intro h
    cases hfirst : first? find cs with
    | none => rfl
    | some o =>
      obtain ⟨⟨n, hat, -⟩, -⟩ := at_of_first? hfirst
      rw [h] at hat
      cases hat

/-- The first find of a search is the leftmost place where something is recognised. -/
theorem first?_eq_some_iff (hfind : find.Fits) (cs : List Char) (o : Occurrence α) :
    first? find cs = some o ↔
      (∃ n, find.at cs o.start = some (o.value, n) ∧ o.stop = o.start + n) ∧
        ∀ k < o.start, find.at cs k = none := by
  refine ⟨at_of_first?, ?_⟩
  rintro ⟨⟨n, hat, hstop⟩, hleft⟩
  cases hfirst : first? find cs with
  | none =>
    rw [(first?_eq_none_iff hfind cs).1 hfirst] at hat
    cases hat
  | some p =>
    obtain ⟨⟨m, hat', hstop'⟩, hleft'⟩ := at_of_first? hfirst
    -- Neither of the two places is left of the other.
    have hstart : p.start = o.start := by
      rcases Nat.lt_trichotomy p.start o.start with hlt | heq | hlt
      · rw [hleft _ hlt] at hat'
        cases hat'
      · exact heq
      · rw [hleft' _ hlt] at hat
        cases hat
    rw [hstart, hat] at hat'
    obtain ⟨hvalue, rfl⟩ := Prod.mk.inj (Option.some.inj hat')
    cases o
    cases p
    simp_all

end Search

/-- A recogniser that gives the first match of a pattern, in texts without a line feed. -/
def Pattern.Recognises (pattern : Pattern) (find : Recogniser Unit) : Prop :=
  ∀ before cs, '\n' ∉ cs → find before cs = (pattern.lengths before cs).head?.map fun n => ((), n)

section Recognises

variable {pattern : Pattern} {find : Recogniser Unit} (h : pattern.Recognises find)
  (hfits : find.Fits) {cs : List Char} (hcs : '\n' ∉ cs)
include h hcs

theorem Pattern.Recognises.at_eq (k : Nat) :
    find.at cs k = (pattern.lengthsAt cs k).head?.map fun n => ((), n) :=
  h _ _ fun hmem => hcs (List.mem_of_mem_drop hmem)

theorem Pattern.Recognises.at_eq_none_iff (k : Nat) :
    find.at cs k = none ↔ pattern.lengthsAt cs k = [] := by
  rw [h.at_eq hcs, Option.map_eq_none_iff, List.head?_eq_none_iff]

include hfits

/-- The first find is the leftmost match. -/
theorem Pattern.Recognises.first?_eq_some_iff (start stop : Nat) :
    first? find cs = some ⟨start, stop, ()⟩ ↔ pattern.Finds cs start stop := by
  have hat : ∀ n, find.at cs start = some ((), n) ↔
      (pattern.lengthsAt cs start).head? = some n := by
    intro n
    rw [h.at_eq hcs]
    simp
  rw [Lint.first?_eq_some_iff hfits]
  constructor
  · rintro ⟨⟨n, hn, hstop⟩, hleft⟩
    exact ⟨⟨n, (hat n).1 hn, hstop⟩, fun k hk => (h.at_eq_none_iff hcs k).1 (hleft k hk)⟩
  · rintro ⟨⟨n, hn, hstop⟩, hleft⟩
    exact ⟨⟨n, (hat n).2 hn, hstop⟩, fun k hk => (h.at_eq_none_iff hcs k).2 (hleft k hk)⟩

theorem Pattern.Recognises.first?_eq_none_iff :
    first? find cs = none ↔ ∀ k, pattern.lengthsAt cs k = [] := by
  rw [Lint.first?_eq_none_iff hfits]
  exact forall_congr' fun k => h.at_eq_none_iff hcs k

end Recognises

/-! ### Words and boundaries -/

theorem lengths_literal_append (text : List Char) (rest : Pattern) (before : Option Char)
    (cs : List Char) :
    Pattern.lengths (literal text ++ rest) before cs =
      (after? text cs).elim [] fun tail =>
        (Pattern.lengths rest (text.getLast?.or before) tail).map (text.length + ·) := by
  induction text generalizing before cs with
  | nil => simp [literal, after?]
  | cons c text ih =>
    cases cs with
    | nil => simp [literal, Pattern.lengths, after?]
    | cons d cs =>
      rw [literal, List.map_cons, List.cons_append, Pattern.lengths, ← literal, ih, after?]
      by_cases hc : d = c
      · subst hc
        rw [if_pos (by simp), if_pos (by simp)]
        cases after? text cs with
        | none => rfl
        | some tail =>
          have hlast : (d :: text).getLast?.or before = text.getLast?.or (some d) := by
            cases text <;> simp [List.getLast?_cons]
          simp only [Option.elim_some, List.map_map, hlast, List.length_cons]
          congr 1
          funext n
          simp only [Function.comp_apply]
          omega
      · rw [if_neg (by simpa using hc), if_neg (by simpa using Ne.symm hc)]
        rfl

theorem isBoundary_some {c : Char} (hc : isWord c = true) (other : Option Char) :
    isBoundary other (some c) = !other.any isWord ∧
    isBoundary (some c) other = !other.any isWord := by
  unfold isBoundary
  cases other.any isWord <;> simp [hc]

/-- A pattern that starts at the boundary before a word. -/
theorem lengths_edge_literal {c : Char} (hc : isWord c = true) (text : List Char) (rest : Pattern)
    (before : Option Char) (cs : List Char) :
    Pattern.lengths (.edge :: (literal (c :: text) ++ rest)) before cs =
      if before.any isWord then []
      else Pattern.lengths (literal (c :: text) ++ rest) before cs := by
  rw [Pattern.lengths]
  cases hafter : after? (c :: text) cs with
  | none => simp [lengths_literal_append, hafter]
  | some tail =>
    rw [Text.eq_append_of_after? hafter, List.cons_append, List.head?_cons,
      (isBoundary_some hc before).1]
    cases before.any isWord <;> rfl

/-! ### The openers of loops -/

/-- `repeat` as a word of its own. -/
def repeatPattern : Pattern := .edge :: (literal "repeat".toList ++ [.edge])

theorem recognises_repeatOpener : repeatPattern.Recognises repeatOpener := by
  intro before cs _
  rw [repeatOpener, repeatPattern]
  rw [show "repeat".toList = 'r' :: "epeat".toList by decide]
  rw [lengths_edge_literal (by decide), lengths_literal_append]
  split
  · rfl
  · cases after? ('r' :: "epeat".toList) cs with
    | none => rfl
    | some tail =>
      have hedge := (isBoundary_some (c := 't') (by decide) tail.head?).2
      simp only [Option.elim_some, Pattern.lengths]
      rw [show ('r' :: "epeat".toList).getLast?.or before = some 't' by rfl, hedge]
      cases tail.head?.any isWord <;> rfl

/-- The end of the opener of a `while` loop: `do` as a word of its own. -/
def doPattern : Pattern := literal "do".toList ++ [.edge]

/-- Any character but a line feed. -/
def inLine (c : Char) : Bool := c != '\n'

/-- `while`, a condition with blanks around it, and `do`, on one line. -/
def whilePattern : Pattern :=
  .edge :: (literal "while".toList ++
    [.one isBlank, .many isBlank, .one inLine, .many inLine, .one isBlank, .many isBlank] ++
      doPattern)

theorem lengths_doPattern (before : Option Char) (cs : List Char) :
    doPattern.lengths before cs =
      (after? "do".toList cs).elim [] fun tail => if tail.head?.any isWord then [] else [2] := by
  rw [doPattern, lengths_literal_append]
  cases after? "do".toList cs with
  | none => rfl
  | some tail =>
    have hedge := (isBoundary_some (c := 'o') (by decide) tail.head?).2
    simp only [Option.elim_some, Pattern.lengths]
    rw [show "do".toList.getLast?.or before = some 'o' by rfl, hedge]
    cases tail.head?.any isWord <;> rfl

theorem afterLastDo?_cons (c : Char) (cs : List Char) :
    afterLastDo? (c :: cs) = ((afterLastDo? cs).map (· + 1)).or
      (if isBlank c then
        (after? "do".toList cs).bind fun tail => if tail.head?.any isWord then none else some 3
      else none) := by
  rw [afterLastDo?.eq_def]
  simp only []
  cases afterLastDo? cs with
  | some n => rfl
  | none =>
    simp only [Option.map_none, Option.none_or]
    split
    next tail =>
      have hafter : after? "do".toList ('d' :: 'o' :: tail) = some tail :=
        Text.after?_append ['d', 'o'] tail
      rw [hafter, Option.bind_some]
      cases isBlank c <;> cases tail.head?.any isWord <;> rfl
    next hne =>
      have hafter : after? "do".toList cs = none := by
        rw [Option.eq_none_iff_forall_ne_some]
        intro tail htail
        exact hne tail (Text.eq_append_of_after? htail)
      rw [hafter]
      cases isBlank c <;> rfl

/-- Of the matches of a condition and `do`, the one with the longest condition is tried first, and
    that is the one with the last `do`. -/
theorem head?_lengths_condition {cs : List Char} (hcs : '\n' ∉ cs) (before : Option Char) :
    (Pattern.lengths (.many inLine :: .one isBlank :: .many isBlank :: doPattern) before cs).head? =
      afterLastDo? cs := by
  induction cs generalizing before with
  | nil => simp [Pattern.lengths, afterLastDo?]
  | cons c cs ih =>
    rw [List.mem_cons, not_or] at hcs
    have hc : inLine c = true := by simpa [inLine] using Ne.symm hcs.1
    have hlater := ih hcs.2 (some c)
    rw [Pattern.lengths, if_pos hc, List.head?_append, List.head?_map, hlater, afterLastDo?_cons]
    cases hdo : afterLastDo? cs with
    | some n => rfl
    | none =>
      -- There is no later `do`, so the blanks before this one are the single character `c`.
      have hnil := List.head?_eq_none_iff.1 (hlater.trans hdo)
      have hblanks : Pattern.lengths (.many isBlank :: doPattern) (some c) cs =
          doPattern.lengths (some c) cs := by
        cases cs with
        | nil => rw [Pattern.lengths]
        | cons d ds =>
          rw [Pattern.lengths] at hnil ⊢
          have hone := (List.append_eq_nil_iff.1 hnil).2
          rw [Pattern.lengths] at hone
          rw [hone, List.nil_append]
      rw [Pattern.lengths, hblanks, lengths_doPattern]
      cases isBlank c with
      | false => rfl
      | true =>
        cases after? "do".toList cs with
        | none => rfl
        | some tail => cases htail : tail.head?.any isWord <;> simp [htail]

/-- Blanks before the condition can as well be part of it. -/
theorem head?_lengths_blanks {cs : List Char} (hcs : '\n' ∉ cs) (before : Option Char) :
    (Pattern.lengths (.many isBlank :: .one inLine :: .many inLine :: .one isBlank ::
      .many isBlank :: doPattern) before cs).head? = (afterLastDo? cs.tail).map (· + 1) := by
  -- One character of the condition, then the rest of it.
  have hstart : ∀ cs before, '\n' ∉ cs → (Pattern.lengths (.one inLine :: .many inLine ::
      .one isBlank :: .many isBlank :: doPattern) before cs).head? =
        (afterLastDo? cs.tail).map (· + 1) := by
    intro cs before hcs
    cases cs with
    | nil => simp [Pattern.lengths, afterLastDo?]
    | cons c cs =>
      rw [List.mem_cons, not_or] at hcs
      have hc : inLine c = true := by simpa [inLine] using Ne.symm hcs.1
      rw [Pattern.lengths, if_pos hc, List.head?_map, head?_lengths_condition hcs.2]
      rfl
  induction cs generalizing before with
  | nil =>
    rw [Pattern.lengths]
    exact hstart [] before hcs
  | cons c cs ih =>
    have hcs' : '\n' ∉ cs := fun hmem => hcs (.tail c hmem)
    rw [Pattern.lengths, List.head?_append, hstart (c :: cs) before hcs]
    cases isBlank c with
    | false => rfl
    | true =>
      rw [if_pos rfl, List.head?_map, ih hcs']
      cases htail : afterLastDo? cs.tail with
      | none => rfl
      | some n =>
        -- What is found behind one character more is found behind this one as well.
        obtain ⟨d, ds, rfl⟩ : ∃ d ds, cs = d :: ds := by
          cases cs with
          | nil => cases htail
          | cons d ds => exact ⟨d, ds, rfl⟩
        rw [List.tail_cons] at htail ⊢
        simp [afterLastDo?_cons, htail]

theorem recognises_whileOpener : whilePattern.Recognises whileOpener := by
  intro before cs hcs
  rw [whileOpener, whilePattern]
  rw [show "while".toList = 'w' :: "hile".toList by decide, List.append_assoc]
  rw [lengths_edge_literal (by decide), lengths_literal_append]
  split
  · rfl
  · cases hafter : after? ('w' :: "hile".toList) cs with
    | none => rfl
    | some tail =>
      have htail : '\n' ∉ tail := by
        intro hmem
        rw [Text.eq_append_of_after? hafter] at hcs
        exact hcs (List.mem_append_right _ hmem)
      rw [Option.elim_some, List.head?_map]
      cases tail with
      | nil => simp [Pattern.lengths]
      | cons b rest =>
        have hblanks := head?_lengths_blanks (fun hmem => htail (.tail b hmem)) (some b)
        rw [List.cons_append, Pattern.lengths]
        cases hb : isBlank b with
        | false => cases rest <;> simp [hb]
        | true =>
          rw [if_pos rfl, List.head?_map, List.cons_append, List.cons_append, List.cons_append,
            List.cons_append, List.cons_append, List.nil_append, hblanks]
          cases rest with
          | nil => rfl
          | cons c rest =>
            simp only [hb, List.tail_cons, Option.map_map, if_true]
            congr 1
            funext n
            simp
            omega

/-! ### Calls that yield -/

/-- A call of one of the named functions.  With nothing written between the bars there is no
    alternative, so that no name, or one empty name, matches nowhere. -/
def yieldPattern (names : List (List Char)) : Pattern :=
  [.edge, .oneOf (if ['|'].intercalate names = [] then [] else names), .many isBlank,
    .one (· == '(')]

theorem intercalate_bar_eq_nil_iff (names : List (List Char)) :
    ['|'].intercalate names = [] ↔ (names.isEmpty || names == [[]]) = true := by
  match names with
  | [] => simp
  | [name] => simp
  | name :: second :: names => simp [List.intercalate_cons_cons]

/-- The blanks before a parenthesis are all taken. -/
theorem lengths_parenthesis (before : Option Char) (cs : List Char) :
    Pattern.lengths [.many isBlank, .one (· == '(')] before cs =
      if (cs.dropWhile isBlank).head? = some '(' then [countWhile isBlank cs + 1] else [] := by
  induction cs generalizing before with
  | nil => simp [Pattern.lengths]
  | cons c cs ih =>
    rw [Pattern.lengths, ih, Pattern.lengths, Pattern.lengths, countWhile, countWhile]
    cases hc : isBlank c with
    | true =>
      have hparen : c ≠ '(' := by
        rintro rfl
        cases hc
      rw [List.dropWhile_cons_of_pos hc, List.takeWhile_cons_of_pos hc, if_pos rfl]
      split <;> simp [hparen]
    | false =>
      have hstop : ¬ isBlank c = true := by simp [hc]
      rw [List.dropWhile_cons_of_neg hstop, List.takeWhile_cons_of_neg hstop]
      by_cases hparen : c = '(' <;> simp [hparen]

theorem callLength?_eq (name cs : List Char) :
    callLength? name cs = (after? name cs).bind fun tail =>
      if (tail.dropWhile isBlank).head? = some '(' then
        some (name.length + (countWhile isBlank tail + 1))
      else none := by
  unfold callLength?
  cases after? name cs with
  | none => rfl
  | some tail =>
    simp only [Option.bind_eq_bind, Option.bind_some]
    split
    next hdrop => simp [hdrop, Nat.add_assoc]
    next hdrop =>
      rw [if_neg]
      intro hhead
      obtain ⟨rest, hrest⟩ := List.head?_eq_some_iff.1 hhead
      exact hdrop rest hrest

theorem recognises_yieldCall (names : List (List Char)) :
    (yieldPattern names).Recognises (yieldCall names) := by
  intro before cs _
  rw [yieldCall, yieldPattern, Pattern.lengths, Pattern.lengths]
  by_cases hnone : ['|'].intercalate names = []
  · rw [if_pos ((intercalate_bar_eq_nil_iff names).1 hnone), if_pos hnone]
    split <;> rfl
  · rw [if_neg (mt (intercalate_bar_eq_nil_iff names).2 hnone), if_neg hnone]
    split
    · -- One name after the other: the first that is called is the first in the list of matches.
      rw [List.head?_flatMap]
      congr 2
      funext name
      rw [callLength?_eq]
      cases after? name cs with
      | none => rfl
      | some tail =>
        rw [Option.bind_some, Option.elim_some, lengths_parenthesis]
        split <;> rfl
    · rfl

theorem fits_yieldCall (names : List (List Char)) : (yieldCall names).Fits := by
  intro before cs value length h
  unfold yieldCall at h
  split at h
  · cases h
  · split at h
    · obtain ⟨n, hn, heq⟩ := Option.map_eq_some_iff.1 h
      obtain rfl : n = length := (Prod.mk.inj heq).2
      obtain ⟨name, -, hname⟩ := List.exists_of_findSome?_eq_some hn
      rw [callLength?_eq] at hname
      obtain ⟨tail, hafter, htail⟩ := Option.bind_eq_some_iff.1 hname
      have hcs := Text.length_of_after? hafter
      split at htail
      next hhead =>
        -- The parenthesis stands behind the blanks.
        have hlt : countWhile isBlank tail < tail.length := by
          apply Nat.lt_of_not_le
          intro hle
          rw [← Text.drop_countWhile, List.drop_eq_nil_of_le hle] at hhead
          cases hhead
        have hlength := Option.some.inj htail
        omega
      · cases htail
    · cases h

/-- A line has a call of a yielding function where the pattern matches somewhere. -/
theorem yields_eq_false_iff (names : List (List Char)) {line : List Char} (h : '\n' ∉ line) :
    yields names line = false ↔ ∀ k, (yieldPattern names).lengthsAt line k = [] := by
  rw [yields, Option.isSome_eq_false_iff, Option.isNone_iff_eq_none]
  exact (recognises_yieldCall names).first?_eq_none_iff (fits_yieldCall names) h

end LuaAudit.Lint
