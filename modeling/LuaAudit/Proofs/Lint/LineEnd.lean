import LuaAudit.Proofs.Lint.Place

/-!
# Line ends of either kind

A text whose lines end with a carriage return and a line feed reads like the one whose lines end
with a line feed alone.  The two are masked in lockstep: the reader meets the carriage returns in
code, in comments and in strings, also right behind a backslash, and none of them changes where it
stands.

* `withReturns` puts a carriage return before every line feed;
* `maskFrom_return`: a carriage return is kept, and the region goes on;
* `mask_withReturns`: masking commutes with `withReturns`;
* `lint_withReturns`: so both texts have the same reports.
-/

namespace LuaAudit.Lua

open Bracket (opener closer ofLevel)

/-- A text with a carriage return before every line feed. -/
def withReturns : List Char → List Char
  | [] => []
  | c :: cs => if c = '\n' then '\r' :: '\n' :: withReturns cs else c :: withReturns cs

@[simp] theorem withReturns_nil : withReturns [] = [] := rfl

@[simp] theorem withReturns_feed (cs : List Char) :
    withReturns ('\n' :: cs) = '\r' :: '\n' :: withReturns cs := rfl

theorem withReturns_cons {c : Char} (hc : c ≠ '\n') (cs : List Char) :
    withReturns (c :: cs) = c :: withReturns cs := if_neg hc

/-- A text without line feeds in front stays as it is. -/
theorem withReturns_append {w : List Char} (hw : '\n' ∉ w) (cs : List Char) :
    withReturns (w ++ cs) = w ++ withReturns cs := by
  induction w with
  | nil => rfl
  | cons c w ih =>
    rw [List.mem_cons, not_or] at hw
    rw [List.cons_append, withReturns_cons (Ne.symm hw.1), ih hw.2, List.cons_append]

/-- The carriage returns add no place where a text without line ends stands. -/
theorem prefix_withReturns_iff {w : List Char} (hr : '\r' ∉ w) (hn : '\n' ∉ w) (cs : List Char) :
    w <+: withReturns cs ↔ w <+: cs := by
  induction w generalizing cs with
  | nil => simp
  | cons c w ih =>
    rw [List.mem_cons, not_or] at hr hn
    cases cs with
    | nil => rfl
    | cons d cs =>
      by_cases hd : d = '\n'
      · subst hd
        rw [withReturns_feed, List.cons_prefix_cons, List.cons_prefix_cons]
        exact iff_of_false (fun h => hr.1 h.1.symm) (fun h => hn.1 h.1.symm)
      · rw [withReturns_cons hd, List.cons_prefix_cons, List.cons_prefix_cons, ih hr.2 hn.2]

/-- A long bracket holds no line end. -/
theorem lineEnd_notMem_ofLevel {bracket c : Char} (hb : bracket = '[' ∨ bracket = ']')
    (hc : c = '\r' ∨ c = '\n') (n : Nat) : c ∉ ofLevel bracket n := by
  rcases hb with rfl | rfl <;> rcases hc with rfl | rfl <;> simp [ofLevel]

/-- So it stands where it stood. -/
theorem withReturns_ofLevel {bracket : Char} (hb : bracket = '[' ∨ bracket = ']') (n : Nat)
    (cs : List Char) :
    withReturns (ofLevel bracket n ++ cs) = ofLevel bracket n ++ withReturns cs :=
  withReturns_append (lineEnd_notMem_ofLevel hb (.inr rfl) n) cs

theorem withReturns_opener (n : Nat) (cs : List Char) :
    withReturns (opener n ++ cs) = opener n ++ withReturns cs := withReturns_ofLevel (.inl rfl) n cs

theorem withReturns_closer (n : Nat) (cs : List Char) :
    withReturns (closer n ++ cs) = closer n ++ withReturns cs := withReturns_ofLevel (.inr rfl) n cs

theorem opener_prefix_withReturns_iff (n : Nat) (cs : List Char) :
    opener n <+: withReturns cs ↔ opener n <+: cs :=
  prefix_withReturns_iff (lineEnd_notMem_ofLevel (.inl rfl) (.inl rfl) n)
    (lineEnd_notMem_ofLevel (.inl rfl) (.inr rfl) n) cs

theorem closer_prefix_withReturns_iff (n : Nat) (cs : List Char) :
    closer n <+: withReturns cs ↔ closer n <+: cs :=
  prefix_withReturns_iff (lineEnd_notMem_ofLevel (.inr rfl) (.inl rfl) n)
    (lineEnd_notMem_ofLevel (.inr rfl) (.inr rfl) n) cs

/-! ### The reader at a line end -/

/-- A region that a reader of a text comes to: a short string stands between quotes. -/
def Region.Genuine : Region → Prop
  | .quoted q => q = '\'' ∨ q = '"'
  | _ => True

/-- The region behind a line feed, which ends a line comment and nothing else. -/
def Region.afterFeed : Region → Region
  | .lineComment => .code
  | r => r

theorem Region.Genuine.afterFeed {r : Region} (hr : r.Genuine) : r.afterFeed.Genuine := by
  cases r with
  | code => trivial
  | lineComment => trivial
  | long n => trivial
  | quoted q => exact hr

/-- A character that starts no comment and no string, and is no quote, is code. -/
theorem maskFrom_code_lineEnd {c : Char} (hc : c = '\r' ∨ c = '\n') (cs : List Char) :
    maskFrom .code (c :: cs) = c :: maskFrom .code cs := by
  have hdash : ¬ ['-', '-'] <+: c :: cs := by rcases hc with rfl | rfl <;> simp
  have hbracket : c ≠ '[' := by rcases hc with rfl | rfl <;> decide
  have hquote : ¬ (c = '\'' ∨ c = '"') := by rcases hc with rfl | rfl <;> decide
  rw [maskFrom_code_cons hdash (Bracket.not_ofLevel_prefix_cons hbracket · cs), if_neg hquote]

/-- A carriage return is kept, and the region goes on behind it. -/
theorem maskFrom_return {r : Region} (hr : r.Genuine) (cs : List Char) :
    maskFrom r ('\r' :: cs) = '\r' :: maskFrom r cs := by
  cases r with
  | code => exact maskFrom_code_lineEnd (.inl rfl) cs
  | lineComment => exact maskFrom_lineComment_cons (by decide) cs
  | long n => exact maskFrom_long_cons (Bracket.not_ofLevel_prefix_cons (by decide) n cs)
  | quoted q =>
    have hq : '\r' ≠ q := by rcases hr with rfl | rfl <;> decide
    have hlone : '\r' = '\\' → cs = [] := fun h => absurd h (by decide)
    have hstep := maskFrom_quoted_cons (q := q) hlone
    rwa [if_neg hq] at hstep

/-- A line feed is kept too. -/
theorem maskFrom_feed {r : Region} (hr : r.Genuine) (cs : List Char) :
    maskFrom r ('\n' :: cs) = '\n' :: maskFrom r.afterFeed cs := by
  cases r with
  | code => exact maskFrom_code_lineEnd (.inr rfl) cs
  | lineComment => exact (maskFrom.eq_2 '\n' cs).trans (if_pos rfl)
  | long n => exact maskFrom_long_cons (Bracket.not_ofLevel_prefix_cons (by decide) n cs)
  | quoted q =>
    have hq : '\n' ≠ q := by rcases hr with rfl | rfl <;> decide
    have hlone : '\n' = '\\' → cs = [] := fun h => absurd h (by decide)
    have hstep := maskFrom_quoted_cons (q := q) hlone
    rwa [if_neg hq] at hstep

/-! ### Two readers in lockstep -/

theorem feed_notMem_spaces (n : Nat) : '\n' ∉ spaces n := by
  simp [spaces]

theorem blankOut_ne_feed {c : Char} (hc : c ≠ '\n') : blankOut c ≠ '\n' := by
  unfold blankOut
  split
  · exact hc
  · decide

/-- Masking from a region on commutes with the carriage returns, for all texts shorter than some
    length. -/
def Lockstep (length : Nat) : Prop :=
  ∀ (r : Region) (t : List Char), r.Genuine → t.length < length →
    maskFrom r (withReturns t) = withReturns (maskFrom r t)

section Step

variable {c : Char} {cs : List Char} (ih : Lockstep (c :: cs).length)
include ih

theorem Lockstep.line (hc : c ≠ '\n') :
    maskFrom .lineComment (withReturns (c :: cs)) =
      withReturns (maskFrom .lineComment (c :: cs)) := by
  rw [withReturns_cons hc, maskFrom_lineComment_cons hc, maskFrom_lineComment_cons hc,
    withReturns_cons (blankOut_ne_feed hc), ih .lineComment cs trivial (by simp)]

theorem Lockstep.long (hc : c ≠ '\n') (n : Nat) :
    maskFrom (.long n) (withReturns (c :: cs)) = withReturns (maskFrom (.long n) (c :: cs)) := by
  by_cases hclose : closer n <+: c :: cs
  · -- The closer holds no line end, so it stands in both texts.
    obtain ⟨rest, hrest⟩ := hclose
    have hshort : rest.length < (c :: cs).length := by
      rw [← hrest, List.length_append, closer, Bracket.length_ofLevel, Bracket.length]
      omega
    rw [← hrest, withReturns_closer, maskFrom_long_closer, maskFrom_long_closer,
      withReturns_append (feed_notMem_spaces _), ih .code rest trivial hshort]
  · have hclose' : ¬ closer n <+: c :: withReturns cs := by
      rw [← withReturns_cons hc]
      exact mt (closer_prefix_withReturns_iff n _).1 hclose
    rw [withReturns_cons hc, maskFrom_long_cons hclose, maskFrom_long_cons hclose',
      withReturns_cons (blankOut_ne_feed hc), ih (.long n) cs trivial (by simp)]

theorem Lockstep.quoted (hc : c ≠ '\n') {q : Char} (hq : q = '\'' ∨ q = '"') :
    maskFrom (.quoted q) (withReturns (c :: cs)) =
      withReturns (maskFrom (.quoted q) (c :: cs)) := by
  have hregion : Region.Genuine (if c = q then .code else .quoted q) := by
    split
    · trivial
    · exact hq
  by_cases hslash : c = '\\' ∧ cs ≠ []
  · obtain ⟨rfl, hcs⟩ := hslash
    obtain ⟨e, rest, rfl⟩ := List.exists_cons_of_ne_nil hcs
    have hrest := ih (.quoted q) rest hq (by simp only [List.length_cons]; omega)
    rw [withReturns_cons hc, maskFrom_quoted_escape, withReturns_cons (c := ' ') (by decide)]
    by_cases he : e = '\n'
    · -- The backslash hides the carriage return in one text and the line feed in the other; the
      -- line feed that is left in the first one closes nothing.
      subst he
      rw [withReturns_feed, maskFrom_quoted_escape, maskFrom_feed (r := .quoted q) hq]
      exact congrArg (fun cs => ' ' :: '\r' :: '\n' :: cs) hrest
    · rw [withReturns_cons he, maskFrom_quoted_escape, withReturns_cons (blankOut_ne_feed he),
        hrest]
  · have hlone : c = '\\' → cs = [] := fun hc => by
      by_contra hcs
      exact hslash ⟨hc, hcs⟩
    have hlone' : c = '\\' → withReturns cs = [] := fun hc => by rw [hlone hc, withReturns_nil]
    rw [withReturns_cons hc, maskFrom_quoted_cons hlone, maskFrom_quoted_cons hlone',
      withReturns_cons (blankOut_ne_feed hc), ih _ cs hregion (by simp)]

theorem Lockstep.code (hc : c ≠ '\n') :
    maskFrom .code (withReturns (c :: cs)) = withReturns (maskFrom .code (c :: cs)) := by
  have hopeners : ∀ {t : List Char}, (∀ n, ¬ opener n <+: t) → ∀ n, ¬ opener n <+: withReturns t :=
    fun h n => mt (opener_prefix_withReturns_iff n _).1 (h n)
  by_cases hdash : ['-', '-'] <+: c :: cs
  · obtain ⟨rest, hrest⟩ := hdash
    obtain ⟨rfl, rfl⟩ : '-' = c ∧ '-' :: rest = cs := List.cons.inj hrest
    rw [withReturns_cons hc, withReturns_cons hc]
    by_cases hblock : ∃ n, opener n <+: rest
    · obtain ⟨n, tail, rfl⟩ := hblock
      have hshort : tail.length < ('-' :: '-' :: (opener n ++ tail)).length := by
        simp only [List.length_cons, List.length_append]
        omega
      rw [withReturns_opener, maskFrom_code_block, maskFrom_code_block,
        ih (.long n) tail trivial hshort, withReturns_cons (by decide),
        withReturns_cons (by decide), withReturns_append (feed_notMem_spaces _)]
    · have hline : ∀ n, ¬ opener n <+: rest := fun n hn => hblock ⟨n, hn⟩
      rw [maskFrom_code_line hline, maskFrom_code_line (hopeners hline),
        withReturns_cons (by decide), withReturns_cons (by decide),
        ih .lineComment rest trivial (by simp only [List.length_cons]; omega)]
  · by_cases hlong : ∃ n, opener n <+: c :: cs
    · obtain ⟨n, tail, htail⟩ := hlong
      have hshort : tail.length < (c :: cs).length := by
        rw [← htail, List.length_append, opener, Bracket.length_ofLevel, Bracket.length]
        omega
      rw [← htail, withReturns_opener, maskFrom_code_long, maskFrom_code_long,
        withReturns_append (feed_notMem_spaces _), ih (.long n) tail trivial hshort]
    · have hopen : ∀ n, ¬ opener n <+: c :: cs := fun n hn => hlong ⟨n, hn⟩
      have hopen' := hopeners hopen
      have hdash' : ¬ ['-', '-'] <+: withReturns (c :: cs) :=
        mt (prefix_withReturns_iff (by decide) (by decide) _).1 hdash
      rw [withReturns_cons hc] at hopen' hdash' ⊢
      rw [maskFrom_code_cons hdash hopen, maskFrom_code_cons hdash' hopen']
      split
      next hquote => rw [withReturns_cons (by decide), ih (.quoted c) cs hquote (by simp)]
      next => rw [withReturns_cons hc, ih .code cs trivial (by simp)]

end Step

theorem lockstep (length : Nat) : Lockstep length := by
  induction length with
  | zero => exact fun r t _ hlength => absurd hlength (Nat.not_lt_zero _)
  | succ length ih =>
    intro r t hr hlength
    cases t with
    | nil => simp
    | cons c cs =>
      have hshort : Lockstep (c :: cs).length := fun r' t' hr' ht' =>
        ih r' t' hr' (by omega)
      by_cases hc : c = '\n'
      · -- Each reader passes its line end, and they go on in the same region.
        subst hc
        rw [withReturns_feed, maskFrom_return hr, maskFrom_feed hr, maskFrom_feed hr,
          withReturns_feed, hshort r.afterFeed cs hr.afterFeed (by simp)]
      · cases r with
        | code => exact hshort.code hc
        | lineComment => exact hshort.line hc
        | long n => exact hshort.long hc n
        | quoted q => exact hshort.quoted hc hr

/-- **Masking in lockstep.**  Masking commutes with the carriage returns. -/
theorem mask_withReturns (t : List Char) : mask (withReturns t) = withReturns (mask t) :=
  lockstep (t.length + 1) .code t trivial (Nat.lt_succ_self _)

/-- A text without carriage returns has the same lines with them. -/
theorem splitLines_withReturns {t : List Char} (h : '\r' ∉ t) :
    Text.splitLines (withReturns t) = Text.splitLines t := by
  induction t with
  | nil => rfl
  | cons c cs ih =>
    rw [List.mem_cons, not_or] at h
    by_cases hc : c = '\n'
    · subst hc
      rw [withReturns_feed, Text.splitLines, Text.splitLines, ih h.2]
    · have hr : ∀ cs' : List Char, c = '\r' → ∀ r, cs' ≠ '\n' :: r := fun _ e => absurd e.symm h.1
      rw [withReturns_cons hc, splitLines_cons hc (hr _), splitLines_cons hc (hr _), ih h.2]

/-- Masking brings in no carriage return. -/
theorem return_notMem_mask {t : List Char} (h : '\r' ∉ t) : '\r' ∉ mask t := by
  have hveils := forall₂_veils_mask t
  generalize mask t = u at hveils
  induction hveils with
  | nil => exact h
  | @cons c m t u hcm _ ih =>
    rw [List.mem_cons, not_or] at h ⊢
    refine ⟨fun hm => h.1 ?_, ih h.2⟩
    -- A masked carriage return would be a written one.
    rw [← hcm.eq_of_masked_lineEnd (.inl hm.symm)]
    exact hm

end LuaAudit.Lua

namespace LuaAudit.Lint

open Lua (withReturns)

/-- **Line ends do not matter.**  A text without carriage returns has the same reports when one is
    put before every line feed: every run of the passes comes to its end on both texts, under all
    settings, with the same list. -/
theorem lint_withReturns (settings : Settings) {text : String} (h : '\r' ∉ text.toList) :
    ∃ found, lint settings text = .ok found ∧
      lint settings (String.ofList (withReturns text.toList)) = .ok found := by
  have hscript : Script.ofText (withReturns text.toList) = Script.ofText text.toList := by
    unfold Script.ofText
    rw [Lua.mask_withReturns, Lua.splitLines_withReturns h,
      Lua.splitLines_withReturns (Lua.return_notMem_mask h)]
  have hrun := runPasses_eq settings (Script.regular_ofText text.toList)
  refine ⟨_, hrun, ?_⟩
  rw [lint, String.toList_ofList, hscript]
  exact hrun

/-- A string that goes on behind an escaped line end, with an escaped quote and what looks like a
    comment in it, and a loop. -/
def escapedBreak : String := "s = 'a\\\n\\' --[[ while\n]] b'\nwhile s do\nend"

/-- It has two reports, with either kind of line ends. -/
theorem lint_withReturns_escapedBreak : ∃ found, found.map Diagnostic.code =
      ["loop-no-yield-while", "global-variable-leak"] ∧
    lint .default escapedBreak = .ok found ∧
    lint .default (String.ofList (withReturns escapedBreak.toList)) = .ok found := by
  have hfree : '\r' ∉ escapedBreak.toList := by decide
  obtain ⟨found, hplain, hreturns⟩ := lint_withReturns .default hfree
  refine ⟨found, ?_, hplain, hreturns⟩
  have hcodes : (lint .default escapedBreak).toOption.map (·.map Diagnostic.code) =
      some ["loop-no-yield-while", "global-variable-leak"] := by decide +kernel
  rw [hplain] at hcodes
  exact Option.some.inj hcodes

end LuaAudit.Lint
