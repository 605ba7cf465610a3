import LuaAudit.Proofs.Lint.Call
import Mathlib.Data.List.Sort

/-!
# What comments say to the event rules

The event rules search the written lines, comments and strings included, and then drop the finds
that start outside code.  A find keeps others from starting inside it, so one that starts in a
comment can cost a call in code its report.  That is all that a comment can do.

* `Guarded.at_eq`: at one place of code the same is recognised, whatever the comments say;
* `Guarded.not_covered`: a find that starts in code does not take in another one;
* `Script.swallowed`: the places of code that a find from outside takes in;
* `Guarded.finds_eq`: hence the same finds, as long as the same places are lost;
* `checkEvents_of_reworded`: the same reports.
-/

namespace LuaAudit.Lint

open Lua (Lexeme Lexes Reworded lineStart mask)
open Text (Recogniser Occurrence isBlank occurrences splitLines)

/-! ### Places of code -/

/-- A column of a line is an offset of the text. -/
theorem getElem?_line {t raw : List Char} {i j : Nat} (h : (splitLines t)[i]? = some raw)
    (hj : j < raw.length) : raw[j]? = t[lineStart t i + j]? := by
  rw [← Lua.take_drop_lineStart h, List.getElem?_take_of_lt hj, List.getElem?_drop]

/-- What follows a column of a line is what follows the offset, up to the end of the line. -/
theorem drop_line {t raw : List Char} {i : Nat} (h : (splitLines t)[i]? = some raw) (j : Nat) :
    raw.drop j = (t.drop (lineStart t i + j)).take (raw.length - j) := by
  rw [← List.drop_drop, ← List.drop_take, Lua.take_drop_lineStart h]

/-- A place of a script of a text holds code when its character is no space and is masked as
    itself. -/
theorem Script.holdsCode_ofText_iff {t raw : List Char} {i j : Nat} {c : Char}
    (hraw : (ofText t).lines[i]? = some raw) (hc : raw[j]? = some c) :
    (ofText t).holdsCode i j = true ↔ c ≠ ' ' ∧ (mask t)[lineStart t i + j]? = some c := by
  have hj : j < raw.length := (List.getElem?_eq_some_iff.1 hc).1
  obtain ⟨c', m, hat, -⟩ := exists_at_ofText hraw hj
  obtain ⟨raw', masked, hraw', hc', hmasked, hm⟩ := id hat
  obtain rfl : raw = raw' := Option.some.inj (hraw.symm.trans hraw')
  obtain rfl : c = c' := Option.some.inj (hc.symm.trans hc')
  have hstart := Lua.lineStart_eq_of_veils (Lua.forall₂_veils_mask t) i
  rw [holdsCode, hat.isCodeAt_eq, hstart,
    ← getElem?_line hmasked (List.getElem?_eq_some_iff.1 hm).1, hm]
  simp

/-- Texts that differ in comments have lines of the same lengths at the same offsets. -/
theorem exists_line_of_reworded {t t' raw : List Char} (h : Reworded t t') {i : Nat}
    (hraw : (splitLines t)[i]? = some raw) :
    ∃ raw', (splitLines t')[i]? = some raw' ∧ raw'.length = raw.length ∧
      lineStart t' i = lineStart t i := by
  obtain ⟨masked, hmasked, hveils⟩ :=
    Lua.exists_getElem?_of_forall₂ (Lua.forall₂_veils_lines t) hraw
  rw [h.mask_eq] at hmasked
  obtain ⟨raw', hraw', hveils'⟩ :=
    Lua.exists_getElem?_of_forall₂ (Lua.forall₂_veils_lines t').flip hmasked
  refine ⟨raw', hraw', hveils'.length_eq.trans hveils.length_eq.symm, ?_⟩
  rw [Lua.lineStart_eq_of_veils (Lua.forall₂_veils_mask t'),
    Lua.lineStart_eq_of_veils (Lua.forall₂_veils_mask t), h.mask_eq]

section Place

variable {α : Type} {find : Recogniser α} {x : Char} (hfind : Guarded find x)
  {t t' raw raw' : List Char} {i j : Nat}
include hfind

/-- What is recognised at the start of a line of code does not depend on what comments say. -/
theorem Guarded.take_eq (h : Reworded t t') (before : Option Char) (n : Nat) :
    find before (t'.take n) = find before (t.take n) := by
  rcases h.eq_or_dash with rfl | ⟨w, r, r', rfl, rfl, hbalanced⟩
  · rfl
  · by_cases hn : n ≤ w.length
    · rw [List.take_append_of_le_length hn, List.take_append_of_le_length hn]
    · -- The line goes on to the dash of the first comment at least.
      obtain ⟨m, rfl⟩ : ∃ m, n = w.length + (m + 1) := ⟨n - w.length - 1, by omega⟩
      rw [List.take_length_add_append, List.take_length_add_append, List.take_succ_cons,
        List.take_succ_cons]
      exact hfind.dash before w hbalanced _ _

/-- **One place.**  What is recognised at a place of code does not depend on what comments say. -/
theorem Guarded.at_eq (h : Reworded t t') (hraw : (splitLines t)[i]? = some raw)
    (hraw' : (splitLines t')[i]? = some raw') (hcode : (Script.ofText t).holdsCode i j = true)
    (hx : raw[j]? = some x) :
    raw'[j]? = some x ∧ (Script.ofText t').holdsCode i j = true ∧
      find.at raw' j = find.at raw j := by
  obtain ⟨raw'', hraw'', hlength, hstart⟩ := exists_line_of_reworded h hraw
  obtain rfl : raw' = raw'' := Option.some.inj (hraw'.symm.trans hraw'')
  have hj : j < raw.length := (List.getElem?_eq_some_iff.1 hx).1
  have hj' : j < raw'.length := hlength ▸ hj
  -- Both texts go on alike from the place, and the masked text, which they share, shows it.
  obtain ⟨hspace, hmask⟩ := (Script.holdsCode_ofText_iff hraw hx).1 hcode
  obtain ⟨hrest, -, -, hbefore⟩ := h.drop hfind.solid hmask
  obtain ⟨-, -, hhead, -⟩ := h.symm.drop hfind.solid (h.mask_eq ▸ hmask)
  have hx' : raw'[j]? = some x := by
    rw [getElem?_line hraw' hj', hstart, ← hhead, List.head?_drop]
  refine ⟨hx', (Script.holdsCode_ofText_iff hraw' hx').2 ⟨hspace, hstart ▸ h.mask_eq ▸ hmask⟩, ?_⟩
  -- The character before the place counts as well: in the first column there is none.
  have hlast : (raw'.take j).getLast? = (raw.take j).getLast? := by
    cases j with
    | zero => rfl
    | succ j =>
      rw [Text.getLast?_take_succ (by omega), Text.getLast?_take_succ (by omega),
        getElem?_line hraw (by omega), getElem?_line hraw' (by omega), hstart]
      exact (hbefore _ rfl).symm
  rw [Recogniser.at, Recogniser.at, hlast, drop_line hraw, drop_line hraw', hstart, hlength]
  exact hfind.take_eq hrest _ _

/-- A find starts with its letter. -/
theorem Guarded.getElem?_start {o : Occurrence α} (ho : o ∈ occurrences find raw) :
    raw[o.start]? = some x := by
  obtain ⟨length, hat, -⟩ := Text.at_of_mem_occurrences ho
  rw [← List.head?_drop]
  exact hfind.head _ _ _ hat

/-- A find that starts in code takes in no place of code where the same could start. -/
theorem Guarded.not_covered (hraw : (splitLines t)[i]? = some raw) {o : Occurrence α}
    (ho : o ∈ occurrences find raw) (hcode : (Script.ofText t).holdsCode i o.start = true)
    (hstart : o.start < j) (hstop : j < o.stop) (hj : (Script.ofText t).holdsCode i j = true) :
    raw[j]? ≠ some x := by
  intro hx
  obtain ⟨length, hat, hend⟩ := Text.at_of_mem_occurrences ho
  have hhead := hfind.getElem?_start ho
  have hmask := ((Script.holdsCode_ofText_iff hraw hhead).1 hcode).2
  have hmaskj := ((Script.holdsCode_ofText_iff hraw hx).1 hj).2
  -- Masking can start where the find does, and the line is the start of what is masked there.
  obtain ⟨-, hdrop, -⟩ := (Reworded.refl t).drop hfind.solid hmask
  obtain ⟨d, rfl⟩ := Nat.exists_eq_add_of_le (Nat.le_of_lt hstart)
  apply hfind.inside _ _ _ _ hat d (by omega) (by omega) (by rw [List.getElem?_drop, hx])
    ((t.drop (lineStart t i + o.start)).drop (raw.length - o.start))
  rw [drop_line hraw, List.take_append_drop, ← hdrop, List.getElem?_drop, Nat.add_assoc, hmaskj]

end Place

/-! ### Calls that are lost -/

/-- The places of code where something is recognised and not found, because an earlier find that
    starts outside code takes the place in. -/
def Script.swallowed {α : Type} (s : Script) (find : Recogniser α) : List (Nat × Nat) :=
  s.lines.zipIdx.flatMap fun (raw, i) =>
    ((List.range raw.length).filter fun j =>
      s.holdsCode i j && (find.at raw j).isSome && (occurrences find raw).any fun o =>
        !s.holdsCode i o.start && (decide (o.start < j) && decide (j < o.stop))).map (i, ·)

theorem Script.mem_swallowed_iff {α : Type} {s : Script} {find : Recogniser α} {i j : Nat} :
    (i, j) ∈ s.swallowed find ↔ ∃ raw, s.lines[i]? = some raw ∧ j < raw.length ∧
      s.holdsCode i j = true ∧ (find.at raw j).isSome ∧
      ∃ o ∈ occurrences find raw, s.holdsCode i o.start = false ∧ o.start < j ∧ j < o.stop := by
  simp only [swallowed, List.mem_flatMap, Prod.exists, List.mem_map, List.mem_filter,
    List.mem_range, List.mk_mem_zipIdx_iff_getElem?, Bool.and_eq_true, List.any_eq_true,
    Bool.not_eq_true', decide_eq_true_eq, Prod.mk.injEq]
  constructor
  · rintro ⟨raw, i, hraw, j, ⟨hj, ⟨hcode, hat⟩, hcover⟩, rfl, rfl⟩
    exact ⟨raw, hraw, hj, hcode, hat, hcover⟩
  · rintro ⟨raw, hraw, hj, hcode, hat, hcover⟩
    exact ⟨raw, i, hraw, j, ⟨hj, ⟨hcode, hat⟩, hcover⟩, rfl, rfl⟩

theorem Script.mem_finds_iff {α : Type} {s : Script} {find : Recogniser α} {i : Nat}
    {o : Occurrence α} : o ∈ s.finds find i ↔
      ∃ raw, s.lines[i]? = some raw ∧ o ∈ occurrences find raw ∧
        s.holdsCode i o.start = true := by
  rw [finds, List.mem_filter]
  cases s.lines[i]? <;> simp

theorem Script.pairwise_finds {α : Type} (s : Script) (find : Recogniser α) (i : Nat) :
    (s.finds find i).Pairwise fun o p => o.start < p.start := by
  apply List.Pairwise.filter
  cases s.lines[i]? with
  | none => exact .nil
  | some raw => exact Text.pairwise_start_occurrences find raw

section Finds

variable {α : Type} {find : Recogniser α} {x : Char} (hfind : Guarded find x) {t t' : List Char}
  (h : Reworded t t')
include hfind h

/-- What is found in code is found in the text with other comments, unless it is lost there. -/
theorem Guarded.mem_finds
    (hlost : ∀ p ∈ (Script.ofText t').swallowed find, p ∈ (Script.ofText t).swallowed find)
    {i : Nat} {o : Occurrence α} (ho : o ∈ (Script.ofText t).finds find i) :
    o ∈ (Script.ofText t').finds find i := by
  obtain ⟨raw, hraw, ho, hcode⟩ := Script.mem_finds_iff.1 ho
  obtain ⟨raw', hraw', hlength, -⟩ := exists_line_of_reworded h hraw
  obtain ⟨length, hat, hstop⟩ := Text.at_of_mem_occurrences ho
  have hhead := hfind.getElem?_start ho
  obtain ⟨hhead', hcode', hat'⟩ := hfind.at_eq h hraw hraw' hcode hhead
  rw [hat] at hat'
  have hlt : o.start < raw'.length := (List.getElem?_eq_some_iff.1 hhead').1
  rcases Text.mem_occurrences_or_covered hlt hat' with hmem | ⟨p, hp, hstart, hcover⟩
  · rw [← hstop] at hmem
    exact Script.mem_finds_iff.2 ⟨raw', hraw', hmem, hcode'⟩
  · -- An earlier find that takes the place in starts outside code, so the place is lost in `t'`.
    cases hpcode : (Script.ofText t').holdsCode i p.start with
    | true => exact absurd hhead' (hfind.not_covered hraw' hp hpcode hstart hcover hcode')
    | false =>
      have hmem : (i, o.start) ∈ (Script.ofText t').swallowed find :=
        Script.mem_swallowed_iff.2
          ⟨raw', hraw', hlt, hcode', by rw [hat']; rfl, p, hp, hpcode, hstart, hcover⟩
      obtain ⟨raw₂, hraw₂, -, -, -, q, hq, -, hqstart, hqstop⟩ :=
        Script.mem_swallowed_iff.1 (hlost _ hmem)
      -- Then it is lost in `t` as well, but there it was found.
      obtain rfl : raw = raw₂ := Option.some.inj (hraw.symm.trans hraw₂)
      have hle := Text.stop_le_of_start_lt hq ho hqstart
      omega

/-- **Finds.**  What is found in code does not depend on what comments say, as long as the same
    places are lost. -/
theorem Guarded.finds_eq
    (hlost : (Script.ofText t).swallowed find = (Script.ofText t').swallowed find) (i : Nat) :
    (Script.ofText t).finds find i = (Script.ofText t').finds find i := by
  have hantisymm : Std.Antisymm fun o p : Occurrence α => o.start < p.start :=
    ⟨fun _ _ hlt hgt => absurd hlt (Nat.lt_asymm hgt)⟩
  have hirrefl : Std.Irrefl fun o p : Occurrence α => o.start < p.start :=
    ⟨fun _ => Nat.lt_irrefl _⟩
  refine (Script.pairwise_finds _ find i).eq_of_mem_iff (Script.pairwise_finds _ find i) ?_
  intro o
  exact ⟨hfind.mem_finds h fun _ hp => hlost ▸ hp, hfind.mem_finds h.symm fun _ hp => hlost ▸ hp⟩

end Finds

/-- Nothing is lost of what stands alone. -/
theorem Single.swallowed_eq_nil {α : Type} {find : Recogniser α} {x : Char}
    (hfind : Single find x) (s : Script) : s.swallowed find = [] := by
  rw [List.eq_nil_iff_forall_not_mem]
  rintro ⟨i, j⟩ hmem
  obtain ⟨raw, -, -, -, hat, o, ho, -, hstart, hstop⟩ := Script.mem_swallowed_iff.1 hmem
  obtain ⟨length, hfound, hend⟩ := Text.at_of_mem_occurrences ho
  obtain ⟨⟨value, taken⟩, hat⟩ := Option.isSome_iff_exists.1 hat
  obtain ⟨u, rest, hdrop, -⟩ := hfind _ _ _ _ hat
  have hne := hfind.getElem?_ne hfound (d := j - o.start) (by omega) (by omega)
  rw [List.getElem?_drop, Nat.add_sub_cancel' (Nat.le_of_lt hstart), ← List.head?_drop,
    hdrop] at hne
  exact hne rfl

/-! ### Reports -/

/-- Reports that depend on the lengths of lines only are the same for lines of the same lengths. -/
theorem flatMap_zipIdx_eq {f g : List Char × Nat → List Diagnostic} {xs ys : List (List Char)}
    (hlength : xs.map List.length = ys.map List.length)
    (hfg : ∀ x y i, x.length = y.length → f (x, i) = g (y, i)) (k : Nat) :
    (xs.zipIdx k).flatMap f = (ys.zipIdx k).flatMap g := by
  -- Both lists are taken apart together, with the index of their first lines left open.
  induction xs generalizing ys k with
  | nil =>
    cases ys with
    | nil => rfl
    | cons y ys => cases hlength
  | cons x xs ih =>
    cases ys with
    | nil => cases hlength
    | cons y ys =>
      obtain ⟨hxy, hlength⟩ := List.cons.inj hlength
      rw [List.zipIdx_cons, List.zipIdx_cons, List.flatMap_cons, List.flatMap_cons, hfg x y k hxy,
        ih hlength]

theorem map_length_splitLines_mask (t : List Char) :
    (splitLines (mask t)).map List.length = (splitLines t).map List.length := by
  rw [← List.forall₂_eq_eq_eq, List.forall₂_map_left_iff, List.forall₂_map_right_iff]
  exact (Lua.forall₂_veils_lines t).flip.imp fun _ _ hraw => hraw.length_eq.symm

/-- The reports of one line, which depend on its length and on finds. -/
theorem eventReportsOn_eq {s s' : Script} (hword : s.finds handlerWord = s'.finds handlerWord)
    (hcomma : s.finds crowdedSource = s'.finds crowdedSource)
    (hcalls : ∀ call ∈ eventCalls, s.finds call = s'.finds call) {raw raw' : List Char}
    (hlength : raw.length = raw'.length) (i : Nat) :
    eventReportsOn s i raw = eventReportsOn s' i raw' := by
  simp only [eventCalls, List.forall_mem_cons] at hcalls
  obtain ⟨hserver, hnet, hhandler, -⟩ := hcalls
  -- A report has the range of its whole line, so the line shows in its length only.
  simp only [eventReportsOn, registrationReports, handlerReports, modernRegister, combineHandler,
    hword, hcomma, hserver, hnet, hhandler, hlength]

/-- Of the reports of one line, those on commas depend on its commas only. -/
theorem filter_eventReportsOn (s : Script) (i : Nat) (raw : List Char) :
    (eventReportsOn s i raw).filter (·.code = "event-style-spacing") =
      (s.finds crowdedSource i).map (crowdedComma i) := by
  have hregistration : ∀ d ∈ registrationReports s i raw, d.code = "event-modern-register" := by
    intro d hd
    unfold registrationReports at hd
    split at hd
    · rw [List.mem_singleton.1 hd]
      rfl
    · cases hd
  have hhandler : ∀ d ∈ handlerReports s i raw, d.code = "event-combine-handler" := by
    intro d hd
    unfold handlerReports at hd
    split at hd
    · split at hd
      · rw [List.mem_singleton.1 hd]
        rfl
      · cases hd
    · cases hd
  have hcomma : ∀ d ∈ (s.finds crowdedSource i).map (crowdedComma i),
      d.code = "event-style-spacing" := by
    intro d hd
    obtain ⟨o, -, rfl⟩ := List.mem_map.1 hd
    rfl
  have hnone : ∀ {ds : List Diagnostic} {code : String}, (∀ d ∈ ds, d.code = code) →
      code ≠ "event-style-spacing" → ds.filter (·.code = "event-style-spacing") = [] := by
    intro ds code hds hcode
    exact List.filter_eq_nil_iff.2 fun d hd => by simpa [hds d hd] using hcode
  rw [eventReportsOn, List.filter_append, List.filter_append, hnone hregistration (by decide),
    hnone hhandler (by decide), List.filter_eq_self.2 fun d hd => by simpa using hcomma d hd]
  rfl

/-- **Comments and the event rules.**  Two texts that differ in what their comments say get the
    same reports on commas.  They get the same reports altogether if the same calls are lost in
    both: calls in code whose start is inside an earlier find, one that starts in a comment or
    string. -/
theorem checkEvents_of_reworded {t t' : List Char} (h : Reworded t t') :
    ∃ found found', checkEvents (.ofText t) = .ok found ∧ checkEvents (.ofText t') = .ok found' ∧
      found.filter (·.code = "event-style-spacing") =
        found'.filter (·.code = "event-style-spacing") ∧
      ((∀ call ∈ eventCalls,
        (Script.ofText t).swallowed call = (Script.ofText t').swallowed call) →
        found = found') := by
  have hlength : (Script.ofText t).lines.map List.length =
      (Script.ofText t').lines.map List.length := by
    show (splitLines t).map List.length = (splitLines t').map List.length
    rw [← map_length_splitLines_mask, h.mask_eq, map_length_splitLines_mask]
  have hcomma : (Script.ofText t).finds crowdedSource = (Script.ofText t').finds crowdedSource := by
    funext i
    apply guarded_crowdedSource.finds_eq h
    rw [single_crowdedSource.swallowed_eq_nil, single_crowdedSource.swallowed_eq_nil]
  have hword : (Script.ofText t).finds handlerWord = (Script.ofText t').finds handlerWord := by
    funext i
    apply guarded_handlerWord.finds_eq h
    rw [single_handlerWord.swallowed_eq_nil, single_handlerWord.swallowed_eq_nil]
  refine ⟨_, _, checkEvents_eq (Script.regular_ofText t), checkEvents_eq (Script.regular_ofText t'),
    ?_, fun hlost => ?_⟩
  · rw [eventReports, eventReports, List.filter_flatMap, List.filter_flatMap]
    apply flatMap_zipIdx_eq hlength
    intro raw raw' i _
    simp only [filter_eventReportsOn, hcomma]
  · have hcalls : ∀ call ∈ eventCalls,
        (Script.ofText t).finds call = (Script.ofText t').finds call := by
      intro call hcall
      obtain ⟨x, hguarded⟩ := exists_guarded_of_mem_eventCalls hcall
      funext i
      exact hguarded.finds_eq h (hlost call hcall) i
    apply flatMap_zipIdx_eq hlength
    intro raw raw' i hraw
    exact eventReportsOn_eq hword hcomma hcalls hraw i

/-! ### A comment before a call -/

/-- A registration and, on the next line, a comment before the handler of its event. -/
def noted (body : List Char) : List Lexeme :=
  "RegisterNetEvent(".toList.map .code ++ .shortString '"' [.plain 'e'] true ::
    ")\n".toList.map .code ++ .blockComment 0 body true ::
    (" AddEventHandler(".toList.map .code ++ .shortString '"' [.plain 'e'] true ::
      ", f)".toList.map .code)

/-- The text of these lexemes. -/
def notedText (body : List Char) : List Char := (noted body).flatMap Lexeme.chars

/-- A call inside the comment, which ends there, hides nothing: the two lines are reported. -/
theorem checkEvents_of_reworded_call : ∃ found, found ≠ [] ∧
    checkEvents (.ofText (notedText " AddEventHandler(\"e\") ".toList)) = .ok found ∧
    checkEvents (.ofText (notedText " can be put together. ".toList)) = .ok found := by
  have hlexes : Lexes (notedText " AddEventHandler(\"e\") ".toList)
      (noted " AddEventHandler(\"e\") ".toList) := by decide +kernel
  have hlexes' : Lexes (notedText " can be put together. ".toList)
      (noted " can be put together. ".toList) := by decide +kernel
  obtain ⟨found, found', hcheck, hcheck', -, heq⟩ :=
    checkEvents_of_reworded (Lua.reworded_of_block hlexes hlexes' (by decide))
  obtain rfl := heq (by decide +kernel)
  refine ⟨found, ?_, hcheck, hcheck'⟩
  rintro rfl
  exact absurd hcheck (by decide +kernel)

/-- A call inside the comment that is not closed hides the handler: what the comment says shows in
    the reports. -/
theorem not_all_reworded_checkEvents_eq : ¬ ∀ t t', Reworded t t' →
    checkEvents (.ofText t) = checkEvents (.ofText t') := by
  intro h
  have hlexes : Lexes (notedText " AddEventHandler(' ".toList)
      (noted " AddEventHandler(' ".toList) := by decide +kernel
  have hlexes' : Lexes (notedText " AddEventHandler(  ".toList)
      (noted " AddEventHandler(  ".toList) := by decide +kernel
  exact absurd (h _ _ (Lua.reworded_of_block hlexes hlexes' (by decide))) (by decide +kernel)

end LuaAudit.Lint
