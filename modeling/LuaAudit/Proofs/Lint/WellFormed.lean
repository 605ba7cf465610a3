import LuaAudit.Proofs.Lint.Find
import LuaAudit.Proofs.Lua.Name

/-!
# Well-formed reports

A report marks some columns of one written line.  The rules find these columns in different ways,
most of them in the masked line, and a masked word stands in the written line too, since masking
leaves nothing but spaces of what it changes.

* `Diagnostic.Fits`: a report marks columns of its line, and marks the word that it names;
* `Block`: the reports for one line, no two of them alike;
* `ReportsFrom`: reports line by line, which one line after the other builds up;
* `reportsFrom_of_mem_passes`: what every pass reports.
-/

namespace LuaAudit.Lint

open List (Forall₂)
open Lua (Veils IsName)
open Text (occurrences isBlank)

/-! ### One report -/

/-- The line of a report. -/
def Diagnostic.line (d : Diagnostic) : Nat := d.range.start.line

/-- The lines of a script are numbered downwards. -/
theorem pairwise_zipIdx (lines : List (List Char)) :
    lines.zipIdx.Pairwise fun x y => x.2 < y.2 := by
  have hindices : (lines.zipIdx.map Prod.snd).Pairwise (· < ·) := by
    rw [List.zipIdx_map_snd]
    exact List.pairwise_lt_range'
  exact List.pairwise_map.1 hindices

/-- What tells reports apart. -/
def Diagnostic.key (d : Diagnostic) : String × Range := (d.code, d.range)

/-- The characters of a line that a report marks. -/
def Diagnostic.marked (d : Diagnostic) (raw : List Char) : List Char :=
  (raw.take d.range.stop.character).drop d.range.start.character

/-- A report marks at least one column of line `i`, which holds `raw`, and only columns of it. -/
structure Diagnostic.StandsOn (d : Diagnostic) (i : Nat) (raw : List Char) : Prop where
  start_line : d.range.start.line = i
  stop_line : d.range.stop.line = i
  start_lt_stop : d.range.start.character < d.range.stop.character
  stop_le : d.range.stop.character ≤ raw.length

theorem standsOn_of_onLine {d : Diagnostic} {i first last : Nat} {raw : List Char}
    (hrange : d.range = .onLine i first last) (hlt : first < last) (hle : last ≤ raw.length) :
    d.StandsOn i raw := by
  constructor <;> rw [hrange]
  exacts [rfl, rfl, hlt, hle]

/-- The codes of reports about a word. -/
def IsWordCode (code : String) : Prop :=
  code = "global-variable-leak" ∨ code = "local-function-before-declaration" ∨
    "deprecated-".toList <+: code.toList ∨ "legacy-".toList <+: code.toList

instance (code : String) : Decidable (IsWordCode code) :=
  inferInstanceAs (Decidable (_ ∨ _ ∨ _ ∨ _))

/-- A report is about a word: the name in its message, or the phrase that its rule looks for. -/
def Diagnostic.Names (d : Diagnostic) (word : List Char) : Prop :=
  (d.code = "global-variable-leak" ∧ IsName word ∧ d.message =
    s!"Potential global variable '{String.ofList word}' detected. Consider using 'local'.") ∨
  (d.code = "local-function-before-declaration" ∧ IsName word ∧ ∃ line : Nat, d.message =
    s!"Local function '{String.ofList word}' is used before it's declared " ++
      s!"(declared on line {line}). This will cause a runtime error.") ∨
  ∃ rule ∈ deprecatedCalls ++ legacyNames,
    d.code = rule.code ∧ d.message = rule.message ∧ word = rule.phrase.toList

/-- A report with one of some codes stands on its line, and marks the word that it is about. -/
structure Diagnostic.Fits (d : Diagnostic) (codes : List String) (i : Nat) (raw : List Char) :
    Prop where
  code_mem : d.code ∈ codes
  stands : d.StandsOn i raw
  names : IsWordCode d.code → d.Names (d.marked raw)

/-- A report of a find with a code that is about no word. -/
theorem fits_of_find {α : Type} {find : Text.Recogniser α} (hfind : find.Fits) {d : Diagnostic}
    {codes : List String} (hmem : d.code ∈ codes) (hcode : ¬ IsWordCode d.code) {i : Nat}
    {raw line : List Char} (hlength : raw.length = line.length) {o : Text.Occurrence α}
    (ho : o ∈ occurrences find line) (hrange : d.range = .onLine i o.start o.stop) :
    d.Fits codes i raw := by
  obtain ⟨hlt, hle⟩ := hfind.within ho
  rw [← hlength] at hle
  exact ⟨hmem, standsOn_of_onLine hrange hlt hle, fun h => absurd h hcode⟩

/-- A report of a word in the masked line. -/
theorem fits_of_word {d : Diagnostic} {codes : List String} (hmem : d.code ∈ codes) {i : Nat}
    {raw masked word : List Char} (hveils : Forall₂ Veils raw masked) {first : Nat}
    (hword : word <+: masked.drop first) (hne : word ≠ []) (hspace : ' ' ∉ word)
    (hrange : d.range = .onLine i first (first + word.length)) (hnames : d.Names word) :
    d.Fits codes i raw := by
  obtain ⟨hle, hmarked⟩ := Lua.eq_word_of_veils hveils hword hne hspace
  have hpos := List.length_pos_iff.2 hne
  refine ⟨hmem, standsOn_of_onLine hrange (by omega) hle, fun _ => ?_⟩
  rw [Diagnostic.marked, hrange]
  show d.Names ((raw.take (first + word.length)).drop first)
  rwa [hmarked]

/-! ### The reports for one line -/

/-- Reports for line `i`, no two of them alike. -/
structure Block (codes : List String) (i : Nat) (raw : List Char) (ds : List Diagnostic) :
    Prop where
  fits : ∀ d ∈ ds, d.Fits codes i raw
  distinct : ds.Pairwise fun d e => d.key ≠ e.key

/-- Reports that start at different columns are not alike. -/
theorem key_ne_of_start {d e : Diagnostic} {i first last first' last' : Nat}
    (hd : d.range = .onLine i first last) (he : e.range = .onLine i first' last')
    (hne : first ≠ first') : d.key ≠ e.key := by
  intro hkey
  have hrange : d.range = e.range := (Prod.mk.inj hkey).2
  rw [hd, he] at hrange
  exact hne (congrArg (fun r => r.start.character) hrange)

theorem key_ne_of_code {d e : Diagnostic} (hne : d.code ≠ e.code) : d.key ≠ e.key := fun hkey =>
  hne (Prod.mk.inj hkey).1

/-- Blocks with different codes make one block. -/
theorem Block.append {codes codes' : List String} {i : Nat} {raw : List Char}
    {ds ds' : List Diagnostic} (h : Block codes i raw ds) (h' : Block codes' i raw ds')
    (hdisjoint : ∀ code ∈ codes, code ∉ codes') : Block (codes ++ codes') i raw (ds ++ ds') := by
  constructor
  · intro d hd
    rcases List.mem_append.1 hd with hd | hd
    · obtain ⟨hmem, hstands, hnames⟩ := h.fits d hd
      exact ⟨List.mem_append_left _ hmem, hstands, hnames⟩
    · obtain ⟨hmem, hstands, hnames⟩ := h'.fits d hd
      exact ⟨List.mem_append_right _ hmem, hstands, hnames⟩
  · refine List.pairwise_append.2 ⟨h.distinct, h'.distinct, fun d hd e he => key_ne_of_code ?_⟩
    intro heq
    exact hdisjoint _ (h.fits d hd).code_mem (heq ▸ (h'.fits e he).code_mem)

/-- A line has at most one loop report. -/
theorem block_loop {rule : LoopRule} (hopener : rule.opener.Fits) (hcode : ¬ IsWordCode rule.code)
    {raw masked : List Char} (hveils : Forall₂ Veils raw masked) (names : List (List Char))
    (lines : List (List Char)) (i : Nat) :
    Block [rule.code] i raw (rule.checkLine names lines i masked).toList := by
  cases hcheck : rule.checkLine names lines i masked with
  | none => exact ⟨by simp, .nil⟩
  | some d =>
    refine ⟨fun e he => ?_, List.pairwise_singleton _ _⟩
    obtain rfl : e = d := by simpa using he
    simp only [LoopRule.checkLine, Option.bind_eq_bind, Option.bind_eq_some_iff] at hcheck
    obtain ⟨opener, hfind, stop, -, hcheck⟩ := hcheck
    split at hcheck
    · cases hcheck
    · obtain rfl := Option.some.inj hcheck
      exact fits_of_find hopener (by simp) hcode hveils.length_eq (List.mem_of_head? hfind) rfl

/-- No phrase of the two tables is empty or holds a space. -/
theorem phrase_solid : ∀ rule ∈ deprecatedCalls ++ legacyNames,
    rule.phrase.toList ≠ [] ∧ ' ' ∉ rule.phrase.toList := by decide

/-- The phrases of a table on a line: finds of one rule start at different columns, and the rules
    have different codes. -/
theorem block_phrases {rules : List PhraseRule} (htable : rules ⊆ deprecatedCalls ++ legacyNames)
    (hcodes : rules.Pairwise fun rule rule' => rule.code ≠ rule'.code) {raw masked : List Char}
    (hveils : Forall₂ Veils raw masked) (i : Nat) :
    Block (rules.map (·.code)) i raw (checkPhrasesOn rules i masked) := by
  constructor
  · intro d hd
    obtain ⟨rule, hrule, hd⟩ := List.mem_flatMap.1 hd
    obtain ⟨o, ho, rfl⟩ := List.mem_map.1 hd
    obtain ⟨hne, hspace⟩ := phrase_solid rule (htable hrule)
    obtain ⟨before, length, hfind, hstop⟩ := Text.recognised_of_mem_occurrences ho
    unfold phraseAt at hfind
    split at hfind
    next hlead =>
      have hlength : rule.phrase.toList.length = length := (Prod.mk.inj (Option.some.inj hfind)).2
      have hrange : (rule.report i o).range =
          .onLine i o.start (o.start + rule.phrase.toList.length) := by
        rw [hlength, ← hstop]
        rfl
      exact fits_of_word (List.mem_map.2 ⟨rule, hrule, rfl⟩) hveils
        (List.isPrefixOf_iff_prefix.1 hlead) hne hspace hrange
        (.inr (.inr ⟨rule, htable hrule, rfl, rfl, rfl⟩))
    · cases hfind
  · rw [checkPhrasesOn, List.pairwise_flatMap]
    constructor
    · intro rule _
      rw [List.pairwise_map]
      exact (Text.pairwise_start_occurrences _ _).imp fun h =>
        key_ne_of_start rfl rfl (Nat.ne_of_lt h)
    · refine hcodes.imp fun {rule rule'} hne d hd e he => key_ne_of_code ?_
      obtain ⟨o, -, rfl⟩ := List.mem_map.1 hd
      obtain ⟨o', -, rfl⟩ := List.mem_map.1 he
      exact hne

/-- A call starts with a name. -/
theorem name_of_bareCall {before : Option Char} {cs name : List Char} {length : Nat}
    (h : bareCall before cs = some (name, length)) : IsName name ∧ name <+: cs := by
  unfold bareCall at h
  split at h
  · cases h
  · simp only [Option.bind_eq_bind, Option.bind_eq_some_iff] at h
    obtain ⟨⟨word, rest⟩, hname, h⟩ := h
    split at h
    · obtain ⟨hisName, heq⟩ := Lua.name_of_name? hname
      obtain rfl : word = name := (Prod.mk.inj (Option.some.inj h)).1
      exact ⟨hisName, heq ▸ List.prefix_append _ _⟩
    · cases h

/-- The early calls on a line are picked from its bare calls. -/
theorem exists_pick_checkOrderOn (found : OrderedMap (List Char) Nat) (i : Nat)
    (masked : List Char) :
    ∃ pick : Text.Occurrence (List Char) → Option Diagnostic,
      (∀ o d, pick o = some d → ∃ declared, earlyCall i declared o = d) ∧
      checkOrderOn found i masked = (Text.occurrences bareCall masked).filterMap pick := by
  unfold checkOrderOn
  split
  · exact ⟨fun _ => none, by simp, by simp⟩
  · refine ⟨_, fun o d h => ?_, rfl⟩
    split at h
    next declared _ =>
      split at h
      · exact ⟨declared, Option.some.inj h⟩
      · cases h
    · cases h

/-- The early calls on a line. -/
theorem block_order (found : OrderedMap (List Char) Nat) {raw masked : List Char}
    (hveils : Forall₂ Veils raw masked) (i : Nat) :
    Block ["local-function-before-declaration"] i raw (checkOrderOn found i masked) := by
  obtain ⟨pick, hpick, hcheck⟩ := exists_pick_checkOrderOn found i masked
  rw [hcheck]
  constructor
  · intro d hd
    obtain ⟨o, ho, h⟩ := List.mem_filterMap.1 hd
    obtain ⟨declared, rfl⟩ := hpick o d h
    obtain ⟨before, length, hfind, -⟩ := Text.recognised_of_mem_occurrences ho
    obtain ⟨hname, hlead⟩ := name_of_bareCall hfind
    exact fits_of_word (List.mem_singleton.2 rfl) hveils hlead hname.ne_nil hname.space_notMem rfl
      (.inr (.inl ⟨rfl, hname, declared + 1, rfl⟩))
  · refine (Text.pairwise_start_occurrences _ _).filterMap _ fun o o' hlt d hd e he => ?_
    obtain ⟨declared, rfl⟩ := hpick o d hd
    obtain ⟨declared', rfl⟩ := hpick o' e he
    exact key_ne_of_start rfl rfl (Nat.ne_of_lt hlt)

/-- A leaked name stands behind the blanks that the line starts with. -/
theorem name_of_step {exceptions : List (List Char)} {s next : Leaks} {masked name : List Char}
    (h : s.step exceptions masked = (next, some name)) :
    IsName name ∧ name <+: masked.drop (Text.countWhile isBlank masked) := by
  -- Only a line that starts with an assigned name leaks one.
  have hassigned : assignedName? (Text.trim masked) = some name := by
    unfold Leaks.step at h
    dsimp only at h
    split at h
    · cases h
    · split at h
      · cases h
      · split at h
        next name' hname =>
          split at h
          · obtain rfl : name' = name := Option.some.inj (Prod.mk.inj h).2
            exact hname
          · cases h
        · cases h
  unfold assignedName? at hassigned
  split at hassigned
  next word rest hname =>
    obtain ⟨hisName, heq⟩ := Lua.name_of_name? hname
    obtain rfl : word = name := by
      split at hassigned
      · split at hassigned
        · cases hassigned
        · exact Option.some.inj hassigned
      · cases hassigned
    have hlead : word <+: Text.trim masked := heq ▸ List.prefix_append _ _
    rw [Text.drop_countWhile]
    exact ⟨hisName, hlead.trans (Text.trim_prefix_trimStart masked)⟩
  · cases hassigned

/-- A line has at most one leak. -/
theorem block_leak {exceptions : List (List Char)} {s next : Leaks} {raw masked name : List Char}
    (hveils : Forall₂ Veils raw masked) (i : Nat)
    (h : s.step exceptions masked = (next, some name)) :
    Block ["global-variable-leak"] i raw [leakDiagnostic i masked name] := by
  refine ⟨fun d hd => ?_, List.pairwise_singleton _ _⟩
  obtain rfl := List.mem_singleton.1 hd
  obtain ⟨hname, hlead⟩ := name_of_step h
  exact fits_of_word (List.mem_singleton.2 rfl) hveils hlead hname.ne_nil hname.space_notMem rfl
    (.inl ⟨rfl, hname, rfl⟩)

/-- A report that marks a whole line, on which there is a find. -/
theorem block_whole_line {α : Type} {find : Text.Recogniser α} {s : Script} {d : Diagnostic}
    (hcode : ¬ IsWordCode d.code) {i : Nat} {raw : List Char} (hraw : s.lines[i]? = some raw)
    (hrange : d.range = .onLine i 0 raw.length) {o : Text.Occurrence α}
    (ho : (s.finds find i).head? = some o) : Block [d.code] i raw [d] := by
  refine ⟨fun e he => ?_, List.pairwise_singleton _ _⟩
  obtain rfl := List.mem_singleton.1 he
  have hfind := (List.mem_filter.1 (List.mem_of_head? ho)).1
  rw [hraw, Option.map_some, Option.getD_some] at hfind
  have hpos := start_lt_of_mem_occurrences hfind
  have hstands := standsOn_of_onLine hrange (by omega : 0 < raw.length) (Nat.le_refl _)
  exact ⟨List.mem_singleton.2 rfl, hstands, fun h => absurd h hcode⟩

theorem block_nil (codes : List String) (i : Nat) (raw : List Char) : Block codes i raw [] :=
  ⟨by simp, .nil⟩

/-- The crowded commas of a line. -/
theorem block_commas {s : Script} {i : Nat} {raw : List Char} (hraw : s.lines[i]? = some raw) :
    Block ["event-style-spacing"] i raw ((s.finds crowdedSource i).map (crowdedComma i)) := by
  have hfinds : (s.finds crowdedSource i).Sublist (occurrences crowdedSource raw) := by
    rw [Script.finds, hraw, Option.map_some, Option.getD_some]
    exact List.filter_sublist
  constructor
  · intro d hd
    obtain ⟨o, ho, rfl⟩ := List.mem_map.1 hd
    exact fits_of_find fits_crowdedSource (List.mem_singleton.2 rfl)
      (by simp [crowdedComma, IsWordCode]) rfl (hfinds.subset ho) rfl
  · rw [List.pairwise_map]
    exact ((Text.pairwise_start_occurrences _ _).sublist hfinds).imp fun h =>
      key_ne_of_start rfl rfl (Nat.ne_of_lt h)

/-- The codes of the event reports. -/
def eventCodes : List String :=
  ["event-modern-register"] ++ ["event-combine-handler"] ++ ["event-style-spacing"]

/-- The event reports for a line. -/
theorem block_events {s : Script} {i : Nat} {raw : List Char} (hraw : s.lines[i]? = some raw) :
    Block eventCodes i raw (eventReportsOn s i raw) := by
  have hregistration : Block ["event-modern-register"] i raw (registrationReports s i raw) := by
    unfold registrationReports
    split
    next o hfind _ =>
      have hcode : ¬ IsWordCode "event-modern-register" := by decide
      exact block_whole_line (d := modernRegister i raw) hcode hraw rfl hfind
    · exact block_nil _ _ _
  have hhandler : Block ["event-combine-handler"] i raw (handlerReports s i raw) := by
    unfold handlerReports
    split
    next o hfind =>
      have hcode : ¬ IsWordCode "event-combine-handler" := by decide
      split
      · exact block_whole_line (d := combineHandler i raw o.value) hcode hraw rfl hfind
      · exact block_nil _ _ _
    · exact block_nil _ _ _
  exact (hregistration.append hhandler (by decide)).append (block_commas hraw) (by decide)

/-! ### Reports line by line -/

/-- Reports for the lines from `i` on, in their order, no two of them alike. -/
structure ReportsFrom (codes : List String) (s : Script) (i : Nat) (ds : List Diagnostic) :
    Prop where
  fits : ∀ d ∈ ds, i ≤ d.line ∧ ∃ raw, s.lines[d.line]? = some raw ∧ d.Fits codes d.line raw
  ordered : ds.Pairwise fun d e => d.line ≤ e.line ∧ d.key ≠ e.key

theorem reportsFrom_nil (codes : List String) (s : Script) (i : Nat) : ReportsFrom codes s i [] :=
  ⟨by simp, .nil⟩

/-- **One line.**  The reports for a line go before those for the lines after it. -/
theorem ReportsFrom.append {codes : List String} {s : Script} {i : Nat} {raw : List Char}
    {block ds : List Diagnostic} (hraw : s.lines[i]? = some raw) (hblock : Block codes i raw block)
    (h : ReportsFrom codes s (i + 1) ds) : ReportsFrom codes s i (block ++ ds) := by
  have hline : ∀ d ∈ block, d.line = i := fun d hd => (hblock.fits d hd).stands.start_line
  constructor
  · intro d hd
    rcases List.mem_append.1 hd with hd | hd
    · rw [hline d hd]
      exact ⟨Nat.le_refl i, raw, hraw, hblock.fits d hd⟩
    · obtain ⟨hle, hfits⟩ := h.fits d hd
      exact ⟨by omega, hfits⟩
  · refine List.pairwise_append.2 ⟨?_, h.ordered, fun d hd e he => ?_⟩
    · refine hblock.distinct.imp_of_mem fun hd he hkey => ⟨?_, hkey⟩
      rw [hline _ hd, hline _ he]
    · -- A report for a later line has another range.
      have hlt : d.line < e.line := by
        rw [hline d hd]
        exact (h.fits e he).1
      refine ⟨Nat.le_of_lt hlt, fun hkey => ?_⟩
      have hrange : d.range = e.range := (Prod.mk.inj hkey).2
      rw [Diagnostic.line, Diagnostic.line, hrange] at hlt
      exact Nat.lt_irrefl _ hlt

/-- A rule that looks at each line makes reports line by line. -/
theorem reportsFrom_flatMap {codes : List String} {s : Script}
    {f : List Char × Nat → List Diagnostic} {lines : List (List Char)} {i : Nat}
    (h : ∀ k line, lines[k]? = some line →
      ∃ raw, s.lines[i + k]? = some raw ∧ Block codes (i + k) raw (f (line, i + k))) :
    ReportsFrom codes s i ((lines.zipIdx i).flatMap f) := by
  induction lines generalizing i with
  | nil => exact reportsFrom_nil codes s i
  | cons line lines ih =>
    obtain ⟨raw, hraw, hblock⟩ := h 0 line rfl
    rw [List.zipIdx_cons, List.flatMap_cons]
    refine ReportsFrom.append hraw hblock (ih fun k line' hline => ?_)
    rw [Nat.add_right_comm, Nat.add_assoc]
    exact h (k + 1) line' hline

/-- The leaks of a script, line by line; what is remembered between lines does not matter. -/
theorem reportsFrom_leaks {exceptions : List (List Char)} {s : Script} {lines : List (List Char)}
    {i : Nat} (state : Leaks)
    (h : ∀ k line, lines[k]? = some line → ∃ raw, s.lines[i + k]? = some raw ∧
      Forall₂ Veils raw line) :
    ReportsFrom ["global-variable-leak"] s i (leaksFrom exceptions i state lines) := by
  induction lines generalizing i state with
  | nil => exact reportsFrom_nil _ s i
  | cons line lines ih =>
    obtain ⟨raw, hraw, hveils⟩ := h 0 line rfl
    have hlater : ∀ k line', lines[k]? = some line' →
        ∃ raw, s.lines[i + 1 + k]? = some raw ∧ Forall₂ Veils raw line' := by
      intro k line' hline
      rw [Nat.add_right_comm, Nat.add_assoc]
      exact h (k + 1) line' hline
    rw [leaksFrom]
    split
    next next name hstep =>
      exact ReportsFrom.append hraw (block_leak hveils i hstep) (ih next hlater)
    next next hstep =>
      exact ReportsFrom.append hraw (block_nil _ i raw) (ih next hlater)

/-! ### The reports of a pass -/

/-- A masked line of a text is a written line, veiled. -/
theorem Script.exists_line_ofText {t masked : List Char} {i : Nat}
    (h : (ofText t).masked[i]? = some masked) :
    ∃ raw, (ofText t).lines[i]? = some raw ∧ Forall₂ Veils raw masked := by
  have hflip : Forall₂ (flip (Forall₂ Veils)) (ofText t).masked (ofText t).lines :=
    (Lua.forall₂_veils_lines t).flip
  exact Lua.exists_getElem?_of_forall₂ hflip h

/-- The codes of the reports of a pass, by its name. -/
def codesOf : (name : String) → List String
  | "while-loop" => [LoopRule.while.code]
  | "repeat-loop" => [LoopRule.repeat.code]
  | "global-variable" => ["global-variable-leak"]
  | "deprecated-api" => deprecatedCalls.map (·.code)
  | "net-event" => eventCodes
  | "legacy-api" => legacyNames.map (·.code)
  | "function-order" => ["local-function-before-declaration"]
  | _ => []

section OfText

variable (t : List Char)

theorem reportsFrom_loop {rule : LoopRule} (hopener : rule.opener.Fits)
    (hcode : ¬ IsWordCode rule.code) (names : List (List Char)) :
    ReportsFrom [rule.code] (.ofText t) 0 (rule.check names (.ofText t)) := by
  rw [LoopRule.check, List.filterMap_eq_flatMap_toList]
  refine reportsFrom_flatMap fun k line hline => ?_
  rw [Nat.zero_add]
  obtain ⟨raw, hraw, hveils⟩ := Script.exists_line_ofText hline
  exact ⟨raw, hraw, block_loop hopener hcode hveils names _ k⟩

theorem reportsFrom_phrases {rules : List PhraseRule}
    (htable : rules ⊆ deprecatedCalls ++ legacyNames)
    (hcodes : rules.Pairwise fun rule rule' => rule.code ≠ rule'.code) :
    ReportsFrom (rules.map (·.code)) (.ofText t) 0 (checkPhrases rules (.ofText t)) := by
  refine reportsFrom_flatMap fun k line hline => ?_
  rw [Nat.zero_add]
  obtain ⟨raw, hraw, hveils⟩ := Script.exists_line_ofText hline
  exact ⟨raw, hraw, block_phrases htable hcodes hveils k⟩

theorem reportsFrom_order :
    ReportsFrom ["local-function-before-declaration"] (.ofText t) 0 (checkOrder (.ofText t)) := by
  refine reportsFrom_flatMap fun k line hline => ?_
  rw [Nat.zero_add]
  obtain ⟨raw, hraw, hveils⟩ := Script.exists_line_ofText hline
  exact ⟨raw, hraw, block_order _ hveils k⟩

theorem reportsFrom_events : ReportsFrom eventCodes (.ofText t) 0 (eventReports (.ofText t)) := by
  refine reportsFrom_flatMap fun k line hline => ?_
  rw [Nat.zero_add]
  exact ⟨line, hline, block_events hline⟩

/-- **Every pass** makes its reports line by line. -/
theorem reportsFrom_of_mem_passes {p : Pass} (hp : p ∈ passes) (settings : Settings) :
    ReportsFrom (codesOf p.name) (.ofText t) 0 (p.reports settings (.ofText t)) := by
  simp only [passes, List.mem_cons, List.not_mem_nil, or_false] at hp
  rcases hp with rfl | rfl | rfl | rfl | rfl | rfl | rfl
  · exact reportsFrom_loop t fits_whileOpener (by decide) _
  · exact reportsFrom_loop t fits_repeatOpener (by decide) _
  · exact reportsFrom_leaks {} fun k line hline => by
      rw [Nat.zero_add]
      exact Script.exists_line_ofText hline
  · exact reportsFrom_phrases t (List.subset_append_left _ _) (by decide)
  · simp only [Pass.reports, checkEvents_eq (Script.regular_ofText t)]
    exact reportsFrom_events t
  · exact reportsFrom_phrases t (List.subset_append_right _ _) (by decide)
  · exact reportsFrom_order t

end OfText

/-- No two passes share a code. -/
theorem pairwise_codesOf_passes :
    passes.Pairwise fun p q => ∀ code ∈ codesOf p.name, code ∉ codesOf q.name := by
  decide

/-! ### The reports of a run -/

/-- **Well-formed reports.**  On every text and under all settings the passes run to their end.
    Each report marks at least one column of one written line and nothing outside it; a report about
    a word marks that word as it is written; no two reports have both code and range in common; and
    each pass makes its reports in the order of their lines. -/
theorem reports_wellFormed (t : List Char) (settings : Settings) :
    (∃ found, runPasses settings (.ofText t) = .ok found ∧
      (∀ d ∈ found, ∃ i raw, (Text.splitLines t)[i]? = some raw ∧ d.StandsOn i raw ∧
        (IsWordCode d.code → d.Names (d.marked raw))) ∧
      (found.map Diagnostic.key).Nodup) ∧
    ∀ p ∈ passes, ∃ found, p.check settings (.ofText t) = .ok found ∧
      found.Pairwise fun d e => d.line ≤ e.line := by
  have hregular := Script.regular_ofText t
  have hreports : ∀ p ∈ passes,
      ReportsFrom (codesOf p.name) (.ofText t) 0 (p.reports settings (.ofText t)) :=
    fun p hp => reportsFrom_of_mem_passes t hp settings
  have henabled : ∀ p ∈ enabledPasses settings, p ∈ passes := fun p hp => (List.mem_filter.1 hp).1
  refine ⟨⟨_, runPasses_eq settings hregular, ?_, ?_⟩, ?_⟩
  · intro d hd
    obtain ⟨p, hp, hd⟩ := List.mem_flatMap.1 hd
    obtain ⟨-, raw, hraw, hfits⟩ := (hreports p (henabled p hp)).fits d hd
    exact ⟨d.line, raw, hraw, hfits.stands, hfits.names⟩
  · rw [List.nodup_iff_pairwise_ne, List.pairwise_map, List.pairwise_flatMap]
    constructor
    · intro p hp
      exact (hreports p (henabled p hp)).ordered.imp fun h => h.2
    · -- Reports of two passes have different codes.
      have hcodes := pairwise_codesOf_passes.filter fun p => settings.flag p.toggle
      refine hcodes.imp_of_mem fun {p q} hp hq hdisjoint d hd e he => key_ne_of_code fun heq => ?_
      obtain ⟨-, _, -, hfits⟩ := (hreports p (henabled p hp)).fits d hd
      obtain ⟨-, _, -, hfits'⟩ := (hreports q (henabled q hq)).fits e he
      exact hdisjoint _ hfits.code_mem (heq ▸ hfits'.code_mem)
  · intro p hp
    exact ⟨_, p.check_eq hp settings hregular, (hreports p hp).ordered.imp fun h => h.1⟩

end LuaAudit.Lint
