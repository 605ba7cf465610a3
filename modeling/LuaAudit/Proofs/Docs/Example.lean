import LuaAudit.Docs.Comment
import LuaAudit.Proofs.Text.Case
import LuaAudit.Proofs.Text.Read

/-!
# Examples cut out of a comment

Examples are collected in one pass, with the lines of an open example as the only memory.  Here the
comment is first cut into stretches, by what its lines are and not by what was read before them.

* `Announces`, `Annotates` and `EndsExample`: the lines that start and end examples;
* `Stretch.Leads s rest`: `s` is the stretch at the start of its own lines followed by `rest`;
* `Cut lines ss`: the stretches `ss`, one after the other, make up the comment;
* `exists_cut` and `Cut.unique`: every comment is cut in exactly one way;
* `Cut.splitFrom_eq`: the pass collects the segments and leaves the lines between them;
* `examples_cut`: what that means for the parts of a comment.
-/

namespace LuaAudit.Docs.Comment

/-! ### Lines -/

/-- A line that has the word, in any letter case. -/
def Announces (line : List Char) : Prop :=
  ∃ word, word <:+: line ∧ word.map Char.toLower = "example".toList

/-- A line that starts with the sign of annotations. -/
def Annotates (line : List Char) : Prop := ['@'] <+: line

/-- A line that an example before it does not run past. -/
def EndsExample (line : List Char) : Prop := Announces line ∨ Annotates line

theorem isExampleMark_iff (line : List Char) : isExampleMark line = true ↔ Announces line := by
  have hall : "example".toList.all (Text.IsPlainSmall ·) = true := by decide
  have hplain : ∀ c ∈ "example".toList, Text.IsPlainSmall c := fun c hc =>
    of_decide_eq_true (List.all_eq_true.1 hall c hc)
  rw [isExampleMark, Text.containsText_iff, Text.infix_toLower_iff hplain (by decide)]
  rfl

theorem isTagLine_iff (line : List Char) : isTagLine line = true ↔ Annotates line := by
  cases line with
  | nil => simp [isTagLine, Annotates]
  | cons c line =>
    rw [isTagLine, Annotates, List.head?_cons, beq_iff_eq, Option.some.injEq, List.cons_prefix_cons,
      eq_comm]
    exact (and_iff_left (List.nil_prefix ..)).symm

instance (line : List Char) : Decidable (Announces line) :=
  decidable_of_iff _ (isExampleMark_iff line)

instance (line : List Char) : Decidable (Annotates line) :=
  decidable_of_iff _ (isTagLine_iff line)

instance (line : List Char) : Decidable (EndsExample line) :=
  inferInstanceAs (Decidable (_ ∨ _))

/-! ### Stretches -/

/-- A part of a comment: an example with the line that announces it, or a line outside of
    examples. -/
inductive Stretch where
  | segment (mark : List Char) (body : List (List Char))
  | loose (line : List Char)

namespace Stretch

/-- The lines of a stretch. -/
def lines : Stretch → List (List Char)
  | .segment mark body => mark :: body
  | .loose line => [line]

/-- The lines of an example, without the one that announces it. -/
def body? : Stretch → Option (List (List Char))
  | .segment _ body => some body
  | .loose _ => none

/-- The line outside of examples. -/
def loose? : Stretch → Option (List Char)
  | .segment _ _ => none
  | .loose line => some line

/-- A stretch is the one at the start of the lines that it makes with `rest`.  A segment runs up to
    the next line that announces an example or annotates, or to the end. -/
def Leads : Stretch → (rest : List (List Char)) → Prop
  | .segment mark body, rest =>
    Announces mark ∧ (∀ line ∈ body, ¬ EndsExample line) ∧ ∀ next ∈ rest.head?, EndsExample next
  | .loose line, _ => ¬ Announces line

end Stretch

/-- A comment read from its first line to its last as a list of stretches. -/
inductive Cut : List (List Char) → List Stretch → Prop where
  | nil : Cut [] []
  | cons {s : Stretch} {rest : List (List Char)} {ss : List Stretch} (lead : s.Leads rest)
      (more : Cut rest ss) : Cut (s.lines ++ rest) (s :: ss)

/-! ### Every comment is cut in one way -/

/-- A segment ends somewhere. -/
theorem exists_segmentEnd (lines : List (List Char)) :
    ∃ body rest, lines = body ++ rest ∧ (∀ line ∈ body, ¬ EndsExample line) ∧
      ∀ next ∈ rest.head?, EndsExample next := by
  induction lines with
  | nil => exact ⟨[], [], rfl, by simp, by simp⟩
  | cons line lines ih =>
    by_cases hline : EndsExample line
    · exact ⟨[], line :: lines, rfl, by simp, by simpa using hline⟩
    · obtain ⟨body, rest, rfl, hbody, hrest⟩ := ih
      exact ⟨line :: body, rest, rfl, List.forall_mem_cons.2 ⟨hline, hbody⟩, hrest⟩

/-- Every comment can be cut. -/
theorem exists_cut (lines : List (List Char)) : ∃ ss, Cut lines ss := by
  -- A segment takes several lines, so the induction is on their number.
  induction h : lines.length using Nat.strongRecOn generalizing lines with
  | ind n ih =>
    match lines with
    | [] => exact ⟨[], .nil⟩
    | line :: lines =>
      rw [List.length_cons] at h
      by_cases hmark : Announces line
      · obtain ⟨body, rest, rfl, hbody, hrest⟩ := exists_segmentEnd lines
        rw [List.length_append] at h
        obtain ⟨ss, hss⟩ := ih rest.length (by omega) rest rfl
        exact ⟨.segment line body :: ss, .cons (s := .segment line body) ⟨hmark, hbody, hrest⟩ hss⟩
      · obtain ⟨ss, hss⟩ := ih lines.length (by omega) lines rfl
        exact ⟨.loose line :: ss, .cons (s := .loose line) hmark hss⟩

/-- The body of a segment is all of the lines before the next one that announces or annotates. -/
theorem takeWhile_segmentEnd {body rest : List (List Char)}
    (hbody : ∀ line ∈ body, ¬ EndsExample line) (hrest : ∀ next ∈ rest.head?, EndsExample next) :
    (body ++ rest).takeWhile (¬ EndsExample ·) = body := by
  have hall : ∀ line ∈ body, decide (¬ EndsExample line) = true :=
    fun line hline => decide_eq_true (hbody line hline)
  rw [List.takeWhile_append_of_pos hall]
  cases rest with
  | nil => simp
  | cons next rest =>
    have hnext : EndsExample next := hrest next rfl
    rw [List.takeWhile_cons_of_neg (by simpa using hnext), List.append_nil]

/-- Lines start with at most one stretch. -/
theorem Stretch.Leads.unique {s s' : Stretch} {rest rest' : List (List Char)} (h : s.Leads rest)
    (h' : s'.Leads rest') (e : s.lines ++ rest = s'.lines ++ rest') : s = s' := by
  -- The first line tells the kind, and the lines behind it where a segment ends.
  cases s with
  | segment mark body =>
    cases s' with
    | segment mark' body' =>
      obtain ⟨rfl, htail⟩ := List.cons.inj e
      rw [← takeWhile_segmentEnd h.2.1 h.2.2, show body ++ rest = body' ++ rest' from htail,
        takeWhile_segmentEnd h'.2.1 h'.2.2]
    | loose line => exact absurd ((List.cons.inj e).1 ▸ h.1) h'
  | loose line =>
    cases s' with
    | segment mark' body' => exact absurd ((List.cons.inj e).1 ▸ h'.1) h
    | loose line' => rw [(List.cons.inj e).1]

theorem Stretch.lines_ne_nil (s : Stretch) : s.lines ≠ [] := by
  cases s <;> simp [lines]

/-- A comment is cut in at most one way. -/
theorem Cut.unique {lines : List (List Char)} {ss ss' : List Stretch} (h : Cut lines ss)
    (h' : Cut lines ss') : ss = ss' := by
  induction h generalizing ss' with
  | nil =>
    -- The lines are an index of `Cut`: with a name for them the other cut can be opened.
    generalize hlines : ([] : List (List Char)) = lines at h'
    cases h' with
    | nil => rfl
    | cons lead more =>
      exact absurd (List.append_eq_nil_iff.1 hlines.symm).1 (Stretch.lines_ne_nil _)
  | @cons s rest ss lead more ih =>
    generalize hlines : s.lines ++ rest = lines at h'
    cases h' with
    | nil => exact absurd (List.append_eq_nil_iff.1 hlines).1 s.lines_ne_nil
    | cons lead' more' =>
      obtain rfl := lead.unique lead' hlines
      obtain rfl := List.append_cancel_left hlines
      rw [ih more']

/-! ### The pass over the lines -/

/-- A line outside of examples is left. -/
theorem splitFrom_loose {line : List Char} (h : ¬ Announces line) (rest : List (List Char)) :
    splitFrom none (line :: rest) = ((splitFrom none rest).1, line :: (splitFrom none rest).2) := by
  rw [splitFrom, if_neg (mt (isExampleMark_iff line).1 h)]

/-- What ends an open example is read as if none were open. -/
theorem splitFrom_end (body : List (List Char)) {rest : List (List Char)}
    (h : ∀ next ∈ rest.head?, EndsExample next) :
    splitFrom (some body) rest =
      (closeExample (some body) ++ (splitFrom none rest).1, (splitFrom none rest).2) := by
  cases rest with
  | nil => simp [splitFrom, closeExample]
  | cons next rest =>
    by_cases hmark : Announces next
    · simp [splitFrom, (isExampleMark_iff next).2 hmark, closeExample]
    · have htag : Annotates next := (h next rfl).resolve_left hmark
      rw [splitFrom_loose hmark, splitFrom, if_neg (mt (isExampleMark_iff next).1 hmark)]
      simp only [(isTagLine_iff next).2 htag, if_true]

/-- The lines of a segment are added to the open example. -/
theorem splitFrom_body {body : List (List Char)}
    (hbody : ∀ line ∈ body, ¬ EndsExample line) (shown rest : List (List Char)) :
    splitFrom (some shown) (body ++ rest) = splitFrom (some (shown ++ body)) rest := by
  induction body generalizing shown with
  | nil => simp
  | cons line body ih =>
    obtain ⟨hline, hmore⟩ := List.forall_mem_cons.1 hbody
    obtain ⟨hmark, htag⟩ := not_or.1 hline
    rw [List.cons_append, splitFrom, if_neg (mt (isExampleMark_iff line).1 hmark)]
    simp only [if_neg (mt (isTagLine_iff line).1 htag)]
    rw [ih hmore, List.append_assoc, List.singleton_append]

/-- A segment gives one example, and nothing of it is left. -/
theorem splitFrom_segment {mark : List Char} {body rest : List (List Char)}
    (h : (Stretch.segment mark body).Leads rest) :
    splitFrom none (mark :: (body ++ rest)) =
      (closeExample (some body) ++ (splitFrom none rest).1, (splitFrom none rest).2) := by
  rw [splitFrom, if_pos ((isExampleMark_iff mark).2 h.1), splitFrom_body h.2.1, List.nil_append,
    splitFrom_end body h.2.2]
  rfl

/-! ### The parts of a comment -/

/-- The texts of the examples, without the empty ones. -/
def exampleTexts (ss : List Stretch) : List (List Char) :=
  ((ss.filterMap Stretch.body?).map joinLines).filter (· ≠ [])

/-- The lines in no segment. -/
def looseLines (ss : List Stretch) : List (List Char) := ss.filterMap Stretch.loose?

/-- The lines in no segment that do not annotate. -/
def plainLines (ss : List Stretch) : List (List Char) := (looseLines ss).filter (¬ Annotates ·)

theorem exampleTexts_segment (mark : List Char) (body : List (List Char)) (ss : List Stretch) :
    exampleTexts (.segment mark body :: ss) = closeExample (some body) ++ exampleTexts ss := by
  by_cases h : joinLines body = [] <;> simp [exampleTexts, Stretch.body?, closeExample, h]

/-- **The pass** collects the segments and leaves the lines in none. -/
theorem Cut.splitFrom_eq {lines : List (List Char)} {ss : List Stretch} (h : Cut lines ss) :
    splitFrom none lines = (exampleTexts ss, looseLines ss) := by
  induction h with
  | nil => rfl
  | @cons s rest ss lead more ih =>
    cases s with
    | segment mark body =>
      rw [exampleTexts_segment]
      exact (splitFrom_segment lead).trans (by rw [ih]; rfl)
    | loose line => exact (splitFrom_loose lead rest).trans (by rw [ih]; rfl)

/-- Every line that announces nothing is in the body of one segment or in none. -/
theorem Cut.perm {lines : List (List Char)} {ss : List Stretch} (h : Cut lines ss) :
    ((ss.filterMap Stretch.body?).flatten ++ looseLines ss).Perm
      (lines.filter (¬ Announces ·)) := by
  induction h with
  | nil => exact .nil
  | @cons s rest ss lead more ih =>
    cases s with
    | segment mark body =>
      have hbody : body.filter (¬ Announces ·) = body :=
        List.filter_eq_self.2 fun line hline => decide_eq_true (not_or.1 (lead.2.1 line hline)).1
      have hlines : ((Stretch.segment mark body).lines ++ rest).filter (¬ Announces ·) =
          body ++ rest.filter (¬ Announces ·) := by
        rw [Stretch.lines, List.cons_append, List.filter_cons_of_neg (by simpa using lead.1),
          List.filter_append, hbody]
      rw [hlines]
      show (body ++ (ss.filterMap Stretch.body?).flatten ++ looseLines ss).Perm _
      rw [List.append_assoc]
      exact ih.append_left body
    | loose line =>
      have hlines : ((Stretch.loose line).lines ++ rest).filter (¬ Announces ·) =
          line :: rest.filter (¬ Announces ·) :=
        List.filter_cons_of_pos (decide_eq_true lead)
      rw [hlines]
      show ((ss.filterMap Stretch.body?).flatten ++ line :: looseLines ss).Perm _
      exact List.perm_middle.trans (ih.cons line)

/-- The lines in no segment announce nothing. -/
theorem Cut.not_announces {lines : List (List Char)} {ss : List Stretch} (h : Cut lines ss)
    {line : List Char} (hline : line ∈ looseLines ss) : ¬ Announces line := by
  have hmem : line ∈ lines.filter (¬ Announces ·) :=
    h.perm.subset (List.mem_append_right _ hline)
  exact of_decide_eq_true (List.mem_filter.1 hmem).2

/-- Without a line that announces an example, every line is left. -/
theorem splitExamples_of_not_announces {lines : List (List Char)}
    (h : ∀ line ∈ lines, ¬ Announces line) : splitExamples lines = ([], lines) := by
  induction lines with
  | nil => rfl
  | cons line lines ih =>
    obtain ⟨hline, hmore⟩ := List.forall_mem_cons.1 h
    rw [splitExamples, splitFrom_loose hline, show splitFrom none lines = ([], lines) from ih hmore]

/-- The words of a description: lines that are not empty, with spaces between them. -/
def words (lines : List (List Char)) : List Char :=
  Text.trim (List.intercalate [' '] (lines.filter (· ≠ [])))

theorem description_eq (lines : List (List Char)) :
    description lines =
      if words ((splitExamples lines).2.filter (¬ Annotates ·)) = [] then noDescription
      else String.ofList (words ((splitExamples lines).2.filter (¬ Annotates ·))) := by
  have hkept : ((splitExamples lines).2.filter (¬ Annotates ·)).filter (· ≠ []) =
      (splitExamples lines).2.filter fun line => !line.isEmpty && !isTagLine line := by
    rw [List.filter_filter]
    apply List.filter_congr
    intro line _
    cases line <;> simp [← isTagLine_iff]
  rw [words, hkept, description]
  simp only [List.isEmpty_iff]

/-- **A comment is split into its examples and the rest.**  The lines of a comment are cut in
    exactly one way into segments, each from a line that announces an example up to the next one, to
    the next annotation or to the end, and lines in no segment.  The examples are the segments
    without their first lines, joined, trimmed and in order, but for the empty ones; what remains is
    the lines in no segment, in order.  So each line that announces nothing goes to one side.  The
    description is made of the lines in no segment that do not annotate, and would be the same
    without all others. -/
theorem examples_cut (lines : List (List Char)) :
    ∃ ss, Cut lines ss ∧ (∀ ss', Cut lines ss' → ss' = ss) ∧
      splitExamples lines = (exampleTexts ss, looseLines ss) ∧
      examples lines = (exampleTexts ss).map String.ofList ∧
      ((ss.filterMap Stretch.body?).flatten ++ looseLines ss).Perm
        (lines.filter (¬ Announces ·)) ∧
      description lines = (if words (plainLines ss) = [] then noDescription
        else String.ofList (words (plainLines ss))) ∧
      description lines = description (plainLines ss) := by
  obtain ⟨ss, hcut⟩ := exists_cut lines
  have hsplit : splitExamples lines = (exampleTexts ss, looseLines ss) := hcut.splitFrom_eq
  have hplain : splitExamples (plainLines ss) = ([], plainLines ss) :=
    splitExamples_of_not_announces fun line hline =>
      hcut.not_announces (List.mem_filter.1 hline).1
  have hdescription := description_eq lines
  rw [hsplit] at hdescription
  refine ⟨ss, hcut, fun ss' hcut' => hcut'.unique hcut, hsplit, ?_, hcut.perm, hdescription, ?_⟩
  · rw [examples, hsplit]
  · have hsame : (plainLines ss).filter (¬ Annotates ·) = plainLines ss := by
      rw [plainLines, List.filter_filter]
      simp
    rw [description_eq (plainLines ss), hplain, hsame]
    exact hdescription

/-- Two announcements in a row, the first an annotation, and an example that an annotation ends. -/
example :
    splitExamples (["f", "@usage Example", "EXAMPLES", "f()", "@return n", "g"].map String.toList) =
      (["f()".toList], ["f", "@return n", "g"].map String.toList) := by
  decide +kernel

end LuaAudit.Docs.Comment
