import LuaAudit.Docs.Extract
import LuaAudit.Proofs.OrderedMap
import LuaAudit.Proofs.Text.Read
import Mathlib.Data.List.DropRight

/-!
# Which comment a declaration gets

A file is read forwards, and comment lines wait for a declaration.  Looking back from a declaration
gives the same: its comment is what the comment lines say in the longest run of blank lines and
comment lines that ends right above it.

* `note?` and `declared?`: what a line says as a comment, and what it declares;
* `commentAbove`: the comment that looking back finds;
* `pending_foldl_step`: what waits is what looking back finds;
* `keys_foldl_step` and `get?_foldl_step_eq_some_iff`: the names of a file, and what is known of
  each;
* `get?_walk_congr`: forms that agree on the declarations of a name agree on what is known of it;
* `comments_attached`: both, for the two kinds of files that are read line by line.
-/

namespace LuaAudit.Docs

open Text (indicesOf indicesOf_concat_of_not isGreatest_length_indicesOf)

/-! ### Lines -/

/-- The lines of a file, trimmed. -/
def linesOf (content : String) : List (List Char) :=
  (Text.splitOn '\n' content.toList).map Text.trim

/-- What a comment line says behind its dashes; any other line says nothing. -/
def note? (line : List Char) : Option (List Char) := (Text.after? "---".toList line).map Text.trim

/-- What a line declares by the first form that fits; a comment line declares nothing. -/
def declared? (shapes : List Shape) (line : List Char) : Option Declaration :=
  if (note? line).isSome then none else declaration? shapes line

/-- A line declares a function of a name. -/
def Declares (shapes : List Shape) (name : String) (line : List Char) : Prop :=
  ∃ d, declared? shapes line = some d ∧ String.ofList d.name = name

/-- A blank line or a comment line. -/
def isQuiet (line : List Char) : Bool := line.isEmpty || (note? line).isSome

/-- The comment below the lines `above`: what the comment lines say in the longest run of blank
    lines and comment lines at their end; nothing where the run has no comment line. -/
def commentAbove (above : List (List Char)) : Option (List (List Char)) :=
  let notes := (above.rtakeWhile isQuiet).filterMap note?
  if notes.isEmpty then none else some notes

/-- One more line: a comment line is added, a blank line changes nothing, any other line leaves no
    comment. -/
theorem commentAbove_concat (above : List (List Char)) (line : List Char) :
    commentAbove (above ++ [line]) =
      if isQuiet line then
        (note? line).elim (commentAbove above) fun note =>
          some ((commentAbove above).getD [] ++ [note])
      else none := by
  unfold commentAbove
  rw [List.rtakeWhile_concat]
  by_cases hquiet : isQuiet line
  · rw [if_pos hquiet, if_pos hquiet, List.filterMap_append]
    cases hnote : note? line with
    | none => simp [hnote]
    | some note =>
      cases (above.rtakeWhile isQuiet).filterMap note? <;> simp [hnote]
  · rw [if_neg hquiet, if_neg hquiet]
    rfl

/-! ### One line forwards -/

namespace Walk

variable (source : String) (shapes : List Shape) (w : Walk) (line : List Char)

/-- A line that declares a function writes its signature, with the comment that waits. -/
theorem found_step :
    (w.step source shapes line).found = (declared? shapes line).elim w.found fun d =>
      w.found.insert (String.ofList d.name) (signature source d w.pending) := by
  unfold step declared? note?
  cases Text.after? "---".toList line with
  | some rest => rfl
  | none =>
    cases declaration? shapes line with
    | some d => rfl
    | none =>
      show (if line.isEmpty then w else { w with pending := none }).found = w.found
      split <;> rfl

/-- A comment line waits, a blank line leaves what waits, any other line leaves nothing. -/
theorem pending_step (hblank : declaration? shapes [] = none) :
    (w.step source shapes line).pending =
      if isQuiet line then
        (note? line).elim w.pending fun note => some (w.pending.getD [] ++ [note])
      else none := by
  unfold step isQuiet note?
  cases Text.after? "---".toList line with
  | some rest => simp
  | none =>
    cases line with
    | nil => simp [hblank]
    | cons c line => cases declaration? shapes (c :: line) <;> simp

end Walk

/-! ### All lines -/

theorem walk_eq (content source : String) (shapes : List Shape) :
    walk content source shapes =
      ((linesOf content).foldl (Walk.step source shapes) {}).found :=
  rfl

section Lines

variable {shapes : List Shape} (hblank : declaration? shapes [] = none) (source : String)
include hblank

/-- **Forwards and backwards.**  What waits behind some lines is what looking back from there
    finds. -/
theorem pending_foldl_step (lines : List (List Char)) :
    (lines.foldl (Walk.step source shapes) {}).pending = commentAbove lines := by
  induction lines using List.reverseRecOn with
  | nil => rfl
  | append_singleton lines line ih =>
    rw [List.foldl_concat, Walk.pending_step _ _ _ _ hblank, ih, commentAbove_concat]

/-- One more line: what it declares is written with the comment above it. -/
theorem found_foldl_step_concat (lines : List (List Char)) (line : List Char) :
    ((lines ++ [line]).foldl (Walk.step source shapes) {}).found =
      (declared? shapes line).elim (lines.foldl (Walk.step source shapes) {}).found fun d =>
        (lines.foldl (Walk.step source shapes) {}).found.insert (String.ofList d.name)
          (signature source d (commentAbove lines)) := by
  rw [List.foldl_concat, Walk.found_step, pending_foldl_step hblank]

/-- The names come in the order of their first declarations. -/
theorem keys_foldl_step (lines : List (List Char)) :
    (lines.foldl (Walk.step source shapes) {}).found.keys =
      ((lines.filterMap (declared? shapes)).map fun d => String.ofList d.name).eraseDups := by
  induction lines using List.reverseRecOn with
  | nil => rfl
  | append_singleton lines line ih =>
    rw [found_foldl_step_concat hblank, List.filterMap_append, List.map_append]
    cases hdeclared : declared? shapes line with
    | none => simp [hdeclared, ih]
    | some d =>
      -- A name that was declared before keeps its place, as it does in the map.
      have hone : ([line].filterMap (declared? shapes)).map (fun d => String.ofList d.name) =
          [String.ofList d.name] := by simp [hdeclared]
      rw [Option.elim_some, OrderedMap.keys_insert, hone, OrderedMap.eraseDups_concat, ih]
      simp only [List.mem_eraseDups]

/-- What is known of a name comes from the last line that declares it. -/
theorem get?_foldl_step_eq_some_iff (lines : List (List Char)) (name : String) (f : Signature) :
    (lines.foldl (Walk.step source shapes) {}).found.get? name = some f ↔
      ∃ i d, IsGreatest (indicesOf (Declares shapes name) lines) i ∧
        lines[i]?.bind (declared? shapes) = some d ∧
        f = signature source d (commentAbove (lines.take i)) := by
  induction lines using List.reverseRecOn with
  | nil =>
    constructor
    · intro h
      cases h
    · rintro ⟨i, d, -, hd, -⟩
      cases hd
  | append_singleton lines line ih =>
    rw [found_foldl_step_concat hblank]
    by_cases hline : Declares shapes name line
    · -- The new line is the last one, and is read with the comment above it.
      have hlast := isGreatest_length_indicesOf (Declares shapes name) lines hline
      obtain ⟨d, hd, rfl⟩ := hline
      rw [hd, Option.elim_some, OrderedMap.get?_insert_self, Option.some.injEq]
      constructor
      · rintro rfl
        exact ⟨lines.length, d, hlast, by simpa using hd, by simp⟩
      · rintro ⟨i, d', hi, hd', rfl⟩
        obtain rfl := hlast.unique hi
        obtain rfl : d = d' := by simpa [hd] using hd'
        simp
    · have hsame : ((declared? shapes line).elim (lines.foldl (Walk.step source shapes) {}).found
          fun d => (lines.foldl (Walk.step source shapes) {}).found.insert (String.ofList d.name)
            (signature source d (commentAbove lines))).get? name =
          (lines.foldl (Walk.step source shapes) {}).found.get? name := by
        cases hd : declared? shapes line with
        | none => rfl
        | some d => exact OrderedMap.get?_insert_of_ne _ _ fun heq => hline ⟨d, hd, heq.symm⟩
      rw [hsame, ih, indicesOf_concat_of_not _ _ hline]
      -- Lines before the new one stay where they are.
      have hbefore : ∀ i, IsGreatest (indicesOf (Declares shapes name) lines) i →
          (lines ++ [line])[i]? = lines[i]? ∧ (lines ++ [line]).take i = lines.take i := by
        rintro i ⟨⟨other, hi, -⟩, -⟩
        have hlt := (List.getElem?_eq_some_iff.1 hi).1
        exact ⟨List.getElem?_append_left hlt, List.take_append_of_le_length (by omega)⟩
      constructor
      · rintro ⟨i, d, hi, hd, rfl⟩
        exact ⟨i, d, hi, by rw [(hbefore i hi).1, hd], by rw [(hbefore i hi).2]⟩
      · rintro ⟨i, d, hi, hd, rfl⟩
        exact ⟨i, d, hi, by rw [← (hbefore i hi).1, hd], by rw [(hbefore i hi).2]⟩

end Lines

/-- What is known of a name depends on the lines that declare it and on the comments above them, but
    not on what the forms make of the other lines. -/
theorem get?_walk_congr {shapes shapes' : List Shape} (hblank : declaration? shapes [] = none)
    (hblank' : declaration? shapes' [] = none) {content name : String}
    (h : ∀ line ∈ linesOf content, ∀ d, String.ofList d.name = name →
      (declared? shapes line = some d ↔ declared? shapes' line = some d)) (source : String) :
    (walk content source shapes).get? name = (walk content source shapes').get? name := by
  have hset : indicesOf (Declares shapes name) (linesOf content) =
      indicesOf (Declares shapes' name) (linesOf content) := by
    ext i
    constructor
    · rintro ⟨line, hline, d, hd, hname⟩
      exact ⟨line, hline, d, (h line (List.mem_of_getElem? hline) d hname).1 hd, hname⟩
    · rintro ⟨line, hline, d, hd, hname⟩
      exact ⟨line, hline, d, (h line (List.mem_of_getElem? hline) d hname).2 hd, hname⟩
  have hbind : ∀ i ∈ indicesOf (Declares shapes name) (linesOf content),
      (linesOf content)[i]?.bind (declared? shapes) =
        (linesOf content)[i]?.bind (declared? shapes') := by
    rintro i ⟨line, hline, d, hd, hname⟩
    rw [hline, Option.bind_some, Option.bind_some, hd,
      (h line (List.mem_of_getElem? hline) d hname).1 hd]
  ext f
  rw [walk_eq, walk_eq, get?_foldl_step_eq_some_iff hblank, get?_foldl_step_eq_some_iff hblank',
    ← hset]
  constructor
  · rintro ⟨i, d, hi, hd, hf⟩
    exact ⟨i, d, hi, (hbind i hi.1).symm.trans hd, hf⟩
  · rintro ⟨i, d, hi, hd, hf⟩
    exact ⟨i, d, hi, (hbind i hi.1).trans hd, hf⟩

/-- The names of a file are those that a line declares. -/
theorem mem_keys_walk_iff {shapes : List Shape} (hblank : declaration? shapes [] = none)
    (content source name : String) :
    name ∈ (walk content source shapes).keys ↔
      ∃ line ∈ linesOf content, Declares shapes name line := by
  rw [walk_eq, keys_foldl_step hblank, List.mem_eraseDups]
  simp only [List.mem_map, List.mem_filterMap, Declares]
  constructor
  · rintro ⟨d, ⟨line, hline, hd⟩, hname⟩
    exact ⟨line, hline, d, hd, hname⟩
  · rintro ⟨line, hline, d, hd, hname⟩
    exact ⟨d, ⟨line, hline, hd⟩, hname⟩

/-- **Comments attach to declarations.**  Whatever an annotated or a mixed file holds, its names
    come in the order of their first declarations.  What is known of a name comes from the last line
    that declares it: the parameters of that line, and the comment that looking back from it
    finds. -/
theorem comments_attached {shapes : List Shape}
    (hshapes : shapes = annotatedShapes ∨ shapes = hybridShapes) (content source : String) :
    (walk content source shapes).keys =
      (((linesOf content).filterMap (declared? shapes)).map fun d =>
        String.ofList d.name).eraseDups ∧
    ∀ name f, (walk content source shapes).get? name = some f ↔
      ∃ i d,
        IsGreatest {i | ∃ line, (linesOf content)[i]? = some line ∧ Declares shapes name line} i ∧
        (linesOf content)[i]?.bind (declared? shapes) = some d ∧
        f = signature source d (commentAbove ((linesOf content).take i)) := by
  have hblank : declaration? shapes [] = none := by
    rcases hshapes with rfl | rfl <;> rfl
  exact ⟨keys_foldl_step hblank source _, get?_foldl_step_eq_some_iff hblank source _⟩

/-- A file that declares `f` twice, the second time below a comment with a blank line in it, and
    then `g` below a comment that a statement cuts off. -/
def redeclared : String :=
  "f = function(a)\n---New.\n \n ---@param b any\n\tfunction f(b)\n" ++
    "---Lost.\nx = 1\nlocal function g()"

/-- Of this file, the second `f` with its whole comment and `g` without one. -/
theorem comments_attached_redeclared :
    (walk redeclared "s" hybridShapes).keys = ["f", "g"] ∧
    (walk redeclared "s" hybridShapes).get? "f" = some (signature "s"
      ⟨"f".toList, "b".toList, []⟩ (some ["New.".toList, "@param b any".toList])) ∧
    (walk redeclared "s" hybridShapes).get? "g" = some (signature "s"
      ⟨"g".toList, [], []⟩ none) := by
  obtain ⟨hkeys, hget⟩ := comments_attached (.inr rfl) redeclared "s"
  -- The lines are evaluated once for all that is asked about them.
  obtain ⟨hf, hg, hcomment, hcut, hnames, hlast⟩ :
      (linesOf redeclared)[4]?.bind (declared? hybridShapes) =
        some ⟨"f".toList, "b".toList, []⟩ ∧
      (linesOf redeclared)[7]?.bind (declared? hybridShapes) = some ⟨"g".toList, [], []⟩ ∧
      commentAbove ((linesOf redeclared).take 4) =
        some ["New.".toList, "@param b any".toList] ∧
      commentAbove ((linesOf redeclared).take 7) = none ∧
      (((linesOf redeclared).filterMap (declared? hybridShapes)).map fun d =>
        String.ofList d.name).eraseDups = ["f", "g"] ∧
      ∀ j ∈ List.range (linesOf redeclared).length,
        ∀ d ∈ (linesOf redeclared)[j]?.bind (declared? hybridShapes),
          (String.ofList d.name = "f" → j ≤ 4) ∧ (String.ofList d.name = "g" → j ≤ 7) := by
    decide +kernel
  have hbound : ∀ i name, (∃ line, (linesOf redeclared)[i]? = some line ∧
      Declares hybridShapes name line) → (name = "f" → i ≤ 4) ∧ (name = "g" → i ≤ 7) := by
    rintro i name ⟨line, hline, d, hd, rfl⟩
    have hlt := (List.getElem?_eq_some_iff.1 hline).1
    exact hlast i (List.mem_range.2 hlt) d (by rw [hline, Option.bind_some, hd]; rfl)
  refine ⟨hkeys.trans hnames, (hget _ _).2 ⟨4, _, ⟨?_, ?_⟩, hf, by rw [hcomment]⟩,
    (hget _ _).2 ⟨7, _, ⟨?_, ?_⟩, hg, by rw [hcut]⟩⟩
  · obtain ⟨line, hline, hd⟩ := Option.bind_eq_some_iff.1 hf
    exact ⟨line, hline, _, hd, by decide⟩
  · exact fun i hi => (hbound i _ hi).1 rfl
  · obtain ⟨line, hline, hd⟩ := Option.bind_eq_some_iff.1 hg
    exact ⟨line, hline, _, hd, by decide⟩
  · exact fun i hi => (hbound i _ hi).2 rfl

end LuaAudit.Docs
