import LuaAudit.Docs.Extract
import LuaAudit.Proofs.Docs.Comment

/-!
# Annotated functions written and extracted

A function with its annotations is written as comment lines above its declaration.  Extracting what
is written gives back one signature, with every part of it in its place.

* `Annotated` is such a function, with what a text must be like to stand in its place;
* `Annotated.content` writes it, `Annotated.signature` is what is known of it;
* `ParameterLine.parameterNote_note`, `ReturnLine.returnNote_note`: an annotation is read back;
* `Annotated.parameters_comment`, `Annotated.description_comment`, `Annotated.returnDocs_comment`:
  so is the comment as a whole;
* `foldl_step_comment`: it waits for the declaration below it;
* `extractAnnotated_content`: what is written is extracted.
-/

namespace LuaAudit.Docs

open Text (isBlank isWord trim trimStart trimEnd first?)

/-! ### Annotated functions -/

/-- A text on one line, without blanks at its ends and without `@`. -/
structure IsLineText (s : String) : Prop where
  oneLine : '\n' ∉ s.toList
  trimmed : trim s.toList = s.toList
  unmarked : '@' ∉ s.toList

/-- The text of a type: at least one character, no blank and no `@`. -/
structure IsTypeText (s : String) : Prop where
  nonempty : s ≠ ""
  solid : ∀ c ∈ s.toList, isBlank c = false
  unmarked : '@' ∉ s.toList

/-- The name of a function: a letter or underscore, then letters, digits, underscores and dots. -/
structure IsFunctionName (s : String) : Prop where
  start : ∃ c, s.toList.head? = some c ∧ Lua.isNameStart c = true
  dotted : ∀ c ∈ s.toList, Lua.isDottedChar c = true

/-- A parameter with its type and what is said of it. -/
structure ParameterLine where
  name : String
  type : String
  text : String
  name_ne : name ≠ ""
  name_word : ∀ c ∈ name.toList, isWord c = true
  isType : IsTypeText type
  isText : IsLineText text

/-- A result with its type and what is said of it. -/
structure ReturnLine where
  type : String
  text : String
  isType : IsTypeText type
  isText : IsLineText text

/-- A function with a description that mentions no example, parameters of different names and
    results. -/
structure Annotated where
  name : String
  description : String
  parameters : List ParameterLine
  returns : List ReturnLine
  isName : IsFunctionName name
  isText : IsLineText description
  description_ne : description ≠ ""
  no_example : Text.containsText "example".toList (Text.toLower description.toList) = false
  distinct : (parameters.map (·.name)).Nodup

/-- What is told of a parameter. -/
def ParameterLine.parameter (p : ParameterLine) : Parameter where
  name := p.name
  type := .parse p.type
  optional := false
  description := .str p.text

/-- What is told of a result. -/
def ReturnLine.result (r : ReturnLine) : Return where
  type := r.type
  description := .str r.text

/-- The comment line of a parameter. -/
def ParameterLine.line (p : ParameterLine) : String :=
  "---@param " ++ p.name ++ " " ++ p.type ++ " " ++ p.text

/-- The comment line of a result. -/
def ReturnLine.line (r : ReturnLine) : String := "---@return " ++ r.type ++ " " ++ r.text

namespace Annotated

/-- The line that declares a function. -/
def declaration (a : Annotated) : String :=
  "function " ++ a.name ++ "(" ++ Text.joinWith ", " (a.parameters.map (·.name)) ++ ")"

/-- The lines that annotate and declare a function. -/
def lines (a : Annotated) : List String :=
  ("---" ++ a.description) :: a.parameters.map (·.line) ++ a.returns.map (·.line) ++ [a.declaration]

/-- These lines as the content of a file, with some empty lines behind them. -/
def content (a : Annotated) (emptyLines : Nat) : String :=
  Text.joinWith "\n" (a.lines ++ List.replicate emptyLines "")

/-- What the lines say of the function. -/
def signature (a : Annotated) (source : String) : Signature where
  name := a.name
  source
  description := a.description
  parameters := a.parameters.map (·.parameter)
  returns := a.returns.map (·.result)
  examples := []

end Annotated

/-! ### The lines without dashes -/

/-- A type with the text behind it, if there is any. -/
def typed (type text : List Char) : List Char := if text = [] then type else type ++ ' ' :: text

section Typed

variable {type : String} {text : String} (htype : IsTypeText type) (htext : IsLineText text)
include htype htext

theorem typed_ends : typed type.toList text.toList ≠ [] ∧
    trimEnd (typed type.toList text.toList) = typed type.toList text.toList := by
  have hne : type.toList ≠ [] := by simpa using htype.nonempty
  unfold typed
  split
  · exact ⟨hne, Text.trimEnd_of_solid htype.solid⟩
  next htext_ne =>
    have hend := (Text.trimmed_ends htext.trimmed).2
    refine ⟨by simp, ?_⟩
    rw [List.append_cons]
    exact Text.trimEnd_append hend htext_ne _

/-- Trimming a line drops the blank that stands before an empty text. -/
theorem trim_typed {c : Char} (hc : isBlank c = false) (lead : List Char) :
    trim (c :: lead ++ (type.toList ++ ' ' :: text.toList)) =
      c :: lead ++ typed type.toList text.toList := by
  obtain ⟨hne, hend⟩ := typed_ends htype htext
  have hline : trimEnd (c :: lead ++ typed type.toList text.toList) =
      c :: lead ++ typed type.toList text.toList := Text.trimEnd_append hend hne _
  have hstart : ∀ cs, trimStart (c :: lead ++ cs) = c :: lead ++ cs := by
    simp [trimStart, hc]
  rw [trim, hstart]
  unfold typed at hline ⊢
  split at hline
  next hempty =>
    rw [if_pos hempty, hempty, ← List.append_assoc]
    exact (List.rdropWhile_concat_pos isBlank _ ' ' (by decide)).trans hline
  next hempty => rw [if_neg hempty, hline]

/-- So nothing is left to trim. -/
theorem trim_append_typed {c : Char} (hc : isBlank c = false) (lead : List Char) :
    trim (c :: lead ++ typed type.toList text.toList) =
      c :: lead ++ typed type.toList text.toList := by
  obtain ⟨hne, hend⟩ := typed_ends htype htext
  exact Text.trim_cons hc (Text.trimEnd_append hend hne (c :: lead))

/-- The type and the text are read apart. -/
theorem typeAndText?_typed : Comment.typeAndText? (typed type.toList text.toList) =
    some (type.toList, text.toList) := by
  have hne : type.toList ≠ [] := by simpa using htype.nonempty
  have hline : text.toList.takeWhile (· != '\n') = text.toList :=
    List.takeWhile_eq_self_iff.2 fun c hc => bne_iff_ne.2 fun e => htext.oneLine (e ▸ hc)
  have hstart : text.toList.dropWhile isBlank = text.toList := (Text.trimmed_ends htext.trimmed).1
  unfold typed
  split
  next hempty =>
    have hread := Comment.typeAndText?_append hne htype.solid (.inl rfl)
    rw [List.append_nil] at hread
    rw [hread, hempty]
    rfl
  next =>
    rw [Comment.typeAndText?_append hne htype.solid (.inr ⟨_, rfl⟩),
      List.dropWhile_cons_of_pos (by decide), hstart, hline, htext.trimmed]

end Typed

/-- The comment line of a parameter as it waits for a declaration. -/
def ParameterLine.note (p : ParameterLine) : List Char :=
  '@' :: ("param ".toList ++ p.name.toList ++ ' ' :: typed p.type.toList p.text.toList)

/-- The comment line of a result as it waits for a declaration. -/
def ReturnLine.note (r : ReturnLine) : List Char :=
  '@' :: ("return ".toList ++ typed r.type.toList r.text.toList)

theorem ParameterLine.trim_line (p : ParameterLine) :
    trim p.line.toList = "---".toList ++ p.note := by
  have hline : p.line.toList = '-' :: ("--@param ".toList ++ p.name.toList ++ [' ']) ++
      (p.type.toList ++ ' ' :: p.text.toList) := by
    rw [line]
    simp
  rw [hline, trim_typed p.isType p.isText (show isBlank '-' = false by decide)]
  rw [note]
  simp

theorem ParameterLine.trim_note (p : ParameterLine) : trim p.note = p.note := by
  have hnote : p.note = '@' :: ("param ".toList ++ p.name.toList ++ [' ']) ++
      typed p.type.toList p.text.toList := by
    rw [note]
    simp
  rw [hnote, trim_append_typed p.isType p.isText (show isBlank '@' = false by decide)]

theorem ParameterLine.name_solid (p : ParameterLine) : ∀ c ∈ p.name.toList, isBlank c = false :=
  fun c hc => Text.isBlank_eq_false_of_isWord (p.name_word c hc)

theorem ParameterLine.trim_name (p : ParameterLine) : trim p.name.toList = p.name.toList :=
  Text.trim_of_solid p.name_solid

theorem ReturnLine.trim_line (r : ReturnLine) :
    trim r.line.toList = "---".toList ++ r.note := by
  have hline : r.line.toList =
      '-' :: "--@return ".toList ++ (r.type.toList ++ ' ' :: r.text.toList) := by
    rw [line]
    simp
  rw [hline, trim_typed r.isType r.isText (show isBlank '-' = false by decide)]
  rw [note]
  simp

theorem ReturnLine.trim_note (r : ReturnLine) : trim r.note = r.note := by
  have hnote : r.note = '@' :: "return ".toList ++ typed r.type.toList r.text.toList := by
    rw [note]
    simp
  rw [hnote, trim_append_typed r.isType r.isText (show isBlank '@' = false by decide)]

/-! ### Annotations read back -/

theorem typed_unmarked {type text : String} (htype : IsTypeText type) (htext : IsLineText text) :
    '@' ∉ typed type.toList text.toList := by
  unfold typed
  split
  · exact htype.unmarked
  · simp [htype.unmarked, htext.unmarked]

theorem trimStart_typed {type text : String} (htype : IsTypeText type) :
    trimStart (typed type.toList text.toList) = typed type.toList text.toList := by
  have hne : type.toList ≠ [] := by simpa using htype.nonempty
  unfold typed
  split
  · simpa using Text.trimStart_append hne htype.solid []
  · exact Text.trimStart_append hne htype.solid _

theorem afterBlanks?_space {cs : List Char} (hcs : trimStart cs = cs) :
    Text.afterBlanks? (' ' :: cs) = some cs :=
  Text.afterBlanks?_cons (by decide) hcs

theorem ParameterLine.parameterNote_note (p : ParameterLine) :
    (first? Comment.parameterNote p.note).map (·.value) = some p.parameter := by
  have hnote : p.note = "@param".toList ++
      ' ' :: (p.name.toList ++ ' ' :: typed p.type.toList p.text.toList) := by
    rw [note]
    simp
  have hne : p.name.toList ≠ [] := by simpa using p.name_ne
  have hstart : trimStart (p.name.toList ++ ' ' :: typed p.type.toList p.text.toList) =
      p.name.toList ++ ' ' :: typed p.type.toList p.text.toList :=
    Text.trimStart_append hne p.name_solid _
  -- The blank behind the name ends it.
  have hstop : isWord ' ' = false := by decide
  have hname : (p.name.toList ++ ' ' :: typed p.type.toList p.text.toList).takeWhile isWord =
      p.name.toList := by
    rw [List.takeWhile_append_of_pos p.name_word]
    simp [hstop]
  have hrest : (p.name.toList ++ ' ' :: typed p.type.toList p.text.toList).dropWhile isWord =
      ' ' :: typed p.type.toList p.text.toList := by
    rw [List.dropWhile_append_of_pos p.name_word]
    simp [hstop]
  have hread : Comment.parameterNote none p.note = some (p.parameter, 1) := by
    rw [Comment.parameterNote, hnote, Text.after?_append]
    simp only [Option.bind_eq_bind, Option.bind_some, afterBlanks?_space hstart, hname, hrest]
    simp [afterBlanks?_space (trimStart_typed p.isType), typeAndText?_typed p.isType p.isText, hne,
      parameter]
  exact Text.first?_of_recognised hread (by simp [note])

theorem ReturnLine.returnNote_note (r : ReturnLine) :
    (first? Comment.returnNote r.note).map (·.value) = some r.result := by
  have hnote : r.note = "@return".toList ++ ' ' :: typed r.type.toList r.text.toList := by
    rw [note]
    simp
  have hread : Comment.returnNote none r.note = some (r.result, 1) := by
    rw [Comment.returnNote, hnote, Text.after?_append]
    simp [afterBlanks?_space (trimStart_typed r.isType),
      typeAndText?_typed r.isType r.isText, result]
  exact Text.first?_of_recognised hread (by simp [note])

theorem ParameterLine.returnNote_note (p : ParameterLine) :
    first? Comment.returnNote p.note = none := by
  have hrefused : Comment.returnNote none p.note = none := rfl
  refine Text.first?_eq_none Comment.returnNote_eq_none hrefused ?_
  have hname : '@' ∉ p.name.toList := fun h => absurd (p.name_word _ h) (by decide)
  simp [hname, typed_unmarked p.isType p.isText]

theorem ReturnLine.parameterNote_note (r : ReturnLine) :
    first? Comment.parameterNote r.note = none := by
  have hrefused : Comment.parameterNote none r.note = none := rfl
  refine Text.first?_eq_none Comment.parameterNote_eq_none hrefused ?_
  simp [typed_unmarked r.isType r.isText]

/-! ### The comment as a whole -/

namespace Annotated

variable (a : Annotated)

/-- The comment of the function as it waits for the declaration. -/
def comment : List (List Char) :=
  a.description.toList :: (a.parameters.map (·.note) ++ a.returns.map (·.note))

theorem isTagLine_of_mem {line : List Char}
    (h : line ∈ a.parameters.map (·.note) ++ a.returns.map (·.note)) : Comment.isTagLine line := by
  rcases List.mem_append.1 h with h | h
  all_goals
    obtain ⟨_, -, rfl⟩ := List.mem_map.1 h
    rfl

theorem first?_description_eq_none {α : Type} {find : Text.Recogniser α}
    (hfind : ∀ before c cs, c ≠ '@' → find before (c :: cs) = none) :
    first? find a.description.toList = none :=
  congrArg List.head? (Text.occurrencesFrom_eq_nil hfind a.isText.unmarked 0 none)

/-- The description is the only line that is neither annotation nor example. -/
theorem splitExamples_comment : (Comment.splitExamples a.comment).1 = [] ∧
    ∃ tags, (Comment.splitExamples a.comment).2 = a.description.toList :: tags ∧
      ∀ line ∈ tags, Comment.isTagLine line := by
  obtain ⟨hexamples, htags⟩ :=
    Comment.splitFrom_tagLines (fun line h => a.isTagLine_of_mem h)
      (.inl rfl : (none : Option _) = none ∨ _)
  have hmark : Comment.isExampleMark a.description.toList = false := a.no_example
  rw [Comment.splitExamples, comment, Comment.splitFrom, hmark]
  exact ⟨hexamples, _, rfl, htags⟩

theorem examples_comment : Comment.examples a.comment = [] := by
  rw [Comment.examples, a.splitExamples_comment.1, List.map_nil]

theorem description_comment : Comment.description a.comment = a.description := by
  obtain ⟨-, tags, hrest, htags⟩ := a.splitExamples_comment
  have hne : a.description.toList ≠ [] := by simpa using a.description_ne
  have htag : Comment.isTagLine a.description.toList = false := by
    refine beq_false_of_ne fun h => a.isText.unmarked ?_
    exact List.mem_of_mem_head? h
  have hkept : (a.description.toList :: tags).filter (fun l => !l.isEmpty && !Comment.isTagLine l) =
      [a.description.toList] := by
    have htags' : tags.filter (fun l => !l.isEmpty && !Comment.isTagLine l) = [] := by
      refine List.filter_eq_nil_iff.2 fun l hl => ?_
      simp [htags l hl]
    simp [hne, htag, htags']
  simp only [Comment.description, hrest, hkept]
  simp [List.intercalate, a.isText.trimmed, hne]

theorem returnDocs_comment : Comment.returnDocs a.comment = a.returns.map (·.result) := by
  simp [Comment.returnDocs, comment, a.first?_description_eq_none Comment.returnNote_eq_none,
    List.filterMap_append, List.filterMap_map, ParameterLine.returnNote_note,
    ReturnLine.returnNote_note]

/-- What the comment says of a parameter. -/
theorem get?_parameterNotes_comment {p : ParameterLine} (hp : p ∈ a.parameters) :
    (Comment.parameterNotes a.comment).get? p.name = some p.parameter := by
  have hnotes : (a.comment.filterMap fun line =>
      (first? Comment.parameterNote line).map (·.value)) = a.parameters.map (·.parameter) := by
    simp [comment, a.first?_description_eq_none Comment.parameterNote_eq_none,
      List.filterMap_append, List.filterMap_map, ParameterLine.parameterNote_note,
      ReturnLine.parameterNote_note]
  have hdistinct : ((a.parameters.map (·.parameter)).map (·.name)).Nodup := by
    simpa [Function.comp_def, ParameterLine.parameter] using a.distinct
  rw [Comment.get?_parameterNotes, hnotes]
  exact Comment.find?_eq_of_nodup hdistinct (List.mem_map_of_mem hp)

/-- A name in the parameter list, in the light of the comment. -/
theorem parameter_comment {p : ParameterLine} (hp : p ∈ a.parameters) :
    Comment.parameter (Comment.parameterNotes a.comment) p.name.toList = p.parameter := by
  have hmark : '?' ∉ p.name.toList := fun h => absurd (p.name_word _ h) (by decide)
  have hcontains : p.name.toList.contains '?' = false := by simpa using hmark
  simp only [Comment.parameter, p.trim_name, Comment.dropQuestion_eq_self hmark,
    String.ofList_toList, a.get?_parameterNotes_comment hp, hcontains]
  rfl

/-- The text between the parentheses. -/
def list : List Char := [',', ' '].intercalate (a.parameters.map (·.name.toList))

theorem parameters_comment :
    Comment.parameters a.list a.comment = a.parameters.map (·.parameter) := by
  by_cases hnone : a.parameters = []
  · rw [list, hnone]
    rfl
  · have hne : a.parameters.map (·.name.toList) ≠ [] := by simpa using hnone
    have hnames : ∀ name ∈ a.parameters.map (·.name.toList), ',' ∉ name ∧ trim name = name := by
      intro name hname
      obtain ⟨p, -, rfl⟩ := List.mem_map.1 hname
      exact ⟨fun h => absurd (p.name_word _ h) (by decide), p.trim_name⟩
    have hpieces := Text.map_trim_splitOn_joined hne (fun n hn => (hnames n hn).1)
      fun n hn => (hnames n hn).2
    have hsolid : Text.allBlank a.list = false := by
      obtain ⟨p, ps, hp⟩ := List.exists_cons_of_ne_nil hnone
      have hne : p.name.toList ≠ [] := by simpa using p.name_ne
      obtain ⟨c, cs, hc⟩ := List.exists_cons_of_ne_nil hne
      have hblank : isBlank c = false := p.name_solid c (by simp [hc])
      cases ps <;> simp [list, hp, hc, Text.allBlank, hblank]
    have htrim : Comment.parameter (Comment.parameterNotes a.comment) =
        Comment.parameter (Comment.parameterNotes a.comment) ∘ trim := by
      funext raw
      simp [Comment.parameter, Text.trim_trim]
    rw [Comment.parameters, hsolid, if_neg (by decide), list, htrim, ← List.map_map, hpieces,
      List.map_map]
    exact List.map_congr_left fun p hp => a.parameter_comment hp

/-! ### The declaration -/

theorem toList_declaration : a.declaration.toList =
    "function".toList ++ ' ' :: (a.name.toList ++ '(' :: (a.list ++ [')'])) := by
  simp [declaration, list, Text.joinWith, String.toList_intercalate, Function.comp_def]

theorem trim_declaration : trim a.declaration.toList = a.declaration.toList := by
  have hend : trimEnd [')'] = [')'] := by decide
  have hline : a.declaration.toList =
      'f' :: ("unction ".toList ++ a.name.toList ++ '(' :: a.list) ++ [')'] := by
    rw [toList_declaration]
    simp
  rw [hline]
  exact Text.trim_cons (by decide) (Text.trimEnd_append hend (by simp) ('f' :: _))

theorem mem_list {c : Char} (h : c ∈ a.list) : c = ',' ∨ c = ' ' ∨ isWord c := by
  rcases Text.mem_of_mem_intercalate h with h | ⟨name, hname, h⟩
  · simpa [or_assoc] using Or.inl h
  · obtain ⟨p, -, rfl⟩ := List.mem_map.1 hname
    exact .inr (.inr (p.name_word c h))

theorem closed?_list : closed? (a.list ++ [')']) = some (a.list, []) := by
  have hopen : ∀ c ∈ a.list, (c != ')' && c != '\n') = true := by
    intro c hc
    rcases a.mem_list hc with rfl | rfl | hword
    · decide
    · decide
    · have hparen : c ≠ ')' := by
        rintro rfl
        exact absurd hword (by decide)
      have hfeed : c ≠ '\n' := by
        rintro rfl
        exact absurd hword (by decide)
      simp [hparen, hfeed]
  rw [closed?, List.takeWhile_append_of_pos hopen, List.dropWhile_append_of_pos hopen]
  simp

theorem dottedName?_name (rest : List Char) :
    Lua.dottedName? (a.name.toList ++ '(' :: rest) = some (a.name.toList, '(' :: rest) := by
  obtain ⟨c, hhead, hc⟩ := a.isName.start
  obtain ⟨cs, hcs⟩ := List.head?_eq_some_iff.1 hhead
  have hdotted : ∀ c ∈ cs, Lua.isDottedChar c = true := fun c hc =>
    a.isName.dotted c (hcs ▸ List.mem_cons_of_mem _ hc)
  have hstop : Lua.isDottedChar '(' = false := by decide
  rw [hcs, List.cons_append, Lua.dottedName?, Lua.runOf?, if_pos hc,
    List.takeWhile_append_of_pos hdotted, List.dropWhile_append_of_pos hdotted]
  simp [hstop]

/-- The declaration is read with the name and the text between the parentheses. -/
theorem declaration?_declaration :
    declaration? annotatedShapes a.declaration.toList = some ⟨a.name.toList, a.list, []⟩ := by
  have hname : trimStart (a.name.toList ++ '(' :: (a.list ++ [')'])) =
      a.name.toList ++ '(' :: (a.list ++ [')']) := by
    obtain ⟨c, hhead, -⟩ := a.isName.start
    refine Text.trimStart_append (fun h => by simp [h] at hhead) (fun c hc => ?_) _
    exact Text.isBlank_eq_false_of_class (by decide +kernel) (a.isName.dotted c hc)
  have hparen : Text.afterMark? '(' ('(' :: (a.list ++ [')'])) = some (a.list ++ [')']) := rfl
  have hshape : Shape.function a.declaration.toList = some ⟨a.name.toList, a.list, []⟩ := by
    rw [Shape.function, toList_declaration, Text.after?_append]
    simp [afterBlanks?_space hname, a.dottedName?_name, parenthesised?, hparen, a.closed?_list]
  simp [declaration?, annotatedShapes, hshape]

/-! ### Line by line -/

/-- No line holds a line feed. -/
theorem lineFeed_notMem {line : String} (h : line ∈ a.lines) : '\n' ∉ line.toList := by
  have htype : ∀ {type : String}, IsTypeText type → '\n' ∉ type.toList := fun htype hmem =>
    absurd (htype.solid _ hmem) (by decide)
  simp only [lines, List.mem_append, List.mem_cons, List.mem_map, List.not_mem_nil, or_false] at h
  rcases h with ((rfl | ⟨p, -, rfl⟩) | ⟨r, -, rfl⟩) | rfl
  · simp [a.isText.oneLine]
  · have hname : '\n' ∉ p.name.toList := fun hmem => absurd (p.name_word _ hmem) (by decide)
    simp [ParameterLine.line, hname, htype p.isType, p.isText.oneLine]
  · simp [ReturnLine.line, htype r.isType, r.isText.oneLine]
  · have hname : '\n' ∉ a.name.toList := fun hmem => absurd (a.isName.dotted _ hmem) (by decide)
    have hlist : '\n' ∉ a.list := fun hmem => absurd (a.mem_list hmem) (by decide)
    simp [toList_declaration, hname, hlist]

theorem trim_description : trim ("---" ++ a.description).toList =
    "---".toList ++ a.description.toList := by
  have hne : a.description.toList ≠ [] := by simpa using a.description_ne
  have hend := Text.trimEnd_append (Text.trimmed_ends a.isText.trimmed).2 hne
  rw [String.toList_append]
  exact Text.trim_cons (by decide) (hend ['-', '-', '-'])

/-- The lines of the content, trimmed. -/
theorem map_trim_lines (emptyLines : Nat) :
    (Text.splitOn '\n' (a.content emptyLines).toList).map trim =
      a.comment.map ("---".toList ++ ·) ++
        a.declaration.toList :: List.replicate emptyLines [] := by
  have hsplit : Text.splitOn '\n' (a.content emptyLines).toList =
      (a.lines ++ List.replicate emptyLines "").map String.toList := by
    rw [Text.splitOn_eq, content, Text.joinWith, String.toList_intercalate]
    refine List.splitOn_intercalate _ (fun piece hpiece => ?_) (by simp [lines])
    obtain ⟨line, hline, rfl⟩ := List.mem_map.1 hpiece
    rcases List.mem_append.1 hline with hline | hline
    · exact a.lineFeed_notMem hline
    · simp [List.eq_of_mem_replicate hline]
  rw [hsplit]
  simp only [lines, comment, List.map_append, List.map_cons, List.map_map, Function.comp_def,
    List.map_replicate, List.map_nil, a.trim_description, a.trim_declaration,
    ParameterLine.trim_line, ReturnLine.trim_line]
  have hempty : trim "".toList = [] := rfl
  simp only [hempty, List.append_assoc, List.cons_append, List.nil_append]

end Annotated

/-- Comment lines wait, in their order, behind those that wait already. -/
theorem foldl_step_comment (source : String) (shapes : List Shape) {notes : List (List Char)}
    (hne : notes ≠ []) (h : ∀ note ∈ notes, trim note = note) (w : Walk) :
    (notes.map ("---".toList ++ ·)).foldl (Walk.step source shapes) w =
      ⟨w.found, some (w.pending.getD [] ++ notes)⟩ := by
  induction notes generalizing w with
  | nil => exact absurd rfl hne
  | cons note notes ih =>
    obtain ⟨hnote, hnotes⟩ := List.forall_mem_cons.1 h
    rw [List.map_cons, List.foldl_cons, Walk.step, Text.after?_append]
    cases notes with
    | nil => simp [hnote]
    | cons second notes =>
      rw [ih (by simp) hnotes]
      simp [hnote]

/-- Empty lines change nothing. -/
theorem foldl_step_replicate (source : String) (emptyLines : Nat) (w : Walk) :
    (List.replicate emptyLines []).foldl (Walk.step source annotatedShapes) w = w := by
  have hstep : Walk.step source annotatedShapes w [] = w := rfl
  induction emptyLines with
  | zero => rfl
  | succ n ih => rw [List.replicate_succ, List.foldl_cons, hstep, ih]

/-- The comment lines wait as they are. -/
theorem Annotated.trim_of_mem_comment (a : Annotated) {note : List Char} (h : note ∈ a.comment) :
    trim note = note := by
  simp only [comment, List.mem_cons, List.mem_append, List.mem_map] at h
  rcases h with rfl | ⟨p, -, rfl⟩ | ⟨r, -, rfl⟩
  · exact a.isText.trimmed
  · exact p.trim_note
  · exact r.trim_note

/-- **Written and extracted.**  The lines that annotate and declare a function, with any number of
    empty lines behind them, are extracted to one signature under its name.  It has the description,
    the parameters and the results that were written, in their order, and no examples. -/
theorem extractAnnotated_content (a : Annotated) (source : String) (emptyLines : Nat) :
    (extractAnnotated (a.content emptyLines) source).entries = [(a.name, a.signature source)] := by
  have hlines : (a.comment.map ("---".toList ++ ·)).foldl (Walk.step source annotatedShapes) {} =
      ⟨.empty, some a.comment⟩ :=
    foldl_step_comment source annotatedShapes (by simp [Annotated.comment])
      (fun _ h => a.trim_of_mem_comment h) {}
  have hstep : Walk.step source annotatedShapes ⟨.empty, some a.comment⟩ a.declaration.toList =
      ⟨OrderedMap.empty.insert a.name (a.signature source), none⟩ := by
    have hcomment : Text.after? "---".toList a.declaration.toList = none := by
      rw [a.toList_declaration]
      rfl
    rw [Walk.step, hcomment, a.declaration?_declaration]
    simp [Docs.signature, a.description_comment, a.parameters_comment, a.returnDocs_comment,
      a.examples_comment, Annotated.signature]
  rw [extractAnnotated, walk, a.map_trim_lines, List.foldl_append, hlines, List.foldl_cons, hstep,
    foldl_step_replicate]
  rfl

/-- A function whose annotations are hard to read: a type that says nothing, an annotation that
    mentions an example, a result without a text, letters beyond ASCII. -/
def drawnText : Annotated where
  name := "lib.draw_2"
  description := "Zeichnet Text (größer, -- fett)"
  parameters := [
    { name := "id", type := "fun(x:number?)", text := "the first example, then more",
      name_ne := by decide, name_word := List.all_eq_true.1 (by decide +kernel),
      isType := ⟨by decide, Text.solid_of_all (by decide), by decide⟩,
      isText := ⟨by decide, by decide, by decide⟩ },
    { name := "größe", type := "any", text := "",
      name_ne := by decide, name_word := List.all_eq_true.1 (by decide +kernel),
      isType := ⟨by decide, Text.solid_of_all (by decide), by decide⟩,
      isText := ⟨by decide, by decide, by decide⟩ }]
  returns := [
    { type := "boolean", text := "",
      isType := ⟨by decide, Text.solid_of_all (by decide), by decide⟩,
      isText := ⟨by decide, by decide, by decide⟩ }]
  isName := ⟨⟨'l', by decide, by decide⟩, List.all_eq_true.1 (by decide)⟩
  isText := ⟨by decide, by decide, by decide⟩
  description_ne := by decide
  no_example := by decide +kernel
  distinct := by decide

/-- This function, written and extracted. -/
theorem extractAnnotated_drawnText : (extractAnnotated
    ("---Zeichnet Text (größer, -- fett)\n" ++
      "---@param id fun(x:number?) the first example, then more\n---@param größe any \n" ++
      "---@return boolean \nfunction lib.draw_2(id, größe)\n") "docs").entries =
    [("lib.draw_2", {
      name := "lib.draw_2", source := "docs", description := "Zeichnet Text (größer, -- fett)"
      parameters := [
        { name := "id", type := .known "fun(x:number?)",
          description := .str "the first example, then more" },
        { name := "größe", type := .unknown, description := .str "" }]
      returns := [{ type := "boolean", description := .str "" }] })] :=
  extractAnnotated_content drawnText "docs" 1

end LuaAudit.Docs
