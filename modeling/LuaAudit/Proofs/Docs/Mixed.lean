import LuaAudit.Proofs.Docs.Attached
import LuaAudit.Proofs.Lua.Name

/-!
# Mixed files extend annotated ones

The forms of an annotated file and of a mixed file differ in the last one only.  That of an
annotated file never decides, since an assignment fits every line that it fits.  That of a mixed
file adds the functions that are exported by a call.  So a mixed file has every function of an
annotated one, and a name that no such call exports means the same in both.

* `assignment_of_fieldOf`: an assignment fits every line on which a field of a table is assigned;
* `ExportsByCall`: a line that exports a function by a call, said of the text alone;
* `exportsByCall_of_declared?`: what a mixed file declares and an annotated one does not;
* `mixed_extends_annotated`: the two files compared.
-/

namespace LuaAudit.Lua

/-- A dotted name may be continued to the left by characters that start like a name. -/
theorem dottedName?_append {c : Char} (hc : isNameStart c = true) {lead : List Char}
    (hlead : ∀ d ∈ lead, isDottedChar d = true) {cs name rest : List Char}
    (h : dottedName? cs = some (name, rest)) :
    dottedName? (c :: lead ++ cs) = some (c :: lead ++ name, rest) := by
  unfold dottedName? runOf? at h
  split at h
  · cases h
  next d tail =>
    split at h
    next hd =>
      obtain ⟨rfl, rfl⟩ := Prod.mk.inj (Option.some.inj h)
      have hdotted : isDottedChar d = true := by
        rw [isDottedChar, isNameChar_of_isNameStart hd, Bool.true_or]
      rw [List.cons_append, dottedName?, runOf?, if_pos hc, List.takeWhile_append_of_pos hlead,
        List.dropWhile_append_of_pos hlead, List.takeWhile_cons_of_pos hdotted,
        List.dropWhile_cons_of_pos hdotted]
      rfl
    · cases h

end LuaAudit.Lua

namespace LuaAudit.Docs

open Text (Spaced isQuoteMark)

/-! ### Fields of a table -/

theorem Shape.assignment_eq_some_iff (cs : List Char) (d : Declaration) :
    Shape.assignment cs = some d ↔
      ∃ rest, Lua.dottedName? cs = some (d.name, rest) ∧
        assigned? rest = some (d.parameters, d.rest) := by
  simp only [Shape.assignment, Option.bind_eq_bind, Option.bind_eq_some_iff, Prod.exists]
  constructor
  · rintro ⟨name, rest, hname, parameters, tail, hassigned, h⟩
    obtain rfl := Option.some.inj h
    exact ⟨rest, hname, hassigned⟩
  · rintro ⟨rest, hname, hassigned⟩
    exact ⟨d.name, rest, hname, d.parameters, d.rest, hassigned, rfl⟩

/-- **A field is assigned.**  Where a field of `lib` is assigned, an assignment to the full dotted
    name stands. -/
theorem assignment_of_fieldOf {line : List Char} {d : Declaration}
    (h : Shape.fieldOf "lib" line = some d) :
    Shape.assignment line = some { d with name := "lib.".toList ++ d.name } := by
  simp only [Shape.fieldOf, Option.bind_eq_bind, Option.bind_eq_some_iff] at h
  obtain ⟨cs, hlead, h⟩ := h
  obtain rfl := Text.eq_append_of_after? hlead
  obtain ⟨rest, hname, hassigned⟩ := (Shape.assignment_eq_some_iff cs d).1 h
  refine (Shape.assignment_eq_some_iff _ _).2 ⟨rest, ?_, hassigned⟩
  exact Lua.dottedName?_append (by decide) (List.all_eq_true.1 (by decide)) hname

/-! ### Forms of both files -/

/-- The forms that both kinds of files have. -/
def sharedShapes : List Shape := [.function, .assignment, .localFunction, .exportField]

theorem declaration?_concat (shapes : List Shape) (shape : Shape) (line : List Char) :
    declaration? (shapes ++ [shape]) line = (declaration? shapes line).or (shape line) := by
  simp [declaration?, List.findSome?_append]

/-- The last form of an annotated file never decides. -/
theorem declaration?_annotatedShapes (line : List Char) :
    declaration? annotatedShapes line = declaration? sharedShapes line := by
  show declaration? (sharedShapes ++ [.fieldOf "lib"]) line = _
  rw [declaration?_concat]
  cases hshared : declaration? sharedShapes line with
  | some d => rfl
  | none =>
    rw [Option.none_or]
    by_contra hsome
    obtain ⟨d, hd⟩ := Option.ne_none_iff_exists'.1 hsome
    -- An assignment would have fitted before.
    have hnone : Shape.assignment line = none :=
      List.findSome?_eq_none_iff.1 hshared _ (by simp [sharedShapes])
    rw [assignment_of_fieldOf hd] at hnone
    cases hnone

theorem declaration?_hybridShapes (line : List Char) :
    declaration? hybridShapes line =
      (declaration? sharedShapes line).or (Shape.exportCall line) :=
  declaration?_concat sharedShapes .exportCall line

/-! ### Exports by a call -/

/-- A text is the inside of parentheses, up to the first one that closes, and then `rest`. -/
theorem closed?_eq_some_iff (cs inside rest : List Char) :
    closed? cs = some (inside, rest) ↔
      cs = inside ++ ')' :: rest ∧ ∀ c ∈ inside, c ≠ ')' ∧ c ≠ '\n' := by
  have hclass : ∀ c : Char, (c != ')' && c != '\n') = true ↔ c ≠ ')' ∧ c ≠ '\n' := by simp
  unfold closed?
  constructor
  · intro h
    split at h
    next tail hdrop =>
      obtain ⟨rfl, rfl⟩ := Prod.mk.inj (Option.some.inj h)
      refine ⟨?_, fun c hc => (hclass c).1 (List.all_eq_true.1 List.all_takeWhile c hc)⟩
      rw [← hdrop, List.takeWhile_append_dropWhile]
    · cases h
  · rintro ⟨rfl, hinside⟩
    have hpos : ∀ c ∈ inside, (c != ')' && c != '\n') = true := fun c hc =>
      (hclass c).2 (hinside c hc)
    rw [List.dropWhile_append_of_pos hpos, List.takeWhile_append_of_pos hpos,
      List.dropWhile_cons_of_neg (by decide), List.takeWhile_cons_of_neg (by decide),
      List.append_nil]
    rfl

theorem parenthesised?_eq_some_iff (cs inside rest : List Char) :
    parenthesised? cs = some (inside, rest) ↔
      Spaced cs ('(' :: (inside ++ ')' :: rest)) ∧ ∀ c ∈ inside, c ≠ ')' ∧ c ≠ '\n' := by
  simp only [parenthesised?, Option.bind_eq_some_iff,
    Text.afterMark?_eq_some_iff (show Text.isBlank '(' = false by decide), closed?_eq_some_iff]
  constructor
  · rintro ⟨_, hopen, rfl, hinside⟩
    exact ⟨hopen, hinside⟩
  · rintro ⟨hopen, hinside⟩
    exact ⟨_, hopen, rfl, hinside⟩

/-- A line starts with `exports('name', function(…)`: the quotes are of either kind, the name has at
    least one character and no quote, and blanks may stand between the parts. -/
structure ExportsByCall (line : List Char) (d : Declaration) : Prop where
  name_ne : d.name ≠ []
  name_unquoted : ∀ c ∈ d.name, isQuoteMark c = false
  parameters_open : ∀ c ∈ d.parameters, c ≠ ')' ∧ c ≠ '\n'
  parts : ∃ call quoted comma body list q q', line = "exports".toList ++ call ∧
    Spaced call ('(' :: quoted) ∧ isQuoteMark q = true ∧ isQuoteMark q' = true ∧
    Spaced quoted (q :: (d.name ++ q' :: comma)) ∧ Spaced comma (',' :: body) ∧
    Spaced body ("function".toList ++ list) ∧
    Spaced list ('(' :: (d.parameters ++ ')' :: d.rest))

theorem exportCall_eq_some_iff (line : List Char) (d : Declaration) :
    Shape.exportCall line = some d ↔ ExportsByCall line d := by
  have hword : ∀ cs rest, Text.afterWord? "function".toList cs = some rest ↔
      Spaced cs ("function".toList ++ rest) :=
    Text.afterWord?_eq_some_iff (show Text.isBlank 'f' = false by decide) "unction".toList
  simp only [Shape.exportCall, Option.bind_eq_bind, Option.bind_eq_some_iff, Prod.exists,
    Text.after?_eq_some_iff, hword, parenthesised?_eq_some_iff, Text.quoted?_eq_some_iff,
    Text.afterMark?_eq_some_iff (show Text.isBlank '(' = false by decide),
    Text.afterMark?_eq_some_iff (show Text.isBlank ',' = false by decide)]
  constructor
  · rintro ⟨call, hcall, quoted, hopen, name, comma, ⟨hne, hname, q, q', hq, hq', hquoted⟩, body,
      hbody, list, hlist, parameters, rest, ⟨hclosed, hparameters⟩, h⟩
    obtain rfl := Option.some.inj h
    exact ⟨hne, hname, hparameters, call, quoted, comma, body, list, q, q', hcall, hopen, hq, hq',
      hquoted, hbody, hlist, hclosed⟩
  · rintro ⟨hne, hname, hparameters, call, quoted, comma, body, list, q, q', hcall, hopen, hq, hq',
      hquoted, hbody, hlist, hclosed⟩
    exact ⟨call, hcall, quoted, hopen, d.name, comma, ⟨hne, hname, q, q', hq, hq', hquoted⟩, body,
      hbody, list, hlist, d.parameters, d.rest, ⟨hclosed, hparameters⟩, rfl⟩

/-- A line of a file exports a function of a name by a call. -/
def ExportedIn (content name : String) : Prop :=
  ∃ line ∈ linesOf content, ∃ d, ExportsByCall line d ∧ String.ofList d.name = name

/-! ### The two files -/

/-- A mixed file declares what an annotated one declares. -/
theorem declared?_hybridShapes_of_annotatedShapes {line : List Char} {d : Declaration}
    (h : declared? annotatedShapes line = some d) : declared? hybridShapes line = some d := by
  unfold declared? at h ⊢
  split at h
  · cases h
  next hnote =>
    rw [declaration?_annotatedShapes] at h
    rw [if_neg hnote, declaration?_hybridShapes, h, Option.some_or]

/-- What it declares beyond that is exported by a call. -/
theorem exportsByCall_of_declared? {line : List Char} {d : Declaration}
    (h : declared? hybridShapes line = some d) :
    declared? annotatedShapes line = some d ∨ ExportsByCall line d := by
  unfold declared? at h ⊢
  split at h
  · cases h
  next hnote =>
    rw [declaration?_hybridShapes] at h
    rw [if_neg hnote, declaration?_annotatedShapes, ← exportCall_eq_some_iff]
    exact (Option.or_eq_some_iff.1 h).imp_right And.right

theorem get?_extractHybrid_eq {content name : String} (h : ¬ ExportedIn content name)
    (source : String) :
    (extractHybrid content source).get? name = (extractAnnotated content source).get? name := by
  refine get?_walk_congr rfl rfl (fun line hline d hname => ⟨fun hd => ?_, ?_⟩) source
  · exact (exportsByCall_of_declared? hd).resolve_right fun hexport =>
      h ⟨line, hline, d, hexport, hname⟩
  · exact declared?_hybridShapes_of_annotatedShapes

/-- **Mixed files extend annotated ones.**  Whatever a file holds, read as a mixed file it has every
    function that it has as an annotated one, and the signatures under a name are the same unless a
    line exports a function of that name by a call.  The form for fields of `lib` never decides: an
    assignment to the full dotted name fits before it. -/
theorem mixed_extends_annotated (content source : String) :
    (∀ name ∈ (extractAnnotated content source).keys,
      name ∈ (extractHybrid content source).keys ∧
      (¬ ExportedIn content name →
        (extractHybrid content source).get? name =
          (extractAnnotated content source).get? name)) ∧
    (∀ line d, Shape.fieldOf "lib" line = some d →
      Shape.assignment line = some { d with name := "lib.".toList ++ d.name }) ∧
    ∀ line, declaration? annotatedShapes line = declaration? sharedShapes line := by
  refine ⟨fun name hname => ⟨?_, fun hexport => get?_extractHybrid_eq hexport source⟩,
    fun line d => assignment_of_fieldOf, declaration?_annotatedShapes⟩
  rw [extractHybrid, mem_keys_walk_iff rfl]
  obtain ⟨line, hline, d, hd, hname⟩ := (mem_keys_walk_iff rfl content source name).1 hname
  exact ⟨line, hline, d, declared?_hybridShapes_of_annotatedShapes hd, hname⟩

/-- A file that assigns `f`, exports it by a call, and assigns a field of `lib`. -/
def exportedTwice : String := "f=function(a)\nexports('f',function(b)\nlib.g=function()"

/-- Of this file, `lib.g` is the same in both readings, and `f` is exported by a call. -/
theorem mixed_extends_annotated_exportedTwice :
    ("lib.g" ∈ (extractAnnotated exportedTwice "s").keys ∧ ¬ ExportedIn exportedTwice "lib.g") ∧
    "lib.g" ∈ (extractHybrid exportedTwice "s").keys ∧
    (extractHybrid exportedTwice "s").get? "lib.g" =
      (extractAnnotated exportedTwice "s").get? "lib.g" ∧
    (Shape.assignment "lib.g=function()".toList = some ⟨"lib.g".toList, [], []⟩ ∧
      ExportedIn exportedTwice "f") := by
  -- The lines are evaluated once for all that is asked about them.
  obtain ⟨hkey, hcalls, hcall⟩ : "lib.g" ∈ (extractAnnotated exportedTwice "s").keys ∧
      (∀ line ∈ linesOf exportedTwice, ∀ d ∈ Shape.exportCall line,
        String.ofList d.name ≠ "lib.g") ∧
      ∃ line ∈ linesOf exportedTwice,
        Shape.exportCall line = some ⟨"f".toList, "b".toList, []⟩ := by
    decide +kernel
  obtain ⟨hkeys, hfield, -⟩ := mixed_extends_annotated exportedTwice "s"
  have hunexported : ¬ ExportedIn exportedTwice "lib.g" := by
    rintro ⟨line, hline, d, hd, hname⟩
    exact hcalls line hline d ((exportCall_eq_some_iff line d).2 hd) hname
  refine ⟨⟨hkey, hunexported⟩, (hkeys _ hkey).1, (hkeys _ hkey).2 hunexported, ?_, ?_⟩
  · exact hfield _ ⟨"g".toList, [], []⟩ (by decide +kernel)
  · obtain ⟨line, hline, hf⟩ := hcall
    exact ⟨line, hline, _, (exportCall_eq_some_iff line _).1 hf, by decide⟩

end LuaAudit.Docs
