import LuaAudit.Proofs.Files.Write
import LuaAudit.Proofs.Location.Uri
import LuaAudit.Proofs.Server.Envelope
import LuaAudit.Proofs.Server.Setting
import LuaAudit.Proofs.Server.Workspace
import LuaAudit.Proofs.Text.Read
import LuaAudit.Proofs.Text.Utf8
import LuaAudit.Server.Help

/-!
# What a call for help shows

The name of a tool is read as a path below the manual, so it may lead out of it.

* `Files.Opens`: the text of a file that can be read under a path;
* `exists_run_help`: a call answers with that text, or with an error;
* `exists_pagePlace_eq`: the file has the last component of the name before `.md`, and stands in the
  manual if the name has no other component;
* `HoldsOnlyPages`: the manual as `Manual.install` makes it (`holdsOnlyPages_install`);
* `help_reach`: what is shown is a page or stands outside the manual, and every text file whose name
  ends in `.md` is shown to whoever asks for its path.
-/

namespace LuaAudit

open Location (IsName Path)

/-- The text of a file that can be read under a path. -/
def Files.Opens (fs : Files) (p : Path) (text : String) : Prop :=
  ∃ bytes cs, fs.read p = .ok bytes ∧ Text.Utf8.decode? bytes = some cs ∧
    text = String.ofList (Text.unifyNewlines cs)

namespace Server

/-! ### The file of a name -/

/-- The path under which the page of a tool is looked for. -/
def page (s : Server) (tool : String) : Path := s.manual.join (.parse (Manual.fileName tool))

/-- The place that this path comes to. -/
def pagePlace (s : Server) (tool : String) : Place := (s.world.files.resolve (s.page tool)).parts

/-- The place of the manual. -/
def manualPlace (s : Server) : Place := (s.world.files.resolve s.manual).parts

/-- The part of a name after its last slash. -/
def stem (tool : String) : String :=
  String.ofList ((Text.splitOn '/' tool.toList).getLast?.getD [])

theorem toList_fileName (tool : String) :
    (Manual.fileName tool).toList = tool.toList ++ ['.', 'm', 'd'] := by
  rw [Manual.fileName, String.toList_append]
  rfl

theorem fileName_inj {tool tool' : String} (h : Manual.fileName tool = Manual.fileName tool') :
    tool = tool' := by
  have hchars := congrArg String.toList h
  rw [toList_fileName, toList_fileName, List.append_cancel_right_eq] at hchars
  exact String.toList_inj.1 hchars

/-- A file name is longer than a dot or two. -/
theorem fileName_ne {name : String} (h : name.toList.length ≤ 2) (tool : String) :
    Manual.fileName tool ≠ name := by
  rintro rfl
  rw [toList_fileName, List.length_append] at h
  exact absurd h (by simp)

theorem exists_parts_eq (tool : String) :
    ∃ parts, (Path.parse (Manual.fileName tool)).parts = parts ++ [Manual.fileName (stem tool)] ∧
      ('/' ∉ tool.toList → parts = [] ∧ stem tool = tool) := by
  obtain ⟨pieces, last, hcut, hjoined⟩ :=
    Text.exists_splitOn_append (show '/' ∉ ['.', 'm', 'd'] by decide) tool.toList
  have hstem : stem tool = String.ofList last := by
    rw [stem, hcut, List.getLast?_concat]
    rfl
  have hname : String.ofList (last ++ ['.', 'm', 'd']) = Manual.fileName (stem tool) := by
    rw [hstem, ← String.toList_inj, toList_fileName, String.toList_ofList, String.toList_ofList]
  refine ⟨(pieces.map String.ofList).filter fun p => p ≠ "" ∧ p ≠ ".", ?_, fun hslash => ?_⟩
  · rw [Path.parse, toList_fileName, Path.partsOf, hjoined, List.map_append, List.filter_append,
      List.map_singleton, hname, List.filter_cons_of_pos]
    · rfl
    · exact decide_eq_true ⟨fileName_ne (by decide) _, fileName_ne (by decide) _⟩
  · rw [Text.splitOn_eq, List.splitOn_eq_singleton hslash] at hcut
    cases pieces with
    | nil =>
      obtain rfl := (List.cons.inj hcut).1
      exact ⟨rfl, by rw [hstem, String.ofList_toList]⟩
    | cons piece pieces => simp at hcut

theorem anchor_eq_relative {tool : String} (h : '/' ∉ tool.toList) :
    (Path.parse (Manual.fileName tool)).anchor = .relative := by
  rw [Path.parse, toList_fileName]
  cases htool : tool.toList with
  | nil => rfl
  | cons c cs =>
    have hc : c ≠ '/' := by
      rintro rfl
      exact h (htool ▸ List.mem_cons_self)
    rw [List.cons_append, Path.anchorOf]
    all_goals
      intro cs' heq
      exact hc (List.cons.inj heq).1

/-- The place of a file is named for the part of the name after its last slash, and is in the manual
    if there is no slash. -/
theorem exists_pagePlace_eq (s : Server) (tool : String) :
    ∃ dir, s.pagePlace tool = dir ++ [Manual.fileName (stem tool)] ∧
      ('/' ∉ tool.toList → dir = s.manualPlace ∧ stem tool = tool) := by
  obtain ⟨parts, hparts, hplain⟩ := exists_parts_eq tool
  have hstep : ∀ place, Files.step place (Manual.fileName (stem tool)) =
      place ++ [Manual.fileName (stem tool)] := fun place =>
    if_neg (fileName_ne (by decide) _)
  rw [pagePlace, page, Path.join]
  split
  next habsolute =>
    refine ⟨parts.foldl Files.step [], ?_, fun hslash => ?_⟩
    · rw [Files.resolve, Files.origin, if_pos habsolute, hparts, List.foldl_append]
      exact hstep _
    · rw [Path.isAbsolute, anchor_eq_relative hslash] at habsolute
      exact absurd habsolute (by decide)
  next =>
    refine ⟨parts.foldl Files.step s.manualPlace, ?_, fun hslash => ?_⟩
    · show (s.manual.parts ++ _).foldl Files.step _ = _
      rw [List.foldl_append, hparts, List.foldl_append]
      exact hstep _
    · obtain ⟨rfl, hstem⟩ := hplain hslash
      exact ⟨rfl, hstem⟩

/-! ### Answers -/

/-- The components of a name are components of its path. -/
theorem mem_parts_page {s : Server} {tool name : String}
    (h : name ∈ (Path.parse (Manual.fileName tool)).parts) : name ∈ (s.page tool).parts := by
  rw [page, Path.join]
  split
  · exact h
  · exact List.mem_append_right _ h

/-- A name with a zero character opens nothing. -/
theorem any_zero_of_opens {s : Server} {tool text : String}
    (h : s.world.files.Opens (s.page tool) text) : tool.toList.any (·.toNat = 0) = false := by
  obtain ⟨bytes, cs, hread, -⟩ := h
  by_contra hzero
  obtain ⟨c, hc, hcode⟩ := List.any_eq_true.1 (Bool.of_not_eq_false hzero)
  have hne : ∀ d : Char, d.toNat ≠ 0 → c ≠ d := by
    rintro d hd rfl
    exact hd (of_decide_eq_true hcode)
  have hname : c ∈ (Manual.fileName tool).toList := by
    rw [toList_fileName]
    exact List.mem_append_left _ hc
  obtain ⟨piece, hpiece, hmem⟩ := Text.exists_mem_splitOn (hne '/' (by decide)) hname
  -- the component with that character is not dropped, so the path cannot be followed
  have hpart : String.ofList piece ∈ (Path.parse (Manual.fileName tool)).parts := by
    refine List.mem_filter.2 ⟨List.mem_map_of_mem hpiece, decide_eq_true ⟨?_, ?_⟩⟩
    · intro hempty
      have hnil : piece = [] := by simpa using congrArg String.toList hempty
      rw [hnil] at hmem
      cases hmem
    · intro hdot
      have hsingle : piece = ['.'] := by simpa using congrArg String.toList hdot
      rw [hsingle, List.mem_singleton] at hmem
      exact hne '.' (by decide) hmem
  have hlost : s.world.files.locate (s.page tool) = .error .missing := by
    refine if_pos (List.any_eq_true.2 ⟨_, mem_parts_page hpart, List.any_eq_true.2 ⟨c, ?_, hcode⟩⟩)
    rw [String.toList_ofList]
    exact hmem
  rw [Files.read, hlost] at hread
  cases hread

/-- A call answers with the text of the file that its name opens, or else with an error. -/
theorem exists_run_help (s : Server) (tool : String) :
    ∃ answer, (help tool).run.run s = (.ok answer, s) ∧
      (IsError answer ∨ s.world.files.Opens (s.page tool) answer) ∧
      ∀ text, s.world.files.Opens (s.page tool) text → answer = text := by
  have hget : (get : Tool Server).run.run s = (.ok s, s) := rfl
  have hpage : s.manual.join (.parse (Manual.fileName tool)) = s.page tool := rfl
  have herror : IsError "Error loading documentation: " := by decide
  have hmissing : IsError "Error: No documentation found for tool '" := by decide
  unfold help
  rw [run_bind_ok _ hget]
  dsimp only
  rw [hpage]
  cases hzero : tool.toList.any (·.toNat = 0) with
  | true =>
    have hnull : IsError "Error loading documentation: embedded null byte" := by decide
    rw [if_pos rfl]
    refine ⟨_, rfl, .inl hnull, fun text h => ?_⟩
    rw [any_zero_of_opens h] at hzero
    cases hzero
  | false =>
    rw [if_neg Bool.false_ne_true]
    cases hread : s.world.files.read (s.page tool) with
    | error e =>
      have hnot : ∀ answer text : String, s.world.files.Opens (s.page tool) text →
          answer = text := by
        rintro answer text ⟨bytes, cs, hopen, -⟩
        rw [hread] at hopen
        cases hopen
      simp only
      split
      next => exact ⟨_, rfl, .inl ((hmissing.append _).append _), hnot _⟩
      next => exact ⟨_, rfl, .inl (herror.append _), hnot _⟩
    | ok bytes =>
      have hsame : ∀ text, s.world.files.Opens (s.page tool) text → ∃ cs,
          Text.Utf8.decode bytes = .ok cs ∧ text = String.ofList (Text.unifyNewlines cs) := by
        rintro text ⟨bytes', cs, hopen, hcs, htext⟩
        obtain rfl := Except.ok.inj (hread.symm.trans hopen)
        exact ⟨cs, Text.Utf8.decode_eq_ok_iff.2 hcs, htext⟩
      simp only
      cases hdecode : Text.Utf8.decode bytes with
      | ok cs =>
        refine ⟨_, rfl, .inr ⟨bytes, cs, hread, Text.Utf8.decode_eq_ok_iff.1 hdecode, rfl⟩, ?_⟩
        intro text h
        obtain ⟨cs', hcs', rfl⟩ := hsame text h
        rw [hdecode, Except.ok.injEq] at hcs'
        rw [hcs']
      | error fault =>
        refine ⟨_, rfl, .inl (herror.append _), fun text h => ?_⟩
        obtain ⟨cs, hcs, -⟩ := hsame text h
        rw [hdecode] at hcs
        cases hcs

/-! ### The manual -/

/-- The files below a place whose names end in `.md` are the pages of the manual. -/
def HoldsOnlyPages (fs : Files) (place : Place) : Prop :=
  ∀ rest name bytes, fs.nodes.get? (place ++ rest ++ [Manual.fileName name]) = some (.file bytes) →
    rest = [] ∧ ∃ p ∈ Manual.pages, p.1 = name ∧ bytes = Text.Utf8.encode p.2.toList

theorem resolve_congr {fs fs' : Files} (h : fs'.cwd = fs.cwd) (p : Path) :
    fs'.resolve p = fs.resolve p := by
  rw [Files.resolve, Files.resolve, Files.origin, Files.origin, h]

theorem cwd_installPage (dir : Path) (fs : Files) (p : String × String) :
    (Manual.installPage dir fs p).cwd = fs.cwd := by
  rw [Manual.installPage]
  cases hwrite : fs.write (dir.child (Manual.fileName p.1)) (Text.Utf8.encode p.2.toList) with
  | error e => rfl
  | ok fs' =>
    obtain ⟨place, -, -, -, rfl⟩ := Files.write_eq_ok_iff.1 hwrite
    rfl

/-- One page more. -/
theorem HoldsOnlyPages.installPage {fs : Files} {dir : Path}
    (h : HoldsOnlyPages fs (fs.resolve dir).parts) {p : String × String} (hp : p ∈ Manual.pages) :
    HoldsOnlyPages (Manual.installPage dir fs p) (fs.resolve dir).parts := by
  have hchild : (fs.resolve (dir.child (Manual.fileName p.1))).parts =
      (fs.resolve dir).parts ++ [Manual.fileName p.1] := by
    show (dir.parts ++ [Manual.fileName p.1]).foldl Files.step _ = _
    rw [List.foldl_append]
    exact if_neg (fileName_ne (by decide) _)
  rw [Manual.installPage]
  cases hwrite : fs.write (dir.child (Manual.fileName p.1)) (Text.Utf8.encode p.2.toList) with
  | error e => exact h
  | ok fs' =>
    obtain ⟨place, hlocate, -, -, rfl⟩ := Files.write_eq_ok_iff.1 hwrite
    obtain rfl := Files.locate_eq hlocate
    intro rest name bytes hfile
    change (fs.nodes.insert _ _).get? _ = _ at hfile
    rw [OrderedMap.get?_insert, hchild] at hfile
    split at hfile
    next hsame =>
      obtain ⟨hrest, hname⟩ := List.append_inj' hsame rfl
      obtain rfl := Node.file.inj (Option.some.inj hfile)
      exact ⟨by simpa using hrest, p, hp, (fileName_inj (List.cons.inj hname).1).symm, rfl⟩
    next => exact h rest name bytes hfile

/-- **The manual as it is installed** where no file was before. -/
theorem holdsOnlyPages_install {fs : Files} {dir : Path}
    (h : ∀ rest bytes, fs.nodes.get? ((fs.resolve dir).parts ++ rest) ≠ some (.file bytes)) :
    HoldsOnlyPages (Manual.install dir fs) ((Manual.install dir fs).resolve dir).parts := by
  have hfold : ∀ (pages : List (String × String)) (made : Files), pages ⊆ Manual.pages →
      HoldsOnlyPages made (made.resolve dir).parts →
      HoldsOnlyPages (pages.foldl (Manual.installPage dir) made)
        ((pages.foldl (Manual.installPage dir) made).resolve dir).parts := by
    intro pages
    induction pages with
    | nil => exact fun made _ hmade => hmade
    | cons p pages ih =>
      intro made hpages hmade
      refine ih _ (List.subset_of_cons_subset hpages) ?_
      rw [resolve_congr (cwd_installPage dir made p)]
      exact hmade.installPage (hpages List.mem_cons_self)
  refine hfold _ _ (List.Subset.refl _) ?_
  intro rest name bytes hfile
  have hextended := Files.extended_makeDirs fs dir
  rw [resolve_congr (by rw [hextended.alike]), List.append_assoc] at hfile
  exact absurd (Files.get?_of_makeDirs (by simp) hfile) (h _ bytes)

/-! ### What can be shown -/

/-- A file below the manual that is opened is a page, with its line ends unified. -/
theorem exists_page_of_opens {s : Server} {tool text name : String}
    (hmanual : HoldsOnlyPages s.world.files s.manualPlace)
    (h : s.world.files.Opens (s.page tool) text) {rest : Place}
    (hplace : s.pagePlace tool = s.manualPlace ++ rest ++ [Manual.fileName name]) :
    rest = [] ∧ ∃ p ∈ Manual.pages, p.1 = name ∧ text.toList = Text.unifyNewlines p.2.toList := by
  obtain ⟨bytes, cs, hread, hcs, rfl⟩ := h
  have hfile : s.world.files.nodes.get? (s.pagePlace tool) = some (.file bytes) :=
    Files.get?_of_read hread
  rw [hplace] at hfile
  obtain ⟨hrest, p, hp, hname, rfl⟩ := hmanual rest name bytes hfile
  rw [Text.Utf8.decode?_encode, Option.some.injEq] at hcs
  exact ⟨hrest, p, hp, hname, by rw [String.toList_ofList, hcs]⟩

/-- The path of a file without the end of its name is a name that leads to the file. -/
theorem page_eq_of_absolute (s : Server) {dir : Place} {name : String}
    (h : ∀ part ∈ dir ++ [Manual.fileName name], IsName part) :
    s.page (Location.Path.mk .root (dir ++ [name])).text =
      ⟨.root, dir ++ [Manual.fileName name]⟩ := by
  have htext : Manual.fileName (Location.Path.mk .root (dir ++ [name])).text =
      (Location.Path.mk .root (dir ++ [Manual.fileName name])).text := by
    rw [← String.toList_inj, toList_fileName, Path.toList_text, Path.toList_text, List.cons_append,
      List.map_append, List.map_singleton, Text.intercalate_concat_append, List.map_append,
      List.map_singleton, toList_fileName]
  rw [page, htext, Path.parse_text h]
  rfl

/-- **What a call for help shows.**  A call changes nothing and shows the text of the file that its
    name opens, or an error.  That file is a page, or the name has a slash and the file, named for
    what follows the last one, stands outside the manual; a name without a slash that is no tool's
    is refused.  And every text file whose name ends in `.md` is shown to whoever asks for its
    path. -/
theorem help_reach (s : Server) (hmanual : HoldsOnlyPages s.world.files s.manualPlace) :
    (∀ tool, ∃ answer, (help tool).run.run s = (.ok answer, s) ∧
      (∀ text, s.world.files.Opens (s.page tool) text → answer = text) ∧
      (IsError answer ∨
        (∃ p ∈ Manual.pages, s.pagePlace tool = s.manualPlace ++ [Manual.fileName p.1] ∧
          answer.toList = Text.unifyNewlines p.2.toList) ∨
        s.world.files.Opens (s.page tool) answer ∧ '/' ∈ tool.toList ∧
          ∃ dir, s.pagePlace tool = dir ++ [Manual.fileName (stem tool)] ∧
            ¬ s.manualPlace <+: dir) ∧
      ('/' ∉ tool.toList → tool ∉ Manual.pages.map Prod.fst → IsError answer)) ∧
    ∀ dir name text, (∀ part ∈ dir ++ [Manual.fileName name], IsName part) →
      s.world.files.Opens ⟨.root, dir ++ [Manual.fileName name]⟩ text →
      (help (Location.Path.mk .root (dir ++ [name])).text).run.run s = (.ok text, s) := by
  constructor
  · intro tool
    obtain ⟨answer, hrun, hanswer, hexact⟩ := exists_run_help s tool
    obtain ⟨dir, hplace, hplain⟩ := exists_pagePlace_eq s tool
    refine ⟨answer, hrun, hexact, ?_, fun hslash htool => ?_⟩
    · rcases hanswer with herror | hopens
      · exact .inl herror
      · by_cases hbelow : s.manualPlace <+: dir
        · obtain ⟨rest, rfl⟩ := hbelow
          obtain ⟨rfl, p, hp, hname, htext⟩ := exists_page_of_opens hmanual hopens hplace
          rw [List.append_nil, ← hname] at hplace
          exact .inr (.inl ⟨p, hp, hplace, htext⟩)
        · refine .inr (.inr ⟨hopens, ?_, dir, hplace, hbelow⟩)
          -- a name without a slash stays in the manual
          by_contra hslash
          exact hbelow ((hplain hslash).1 ▸ List.prefix_refl _)
    · obtain ⟨rfl, hstem⟩ := hplain hslash
      refine hanswer.resolve_right fun hopens => htool ?_
      rw [← List.append_nil s.manualPlace] at hplace
      obtain ⟨-, p, hp, hname, -⟩ := exists_page_of_opens hmanual hopens hplace
      exact List.mem_map.2 ⟨p, hp, hname.trans hstem⟩
  · intro dir name text hnames hopens
    obtain ⟨answer, hrun, -, hexact⟩ :=
      exists_run_help s (Location.Path.mk .root (dir ++ [name])).text
    rw [page_eq_of_absolute s hnames] at hexact
    rw [hrun, hexact text hopens]

/-- A server with the manual and with notes in a file beside it. -/
def withNotes : Server :=
  { installed with
    world := { installed.world with
      files := Manual.install ⟨.root, ["manual"]⟩
        { nodes := .ofList [(["notes.md"], .file (Text.Utf8.encode "# Notes\n".toList))] } } }

theorem holdsOnlyPages_withNotes :
    HoldsOnlyPages withNotes.world.files withNotes.manualPlace := by
  refine holdsOnlyPages_install fun rest bytes hfile => ?_
  obtain ⟨hplace, -⟩ := Prod.mk.inj (List.mem_singleton.1 (OrderedMap.mem_of_get?_ofList hfile))
  exact absurd (List.cons.inj hplace).1 (by decide)

theorem opens_notes : withNotes.world.files.Opens ⟨.root, ["notes.md"]⟩ "# Notes\n" :=
  ⟨_, "# Notes\n".toList, rfl, Text.Utf8.decode?_encode _, by decide⟩

/-- The notes are refused by their name and shown by their path. -/
theorem help_reach_notes :
    HoldsOnlyPages withNotes.world.files withNotes.manualPlace ∧
      (∃ answer, (help "notes").run.run withNotes = (.ok answer, withNotes) ∧ IsError answer) ∧
      (help "/notes").run.run withNotes = (.ok "# Notes\n", withNotes) := by
  obtain ⟨hcalls, hfiles⟩ := help_reach withNotes holdsOnlyPages_withNotes
  obtain ⟨answer, hrun, -, -, hrefused⟩ := hcalls "notes"
  exact ⟨holdsOnlyPages_withNotes, ⟨answer, hrun, hrefused (by decide) (by decide)⟩,
    hfiles [] "notes" _ (by decide) opens_notes⟩

/-- **Out of the manual.**  Not every name that is no tool's is refused, even where the manual holds
    its pages only: an absolute path is read. -/
theorem not_all_other_names_refused : ¬ ∀ (s : Server) (tool answer : String),
    HoldsOnlyPages s.world.files s.manualPlace → tool ∉ Manual.pages.map Prod.fst →
      (help tool).run.run s = (.ok answer, s) → IsError answer := by
  intro h
  have hnames : ∀ part ∈ [] ++ [Manual.fileName "notes"], IsName part := by decide
  obtain ⟨answer, hrun, -, hexact⟩ :=
    exists_run_help withNotes (Location.Path.mk .root ([] ++ ["notes"])).text
  have hanswer : answer = "# Notes\n" :=
    hexact _ (page_eq_of_absolute withNotes hnames ▸ opens_notes)
  have herror := h withNotes _ answer holdsOnlyPages_withNotes (by decide) hrun
  rw [hanswer] at herror
  exact absurd herror (by decide)

end Server

end LuaAudit
