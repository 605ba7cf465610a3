import LuaAudit.Command
import LuaAudit.Proofs.Fetch.Served
import LuaAudit.Proofs.Json.Written
import LuaAudit.Proofs.Scan.Workspace
import LuaAudit.Server.Lint

/-!
# One directory, two scans

A directory can be scanned by a command and by a tool.  The command reads the files and lints them
one after the other.  The tool schedules them, scans whatever waits, and looks up what was found
under the URL of each file.  Both report the same on the same files, but the tool passes over more
directories.

* `Command.scanPaths_of_filesBelow` and `Server.run_scanRoot_of_read`: what each of them shows;
* `Server.Asks` and `Server.Scanned`: two scans of one directory, and how they end;
* `Server.scans_agree_outside_git`: they differ in the files below a `.git` only;
* `Server.not_all_scans_agree`: and there they do.
-/

namespace LuaAudit

open Lint (Diagnostic)
open Location (Path fileUri)
open Scan (Scheduler avoids skippedDirs)

/-! ### The command -/

namespace Command

variable {w : World} {path : String} {root : Path}

/-- The command reports on every file that can be read. -/
theorem exists_lintFiles (w : World) (paths : List Path) :
    ∃ messages, lintFiles w paths = .ok (w.files.reports w.settings paths, messages) := by
  induction paths with
  | nil => exact ⟨[], rfl⟩
  | cons p paths ih =>
    obtain ⟨messages, ih⟩ := ih
    cases htext : w.files.readText p with
    | error e =>
      refine ⟨("Cannot read " ++ p.text ++ ": " ++ e.message) :: messages, ?_⟩
      have hnone : w.files.report? w.settings p = none := by
        rw [Files.report?, htext]
        rfl
      rw [lintFiles, htext, Files.reports, List.filterMap_cons_none hnone]
      dsimp only
      rw [ih]
      rfl
    | ok text =>
      refine ⟨messages, ?_⟩
      have hreport : w.files.report? w.settings p =
          if (Lint.reportsOn w.settings text).isEmpty then none
          else some (p, Lint.reportsOn w.settings text) := by
        rw [Files.report?, htext]
        rfl
      rw [lintFiles, htext, Files.reports, List.filterMap_cons, hreport]
      dsimp only
      rw [Lint.lint_eq_ok]
      dsimp only
      rw [ih]
      cases (Lint.reportsOn w.settings text).isEmpty <;> rfl

/-- What the command prints about reports. -/
def shown (reports : List (Path × List Diagnostic)) : String :=
  printed [(Json.arr (reports.map fileFindings)).render .file]

theorem targets_eq (hroot : (Path.parse path).expandUser w.homes = .ok root) :
    targets w [path] = .ok [root] := by
  simp [targets, hroot, pathOr, bind, Except.bind, pure, Except.pure]

/-- The files of a directory are those below it. -/
theorem collect_eq (hdir : w.files.isDir root = .ok true) :
    collect w [root] = (filesBelow w root).map fun files => (files, []) := by
  cases hbelow : filesBelow w root with
  | error e => simp [collect, filesOf?, asked, hdir, hbelow, bind, Except.bind, Except.map]
  | ok files =>
    simp [collect, filesOf?, asked, hdir, hbelow, bind, Except.bind, pure, Except.pure, Except.map]

theorem scanPaths_of_filesBelow (hroot : (Path.parse path).expandUser w.homes = .ok root)
    (hdir : w.files.isDir root = .ok true) {files : List Path}
    (hbelow : filesBelow w root = .ok files) :
    ∃ status stderr, scanPaths w [path] = .ok {
      status, stdout := shown (w.files.reports w.settings files), stderr } := by
  obtain ⟨messages, hlint⟩ := exists_lintFiles w files
  have hrun : scanPaths w [path] = (targets w [path] >>= collect w) >>= fun found =>
      lintFiles w found.1 >>= fun results => .ok {
        status := if results.1.any (fun f => f.2.any fun d => d.severity = .error) then 1 else 0
        stdout := shown results.1
        stderr := printed (found.2 ++ results.2) } := by
    unfold scanPaths
    cases targets w [path] <;> rfl
  have hfiles : collect w [root] = .ok (files, []) := by
    rw [collect_eq hdir, hbelow]
    rfl
  rw [hrun, targets_eq hroot, Lint.ok_bind, hfiles, Lint.ok_bind, hlint, Lint.ok_bind]
  exact ⟨_, _, rfl⟩

theorem scanPaths_of_filesBelow_error (hroot : (Path.parse path).expandUser w.homes = .ok root)
    (hdir : w.files.isDir root = .ok true) {e : CommandError}
    (hbelow : filesBelow w root = .error e) :
    scanPaths w [path] = .error e := by
  unfold scanPaths
  rw [targets_eq hroot]
  show (collect w [root] >>= _) = _
  rw [collect_eq hdir, hbelow]
  rfl

/-- The command and the tool search a directory alike, but leave out other files. -/
theorem filesBelow_cases (w : World) (root : Path) :
    (∃ e, filesBelow w root = .error (.pattern e) ∧
      Scan.readWorkspace w.files root (w.settings.label .workspaceGlob) = .error e) ∨
    (∃ e, filesBelow w root = .error (.file e) ∧
      Scan.readWorkspace w.files root (w.settings.label .workspaceGlob) = .error (.file e)) ∨
    ∃ found : List Path, filesBelow w root = .ok (found.filter (avoids ["node_modules"] root)) ∧
      Scan.readWorkspace w.files root (w.settings.label .workspaceGlob) =
        .ok ((found.filter (avoids skippedDirs root)).foldl (Scan.Reading.add w.files) {}) := by
  unfold filesBelow Scan.readWorkspace
  cases w.files.glob root (w.settings.label .workspaceGlob) with
  | error e => exact .inl ⟨e, rfl, rfl⟩
  | ok paths =>
    dsimp only
    rcases w.files.filesAmong paths with ⟨found, _ | e⟩
    · exact .inr (.inr ⟨found, rfl, rfl⟩)
    · exact .inr (.inl ⟨e, rfl, rfl⟩)

end Command

/-! ### The tool -/

namespace Server

variable {s : Server} {path : String} {root : Path}

/-- The call of the tool for a directory. -/
def scanCall (path : String) : LintCall := { action := "scan_workspace", path := some path }

/-- A tool in two steps, the first of which succeeds. -/
theorem run_bind_ok {α β : Type} {t : Tool α} {s s' : Server} {a : α} (f : α → Tool β)
    (h : t.run.run s = (.ok a, s')) : (t >>= f).run.run s = (f a).run.run s' := by
  rw [ExceptT.run_bind, StateT.run_bind, h]
  rfl

/-- The tool scans the directory that is named. -/
theorem run_scanCall (hpath : path ≠ "")
    (hroot : (Path.parse path).expandUser s.world.homes = .ok root)
    (hdir : s.world.files.isDir root = .ok true)
    (htimeout : s.world.settings.count .toolTimeout = 0) :
    (lint (scanCall path)).run.run s = (scanRoot root none).run.run s := by
  have hgiven : given (some path) = some path := by simp [given, hpath, Option.filter]
  have hnamed : (Tool.path ((Path.parse path).expandUser s.world.homes)).run.run s =
      (.ok root, s) := by
    rw [hroot]
    rfl
  have hasked : (Tool.asked (s.world.files.isDir root)).run.run s = (.ok true, s) := by
    rw [hdir]
    rfl
  show (scanWorkspace (some path) none).run.run s = _
  unfold scanWorkspace
  refine (run_bind_ok _ rfl).trans ?_
  rw [hgiven]
  refine (run_bind_ok _ hnamed).trans ?_
  refine (run_bind_ok _ hasked).trans ?_
  rw [htimeout]
  rfl

theorem run_scanRoot (s : Server) (root : Path) :
    (scanRoot root none).run.run s =
      (concludeScan root ((s.scheduler.getD {}).scanWorkspace s.world.settings s.world.files root
        none)).run.run { s with scheduler := some (s.scheduler.getD {}) } := rfl

/-- What is found in the documents of files, all of them scheduled and then scanned at once, are the
    reports on the files. -/
theorem documentFindings_eq {x : Scheduler} (hs : x.Sound) {fs : Files} (hnamed : fs.Named)
    {settings : Settings} (hlua : "lua" ∈ settings.roster .languageIds) (paths : List Path) :
    documentFindings
        (((Scan.documents fs paths).foldl (Scheduler.schedule settings) x).flush settings).1.store
        ((Scan.documents fs paths).map (·.uri)) =
      (fs.reports settings paths).map fun f => (fileUri (fs.resolve f.1), f.2) := by
  have hstore : ∀ p ∈ paths, ∀ text, fs.readText p = .ok text → _ := fun p hp text htext =>
    hs.get?_store_documents hnamed hlua hp htext
  generalize (((Scan.documents fs paths).foldl (Scheduler.schedule settings) x).flush
    settings).1.store = store at hstore ⊢
  unfold documentFindings Files.reports Scan.documents
  rw [List.filterMap_map, List.map_filterMap, List.filterMap_filterMap]
  apply List.filterMap_congr
  intro p hp
  unfold Files.report?
  cases htext : fs.readText p with
  | error e => simp [Scan.readDocument, htext, Except.map, Except.toOption]
  | ok text =>
    rw [Scan.toOption_readDocument htext, Option.bind_some, Function.comp_apply,
      hstore p hp text htext]
    show _ = Option.map _ (if _ then _ else _)
    dsimp only
    split <;> rfl

/-- The tool breaks off when the files of the directory cannot be told. -/
theorem run_scanRoot_of_error {s : Server} {root : Path} {e : GlobError}
    (hread : Scan.readWorkspace s.world.files root (s.world.settings.label .workspaceGlob) =
      .error e) :
    ∃ s', (scanRoot root none).run.run s = (.error (.scan (.search e)), s') := by
  have hscan : (s.scheduler.getD {}).scanWorkspace s.world.settings s.world.files root none =
      (s.scheduler.getD {}, .error (.search e)) := by
    rw [Scheduler.scanWorkspace, Scan.patternOr, hread]
  rw [run_scanRoot, hscan]
  exact ⟨_, rfl⟩

/-- Else it reports on these files, or breaks off as the wait for a scan cannot be counted. -/
theorem run_scanRoot_of_read {s : Server} {root : Path} {files : List Path}
    (hnamed : s.world.files.Named) (hlua : "lua" ∈ s.world.settings.roster .languageIds)
    (hs : (s.scheduler.getD {}).Sound)
    (hread : Scan.readWorkspace s.world.files root (s.world.settings.label .workspaceGlob) =
      .ok (files.foldl (Scan.Reading.add s.world.files) {})) :
    (Scheduler.isOverlong s.world.settings = true ∧
      ∃ s', (scanRoot root none).run.run s = (.error (.scan .wait), s')) ∨
    ∃ report s', (scanRoot root none).run.run s =
      (.ok (workspaceAnswer root report ((s.world.files.reports s.world.settings files).map
        fun f => (fileUri (s.world.files.resolve f.1), f.2))), s') := by
  have hdocs := Scan.documents_foldl_add s.world.files files {}
  generalize files.foldl (Scan.Reading.add s.world.files) {} = reading at hread hdocs
  rw [List.nil_append] at hdocs
  have hlinted : ∀ d ∈ reading.documents, Scheduler.isLinted s.world.settings d = true := by
    intro d hd
    rw [hdocs] at hd
    obtain ⟨p, -, text, -, rfl⟩ := Scan.mem_documents_iff.1 hd
    exact List.contains_iff_mem.2 hlua
  rw [run_scanRoot, Scheduler.scanWorkspace, Scan.patternOr, hread]
  dsimp only
  by_cases hwait : ∀ d ∈ reading.documents,
      (Scheduler.isLinted s.world.settings d && Scheduler.isOverlong s.world.settings) = false
  · rw [Scheduler.scheduleAll_eq hwait, ← documentFindings_eq hs hnamed hlua, ← hdocs]
    exact .inr ⟨_, _, rfl⟩
  · push Not at hwait
    obtain ⟨d, hd, hover⟩ := hwait
    obtain ⟨first, rest, hfirst⟩ := List.exists_cons_of_ne_nil (List.ne_nil_of_mem hd)
    rw [hlinted d hd, Bool.true_and, ne_eq, Bool.not_eq_false] at hover
    have hnow : Scheduler.isLinted s.world.settings first = true :=
      hlinted first (hfirst ▸ List.mem_cons_self)
    rw [hfirst, Scheduler.scheduleAll_of_overlong (by rw [hnow, hover]; rfl)]
    exact .inl ⟨hover, _, rfl⟩

end Server

/-! ### Both -/

/-- The command shows reports on files, under their paths. -/
def Command.Shows (w : World) (path : String) (reports : List (Path × List Diagnostic)) : Prop :=
  ∃ status stderr, (Command.run w (.scan [path])).2 =
    .ok { status, stdout := shown reports, stderr }

/-- The tool shows reports on files, under their URLs. -/
def Server.Shows (s : Server) (path : String) (root : Path)
    (reports : List (Path × List Diagnostic)) : Prop :=
  ∃ report s', (lint (scanCall path)).run.run s = (.ok (workspaceAnswer root report
    (reports.map fun f => (fileUri (s.world.files.resolve f.1), f.2))), s')

/-- A scheduler that some run has led to. -/
def Scan.Reached (x : Scheduler) : Prop :=
  ∃ settings trace z, Scan.Run ⟨settings, {}⟩ trace z ∧ z.scheduler = x

/-- What makes two scans comparable: a path that names a directory in a tree of files, Lua among the
    languages that are linted, no deadline for the tool, and whatever scans there have been
    before. -/
structure Server.Asks (s : Server) (path : String) (root : Path) : Prop where
  given : path ≠ ""
  named : (Path.parse path).expandUser s.world.homes = .ok root
  directory : s.world.files.isDir root = .ok true
  tree : s.world.files.Named
  lua : "lua" ∈ s.world.settings.roster .languageIds
  timeout : s.world.settings.count .toolTimeout = 0
  reached : ∀ x, s.scheduler = some x → Scan.Reached x

/-- How two scans of one directory end. -/
inductive Server.Scanned (s : Server) (path : String) (root : Path) : Prop where
  /-- The tool shows what the command shows, less the reports on files below a `.git`. -/
  | shown {reports : List (Path × List Diagnostic)} (hsome : ∀ f ∈ reports, f.2 ≠ [])
      (hcommand : Command.Shows s.world path reports)
      (htool : s.Shows path root (reports.filter fun f => avoids [".git"] root f.1)) :
      Server.Scanned s path root
  /-- The directory cannot be searched, as for a pattern that is none, and both break off for the
      same reason. -/
  | brokenOff {e : GlobError}
      (hcommand : (Command.run s.world (.scan [path])).2 = .error (.pattern e))
      (htool : ∃ s', (lint (scanCall path)).run.run s = (.error (.scan (.search e)), s')) :
      Server.Scanned s path root
  /-- Something that is found cannot be asked for, and both break off for the same reason. -/
  | unasked {e : FileError} (hcommand : (Command.run s.world (.scan [path])).2 = .error (.file e))
      (htool : ∃ s', (lint (scanCall path)).run.run s = (.error (.scan (.search (.file e))), s')) :
      Server.Scanned s path root
  /-- The wait for a scan cannot be counted, and only the tool breaks off. -/
  | overlong {reports : List (Path × List Diagnostic)}
      (hwait : Scheduler.isOverlong s.world.settings = true)
      (hcommand : Command.Shows s.world path reports)
      (htool : ∃ s', (lint (scanCall path)).run.run s = (.error (.scan .wait), s')) :
      Server.Scanned s path root

/-- **Two scans of one directory** show the same files in the same order with the same reports,
    except that the tool leaves out the files below a `.git`.  When the files cannot be told, both
    break off. -/
theorem Server.scans_agree_outside_git {s : Server} {path : String} {root : Path}
    (h : s.Asks path root) : s.Scanned path root := by
  have hsound : (s.scheduler.getD {}).Sound := by
    cases hx : s.scheduler with
    | none => exact Scheduler.sound_empty
    | some x =>
      obtain ⟨settings, trace, z, hrun, rfl⟩ := h.reached x hx
      exact hrun.sound Scheduler.sound_empty
  have htool : (lint (scanCall path)).run.run s = (scanRoot root none).run.run s :=
    run_scanCall h.given h.named h.directory h.timeout
  rcases Command.filesBelow_cases s.world root with
    ⟨e, hbelow, hread⟩ | ⟨e, hbelow, hread⟩ | ⟨found, hbelow, hread⟩
  · refine .brokenOff (Command.scanPaths_of_filesBelow_error h.named h.directory hbelow) ?_
    rw [htool]
    exact run_scanRoot_of_error hread
  · refine .unasked (Command.scanPaths_of_filesBelow_error h.named h.directory hbelow) ?_
    rw [htool]
    exact run_scanRoot_of_error hread
  · have hcommand := Command.scanPaths_of_filesBelow h.named h.directory hbelow
    rcases run_scanRoot_of_read h.tree h.lua hsound hread with ⟨hwait, hrun⟩ | ⟨report, s', hrun⟩
    · exact .overlong hwait hcommand (htool ▸ hrun)
    · rw [Scan.filter_skippedDirs, Files.reports_filter] at hrun
      exact .shown (fun f hf => Files.ne_nil_of_mem_reports hf) hcommand
        ⟨report, s', htool.trans hrun⟩

/-! ### A directory on which they differ -/

namespace Json

/-- Joined pieces end with the last one. -/
theorem exists_intercalate_snoc (sep : List Char) (pieces : List (List Char)) (last : List Char) :
    ∃ front, sep.intercalate (pieces ++ [last]) = front ++ last := by
  induction pieces with
  | nil => exact ⟨[], List.intercalate_singleton⟩
  | cons piece pieces ih =>
    obtain ⟨front, ih⟩ := ih
    rw [List.cons_append, List.intercalate_cons_of_ne_nil (by simp), ih, ← List.append_assoc]
    exact ⟨_, rfl⟩

/-- A record that ends with a number ends with its digits. -/
theorem exists_render_snoc (fields : List (String × Json)) (key : String) (n : Nat) :
    ∃ front, (render .file (.obj (fields ++ [(key, .int n)]))).toList =
      front ++ ' ' :: (Nat.toDigits 10 n ++ ['\n', '}']) := by
  have hnumber : (renderAt .file 1 (.int n)).toList = Nat.toDigits 10 n := by
    rw [renderAt]
    exact Nat.toList_repr
  rw [render, renderAt, renderFields_eq_map, List.map_append, List.map_singleton, Style.surround,
    if_neg (by simp)]
  simp only [String.toList_append, Text.joinWith, String.toList_intercalate, List.map_append,
    List.map_singleton, hnumber]
  obtain ⟨front, hfront⟩ := exists_intercalate_snoc (Style.file.separator 1).toList _ _
  have hend : (Style.file.lineBreak 0).toList ++ "\x7d".toList = ['\n', '}'] := by decide
  rw [hfront, List.append_assoc _ (Style.file.lineBreak 0).toList, hend]
  refine ⟨"\x7b".toList ++ (Style.file.lineBreak 1).toList ++ front ++
    (renderText Style.file.ascii key).toList ++ [':'], ?_⟩
  simp

/-- Digits after a blank tell the number. -/
theorem eq_of_digits {front front' : List Char} {m n : Nat} {tail : List Char}
    (h : front ++ ' ' :: (Nat.toDigits 10 m ++ tail) =
      front' ++ ' ' :: (Nat.toDigits 10 n ++ tail)) :
    m = n := by
  have hspace : ∀ k, ∀ c ∈ (Nat.toDigits 10 k).reverse, (c != ' ') = true := by
    intro k c hmem
    have hdigit := Nat.isDigit_of_mem_toDigits (by decide) (by decide) (List.mem_reverse.1 hmem)
    rw [bne_iff_ne]
    rintro rfl
    exact absurd hdigit (by decide)
  have hdigits : Nat.toDigits 10 m = Nat.toDigits 10 n := by
    have hreverse := congrArg List.reverse h
    simp only [List.reverse_append, List.reverse_cons, List.append_assoc, List.singleton_append,
      List.append_cancel_left_eq] at hreverse
    have hfirst := congrArg (List.takeWhile (· != ' ')) hreverse
    rw [List.takeWhile_append_of_pos (hspace m), List.takeWhile_append_of_pos (hspace n)] at hfirst
    simp only [bne_self_eq_false, Bool.false_eq_true, not_false_eq_true, List.takeWhile_cons_of_neg,
      List.append_nil] at hfirst
    exact List.reverse_inj.1 hfirst
  have hvalue := Nat.ofDigitChars_toDigits (b := 10) (n := m) (by decide) (by decide)
  rw [hdigits, Nat.ofDigitChars_toDigits (by decide) (by decide)] at hvalue
  exact hvalue.symm

end Json

namespace Server

/-- The answer to a scan ends with the number of all reports. -/
theorem exists_workspaceAnswer_eq (root : Path) (report : Scan.WorkspaceReport)
    (found : List (String × List Diagnostic)) :
    ∃ front, (workspaceAnswer root report found).toList = front ++ ' ' ::
      (Nat.toDigits 10 (found.foldl (fun n f => n + f.2.length) 0) ++ ['\n', '}']) := by
  obtain ⟨front, hfront⟩ := Json.exists_render_snoc [("root", .str root.text),
    ("files_scanned", .int report.scheduled.length),
    ("failed", .obj (report.failed.map Json.str).entries),
    ("files", .arr (found.map fun f => findings f.1 f.2))] "total"
    (found.foldl (fun n f => n + f.2.length) 0)
  exact ⟨front, hfront⟩

/-- So answers that are the same tell of as many reports. -/
theorem total_of_workspaceAnswer {root root' : Path} {report report' : Scan.WorkspaceReport}
    {found found' : List (String × List Diagnostic)}
    (h : workspaceAnswer root report found = workspaceAnswer root' report' found') :
    found.foldl (fun n f => n + f.2.length) 0 = found'.foldl (fun n f => n + f.2.length) 0 := by
  obtain ⟨front, hfront⟩ := exists_workspaceAnswer_eq root report found
  obtain ⟨front', hfront'⟩ := exists_workspaceAnswer_eq root' report' found'
  rw [h] at hfront
  exact Json.eq_of_digits (hfront.symm.trans hfront')

theorem le_total (found : List (String × List Diagnostic)) (n : Nat) :
    n ≤ found.foldl (fun n f => n + f.2.length) n := by
  induction found generalizing n with
  | nil => exact Nat.le_refl n
  | cons f found ih => exact Nat.le_trans (Nat.le_add_right n f.2.length) (ih _)

/-- Where there are reports, their number is not zero. -/
theorem eq_nil_of_total {found : List (String × List Diagnostic)} (hsome : ∀ f ∈ found, f.2 ≠ [])
    (h : found.foldl (fun n f => n + f.2.length) 0 = 0) : found = [] := by
  cases found with
  | nil => rfl
  | cons f found =>
    have hlength := List.length_pos_iff.2 (hsome f List.mem_cons_self)
    have hle := le_total found (0 + f.2.length)
    rw [List.foldl_cons] at h
    omega

end Server

/-- The command does not show reports where there are none. -/
theorem Command.shown_ne_shown_nil (f : Path × List Diagnostic)
    (reports : List (Path × List Diagnostic)) : shown (f :: reports) ≠ shown [] := by
  intro h
  have hsecond := congrArg (fun text => text.toList[1]?) h
  simp [shown, printed, Json.render, Json.renderAt, Json.renderItems, Json.Style.surround,
    Json.Style.file, Json.Style.lineBreak] at hsecond

/-- A file that is kept below `.git`, with a loop that never waits. -/
def gitTree : Server where
  world := {
    settings := Settings.default.setCount .toolTimeout 0
    files := {
      nodes := .ofList [(["w"], .directory), (["w", ".git"], .directory),
        (["w", ".git", "x.lua"], .file (Text.Utf8.encode "while true do\nend\n".toList))] }
    homes := { own := ⟨.root, ["home"]⟩ }
    network := Fetch.plainClient fun _ _ => (0, .ok { status := 404 })
    clock := 63838368000 }
  packages := { refusedLevel? := fun _ => none, refusedKind := fun _ kind => kind }
  manual := ⟨.root, ["manual"]⟩

theorem gitTree_asks : gitTree.Asks "/w" ⟨.root, ["w"]⟩ where
  given := by decide
  named := rfl
  directory := rfl
  tree := by decide
  lua := by decide
  timeout := by decide
  reached x hx := by cases hx

theorem gitTree_glob : gitTree.world.files.glob ⟨.root, ["w"]⟩
    (gitTree.world.settings.label .workspaceGlob) = .ok [⟨.root, ["w", ".git", "x.lua"]⟩] :=
  Files.eq_ok_of_toOption (by decide +kernel)

theorem Server.scans_agree_outside_git_gitTree : gitTree.Scanned "/w" ⟨.root, ["w"]⟩ :=
  Server.scans_agree_outside_git gitTree_asks

/-- **Below a `.git`** the command reports what the tool does not: not all scans agree. -/
theorem Server.not_all_scans_agree :
    ¬ ∀ (s : Server) (path : String) (root : Path), s.Asks path root →
      ∃ reports, (∀ f ∈ reports, f.2 ≠ []) ∧ Command.Shows s.world path reports ∧
        s.Shows path root reports := by
  intro h
  obtain ⟨reports, hsome, ⟨status, stderr, hcommand⟩, report, s', htool⟩ := h _ _ _ gitTree_asks
  -- The tool reads no file at all, so it has nothing to show.
  have hread : Scan.readWorkspace gitTree.world.files ⟨.root, ["w"]⟩
      (gitTree.world.settings.label .workspaceGlob) =
        .ok (([] : List Path).foldl (Scan.Reading.add gitTree.world.files) {}) := by
    rw [Scan.readWorkspace, gitTree_glob]
    rfl
  obtain ⟨hwait, -⟩ | ⟨report', s'', hrun⟩ :=
    run_scanRoot_of_read gitTree_asks.tree gitTree_asks.lua Scheduler.sound_empty hread
  · exact absurd hwait (by decide +kernel)
  have hsame := htool.symm.trans ((run_scanCall gitTree_asks.given gitTree_asks.named
    gitTree_asks.directory gitTree_asks.timeout).trans hrun)
  have htotal := total_of_workspaceAnswer (Except.ok.inj (Prod.mk.inj hsame).1)
  have hnil : reports = [] := by
    refine List.map_eq_nil_iff.1 (eq_nil_of_total ?_ htotal)
    rw [List.forall_mem_map]
    exact hsome
  -- The command reads the file, and there is a report on it.
  have hbelow : Command.filesBelow gitTree.world ⟨.root, ["w"]⟩ =
      .ok [⟨.root, ["w", ".git", "x.lua"]⟩] := by
    rw [Command.filesBelow, gitTree_glob]
    rfl
  have hlength : (gitTree.world.files.reports gitTree.world.settings
      [⟨.root, ["w", ".git", "x.lua"]⟩]).length = 1 := by decide +kernel
  obtain ⟨status', stderr', hscan⟩ :=
    Command.scanPaths_of_filesBelow gitTree_asks.named gitTree_asks.directory hbelow
  obtain ⟨f, hf⟩ := List.length_eq_one_iff.1 hlength
  rw [hf] at hscan
  have hshown := (Output.mk.inj (Except.ok.inj (hcommand.symm.trans hscan))).2.1
  rw [hnil] at hshown
  exact Command.shown_ne_shown_nil f [] hshown.symm

end LuaAudit
