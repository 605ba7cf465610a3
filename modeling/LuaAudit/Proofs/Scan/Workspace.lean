import LuaAudit.Proofs.Files.Write
import LuaAudit.Proofs.Location.Uri
import LuaAudit.Proofs.Scan.Settle
import LuaAudit.Scan.Workspace
import Mathlib.Data.List.Induction

/-!
# What a scan of files reports

* `Files.filesAmong_cases`: the files among some paths, up to one that cannot be asked for;
* `Files.exists_of_readText`: a file that can be read stands where its path comes to, so its URL
  tells which file it is (`Files.readText_eq_of_uri`);
* `Files.reports`: what the passes report on files, each by itself;
* `Scheduler.Sound.get?_store_flush_schedules`: documents that are scheduled one after the other and
  then scanned at once have the reports of their own texts, whatever waited before;
* `Scheduler.Sound.get?_store_documents`: so those of files have the reports on the files.
-/

namespace LuaAudit

open Lint (Diagnostic lint)
open Location (IsName Path fileUri)

/-! ### Files and their places -/

namespace Files

variable {fs : Files}

/-- Whether a path leads to a file, as far as it can be asked for. -/
def findsFile (fs : Files) (p : Path) : Bool :=
  match fs.isFile p with
  | .ok there => there
  | .error _ => false

/-- **The files among some paths** are told when all of them can be asked for, or else those before
    the first that cannot. -/
theorem filesAmong_cases (fs : Files) (paths : List Path) :
    (∀ p ∈ paths, ∀ e, ¬fs.Unaskable p e) ∧
        fs.filesAmong paths = (paths.filter fs.findsFile, none) ∨
      ∃ before p after e, paths = before ++ p :: after ∧ (∀ q ∈ before, ∀ e, ¬fs.Unaskable q e) ∧
        fs.Unaskable p e ∧ fs.filesAmong paths = (before.filter fs.findsFile, some e) := by
  induction paths with
  | nil => exact .inl ⟨fun _ hp => absurd hp List.not_mem_nil, rfl⟩
  | cons p paths ih =>
    rw [filesAmong]
    cases hfile : fs.isFile p with
    | error e =>
      exact .inr ⟨[], p, paths, e, rfl, fun _ hq => absurd hq List.not_mem_nil,
        isFile_eq_error_iff.1 hfile, rfl⟩
    | ok there =>
      have hasked : ∀ e, ¬fs.Unaskable p e := by
        intro e he
        cases (isFile_eq_error_iff.2 he).symm.trans hfile
      have hfinds : fs.findsFile p = there := by rw [findsFile, hfile]
      rcases ih with ⟨hall, heq⟩ | ⟨before, q, after, e, rfl, hbefore, hq, heq⟩
      · refine .inl ⟨List.forall_mem_cons.2 ⟨hasked, hall⟩, ?_⟩
        rw [List.filter_cons, hfinds, heq]
        cases there <;> rfl
      · refine .inr ⟨p :: before, q, after, e, rfl, List.forall_mem_cons.2 ⟨hasked, hbefore⟩,
          hq, ?_⟩
        rw [List.filter_cons, hfinds, heq]
        cases there <;> rfl

/-- A tree in which files and directories bear names. -/
def Named (fs : Files) : Prop := ∀ place ∈ fs.nodes.keys, ∀ name ∈ place, IsName name

instance (fs : Files) : Decidable fs.Named :=
  inferInstanceAs (Decidable (∀ place ∈ fs.nodes.keys, ∀ name ∈ place, IsName name))

/-- A file that can be read stands at the place that its path comes to. -/
theorem exists_of_readText {p : Path} {text : String} (h : fs.readText p = .ok text) :
    ∃ bytes, fs.nodes.get? (fs.resolve p).parts = some (.file bytes) ∧
      text = String.ofList (Text.unifyNewlines (Text.Utf8.decodeLossy bytes)) := by
  unfold readText at h
  cases hread : fs.read p with
  | error e =>
    rw [hread] at h
    cases h
  | ok bytes =>
    rw [hread] at h
    exact ⟨bytes, get?_of_read hread, (Except.ok.inj h).symm⟩

/-- Files with the same URL are the same. -/
theorem readText_eq_of_uri (hnamed : fs.Named) {p q : Path} {text text' : String}
    (hp : fs.readText p = .ok text) (hq : fs.readText q = .ok text')
    (huri : fileUri (fs.resolve p) = fileUri (fs.resolve q)) : text = text' := by
  obtain ⟨bytes, hbytes, rfl⟩ := exists_of_readText hp
  obtain ⟨bytes', hbytes', rfl⟩ := exists_of_readText hq
  have hparts : (fs.resolve p).parts = (fs.resolve q).parts :=
    Location.fileUri_inj (hnamed _ ((OrderedMap.mem_keys_iff _ _).2 ⟨_, hbytes⟩))
      (hnamed _ ((OrderedMap.mem_keys_iff _ _).2 ⟨_, hbytes'⟩)) huri
  rw [hparts, hbytes'] at hbytes
  cases hbytes
  rfl

end Files

/-! ### Reports on files -/

/-- What the passes report on a text; they never break off. -/
def Lint.reportsOn (s : Settings) (text : String) : List Diagnostic :=
  (lint s text).toOption.getD []

theorem Lint.lint_eq_ok (s : Settings) (text : String) :
    lint s text = .ok (Lint.reportsOn s text) := by
  have hpasses := Lint.runPasses_eq s (Lint.Script.regular_ofText text.toList)
  rw [Lint.reportsOn, lint, hpasses]
  rfl

namespace Files

/-- The reports on a file, if it can be read and has some. -/
def report? (fs : Files) (s : Settings) (p : Path) : Option (Path × List Diagnostic) :=
  (fs.readText p).toOption.bind fun text =>
    if (Lint.reportsOn s text).isEmpty then none else some (p, Lint.reportsOn s text)

/-- The reports on files. -/
def reports (fs : Files) (s : Settings) (paths : List Path) : List (Path × List Diagnostic) :=
  paths.filterMap (fs.report? s)

theorem ne_nil_of_mem_reports {fs : Files} {s : Settings} {paths : List Path}
    {f : Path × List Diagnostic} (h : f ∈ fs.reports s paths) : f.2 ≠ [] := by
  obtain ⟨p, -, hreport⟩ := List.mem_filterMap.1 h
  obtain ⟨text, -, hfound⟩ := Option.bind_eq_some_iff.1 hreport
  split at hfound
  next => cases hfound
  next hne =>
    rw [← Option.some.inj hfound]
    rwa [List.isEmpty_iff] at hne

theorem fst_of_report? {fs : Files} {s : Settings} {p : Path} {f : Path × List Diagnostic}
    (h : fs.report? s p = some f) : f.1 = p := by
  obtain ⟨text, -, hfound⟩ := Option.bind_eq_some_iff.1 h
  split at hfound
  next => cases hfound
  next => rw [← Option.some.inj hfound]

/-- The reports on some of the files are some of the reports. -/
theorem reports_filter (fs : Files) (s : Settings) (paths : List Path) (keep : Path → Bool) :
    fs.reports s (paths.filter keep) = (fs.reports s paths).filter fun f => keep f.1 := by
  unfold reports
  rw [List.filterMap_filter, List.filter_filterMap]
  apply List.filterMap_congr
  intro p _
  cases hreport : fs.report? s p with
  | none => simp
  | some f => simp [Option.filter, fst_of_report? hreport]

end Files

/-! ### Documents of a workspace -/

namespace Scan

open Scheduler (isLinted isOverlong found?)

/-- The documents of files that can be read, in their order. -/
def documents (fs : Files) (paths : List Path) : List Document :=
  paths.filterMap fun p => (readDocument fs p).toOption

theorem documents_foldl_add (fs : Files) (paths : List Path) (r : Reading) :
    (paths.foldl (Reading.add fs) r).documents = r.documents ++ documents fs paths := by
  induction paths generalizing r with
  | nil => exact (List.append_nil _).symm
  | cons p paths ih =>
    rw [List.foldl_cons, ih]
    unfold Reading.add
    cases hread : readDocument fs p with
    | ok d => simp [documents, hread, Except.toOption]
    | error e => simp [documents, hread, Except.toOption]

theorem toOption_readDocument {fs : Files} {p : Path} {text : String}
    (h : fs.readText p = .ok text) :
    (readDocument fs p).toOption = some { uri := fileUri (fs.resolve p), text := some text } := by
  rw [readDocument, h]
  rfl

theorem mem_documents_iff {fs : Files} {paths : List Path} {d : Document} :
    d ∈ documents fs paths ↔ ∃ p ∈ paths, ∃ text, fs.readText p = .ok text ∧
      d = { uri := fileUri (fs.resolve p), text := some text } := by
  rw [documents, List.mem_filterMap]
  refine exists_congr fun p => and_congr_right fun _ => ?_
  cases htext : fs.readText p with
  | error e => simp [readDocument, htext, Except.map, Except.toOption]
  | ok text =>
    rw [toOption_readDocument htext, Option.some_inj]
    simp [eq_comm]

/-- Passing over two directories is passing over each. -/
theorem avoids_skippedDirs (root p : Path) :
    avoids skippedDirs root p = (avoids ["node_modules"] root p && avoids [".git"] root p) := by
  unfold avoids skippedDirs
  rw [Bool.eq_iff_iff]
  simp only [Bool.and_eq_true, List.all_eq_true, Bool.not_eq_true', List.contains_eq_mem,
    decide_eq_false_iff_not, List.mem_cons, List.not_mem_nil, or_false, not_or]
  constructor
  · exact fun h => ⟨fun part hpart => (h part hpart).1, fun part hpart => (h part hpart).2⟩
  · exact fun h part hpart => ⟨h.1 part hpart, h.2 part hpart⟩

/-- What is outside both directories is outside the one and the other. -/
theorem filter_skippedDirs (root : Path) (paths : List Path) :
    paths.filter (avoids skippedDirs root) =
      (paths.filter (avoids ["node_modules"] root)).filter (avoids [".git"] root) := by
  rw [List.filter_filter]
  apply List.filter_congr
  intro p _
  rw [avoids_skippedDirs, Bool.and_comm]

namespace Scheduler

/-- A document that is scheduled waits, and leaves the others alone. -/
theorem pending_schedule {s : Settings} {d : Document} (h : isLinted s d) (x : Scheduler)
    (u : String) :
    (x.schedule s d).pending.get? u = if u = d.uri then some d else x.pending.get? u := by
  rw [schedule, if_pos h]
  show ((x.cancel d.uri).pending.insert d.uri d).get? u = _
  rw [OrderedMap.get?_insert, cancel_pending, OrderedMap.get?_erase]
  split <;> rfl

theorem Sound.schedules {x : Scheduler} (hs : x.Sound) (s : Settings) (docs : List Document) :
    (docs.foldl (Scheduler.schedule s) x).Sound := by
  induction docs generalizing x with
  | nil => exact hs
  | cons d docs ih => exact ih (hs.schedule s d)

/-- Of documents that are scheduled one after the other, one waits under each name. -/
theorem exists_pending_schedules {s : Settings} {docs : List Document}
    (h : ∀ d ∈ docs, isLinted s d) (x : Scheduler) {d : Document} (hd : d ∈ docs) :
    ∃ d' ∈ docs, d'.uri = d.uri ∧
      (docs.foldl (Scheduler.schedule s) x).pending.get? d.uri = some d' := by
  -- The last one under a name is the one that waits, so the documents are taken from the end.
  induction docs using List.reverseRecOn with
  | nil => cases hd
  | append_singleton docs last ih =>
    rw [List.foldl_append, List.foldl_cons, List.foldl_nil,
      pending_schedule (h last (List.mem_append_right _ (List.mem_singleton.2 rfl)))]
    by_cases huri : d.uri = last.uri
    · exact ⟨last, List.mem_append_right _ (List.mem_singleton.2 rfl), huri.symm, if_pos huri⟩
    · have hmem : d ∈ docs := by
        rcases List.mem_append.1 hd with hd | hd
        · exact hd
        · exact absurd (congrArg Document.uri (List.mem_singleton.1 hd)) huri
      obtain ⟨d', hd', heq, hpending⟩ := ih (fun d hd => h d (List.mem_append_left _ hd)) hmem
      exact ⟨d', List.mem_append_left _ hd', heq, (if_neg huri).trans hpending⟩

/-- Documents are scheduled one after the other when none of them has to wait too long. -/
theorem scheduleAll_eq {s : Settings} {docs : List Document}
    (h : ∀ d ∈ docs, (isLinted s d && isOverlong s) = false) (x : Scheduler) :
    x.scheduleAll s docs = (docs.foldl (Scheduler.schedule s) x, true) := by
  induction docs generalizing x with
  | nil => rfl
  | cons d docs ih =>
    rw [List.forall_mem_cons] at h
    have htry : x.trySchedule s d = (x.schedule s d, true) := by
      rw [trySchedule, if_neg (by rw [h.1]; exact Bool.false_ne_true)]
    rw [scheduleAll, htry]
    exact ih h.2 _

/-- The first that has to wait too long stops the others, and its own timer. -/
theorem scheduleAll_of_overlong {s : Settings} {d : Document}
    (h : (isLinted s d && isOverlong s) = true) (x : Scheduler) (docs : List Document) :
    x.scheduleAll s (d :: docs) = (x.cancel d.uri, false) := by
  rw [scheduleAll, trySchedule, if_pos h]

/-- **Scheduled and scanned at once**, documents have the reports of their own texts, provided that
    two under one name have the same text. -/
theorem Sound.get?_store_flush_schedules {x : Scheduler} (hs : x.Sound) {s : Settings}
    {docs : List Document} (h : ∀ d ∈ docs, isLinted s d ∧ d.text.isSome)
    (hsame : ∀ d ∈ docs, ∀ d' ∈ docs, d'.uri = d.uri → d'.text = d.text) {d : Document}
    (hd : d ∈ docs) :
    ((docs.foldl (Scheduler.schedule s) x).flush s).1.store.get? d.uri = found? s d := by
  obtain ⟨d', hd', huri, hpending⟩ := exists_pending_schedules (fun d hd => (h d hd).1) x hd
  have hfound : found? s d' = found? s d := by
    unfold found?
    rw [if_pos (h d' hd').1, if_pos (h d hd).1, hsame d hd d' hd' huri]
  rw [(hs.schedules s docs).get?_store_flush, hpending, Option.bind_some, hfound]
  obtain ⟨found, heq⟩ := Option.isSome_iff_exists.1 (isSome_found? (h d hd))
  rw [heq, Option.some_or]

/-- The reports on a file are found under its URL, once the documents of all files are scheduled and
    scanned. -/
theorem Sound.get?_store_documents {x : Scheduler} (hs : x.Sound) {fs : Files} (hnamed : fs.Named)
    {s : Settings} (hlua : "lua" ∈ s.roster .languageIds) {paths : List Path} {p : Path}
    (hp : p ∈ paths) {text : String} (htext : fs.readText p = .ok text) :
    (((documents fs paths).foldl (Scheduler.schedule s) x).flush s).1.store.get?
      (fileUri (fs.resolve p)) = some (Lint.reportsOn s text) := by
  have hlinted : ∀ d ∈ documents fs paths, isLinted s d ∧ d.text.isSome := by
    intro d hd
    obtain ⟨q, -, text', -, rfl⟩ := mem_documents_iff.1 hd
    exact ⟨List.contains_iff_mem.2 hlua, rfl⟩
  have hsame : ∀ d ∈ documents fs paths, ∀ d' ∈ documents fs paths, d'.uri = d.uri →
      d'.text = d.text := by
    intro d hd d' hd' huri
    obtain ⟨q, -, text', hq, rfl⟩ := mem_documents_iff.1 hd
    obtain ⟨q', -, text'', hq', rfl⟩ := mem_documents_iff.1 hd'
    exact congrArg some (Files.readText_eq_of_uri hnamed hq' hq huri)
  have hmem := mem_documents_iff.2 ⟨p, hp, text, htext, rfl⟩
  have hstore := hs.get?_store_flush_schedules hlinted hsame hmem
  rw [found?, if_pos (hlinted _ hmem).1, Option.bind_some, Lint.lint_eq_ok] at hstore
  exact hstore

end Scheduler

end Scan

end LuaAudit
