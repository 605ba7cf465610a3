import LuaAudit.Proofs.Scan.Apart
import LuaAudit.Proofs.Scan.Workspace

/-!
# Documents of files

A document that is read from a file is named by the URL of the file.  The URL leads back to the
file, whatever characters its path holds, so that documents of different files never go by the same
name, and what is done with one leaves the reports on the other alone.

* `Files.isPlain_resolve`: a file that can be read stands at an absolute path with names for
  components;
* `affairs_call_of_ne`: a call about one document leaves what is held about another;
* `fileUri_leads_back`: the URLs of files, there and back.
-/

namespace LuaAudit

open Location (Homes Path fileUri isLocal localPath)

theorem Files.isPlain_resolve {fs : Files} (hnamed : fs.Named) {p : Path} {text : String}
    (h : fs.readText p = .ok text) : (fs.resolve p).IsPlain := by
  obtain ⟨bytes, hbytes, -⟩ := Files.exists_of_readText h
  exact ⟨rfl, hnamed _ ((OrderedMap.mem_keys_iff _ _).2 ⟨_, hbytes⟩)⟩

namespace Scan

/-- A document is read from a text, and named by where the text stands. -/
theorem exists_of_readDocument {fs : Files} {p : Path} {d : Document}
    (h : readDocument fs p = .ok d) :
    d.uri = fileUri (fs.resolve p) ∧ ∃ text, fs.readText p = .ok text := by
  unfold readDocument at h
  cases htext : fs.readText p with
  | error e =>
    rw [htext] at h
    cases h
  | ok text =>
    rw [htext] at h
    cases h
    exact ⟨rfl, text, rfl⟩

/-- A call about one document leaves what is held about another. -/
theorem affairs_call_of_ne (s : Settings) (ops : List Operation) {c : Call} {u : String}
    (h : c.uri ≠ u) :
    (Session.performAll ⟨s, {}⟩ (ops ++ [.call c])).affairs u =
      (Session.performAll ⟨s, {}⟩ ops).affairs u := by
  rw [affairs_performAll Scheduler.sound_empty, affairs_performAll Scheduler.sound_empty,
    List.foldl_append]
  exact Affairs.perform_of_not_regards (by simpa [Operation.regards] using h) _

/-- **File URLs lead back.**  For every absolute path of names, its URL is that of a file, and the
    path it names is the path itself; so two paths with one URL are the same.  Documents that are
    read from files go by the same name exactly when they are read from the same file, and no call
    about the one changes what any run of the scheduler holds about the document of another file. -/
theorem fileUri_leads_back (homes : Homes) :
    (∀ p : Path, p.IsPlain → isLocal (fileUri p) = .ok true ∧ localPath homes (fileUri p) = .ok p) ∧
    (∀ p q : Path, p.IsPlain → q.IsPlain → fileUri p = fileUri q → p = q) ∧
    ∀ (fs : Files) (p q : Path) (d e : Document), fs.Named → readDocument fs p = .ok d →
      readDocument fs q = .ok e →
      (d.uri = e.uri ↔ fs.resolve p = fs.resolve q) ∧
      (fs.resolve p ≠ fs.resolve q → ∀ (s : Settings) (ops : List Operation) (c : Call),
        c.uri = e.uri → (Session.performAll ⟨s, {}⟩ (ops ++ [.call c])).affairs d.uri =
          (Session.performAll ⟨s, {}⟩ ops).affairs d.uri) := by
  refine ⟨fun p hp => hp.localPath_fileUri homes, fun p q hp hq => hp.eq_of_fileUri hq, ?_⟩
  intro fs p q d e hnamed hd he
  obtain ⟨hduri, text, htext⟩ := exists_of_readDocument hd
  obtain ⟨heuri, text', htext'⟩ := exists_of_readDocument he
  have huri : d.uri = e.uri ↔ fs.resolve p = fs.resolve q := by
    rw [hduri, heuri]
    constructor
    · exact (Files.isPlain_resolve hnamed htext).eq_of_fileUri (Files.isPlain_resolve hnamed htext')
    · exact congrArg fileUri
  refine ⟨huri, fun hne s ops c hc => affairs_call_of_ne s ops ?_⟩
  rw [hc]
  exact fun heq => hne (huri.1 heq.symm)

/-- A directory with marks of URLs in its name, and two files in it, the name of one being the
    escaped name of the other. -/
def escapeFiles : Files where
  nodes := .ofList [(["a#b?;:~é"], .directory), (["a#b?;:~é", "x y.lua"], .file [0x61]),
    (["a#b?;:~é", "x%20y.lua"], .file [0x62])]

theorem fileUri_leads_back_escapes :
    let spaced : Path := ⟨.root, ["a#b?;:~é", "x y.lua"]⟩
    let escaped : Path := ⟨.root, ["a#b?;:~é", "x%20y.lua"]⟩
    fileUri spaced = "file:///a%23b%3F%3B%3A~%C3%A9/x%20y.lua" ∧ spaced.IsPlain ∧ escaped.IsPlain ∧
    isLocal (fileUri spaced) = .ok true ∧
    localPath { own := ⟨.root, ["home"]⟩ } (fileUri spaced) = .ok spaced ∧
    fileUri spaced ≠ fileUri escaped ∧ escapeFiles.Named ∧
    ∃ d e, readDocument escapeFiles spaced = .ok d ∧ readDocument escapeFiles escaped = .ok e ∧
      d.uri ≠ e.uri ∧ ∀ s ops,
        (Session.performAll ⟨s, {}⟩ (ops ++ [.call (.scanNow e)])).affairs d.uri =
          (Session.performAll ⟨s, {}⟩ ops).affairs d.uri := by
  intro spaced escaped
  have hspaced : spaced.IsPlain := by decide
  have hescaped : escaped.IsPlain := by decide
  have hne : spaced ≠ escaped := by decide
  have hnamed : escapeFiles.Named := by decide +kernel
  obtain ⟨hback, hinj, hdocs⟩ := fileUri_leads_back { own := ⟨.root, ["home"]⟩ }
  have hd : readDocument escapeFiles spaced = .ok ⟨fileUri spaced, some "a", "lua"⟩ := by
    decide +kernel
  have he : readDocument escapeFiles escaped = .ok ⟨fileUri escaped, some "b", "lua"⟩ := by
    decide +kernel
  obtain ⟨huri, hapart⟩ := hdocs escapeFiles spaced escaped _ _ hnamed hd he
  have hplaces : escapeFiles.resolve spaced ≠ escapeFiles.resolve escaped := by decide
  exact ⟨by decide +kernel, hspaced, hescaped, (hback spaced hspaced).1, (hback spaced hspaced).2,
    fun heq => hne (hinj spaced escaped hspaced hescaped heq), hnamed, _, _, hd, he,
    fun heq => hplaces (huri.1 heq), fun s ops => hapart hplaces s ops (.scanNow _) rfl⟩

end Scan

end LuaAudit
