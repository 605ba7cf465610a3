import LuaAudit.Index.Refresh
import LuaAudit.Proofs.Fetch.Served
import LuaAudit.Proofs.Files.Glob
import LuaAudit.Proofs.Scan.Workspace

/-!
# The entries of types files

Each types file of the workspace is a source of its own, named by its path.  Reading the types files
gives every file with functions in it an entry that holds exactly these.  A file without functions
is passed over: if it had some before, the entry with them stays.  A path that cannot be asked for
ends the reading, after the files before it.

* `typesFiles`: the files of the workspace that are read;
* `offered`: the functions that a file offers;
* `workspaceName_below_inj`: files are told apart by the names of their sources;
* `Mirrored`: what reading some files makes of the entries, for all files in `mirrored_loadFiles`;
* `Mirrors`: the same, file by file;
* `loadWorkspace_mirrors`: what reading the types files makes of them;
* `not_all_entries_mirror`: a file that has lost its functions does not lose its entry.
-/

namespace LuaAudit.Index

open Docs (Entry)
open Location (IsName Path)

namespace Site

variable {root : Path} {site : Site}

/-- The files that are read as types files, of those that fit the pattern. -/
def typesFiles (fs : Files) (root : Path) (paths : List Path) : List Path :=
  (paths.filter fs.findsFile).filter (Scan.avoids Scan.skippedDirs root)

/-- The functions that a file offers; one that cannot be read offers none. -/
def offered (fs : Files) (root p : Path) : Docs.Signatures :=
  match fs.readText p with
  | .error _ => .empty
  | .ok content => Docs.extractAnnotated content (workspaceName root p)

theorem offered_of_readText {fs : Files} {p : Path} {content : String}
    (h : fs.readText p = .ok content) :
    offered fs root p = Docs.extractAnnotated content (workspaceName root p) := by
  rw [offered, h]

/-- One file is stored if it offers functions. -/
theorem loadFiles_cons (root : Path) (site : Site) (p : Path) (ps : List Path) :
    site.loadFiles root (p :: ps) =
      if (offered site.world.files root p).isEmpty then site.loadFiles root ps
      else
        let stored := site.store (workspaceName root p)
          (offered site.world.files root p) .null .null
        ((stored.loadFiles root ps).1,
          (workspaceName root p, (offered site.world.files root p).size) ::
            (stored.loadFiles root ps).2) := by
  rw [loadFiles, offered]
  cases site.world.files.readText p with
  | error e => rfl
  | ok content => rfl

/-- Files below a directory are told apart by the names of their sources. -/
theorem workspaceName_below_inj {rel rel' : List String} (h : ∀ name ∈ rel, IsName name)
    (h' : ∀ name ∈ rel', IsName name)
    (heq : workspaceName root (root.below rel) = workspaceName root (root.below rel')) :
    rel = rel' := by
  rw [workspaceName, workspaceName, Files.relativeParts_below, Files.relativeParts_below] at heq
  have hchars := congrArg String.toList heq
  rw [String.toList_append, String.toList_append] at hchars
  exact Path.joinWith_inj h h' (String.toList_inj.1 (List.append_cancel_left hchars))

/-- The files among paths that fit a pattern have names of their own. -/
theorem nodup_workspaceName {fs : Files} (hnamed : fs.Named) {pattern : String}
    {paths files : List Path} (h : fs.glob root pattern = .ok paths)
    (hfiles : files.Sublist paths) :
    ((typesFiles fs root files).map (workspaceName root)).Nodup := by
  obtain ⟨rels, rfl, hordered, hnames⟩ := Files.exists_of_glob hnamed h
  have hall : ((rels.map root.below).map (workspaceName root)).Nodup := by
    rw [List.map_map]
    refine List.Nodup.map_on ?_ (hordered.imp fun hlt => ne_of_lt hlt)
    intro rel hrel rel' hrel' heq
    exact workspaceName_below_inj (hnames rel hrel) (hnames rel' hrel') heq
  have hsublist : (typesFiles fs root files).Sublist (rels.map root.below) :=
    List.filter_sublist.trans (List.filter_sublist.trans hfiles)
  exact hall.sublist (hsublist.map (workspaceName root))

/-- What reading some files makes of the entries. -/
structure Mirrored (root : Path) (files : List Path) (site site' : Site)
    (loaded : List (String × Nat)) : Prop where
  /-- The entry of a file with functions holds exactly these. -/
  current : ∀ p ∈ files, (offered site.world.files root p).isEmpty = false → ∃ time,
    site'.catalogue.entries.get? (workspaceName root p) =
      some ⟨workspaceName root p, offered site.world.files root p, time, .null, .null⟩
  /-- Every other entry is left alone, that of a file without functions too. -/
  kept : ∀ name,
    (∀ p ∈ files, workspaceName root p = name → (offered site.world.files root p).isEmpty) →
    site'.catalogue.entries.get? name = site.catalogue.entries.get? name
  /-- The files with functions are listed, with how many they have. -/
  listed : loaded = (files.filter fun p => !(offered site.world.files root p).isEmpty).map
    fun p => (workspaceName root p, (offered site.world.files root p).size)
  /-- No file changes. -/
  files_eq : site'.world.files = site.world.files

/-- **Reading files** with names of their own mirrors them. -/
theorem mirrored_loadFiles {files : List Path} (hnodup : (files.map (workspaceName root)).Nodup)
    (site : Site) :
    Mirrored root files site (site.loadFiles root files).1 (site.loadFiles root files).2 := by
  induction files generalizing site with
  | nil => exact ⟨nofun, fun _ _ => rfl, rfl, rfl⟩
  | cons p files ih =>
    rw [List.map_cons, List.nodup_cons] at hnodup
    have hother : ∀ q ∈ files, workspaceName root q ≠ workspaceName root p := fun q hq heq =>
      hnodup.1 (heq ▸ List.mem_map_of_mem hq)
    rw [loadFiles_cons]
    split
    next hempty =>
      have hrest := ih hnodup.2 site
      refine ⟨?_, fun name h => hrest.kept name fun q hq => h q (List.mem_cons_of_mem _ hq), ?_,
        hrest.files_eq⟩
      · intro q hq hsome
        rcases List.mem_cons.1 hq with rfl | hq
        · rw [hempty] at hsome
          cases hsome
        · exact hrest.current q hq hsome
      · rw [List.filter_cons_of_neg (by simp [hempty])]
        exact hrest.listed
    next hsome =>
      have hrest := ih hnodup.2
        (site.store (workspaceName root p) (offered site.world.files root p) .null .null)
      refine ⟨?_, ?_, ?_, hrest.files_eq⟩
      · intro q hq hq'
        rcases List.mem_cons.1 hq with rfl | hq
        · -- no later file has the name, so the entry stays as it is stored
          refine ⟨.ofSeconds site.world.clock,
            (hrest.kept _ fun q' hq' heq => absurd heq (hother q' hq')).trans ?_⟩
          exact OrderedMap.get?_insert_self _ _ _
        · exact hrest.current q hq hq'
      · intro name h
        have hne : name ≠ workspaceName root p := by
          rintro rfl
          exact hsome (h p List.mem_cons_self rfl)
        refine (hrest.kept name fun q hq => h q (List.mem_cons_of_mem _ hq)).trans ?_
        exact OrderedMap.get?_insert_of_ne _ _ hne
      · rw [List.filter_cons_of_pos (by simp [hsome]), List.map_cons]
        exact congrArg _ hrest.listed

/-- What reading the types files makes of the entries, file by file. -/
structure Mirrors (root : Path) (files : List Path) (site site' : Site)
    (loaded : List (String × Nat)) : Prop where
  /-- The entry of a file that can be read holds exactly the functions in it, if there are any, and
      is as it was before, if there are none. -/
  read : ∀ p ∈ files, ∀ content, site.world.files.readText p = .ok content →
    ((Docs.extractAnnotated content (workspaceName root p)).isEmpty = false → ∃ time,
      site'.catalogue.entries.get? (workspaceName root p) =
        some ⟨workspaceName root p, Docs.extractAnnotated content (workspaceName root p), time,
          .null, .null⟩) ∧
    ((Docs.extractAnnotated content (workspaceName root p)).isEmpty = true →
      site'.catalogue.entries.get? (workspaceName root p) =
        site.catalogue.entries.get? (workspaceName root p))
  /-- So is that of a file that cannot be read. -/
  unread : ∀ p ∈ files, ∀ e, site.world.files.readText p = .error e →
    site'.catalogue.entries.get? (workspaceName root p) =
      site.catalogue.entries.get? (workspaceName root p)
  /-- So is every other entry. -/
  others : ∀ name, (∀ p ∈ files, workspaceName root p ≠ name) →
    site'.catalogue.entries.get? name = site.catalogue.entries.get? name
  /-- As many files are listed as have functions. -/
  count : loaded.length =
    (files.filter fun p => !(offered site.world.files root p).isEmpty).length
  /-- No file changes. -/
  files_eq : site'.world.files = site.world.files

theorem Mirrored.mirrors {files : List Path} {site' : Site} {loaded : List (String × Nat)}
    (h : Mirrored root files site site' loaded) (hnodup : (files.map (workspaceName root)).Nodup) :
    Mirrors root files site site' loaded := by
  -- a file without functions is the only one of its name, so that its entry is left alone
  have hpassed : ∀ p ∈ files, (offered site.world.files root p).isEmpty = true → _ :=
    fun p hp hempty => h.kept (workspaceName root p) fun q hq heq =>
      List.inj_on_of_nodup_map hnodup hq hp heq ▸ hempty
  refine ⟨fun p hp content htext => ⟨fun hsome => ?_, fun hempty => ?_⟩, fun p hp e htext => ?_,
    fun name hname => ?_, ?_, h.files_eq⟩
  · rw [← offered_of_readText htext] at hsome ⊢
    exact h.current p hp hsome
  · rw [← offered_of_readText htext] at hempty
    exact hpassed p hp hempty
  · exact hpassed p hp (by rw [offered, htext]; rfl)
  · exact h.kept name fun p hp heq => absurd heq (hname p hp)
  · rw [h.listed, List.length_map]

/-- **What the types files make of the entries.**  A search that fails, as for a pattern that is
    none, breaks the reading off and changes nothing.  Else the entries mirror the files that it
    finds; or one of its paths cannot be asked for, which breaks the reading off when they mirror
    the files before it. -/
theorem loadWorkspace_mirrors {site : Site} (hnamed : site.world.files.Named) (root : Path)
    (pattern : String) :
    (∃ e, site.world.files.glob root pattern = .error e ∧
      site.loadWorkspace root pattern = (site, .error e)) ∨
    ∃ paths, site.world.files.glob root pattern = .ok paths ∧
      ((∀ p ∈ paths, ∀ e, ¬site.world.files.Unaskable p e) ∧
        (∃ site' loaded, site.loadWorkspace root pattern = (site', .ok loaded) ∧
          Mirrors root (typesFiles site.world.files root paths) site site' loaded) ∨
      ∃ before p after e, paths = before ++ p :: after ∧
        (∀ q ∈ before, ∀ e, ¬site.world.files.Unaskable q e) ∧ site.world.files.Unaskable p e ∧
        ∃ site' loaded, site.loadWorkspace root pattern = (site', .error (.file e)) ∧
          Mirrors root (typesFiles site.world.files root before) site site' loaded) := by
  unfold loadWorkspace
  dsimp only
  cases hglob : site.world.files.glob root pattern with
  | error e => exact .inl ⟨e, rfl, rfl⟩
  | ok paths =>
    have hmirrors : ∀ files : List Path, files.Sublist paths →
        let ended := site.loadFiles root (typesFiles site.world.files root files)
        Mirrors root (typesFiles site.world.files root files) site ended.1 ended.2 := by
      intro files hfiles
      have hnodup := nodup_workspaceName hnamed hglob hfiles
      exact (mirrored_loadFiles hnodup site).mirrors hnodup
    refine .inr ⟨paths, rfl, ?_⟩
    dsimp only
    rcases site.world.files.filesAmong_cases paths with
      ⟨hasked, hamong⟩ | ⟨before, p, after, e, rfl, hbefore, hp, hamong⟩
    · rw [hamong]
      exact .inl ⟨hasked, _, _, rfl, hmirrors paths (List.Sublist.refl _)⟩
    · rw [hamong]
      exact .inr ⟨before, p, after, e, rfl, hbefore, hp, _, _, rfl,
        hmirrors before (List.sublist_append_left ..)⟩

/-- A workspace with two types files, of which one has lost its functions since it was read. -/
def lapsed : Site where
  world := {
    settings := .default
    files := {
      nodes := .ofList [(["w"], .directory),
        (["w", "a.lua"], .file (Text.Utf8.encode "function f(a)\nend\n".toList)),
        (["w", "b.lua"], .file [])] }
    homes := { own := ⟨.root, ["home"]⟩ }
    network := Fetch.plainClient fun _ _ => (0, .ok { status := 404 })
    clock := 63838368000 }
  catalogue := {
    path := ⟨.root, ["index.json"]⟩
    entries := .ofList [("Local: b.lua", {
      source := "Local: b.lua", updated := .ofSeconds 0
      functions := .ofList [("g", { name := "g", source := "Local: b.lua" })] })] }

/-- Both files fit the pattern. -/
theorem glob_lapsed : lapsed.world.files.glob ⟨.root, ["w"]⟩ "*.lua" =
    .ok [⟨.root, ["w", "a.lua"]⟩, ⟨.root, ["w", "b.lua"]⟩] := by
  have hparse : Glob.parse "*.lua" = .ok [.wild (.anything :: ".lua".toList.map .exactly)] :=
    Files.eq_ok_of_toOption (by decide +kernel)
  have hselect : lapsed.world.files.select [.wild (.anything :: ".lua".toList.map .exactly)]
      ⟨.root, ["w"]⟩ = .ok [⟨.root, ["w", "a.lua"]⟩, ⟨.root, ["w", "b.lua"]⟩] :=
    Files.eq_ok_of_toOption (by decide +kernel)
  rw [Files.glob_eq_ok_iff]
  refine ⟨_, hparse, .inl ⟨rfl, _, hselect, ?_⟩⟩
  rw [List.mergeSort_of_pairwise (by decide)]

theorem loadWorkspace_mirrors_lapsed : lapsed.world.files.Named ∧ ∃ site' loaded,
    lapsed.loadWorkspace ⟨.root, ["w"]⟩ "*.lua" = (site', .ok loaded) ∧ loaded.length = 1 ∧
    (∃ time, site'.catalogue.entries.get? "Local: a.lua" =
      some ⟨"Local: a.lua", Docs.extractAnnotated "function f(a)\nend\n" "Local: a.lua", time,
        .null, .null⟩) ∧
    site'.catalogue.entries.get? "Local: b.lua" = lapsed.catalogue.entries.get? "Local: b.lua" := by
  have hnamed : lapsed.world.files.Named := by decide
  refine ⟨hnamed, ?_⟩
  rcases loadWorkspace_mirrors hnamed ⟨.root, ["w"]⟩ "*.lua" with
    ⟨e, hglob, -⟩ | ⟨paths, hglob, ⟨-, site', loaded, hload, hmirrors⟩ |
      ⟨before, p, after, e, rfl, -, hp, -⟩⟩
  · cases glob_lapsed.symm.trans hglob
  · obtain rfl := Except.ok.inj (glob_lapsed.symm.trans hglob)
    refine ⟨site', loaded, hload, hmirrors.count.trans (by decide +kernel), ?_, ?_⟩
    · exact (hmirrors.read ⟨.root, ["w", "a.lua"]⟩ (by decide +kernel) "function f(a)\nend\n"
        (by decide +kernel)).1 (by decide +kernel)
    · exact (hmirrors.read ⟨.root, ["w", "b.lua"]⟩ (by decide +kernel) "" rfl).2 (by decide +kernel)
  · -- both files can be asked for
    have hmem : p ∈ [(⟨.root, ["w", "a.lua"]⟩ : Path), ⟨.root, ["w", "b.lua"]⟩] := by
      rw [Except.ok.inj (glob_lapsed.symm.trans hglob)]
      simp
    have hlocated : (lapsed.world.files.locate p).toBool = true := by
      clear hp hglob
      revert p
      decide +kernel
    rw [hp.2.1] at hlocated
    cases hlocated

/-- A file that has lost its functions does not lose its entry. -/
theorem not_all_entries_mirror :
    ¬ ∀ (site site' : Site) (root : Path) (pattern : String) (paths : List Path)
      (loaded : List (String × Nat)), site.world.files.Named →
      site.world.files.glob root pattern = .ok paths →
      site.loadWorkspace root pattern = (site', .ok loaded) →
      ∀ p ∈ typesFiles site.world.files root paths, ∀ content,
        site.world.files.readText p = .ok content →
        (Docs.extractAnnotated content (workspaceName root p)).isEmpty = true →
        site'.catalogue.entries.get? (workspaceName root p) = none := by
  intro h
  have hnamed : lapsed.world.files.Named := by decide
  have hnone := h lapsed _ ⟨.root, ["w"]⟩ "*.lua" _ _ hnamed glob_lapsed
    (by rw [loadWorkspace, glob_lapsed]; rfl) ⟨.root, ["w", "b.lua"]⟩ (by decide +kernel) "" rfl
    (by decide +kernel)
  have hnodup := nodup_workspaceName hnamed glob_lapsed (List.Sublist.refl _)
  have hkept := (mirrored_loadFiles hnodup lapsed).kept "Local: b.lua" (by decide +kernel)
  cases hkept.symm.trans hnone

end Site

end LuaAudit.Index
