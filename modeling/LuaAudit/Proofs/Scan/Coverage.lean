import LuaAudit.Proofs.Files.Glob
import LuaAudit.Proofs.Scan.Workspace

/-!
# Which files a workspace scan covers

With the usual pattern a scan of a directory is about the Lua files below it, at any depth, outside
two directories that are never searched.  Each of them is scheduled, or listed as failed when it may
not be read.  A directory that may not be listed hides what it holds, and a path that cannot be
asked for ends the scan.

* `Files.IsLuaFile`: the files that a scan is about, told by the tree and by what can be listed;
* `Files.Hindered`: what ends the search for them;
* `Files.mayRead`, `Files.urlBelow`: whether such a file may be read, and its URL;
* `Files.Tree.mem_luaFiles`: the pattern finds these files;
* `scheduled_eq` and `entries_failed_foldl_add`: what is scheduled, and what is listed as failed;
* `Covered`: what a scan that covers exactly these files does, `ScanEnd`: how a scan ends;
* `Scheduler.scan_covers`: it ends so.
-/

namespace LuaAudit

open Location (IsName Path fileUri)

/-! ### Lua files below a directory -/

namespace Files

/-- A file below a directory, with a Lua name and outside the directories that are never searched,
    to which directories lead that can be listed. -/
structure IsLuaFile (fs : Files) (root : Path) (rel : List String) : Prop where
  stands : ∃ bytes, fs.nodes.get? ((fs.resolve root).parts ++ rel) = some (.file bytes)
  listed : ∀ front, front <+: rel → front ≠ rel →
    ∃ entries, fs.list (root.below front) = .ok entries
  ending : ∃ name, rel.getLast? = some name ∧ ".lua".toList <:+ name.toList
  searched : "node_modules" ∉ rel ∧ ".git" ∉ rel

/-- What ends a search for Lua files below a directory: the directory cannot be asked for, the walk
    through the directories below it breaks off, or something with a Lua name cannot be asked
    for. -/
inductive Hindered (fs : Files) (root : Path) : GlobError → Prop
  | root {cause : FileError} (unaskable : fs.Unaskable root cause) : Hindered fs root (.file cause)
  | walk {e : GlobError} (directory : fs.isDir root = .ok true)
      (obstructed : fs.Obstructed root fs.levels e) : Hindered fs root e
  | entry {front : List String} {entries : List (String × Node)} {name : String} {node : Node}
      {cause : FileError} (reached : fs.Reached root front)
      (listed : fs.list (root.below front) = .ok entries) (mem : (name, node) ∈ entries)
      (ending : ".lua".toList <:+ name.toList)
      (unaskable : fs.Unaskable (root.below (front ++ [name])) cause) :
      Hindered fs root (.file cause)

/-- Whether a file below a directory may be read. -/
def mayRead (fs : Files) (root : Path) (rel : List String) : Bool :=
  !fs.denied.contains ((fs.resolve root).parts ++ rel)

/-- The URL of a file below a directory. -/
def urlBelow (fs : Files) (root : Path) (rel : List String) : String :=
  fileUri ⟨.root, (fs.resolve root).parts ++ rel⟩

/-- The text of a file with some bytes. -/
def textOf (bytes : Bytes) : String :=
  String.ofList (Text.unifyNewlines (Text.Utf8.decodeLossy bytes))

variable {fs : Files} {root : Path} {rel rel' : List String}

theorem avoids_below (root : Path) (rel : List String) :
    Scan.avoids Scan.skippedDirs root (root.below rel) = true ↔
      "node_modules" ∉ rel ∧ ".git" ∉ rel := by
  rw [Scan.avoids, relativeParts_below, List.all_eq_true]
  constructor
  · intro h
    exact ⟨fun hmem => absurd (h _ hmem) (by decide), fun hmem => absurd (h _ hmem) (by decide)⟩
  · rintro ⟨hnode, hgit⟩ part hpart
    have hne : part ≠ "node_modules" ∧ part ≠ ".git" := by
      refine ⟨?_, ?_⟩ <;> rintro rfl
      · exact hnode hpart
      · exact hgit hpart
    simp [Scan.skippedDirs, hne]

/-- The pattern of Lua files in any directory. -/
theorem parse_luaPattern : Glob.parse "**/*.lua" =
    .ok [.anyDirs, .wild (.anything :: ".lua".toList.map .exactly)] :=
  Files.eq_ok_of_toOption (by decide +kernel)

/-- The names that fit the pattern are those with the ending. -/
theorem isMatch_luaPattern (name : String) :
    Wildcard.isMatch (.anything :: ".lua".toList.map .exactly) name.toList = true ↔
      ".lua".toList <:+ name.toList := by
  simp only [Wildcard.isMatch_anything, Wildcard.isMatch_exactly]
  exact ⟨fun ⟨_, hsuffix, heq⟩ => heq ▸ hsuffix, fun hsuffix => ⟨_, hsuffix, rfl⟩⟩

theorem IsLuaFile.ne_nil (hlua : fs.IsLuaFile root rel) : rel ≠ [] := by
  rintro rfl
  obtain ⟨name, hlast, -⟩ := hlua.ending
  cases hlast

theorem IsLuaFile.mem_keys (hlua : fs.IsLuaFile root rel) :
    (fs.resolve root).parts ++ rel ∈ fs.nodes.keys := by
  obtain ⟨bytes, hfile⟩ := hlua.stands
  exact (OrderedMap.mem_keys_iff _ _).2 ⟨_, hfile⟩

theorem findsFile_iff {p : Path} : fs.findsFile p = true ↔ fs.isFile p = .ok true := by
  unfold findsFile
  cases fs.isFile p <;> simp

namespace Tree

variable (h : fs.Tree)
include h

theorem ne_up_of_mem_keys {place : Place} (hmem : place ++ rel ∈ fs.nodes.keys) :
    ∀ name ∈ rel, name ≠ ".." :=
  fun name hname => (h.onward _ hmem name (List.mem_append_right _ hname)).1

/-- Directories that can be listed lead to what stands below them. -/
theorem reached_of_listed {p : Path} {front : List String} {name : String}
    (hmem : (fs.resolve p).parts ++ (front ++ [name]) ∈ fs.nodes.keys)
    (hlisted : ∀ f, f <+: front → ∃ entries, fs.list (p.below f) = .ok entries) :
    fs.Reached p front := by
  induction front generalizing p with
  | nil => trivial
  | cons n front ih =>
    have hstep : (fs.resolve (p.child n)).parts = (fs.resolve p).parts ++ [n] :=
      @resolve_below fs [n] (by simpa using h.ne_up_of_mem_keys hmem n (by simp)) p
    replace hmem : (fs.resolve p).parts ++ [n] ++ (front ++ [name]) ∈ fs.nodes.keys := by
      simpa using hmem
    obtain ⟨entries, hentries⟩ := hlisted [] (List.nil_prefix ..)
    rw [Path.below_nil] at hentries
    obtain ⟨place, hplace, -, -, rfl⟩ := list_eq_ok_iff.1 hentries
    refine .cons hentries (mem_listing.2 ?_) (ih ?_ ?_)
    · have hdirectory := h.directory_of_append (by simp) hmem
      rw [node?, if_neg (by simp)] at hdirectory
      rwa [locate_eq hplace]
    · rwa [hstep]
    · intro f hf
      rw [Path.child_below]
      exact hlisted (n :: f) (List.cons_prefix_cons.2 ⟨rfl, hf⟩)

/-- A Lua file is listed in a directory that can be come to. -/
theorem exists_of_isLuaFile (hlua : fs.IsLuaFile root rel) :
    ∃ front name entries node, rel = front ++ [name] ∧ ".lua".toList <:+ name.toList ∧
      fs.Reached root front ∧ fs.list (root.below front) = .ok entries ∧
      (name, node) ∈ entries := by
  obtain ⟨name, hlast, hsuffix⟩ := hlua.ending
  obtain ⟨front, rfl⟩ := List.getLast?_eq_some_iff.1 hlast
  obtain ⟨bytes, hfile⟩ := hlua.stands
  have hmem := hlua.mem_keys
  have hlisted : ∀ f, f <+: front → ∃ entries, fs.list (root.below f) = .ok entries := by
    intro f hf
    apply hlua.listed f (hf.trans (List.prefix_append ..))
    rintro rfl
    have hlength := hf.length_le
    rw [List.length_append, List.length_singleton] at hlength
    omega
  obtain ⟨entries, hentries⟩ := hlisted front (List.prefix_refl _)
  refine ⟨front, name, entries, .file bytes, rfl, hsuffix, h.reached_of_listed hmem hlisted,
    hentries, ?_⟩
  obtain ⟨place, hplace, -, -, rfl⟩ := list_eq_ok_iff.1 hentries
  have honward : ∀ n ∈ front, n ≠ ".." := fun n hn =>
    h.ne_up_of_mem_keys hmem n (List.mem_append_left _ hn)
  rw [mem_listing, locate_eq hplace, resolve_below honward, List.append_assoc]
  exact hfile

/-- A Lua file that nothing hinders is where its path leads to. -/
theorem locate_of_isLuaFile (hfree : ∀ e, ¬fs.Hindered root e) (hlua : fs.IsLuaFile root rel) :
    fs.locate (root.below rel) = .ok ((fs.resolve root).parts ++ rel) := by
  obtain ⟨front, name, entries, node, rfl, hsuffix, hreached, hentries, hname⟩ :=
    h.exists_of_isLuaFile hlua
  obtain ⟨entries', hroot⟩ := hreached.listed ⟨_, hentries⟩ (List.nil_prefix ..)
  rw [Path.below_nil] at hroot
  obtain ⟨place, hplace, -, -, -⟩ := list_eq_ok_iff.1 hroot
  have hasked : ∀ e, ¬fs.Unaskable (root.below (front ++ [name])) e := fun e he =>
    hfree _ (.entry hreached hentries hname hsuffix he)
  have hmem := hlua.mem_keys
  rw [← locate_eq hplace] at hmem ⊢
  rcases h.locate_below hplace (.inr hmem) with hway | hway | hway
  · exact hway
  · exact absurd ⟨rfl, hway, .inl rfl⟩ (hasked ⟨.denied, _⟩)
  · exact absurd ⟨rfl, hway, .inr rfl⟩ (hasked ⟨.tooLong, _⟩)

/-- **The Lua files** are what the pattern finds, less what is no file and what is never
    searched. -/
theorem mem_luaFiles (hfree : ∀ e, ¬fs.Hindered root e) {found : List Path}
    (hfound : fs.select [.anyDirs, .wild (.anything :: ".lua".toList.map .exactly)] root =
      .ok found) :
    (root.below rel ∈ found ∧ Scan.avoids Scan.skippedDirs root (root.below rel) = true ∧
      fs.findsFile (root.below rel) = true) ↔ fs.IsLuaFile root rel := by
  rw [mem_select_anyDirs hfound, avoids_below, findsFile_iff]
  constructor
  · rintro ⟨⟨front, entries, name, node, hreached, hentries, hname, hmatch, hrel⟩, hsearched, hfile⟩
    obtain rfl := Path.below_inj.1 hrel
    have honward : ∀ n ∈ front ++ [name], n ≠ ".." := by
      intro n hn
      obtain ⟨place, hplace, hmem⟩ : ∃ place ∈ fs.nodes.keys, n ∈ place := by
        rcases List.mem_append.1 hn with hn | hn
        · exact hreached.mem_keys n hn
        · rw [List.mem_singleton.1 hn]
          exact mem_keys_of_list hentries hname
      exact (h.onward place hplace n hmem).1
    obtain ⟨place, bytes, hplace, hnode⟩ := isFile_eq_true_iff.1 hfile
    rw [locate_eq hplace, resolve_below honward, node?, if_neg (by simp)] at hnode
    refine ⟨⟨bytes, hnode⟩, ?_, ⟨name, List.getLast?_concat, (isMatch_luaPattern name).1 hmatch⟩,
      hsearched⟩
    intro f hf hne
    exact hreached.listed ⟨_, hentries⟩ ((List.prefix_concat_iff.1 hf).resolve_left hne)
  · intro hlua
    have hlocate := h.locate_of_isLuaFile hfree hlua
    obtain ⟨bytes, hfile⟩ := hlua.stands
    obtain ⟨front, name, entries, node, rfl, hsuffix, hreached, hentries, hname⟩ :=
      h.exists_of_isLuaFile hlua
    refine ⟨⟨front, entries, name, node, hreached, hentries, hname,
      (isMatch_luaPattern name).2 hsuffix, rfl⟩, hlua.searched,
      isFile_eq_true_iff.2 ⟨_, bytes, hlocate, ?_⟩⟩
    rw [node?, if_neg (by simp), hfile]

end Tree

/-- The Lua files below a directory, each once and in the order of components. -/
structure LuaFiles (fs : Files) (root : Path) (rels : List (List String)) : Prop where
  ordered : rels.Pairwise (· < ·)
  complete : ∀ rel, rel ∈ rels ↔ fs.IsLuaFile root rel

/-- A search that ends was hindered. -/
theorem hindered_of_glob {e : GlobError} (h : fs.glob root "**/*.lua" = .error e) :
    fs.Hindered root e := by
  rcases glob_eq_error_iff.1 h with hparse | ⟨parts, hparse, ⟨cause, hcause, rfl⟩ | ⟨hdir, hselect⟩⟩
  · cases parse_luaPattern.symm.trans hparse
  · exact .root (isDir_eq_error_iff.1 hcause)
  · obtain rfl := Except.ok.inj (parse_luaPattern.symm.trans hparse)
    exact .walk hdir (obstructed_of_select hselect)

/-- What is found can be asked for exactly when nothing hinders the search. -/
theorem hindered_of_mem_glob {paths : List Path} (hglob : fs.glob root "**/*.lua" = .ok paths)
    {p : Path} (hp : p ∈ paths) {e : FileError} (he : fs.Unaskable p e) :
    fs.Hindered root (.file e) := by
  obtain ⟨parts, hparse, ⟨-, found, hfound, rfl⟩ | ⟨-, rfl⟩⟩ := glob_eq_ok_iff.1 hglob
  · obtain rfl := Except.ok.inj (parse_luaPattern.symm.trans hparse)
    obtain ⟨front, entries, name, node, hreached, hentries, hname, hmatch, rfl⟩ :=
      (mem_select_anyDirs hfound).1 (List.mem_mergeSort.1 hp)
    exact .entry hreached hentries hname ((isMatch_luaPattern name).1 hmatch) he
  · cases hp

theorem not_hindered_of_glob {paths : List Path} (hglob : fs.glob root "**/*.lua" = .ok paths)
    (hasked : ∀ p ∈ paths, ∀ e, ¬fs.Unaskable p e) (e : GlobError) : ¬fs.Hindered root e := by
  obtain ⟨parts, hparse, hpaths⟩ := glob_eq_ok_iff.1 hglob
  obtain rfl := Except.ok.inj (parse_luaPattern.symm.trans hparse)
  intro hhindered
  cases hhindered with
  | root hroot =>
    rw [← isDir_eq_error_iff] at hroot
    rcases hpaths with ⟨hdir, -⟩ | ⟨hdir, -⟩ <;> cases hdir.symm.trans hroot
  | walk hdir hobstructed =>
    rcases hpaths with ⟨-, found, hfound, -⟩ | ⟨hnone, -⟩
    · exact not_obstructed_of_select hfound e hobstructed
    · cases hdir.symm.trans hnone
  | entry hreached hentries hname hsuffix hunaskable =>
    rcases hpaths with ⟨-, found, hfound, rfl⟩ | ⟨hnone, -⟩
    · refine hasked _ (List.mem_mergeSort.2 ?_) _ hunaskable
      exact (mem_select_anyDirs hfound).2
        ⟨_, _, _, _, hreached, hentries, hname, (isMatch_luaPattern _).2 hsuffix, rfl⟩
    · obtain ⟨entries', hroot⟩ := hreached.listed ⟨_, hentries⟩ (List.nil_prefix ..)
      rw [Path.below_nil] at hroot
      cases (isDir_of_list hroot).symm.trans hnone

/-- **A search** is hindered, or it finds the Lua files. -/
theorem Tree.search_cases (h : fs.Tree) (root : Path) :
    (∃ e, fs.Hindered root e ∧ Scan.readWorkspace fs root "**/*.lua" = .error e) ∨
      (∀ e, ¬fs.Hindered root e) ∧ ∃ rels, fs.LuaFiles root rels ∧
        Scan.readWorkspace fs root "**/*.lua" =
          .ok ((rels.map root.below).foldl (Scan.Reading.add fs) {}) := by
  unfold Scan.readWorkspace
  cases hglob : fs.glob root "**/*.lua" with
  | error e => exact .inl ⟨e, hindered_of_glob hglob, rfl⟩
  | ok paths =>
    rcases filesAmong_cases fs paths with ⟨hasked, hamong⟩ |
      ⟨before, p, after, e, rfl, -, he, hamong⟩
    · have hfree := not_hindered_of_glob hglob hasked
      obtain ⟨rels, rfl, hordered, -⟩ := exists_of_glob h.named hglob
      refine .inr ⟨hfree, rels.filter fun rel =>
        Scan.avoids Scan.skippedDirs root (root.below rel) && fs.findsFile (root.below rel),
        ⟨hordered.filter _, fun rel => ?_⟩, ?_⟩
      · have hmem : rel ∈ rels ↔ root.below rel ∈ rels.map root.below := by
          rw [List.mem_map_of_injective fun _ _ heq => Path.below_inj.1 heq]
        rw [List.mem_filter, Bool.and_eq_true, hmem]
        obtain ⟨parts, hparse, ⟨-, found, hfound, heq⟩ | ⟨hnone, heq⟩⟩ := glob_eq_ok_iff.1 hglob
        · obtain rfl := Except.ok.inj (parse_luaPattern.symm.trans hparse)
          rw [heq, List.mem_mergeSort, h.mem_luaFiles hfree hfound]
        · -- below what is no directory there are none
          rw [heq]
          refine ⟨fun hnil => absurd hnil.1 List.not_mem_nil, fun hlua => ?_⟩
          obtain ⟨entries, hroot⟩ := hlua.listed [] (List.nil_prefix ..) hlua.ne_nil.symm
          rw [Path.below_nil] at hroot
          cases (isDir_of_list hroot).symm.trans hnone
      · dsimp only
        rw [hamong]
        dsimp only
        rw [List.filter_map, List.filter_map, List.filter_filter]
        rfl
    · refine .inl ⟨.file e, hindered_of_mem_glob hglob (by simp) he, ?_⟩
      dsimp only
      rw [hamong]

end Files

/-! ### What is written about them -/

/-- Paths below a directory are told apart by how they are written. -/
theorem Location.Path.text_below_inj {root : Path} {rel rel' : List String} (hne : rel ≠ [])
    (hne' : rel' ≠ []) (hrel : ∀ name ∈ rel, IsName name) (hrel' : ∀ name ∈ rel', IsName name)
    (h : (root.below rel).text = (root.below rel').text) : rel = rel' := by
  have htext : ∀ {rel : List String}, rel ≠ [] → (root.below rel).text =
      root.anchor.text ++ Text.joinWith "/" (root.parts ++ rel) := by
    intro rel hne
    rw [Path.text, if_neg (by simp [below, hne])]
    rfl
  -- the components of the directory are written in front of both
  have hfront : ∀ front : List (List Char),
      ['/'].intercalate (front ++ rel.map String.toList) =
        ['/'].intercalate (front ++ rel'.map String.toList) →
      ['/'].intercalate (rel.map String.toList) = ['/'].intercalate (rel'.map String.toList) := by
    intro front
    induction front with
    | nil => exact id
    | cons piece front ih =>
      intro heq
      rw [List.cons_append, List.cons_append, List.intercalate_cons_of_ne_nil (by simp [hne]),
        List.intercalate_cons_of_ne_nil (by simp [hne'])] at heq
      exact ih (List.append_cancel_left heq)
  rw [htext hne, htext hne'] at h
  have hchars := congrArg String.toList h
  simp only [String.toList_append, Text.joinWith, String.toList_intercalate, List.map_append,
    List.append_cancel_left_eq] at hchars
  apply joinWith_inj hrel hrel'
  apply String.toList_inj.1
  simp only [Text.joinWith, String.toList_intercalate]
  exact hfront _ hchars

namespace Scan

/-- The line about a path that could not be read. -/
def failure? (fs : Files) (p : Path) : Option (String × String) :=
  match readDocument fs p with
  | .ok _ => none
  | .error e => some (p.text, e.message)

/-- The paths that are listed as failed are those that could not be read. -/
theorem failed_foldl_add (fs : Files) (paths : List Path) (r : Reading) :
    (paths.foldl (Reading.add fs) r).failed =
      (paths.filterMap (failure? fs)).foldl (fun m e => m.insert e.1 e.2) r.failed := by
  induction paths generalizing r with
  | nil => rfl
  | cons p paths ih =>
    rw [List.foldl_cons, ih]
    unfold Reading.add
    cases hread : readDocument fs p with
    | ok d => simp [failure?, hread]
    | error e => simp [failure?, hread]

theorem filterMap_eq_map_filter {α β : Type} {f : α → Option β} {keep : α → Bool} {g : α → β}
    {as : List α} (h : ∀ a ∈ as, f a = if keep a then some (g a) else none) :
    as.filterMap f = (as.filter keep).map g := by
  induction as with
  | nil => rfl
  | cons a as ih =>
    rw [List.forall_mem_cons] at h
    rw [List.filterMap_cons, h.1, ih h.2, List.filter_cons]
    split <;> simp_all

end Scan

/-! ### Reading them -/

namespace Files.Tree

variable {fs : Files} {root : Path} {rel rel' : List String} (h : fs.Tree)
include h

theorem isName_of_isLuaFile (hlua : fs.IsLuaFile root rel) :
    ∀ name ∈ (fs.resolve root).parts ++ rel, IsName name := h.named _ hlua.mem_keys

/-- The URLs of Lua files tell them apart. -/
theorem eq_of_urlBelow (hlua : fs.IsLuaFile root rel) (hlua' : fs.IsLuaFile root rel')
    (heq : fs.urlBelow root rel = fs.urlBelow root rel') : rel = rel' :=
  List.append_cancel_left
    (Location.fileUri_inj (h.isName_of_isLuaFile hlua) (h.isName_of_isLuaFile hlua') heq)

/-- So do their paths as they are written. -/
theorem eq_of_text_below (hlua : fs.IsLuaFile root rel) (hlua' : fs.IsLuaFile root rel')
    (heq : (root.below rel).text = (root.below rel').text) : rel = rel' :=
  Path.text_below_inj hlua.ne_nil hlua'.ne_nil
    (fun name hname => h.isName_of_isLuaFile hlua name (List.mem_append_right _ hname))
    (fun name hname => h.isName_of_isLuaFile hlua' name (List.mem_append_right _ hname)) heq

/-- A Lua file is read as a document with its URL and its text, or fails. -/
theorem readDocument_of_isLuaFile (hfree : ∀ e, ¬fs.Hindered root e)
    (hlua : fs.IsLuaFile root rel) :
    ∃ bytes, fs.nodes.get? ((fs.resolve root).parts ++ rel) = some (.file bytes) ∧
      Scan.readDocument fs (root.below rel) =
        if fs.mayRead root rel then
          .ok { uri := fs.urlBelow root rel, text := some (textOf bytes) }
        else .error ⟨.denied, (root.below rel).text⟩ := by
  obtain ⟨bytes, hfile⟩ := hlua.stands
  refine ⟨bytes, hfile, ?_⟩
  have hnode : fs.node? ((fs.resolve root).parts ++ rel) = some (.file bytes) := by
    rw [node?, if_neg (by simp [hlua.ne_nil]), hfile]
  have hurl : fileUri (fs.resolve (root.below rel)) = fs.urlBelow root rel := by
    show fileUri ⟨.root, (fs.resolve (root.below rel)).parts⟩ = _
    rw [resolve_below (h.ne_up_of_mem_keys hlua.mem_keys)]
    rfl
  rw [Scan.readDocument, readText, read, h.locate_of_isLuaFile hfree hlua]
  simp only [hnode, hurl]
  by_cases hdenied : fs.denied.contains ((fs.resolve root).parts ++ rel) = true
  · rw [if_pos hdenied, if_neg (by simpa [mayRead] using hdenied)]
    rfl
  · rw [if_neg hdenied, if_pos (by simpa [mayRead] using hdenied)]
    rfl

end Files.Tree

namespace Scan

variable {fs : Files} {root : Path} {rels : List (List String)}

section Read

variable (h : fs.Tree) (hfree : ∀ e, ¬fs.Hindered root e)
    (hlua : ∀ rel ∈ rels, fs.IsLuaFile root rel)
include h hfree hlua

theorem scheduled_eq : (documents fs (rels.map root.below)).map Document.uri =
    (rels.filter (fs.mayRead root)).map (fs.urlBelow root) := by
  unfold documents
  rw [List.map_filterMap, List.filterMap_map]
  apply filterMap_eq_map_filter
  intro rel hrel
  obtain ⟨bytes, -, hread⟩ := h.readDocument_of_isLuaFile hfree (hlua rel hrel)
  rw [Function.comp_apply, hread]
  split <;> rfl

theorem failures_eq : (rels.map root.below).filterMap (failure? fs) =
    (rels.filter fun rel => !fs.mayRead root rel).map fun rel =>
      ((root.below rel).text, FileError.message ⟨.denied, (root.below rel).text⟩) := by
  rw [List.filterMap_map]
  apply filterMap_eq_map_filter
  intro rel hrel
  obtain ⟨bytes, -, hread⟩ := h.readDocument_of_isLuaFile hfree (hlua rel hrel)
  rw [Function.comp_apply, failure?, hread]
  cases fs.mayRead root rel <;> rfl

/-- What is listed as failed, where nothing takes the place of another. -/
theorem entries_failed_foldl_add (hnodup : rels.Nodup) :
    ((rels.map root.below).foldl (Reading.add fs) {}).failed.entries =
      (rels.filter fun rel => !fs.mayRead root rel).map fun rel =>
        ((root.below rel).text, FileError.message ⟨.denied, (root.below rel).text⟩) := by
  rw [failed_foldl_add, failures_eq h hfree hlua]
  apply OrderedMap.entries_ofList
  rw [List.map_map]
  refine List.Nodup.map_on ?_ (hnodup.filter _)
  intro rel hrel rel' hrel' heq
  exact h.eq_of_text_below (hlua rel (List.mem_filter.1 hrel).1)
    (hlua rel' (List.mem_filter.1 hrel').1) heq

end Read

/-- Each of them has a URL of its own. -/
theorem nodup_urlBelow (h : fs.Tree) (hlua : ∀ rel ∈ rels, fs.IsLuaFile root rel)
    (hnodup : rels.Nodup) (keep : List String → Bool) :
    ((rels.filter keep).map (fs.urlBelow root)).Nodup := by
  refine List.Nodup.map_on ?_ (hnodup.filter _)
  intro rel hrel rel' hrel' heq
  exact h.eq_of_urlBelow (hlua rel (List.mem_filter.1 hrel).1)
    (hlua rel' (List.mem_filter.1 hrel').1) heq

namespace Scheduler

/-- Scheduling documents leaves those of other names as they are, and all reports. -/
theorem schedules_frame (s : Settings) (docs : List Document) (x : Scheduler) :
    (∀ u, u ∉ docs.map Document.uri →
      (docs.foldl (Scheduler.schedule s) x).pending.get? u = x.pending.get? u) ∧
    (docs.foldl (Scheduler.schedule s) x).store = x.store := by
  induction docs generalizing x with
  | nil => exact ⟨fun _ _ => rfl, rfl⟩
  | cons d docs ih =>
    obtain ⟨hpending, hstore⟩ := ih (x.schedule s d)
    have hone : (∀ u, u ≠ d.uri → (x.schedule s d).pending.get? u = x.pending.get? u) ∧
        (x.schedule s d).store = x.store := by
      by_cases hlinted : isLinted s d = true
      · refine ⟨fun u hu => ?_, ?_⟩
        · rw [pending_schedule hlinted, if_neg hu]
        · rw [schedule, if_pos hlinted]
          exact cancel_store x d.uri
      · rw [schedule, if_neg hlinted]
        exact ⟨fun _ _ => rfl, rfl⟩
    refine ⟨fun u hu => ?_, hstore.trans hone.2⟩
    rw [List.map_cons, List.mem_cons, not_or] at hu
    exact (hpending u hu.2).trans (hone.1 u hu.1)

/-- Documents in no language that is linted are passed over. -/
theorem schedules_of_not_linted {s : Settings} {docs : List Document}
    (h : ∀ d ∈ docs, ¬isLinted s d = true) (x : Scheduler) :
    docs.foldl (Scheduler.schedule s) x = x := by
  induction docs with
  | nil => rfl
  | cons d docs ih =>
    rw [List.forall_mem_cons] at h
    rw [List.foldl_cons, schedule, if_neg h.1, ih h.2]

end Scheduler

/-! ### The scan -/

/-- What a scan does that covers the Lua files below a directory. -/
structure Covered (s : Settings) (fs : Files) (root : Path) (x y : Scheduler)
    (report : WorkspaceReport) (rels : List (List String)) : Prop where
  /-- Those that may be read are scheduled, in their order and each once. -/
  scheduled : report.scheduled = (rels.filter (fs.mayRead root)).map (fs.urlBelow root)
  once : report.scheduled.Nodup
  /-- The others are listed as failed, each once too. -/
  failed : report.failed.entries = (rels.filter fun rel => !fs.mayRead root rel).map fun rel =>
    ((root.below rel).text, FileError.message ⟨.denied, (root.below rel).text⟩)
  /-- No file is in both. -/
  apart : ∀ rel ∈ rels,
    ¬ (fs.urlBelow root rel ∈ report.scheduled ∧ (root.below rel).text ∈ report.failed.keys)
  /-- A file that is scheduled waits with its text, if Lua is linted at all. -/
  waiting : ∀ rel ∈ rels, fs.mayRead root rel = true →
    ∃ bytes, fs.nodes.get? ((fs.resolve root).parts ++ rel) = some (.file bytes) ∧
      y.pending.get? (fs.urlBelow root rel) =
        if "lua" ∈ s.roster .languageIds then
          some { uri := fs.urlBelow root rel, text := some (Files.textOf bytes) }
        else x.pending.get? (fs.urlBelow root rel)
  /-- Nothing else changes. -/
  others : ∀ u, u ∉ report.scheduled → y.pending.get? u = x.pending.get? u
  reports : y.store = x.store

/-- How a scan of the Lua files below a directory ends. -/
inductive ScanEnd (s : Settings) (fs : Files) (root : Path) (x : Scheduler) :
    Scheduler × Except WorkspaceError WorkspaceReport → Prop
  /-- The search for the files is hindered, and nothing changes. -/
  | hindered {e : GlobError} (cause : fs.Hindered root e) :
      ScanEnd s fs root x (x, .error (.search e))
  /-- The first file that may be read cannot wait, and only its timer is stopped. -/
  | overlong {rels rest : List (List String)} {rel : List String} (free : ∀ e, ¬fs.Hindered root e)
      (files : fs.LuaFiles root rels) (first : rels.filter (fs.mayRead root) = rel :: rest)
      (linted : "lua" ∈ s.roster .languageIds) (wait : Scheduler.isOverlong s = true) :
      ScanEnd s fs root x (x.cancel (fs.urlBelow root rel), .error .wait)
  /-- The files are covered. -/
  | covered {rels : List (List String)} {y : Scheduler} {report : WorkspaceReport}
      (free : ∀ e, ¬fs.Hindered root e) (files : fs.LuaFiles root rels)
      (wait : rels.filter (fs.mayRead root) ≠ [] → "lua" ∈ s.roster .languageIds →
        Scheduler.isOverlong s = false)
      (covered : Covered s fs root x y report rels) : ScanEnd s fs root x (y, .ok report)

/-- Files are read as documents in Lua. -/
theorem isLinted_of_mem_documents {s : Settings} {paths : List Path} {d : Document}
    (hd : d ∈ documents fs paths) :
    Scheduler.isLinted s d = true ↔ "lua" ∈ s.roster .languageIds := by
  obtain ⟨p, -, text, -, rfl⟩ := mem_documents_iff.1 hd
  exact List.contains_iff_mem

/-- Documents that are all scheduled are covered. -/
theorem covered_schedules (htree : fs.Tree) (hfree : ∀ e, ¬fs.Hindered root e)
    (hfiles : fs.LuaFiles root rels) (s : Settings) (x : Scheduler) :
    let reading := (rels.map root.below).foldl (Reading.add fs) {}
    Covered s fs root x (reading.documents.foldl (Scheduler.schedule s) x)
      ⟨reading.documents.map Document.uri, reading.failed⟩ rels := by
  intro reading
  have hlua : ∀ rel ∈ rels, fs.IsLuaFile root rel := fun rel hrel => (hfiles.complete rel).1 hrel
  have hnodup : rels.Nodup := hfiles.ordered.imp fun hlt => ne_of_lt hlt
  have hdocs : reading.documents = documents fs (rels.map root.below) :=
    documents_foldl_add fs (rels.map root.below) {}
  have hfailed : reading.failed.entries = _ := entries_failed_foldl_add htree hfree hlua hnodup
  have hscheduled : reading.documents.map Document.uri =
      (rels.filter (fs.mayRead root)).map (fs.urlBelow root) := by
    rw [hdocs, scheduled_eq htree hfree hlua]
  have honce : (reading.documents.map Document.uri).Nodup := by
    rw [hscheduled]
    exact nodup_urlBelow htree hlua hnodup _
  obtain ⟨hothers, hstore⟩ := Scheduler.schedules_frame s reading.documents x
  refine ⟨hscheduled, honce, hfailed, ?_, ?_, hothers, hstore⟩
  · rintro rel hrel ⟨hurl, htext⟩
    rw [hscheduled, List.mem_map] at hurl
    rw [OrderedMap.keys, hfailed, List.map_map, List.mem_map] at htext
    obtain ⟨rel₁, hrel₁, hurl⟩ := hurl
    obtain ⟨rel₂, hrel₂, htext⟩ := htext
    rw [List.mem_filter] at hrel₁ hrel₂
    obtain rfl := htree.eq_of_urlBelow (hlua _ hrel₁.1) (hlua _ hrel) hurl
    obtain rfl := htree.eq_of_text_below (hlua _ hrel₂.1) (hlua _ hrel) htext
    simp [hrel₁.2] at hrel₂
  · intro rel hrel hmay
    obtain ⟨bytes, hfile, hread⟩ := htree.readDocument_of_isLuaFile hfree (hlua rel hrel)
    refine ⟨bytes, hfile, ?_⟩
    split
    next hlanguage =>
      rw [if_pos hmay] at hread
      have hdoc : { uri := fs.urlBelow root rel, text := some (Files.textOf bytes) } ∈
          reading.documents := by
        rw [hdocs]
        exact List.mem_filterMap.2 ⟨_, List.mem_map.2 ⟨rel, hrel, rfl⟩, by rw [hread]; rfl⟩
      have hlinted : ∀ d ∈ reading.documents, Scheduler.isLinted s d := by
        intro d hd
        rw [hdocs] at hd
        exact (isLinted_of_mem_documents hd).2 hlanguage
      obtain ⟨d, hd, huri, hpending⟩ := Scheduler.exists_pending_schedules hlinted x hdoc
      -- the document that waits under the URL is the one of this file, as no other has it
      rw [hpending, List.inj_on_of_nodup_map honce hd hdoc huri]
    next hlanguage =>
      have hkept : ∀ d ∈ reading.documents, ¬Scheduler.isLinted s d = true := by
        intro d hd
        rw [hdocs] at hd
        exact fun hlinted => hlanguage ((isLinted_of_mem_documents hd).1 hlinted)
      rw [Scheduler.schedules_of_not_linted hkept]

/-- **Which files a scan covers.**  With the usual pattern a scan of a directory in a tree schedules
    exactly the Lua files that may be read, each once and in the order of their components, and
    lists exactly the others as failed.  It breaks off when the search for the files is hindered,
    before anything is scheduled, and when the wait for a scan cannot be counted, at the first of
    them. -/
theorem Scheduler.scan_covers {fs : Files} (htree : fs.Tree) {s : Settings}
    {pattern : Option String} (hpattern : patternOr s pattern = "**/*.lua") (root : Path)
    (x : Scheduler) :
    ScanEnd s fs root x (x.scanWorkspace s fs root pattern) := by
  unfold Scheduler.scanWorkspace
  rw [hpattern]
  rcases htree.search_cases root with ⟨e, he, hread⟩ | ⟨hfree, rels, hfiles, hread⟩
  · rw [hread]
    exact .hindered he
  · rw [hread]
    dsimp only
    have hlua : ∀ rel ∈ rels, fs.IsLuaFile root rel := fun rel hrel => (hfiles.complete rel).1 hrel
    have hcovered := covered_schedules htree hfree hfiles s x
    have hdocs := documents_foldl_add fs (rels.map root.below) {}
    rw [List.nil_append] at hdocs
    have huris := scheduled_eq htree hfree hlua
    by_cases hwait : rels.filter (fs.mayRead root) ≠ [] → "lua" ∈ s.roster .languageIds →
        Scheduler.isOverlong s = false
    · rw [Scheduler.scheduleAll_eq]
      · exact .covered hfree hfiles hwait hcovered
      · intro d hd
        rw [hdocs] at hd
        have hsome : rels.filter (fs.mayRead root) ≠ [] := by
          intro hnil
          rw [hnil, List.map_nil, List.map_eq_nil_iff] at huris
          rw [huris] at hd
          cases hd
        rw [Bool.and_eq_false_imp, isLinted_of_mem_documents hd]
        exact hwait hsome
    · push Not at hwait
      obtain ⟨hsome, hlanguage, hlong⟩ := hwait
      obtain ⟨rel, rest, hfirst⟩ := List.exists_cons_of_ne_nil hsome
      rw [hfirst, List.map_cons] at huris
      obtain ⟨d, docs, hd, huri, -⟩ := List.map_eq_cons_iff.1 huris
      have hlinted := isLinted_of_mem_documents (s := s) (hd ▸ List.mem_cons_self)
      rw [hdocs, hd, Scheduler.scheduleAll_of_overlong, huri]
      · exact .overlong hfree hfiles hfirst hlanguage (by simpa using hlong)
      · rw [hlinted.2 hlanguage]
        simpa using hlong

/-- A project with a hidden file, a directory named like a file, a file that may not be read, one
    that is never searched and one in a directory that may not be listed. -/
def project : Files where
  nodes := .ofList
    [(["w"], .directory), (["w", "a"], .directory), (["w", "a", "b.lua"], .file []),
      (["w", "a-b.lua"], .directory), (["w", "a-b.lua", "c.lua"], .file []),
      (["w", ".x.lua"], .file []), (["w", "readme.txt"], .file []),
      (["w", "node_modules"], .directory), (["w", "node_modules", "d.lua"], .file []),
      (["w", "own"], .directory), (["w", "own", "e.lua"], .file [])]
  denied := [["w", "a-b.lua", "c.lua"], ["w", "own"]]

theorem scan_covers_project : project.Tree ∧ patternOr Settings.default none = "**/*.lua" ∧
    ∃ y report rels,
      Scheduler.scanWorkspace Settings.default project {} ⟨.root, ["w"]⟩ none = (y, .ok report) ∧
      project.LuaFiles ⟨.root, ["w"]⟩ rels ∧
      Covered Settings.default project ⟨.root, ["w"]⟩ {} y report rels ∧
      [".x.lua"] ∈ rels ∧ ["a", "b.lua"] ∈ rels ∧ ["a-b.lua", "c.lua"] ∈ rels ∧
      ["a-b.lua"] ∉ rels ∧ ["node_modules", "d.lua"] ∉ rels ∧ ["own", "e.lua"] ∉ rels := by
  have htree : project.Tree := by decide
  have hpattern : patternOr Settings.default none = "**/*.lua" := by decide
  have hended := Scheduler.scan_covers htree hpattern ⟨.root, ["w"]⟩ {}
  -- nothing hinders the search: all that it finds can be asked for
  have hfound : project.select [.anyDirs, .wild (.anything :: ".lua".toList.map .exactly)]
      ⟨.root, ["w"]⟩ = .ok [⟨.root, ["w", "a-b.lua"]⟩, ⟨.root, ["w", ".x.lua"]⟩,
        ⟨.root, ["w", "a", "b.lua"]⟩, ⟨.root, ["w", "a-b.lua", "c.lua"]⟩,
        ⟨.root, ["w", "node_modules", "d.lua"]⟩] :=
    Files.eq_ok_of_toOption (by decide +kernel)
  have hdir : project.isDir ⟨.root, ["w"]⟩ = .ok true := by rfl
  have hglob := Files.glob_eq_ok_iff.2 ⟨_, Files.parse_luaPattern, .inl ⟨hdir, _, hfound, rfl⟩⟩
  have hfree := Files.not_hindered_of_glob hglob fun p hp e he => by
    have hlocated : (project.locate p).toBool = true := by
      clear he
      revert p
      simp only [List.mem_mergeSort]
      decide +kernel
    rw [he.2.1] at hlocated
    cases hlocated
  refine ⟨htree, hpattern, ?_⟩
  generalize Scheduler.scanWorkspace Settings.default project {} ⟨.root, ["w"]⟩ none = ended
    at hended
  cases hended with
  | hindered cause => exact absurd cause (hfree _)
  | overlong free files first linted wait => exact absurd wait (by decide +kernel)
  | covered free files wait covered =>
    refine ⟨_, _, _, rfl, files, covered, ?_⟩
    simp only [files.complete, ← htree.mem_luaFiles hfree hfound]
    decide +kernel

/-- A file with a long name, and a directory to come back from. -/
def longNamed : Files where
  nodes := .ofList [([String.ofList (List.replicate 100 'd')], .directory),
    ([String.ofList (List.replicate 251 'b' ++ ".lua".toList)], .file [])]

/-- The directory of the file, by a way that is almost too long. -/
def winding : Path :=
  ⟨.root, (List.replicate 37 [String.ofList (List.replicate 100 'd'), ".."]).flatten⟩

/-- A scan can break off at a file that cannot be asked for. -/
theorem not_all_scans_return : ¬ ∀ (fs : Files) (s : Settings) (root : Path) (x : Scheduler),
    fs.Tree → fs.isDir root = .ok true → patternOr s none = "**/*.lua" →
      ∃ y report, x.scanWorkspace s fs root none = (y, .ok report) := by
  intro hall
  have htree : longNamed.Tree := by decide +kernel
  have hway : longNamed.locate winding = .ok [] := by decide +kernel
  have hpattern : patternOr Settings.default none = "**/*.lua" := by decide
  obtain ⟨y, report, hscan⟩ := hall longNamed Settings.default winding {} htree
    (Files.isDir_eq_true_iff.2 ⟨[], hway, rfl⟩) hpattern
  have hlisted : longNamed.list (winding.below []) = .ok (longNamed.listing []) := by
    rw [Path.below_nil]
    exact Files.list_eq_ok_iff.2 ⟨[], hway, rfl, rfl, rfl⟩
  have hname : (String.ofList (List.replicate 251 'b' ++ ".lua".toList), Node.file []) ∈
      longNamed.listing [] := by decide +kernel
  have hreached : longNamed.Reached winding [] := trivial
  have hhindered : longNamed.Hindered winding (.file ⟨.tooLong, _⟩) :=
    .entry hreached hlisted hname (by decide +kernel) ⟨rfl, by decide +kernel, .inr rfl⟩
  rw [Scheduler.scanWorkspace, hpattern] at hscan
  rcases htree.search_cases winding with ⟨e, -, hread⟩ | ⟨hfree, -⟩
  · rw [hread] at hscan
    cases hscan
  · exact hfree _ hhindered

end Scan

end LuaAudit
