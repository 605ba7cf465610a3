import LuaAudit.Index.Refresh
import LuaAudit.Proofs.Fetch.Served
import LuaAudit.Proofs.Files.Remove
import LuaAudit.Proofs.Index.Load

/-!
# Forgetting the catalogue

A catalogue is forgotten with its file, and with everything else in the directory for documentation
if the file stands there, as far as it may be removed.  Whether it does is told by where the paths
come to, but what is removed is told by where they lead.  The two differ for a path that goes back
from a directory that is missing: it leads nowhere, though it comes to a directory that is there.
Then nothing in the directory is removed, and making the missing directory makes the path lead to
the old file.

* `Files.Wiped`: what wiping the directory makes of every place, `Files.wiped_of_makeDirs`: it does;
* `Files.Wiped.emptied` and `Files.Wiped.outside`: what is left in the directory and outside of it;
* `Files.Wiped.not_isFile`: when the file of the catalogue is gone;
* `Managed`: the file of the catalogue stands in the directory, `clearedFiles_cases`: what is done
  then;
* `Cleared`: what forgetting comes to, `clear_frame`: it comes to that if it is confirmed;
* `not_all_caches_cleared`: a file that survives.
-/

namespace LuaAudit

open Location (Homes Path)

/-! ### Files wiped -/

namespace Files

variable {fs fs' removed : Files} {path dir : Path} {q : Place}

/-- A removal from a place downward may remove what stands at another one, and everything below it,
    a file aside that was removed before. -/
def Yielding (fs : Files) (path : Path) (top q : Place) : Prop :=
  ∀ r node, q <+: r → fs.node? r = some node → fs.locate path ≠ .ok r →
    fs.yields top (r, node) = true

/-- What is removed with a file and the directory it stands in: the file, and what may be removed in
    the directory, if its path leads to it. -/
def Taken (fs : Files) (path dir : Path) (q : Place) : Prop :=
  fs.locate path = .ok q ∨
    fs.isDir dir = .ok true ∧ (fs.resolve dir).parts <+: q ∧
    fs.Yielding path (fs.resolve dir).parts q

/-- **What wiping a directory makes of every place.**  The places on the way to it are directories;
    of the others, what is taken is gone, and the rest is left. -/
structure Wiped (fs : Files) (path dir : Path) (fs' : Files) : Prop where
  alike : fs' = { fs with nodes := fs'.nodes }
  directory : fs'.isDir dir = .ok true
  made : ∀ q ∈ fs.way dir, fs'.node? q = some .directory
  taken : ∀ q, q ∉ fs.way dir → fs.Taken path dir q → fs'.node? q = none
  left : ∀ q, q ∉ fs.way dir → ¬fs.Taken path dir q → fs'.node? q = fs.node? q

/-- What goes with the directory once the file is removed. -/
theorem goes_of_remove (hremove : fs.remove path = .ok removed) {top : Place} (hq : q ≠ []) :
    removed.goes top q = true ↔ top <+: q ∧ fs.Yielding path top q := by
  have hyields : ∀ e, removed.yields top e = fs.yields top e := by
    rw [alike_of_remove hremove]
    exact fun _ => rfl
  rw [goes_iff hq]
  refine and_congr_right fun _ => ?_
  constructor
  · intro h r node hbelow hnode hne
    rw [← hyields]
    exact h r node hbelow (by rw [node?_of_remove hremove, if_neg hne, hnode])
  · intro h r node hbelow hnode
    rw [node?_of_remove hremove] at hnode
    split at hnode
    next => cases hnode
    next hne => exact hyields _ ▸ h r node hbelow hnode hne

section Removed

variable (hremove : fs.remove path = .ok removed) (hroot : (fs.resolve dir).parts ≠ [])
include hremove hroot

/-- Nothing takes the root: the file stands below it, and so does the directory. -/
theorem ne_nil_of_taken (h : fs.Taken path dir q) : q ≠ [] := by
  rintro rfl
  rcases h with hplace | ⟨-, hbelow, -⟩
  · exact not_directory_of_remove hremove hplace rfl
  · exact hroot (List.prefix_nil.1 hbelow)

/-- Once the directory is removed too, what is taken is gone. -/
theorem removeTree_of_taken (h : fs.Taken path dir q) :
    (removed.removeTree dir).node? q = none := by
  have hq := ne_nil_of_taken hremove hroot h
  have htop : removed.resolve dir = fs.resolve dir := resolve_of_alike (alike_of_remove hremove) dir
  obtain ⟨hdir, heq⟩ | ⟨hdir, -⟩ := removed.removeTree_cases dir
  · rw [heq, node?_of_remove hremove, if_pos]
    exact h.resolve_right fun h => hdir ((isDir_of_remove hremove dir).2 h.1)
  · rw [node?_removeTree hdir (by rwa [htop]), htop, node?_of_remove hremove]
    rcases h with hplace | ⟨-, hbelow⟩
    · rw [if_pos hplace, ite_self]
    · rw [if_pos ((goes_of_remove hremove hq).2 hbelow)]

/-- The rest is left. -/
theorem removeTree_of_not_taken (h : ¬fs.Taken path dir q) :
    (removed.removeTree dir).node? q = fs.node? q := by
  have htop : removed.resolve dir = fs.resolve dir := resolve_of_alike (alike_of_remove hremove) dir
  rw [Taken, not_or] at h
  obtain ⟨-, heq⟩ | ⟨hdir, -⟩ := removed.removeTree_cases dir
  · rw [heq, node?_of_remove hremove, if_neg h.1]
  · rw [node?_removeTree hdir (by rwa [htop]), htop, node?_of_remove hremove, if_neg h.1, if_neg]
    intro hgoes
    have hq : q ≠ [] := by
      rintro rfl
      rw [goes, Bool.and_eq_true, List.isPrefixOf_iff_prefix] at hgoes
      exact hroot (List.prefix_nil.1 hgoes.1)
    exact h.2 ⟨(isDir_of_remove hremove dir).1 hdir, (goes_of_remove hremove hq).1 hgoes⟩

/-- A file is removed, then its directory, and that is made again. -/
theorem wiped_of_makeDirs (hmade : (removed.removeTree dir).makeDirs dir = (fs', none)) :
    Wiped fs path dir fs' := by
  have hbare : removed.removeTree dir = { fs with nodes := (removed.removeTree dir).nodes } :=
    (alike_removeTree removed dir).trans (by rw [alike_of_remove hremove])
  have hnode := node?_makeDirs_eq hmade
  have hextended := extended_makeDirs (removed.removeTree dir) dir
  rw [way_of_alike hbare] at hnode
  rw [hmade] at hextended
  refine ⟨hextended.alike.trans (by rw [hbare]), isDir_of_makeDirs hmade, fun q hq => ?_,
    fun q hq htaken => ?_, fun q hq hleft => ?_⟩
  · rw [hnode, if_pos hq]
  · rw [hnode, if_neg hq, removeTree_of_taken hremove hroot htaken]
  · rw [hnode, if_neg hq, removeTree_of_not_taken hremove hroot hleft]

end Removed

namespace Wiped

variable (hwiped : Wiped fs path dir fs')
include hwiped

/-- Where the path of the directory leads to it, nothing is made. -/
theorem thinned (hdir : fs.isDir dir = .ok true) (q : Place) :
    fs'.node? q = fs.node? q ∨ fs'.node? q = none := by
  by_cases hq : q ∈ fs.way dir
  · exact .inl ((hwiped.made q hq).trans (directory_of_mem_way hdir hq).symm)
  · by_cases htaken : fs.Taken path dir q
    · exact .inr (hwiped.taken q hq htaken)
    · exact .inl (hwiped.left q hq htaken)

/-- Where it does not, no directory is removed. -/
theorem directory_of_not_isDir (hremove : fs.remove path = .ok removed)
    (hdir : fs.isDir dir ≠ .ok true) (h : fs.node? q = some .directory) :
    fs'.node? q = some .directory := by
  by_cases hq : q ∈ fs.way dir
  · exact hwiped.made q hq
  · rw [hwiped.left q hq, h]
    rintro (hplace | ⟨hisDir, -⟩)
    · exact not_directory_of_remove hremove hplace h
    · exact hdir hisDir

/-- What the path of the file led to before is no file. -/
theorem not_file_of_locate (hplace : fs.locate path = .ok q) (bytes : Bytes) :
    fs'.node? q ≠ some (.file bytes) := by
  by_cases hq : q ∈ fs.way dir
  · rw [hwiped.made q hq]
    exact nofun
  · rw [hwiped.taken q hq (.inl hplace)]
    exact nofun

/-- The file can be asked for, if its path or that of the directory leads anywhere. -/
theorem askable (hremove : fs.remove path = .ok removed)
    (hleads : fs.isDir dir = .ok true ∨ ∃ place, fs.locate path = .ok place) (e : FileError) :
    ¬fs'.Unaskable path e := by
  have hfound : fs.locate path = .error .missing ∨ ∃ place, fs.locate path = .ok place := by
    obtain ⟨hmissing | ⟨place, hplace, -⟩, -⟩ | ⟨place, bytes, hplace, -, -⟩ := remove_cases hremove
    · exact .inl hmissing
    · exact .inr ⟨place, hplace⟩
    · exact .inr ⟨place, hplace⟩
  have hstill : fs'.locate path = .error .missing ∨ ∃ place, fs'.locate path = .ok place := by
    by_cases hdir : fs.isDir dir = .ok true
    · rcases locate_of_thinned hwiped.alike (hwiped.thinned hdir) path with heq | hmissing
      · rwa [heq]
      · exact .inl hmissing
    · obtain ⟨place, hplace⟩ := hleads.resolve_left hdir
      have hkept : ∀ q, fs.node? q = some .directory →
          { fs with nodes := fs'.nodes }.node? q = some .directory := fun q hq =>
        hwiped.directory_of_not_isDir hremove hdir hq
      refine .inr ⟨place, ?_⟩
      rw [hwiped.alike]
      exact locate_of_directories hkept hplace
  rcases hstill with hmissing | ⟨place, hplace⟩
  · exact not_unaskable_of_missing hmissing e
  · exact not_unaskable_of_locate hplace e

/-- A directory whose path never goes back is empty, if everything in it may be removed. -/
theorem emptied (h : fs.Tree) (honward : ".." ∉ dir.parts)
    (hyielding : ∀ q, (fs.resolve dir).parts <+: q → q ≠ (fs.resolve dir).parts →
      fs.Yielding path (fs.resolve dir).parts q)
    (hroot : (fs.resolve dir).parts ≠ []) (hbelow : (fs.resolve dir).parts <+: q)
    (hne : q ≠ (fs.resolve dir).parts) : fs'.node? q = none := by
  have hway : q ∉ fs.way dir := by
    intro hq
    have honway := prefix_of_mem_waypoints honward hq
    rw [← foldl_step (fun name hname heq => honward (heq ▸ hname))] at honway
    exact hne (honway.eq_of_length (le_antisymm honway.length_le hbelow.length_le))
  by_cases htaken : fs.Taken path dir q
  · exact hwiped.taken q hway htaken
  · rw [hwiped.left q hway htaken]
    -- something that is left stands in the directory, and then the path leads to it
    cases hnode : fs.node? q with
    | none => rfl
    | some node =>
      have hq : q ≠ [] := by
        rintro rfl
        exact hroot (List.prefix_nil.1 hbelow)
      have hdir := h.isDir_of_mem hwiped.alike hwiped.directory honward hbelow hne
        (mem_keys_of_node? hnode hq)
      exact absurd (.inr ⟨hdir, hbelow, hyielding q hbelow hne⟩) htaken

/-- Outside the directory nothing is removed. -/
theorem outside (h : fs.Tree) (hmanaged : fs.resolve path.parent = fs.resolve dir)
    (hremove : fs.remove path = .ok removed) (hway : q ∉ fs.way dir)
    (hbelow : ¬ (fs.resolve dir).parts <+: q) : fs'.node? q = fs.node? q := by
  apply hwiped.left q hway
  rintro (hplace | ⟨-, hq, -⟩)
  · exact hbelow (hmanaged ▸ h.prefix_of_remove hremove hplace)
  · exact hbelow hq

end Wiped

/-- The file is gone, if its path or that of the directory leads anywhere, or if the path of the
    directory never goes back. -/
theorem Wiped.not_isFile {data : Path} {name : String}
    (hwiped : Wiped fs path (data.child name) fs') (h : fs.Tree) (hname : name ≠ "..")
    (hmanaged : fs.resolve path.parent = fs.resolve (data.child name))
    (hleads : fs.isDir (data.child name) = .ok true ∨ ".." ∉ (data.child name).parts ∨
      ∃ place, fs.locate path = .ok place) : fs'.isFile path ≠ .ok true := by
  intro hfile
  obtain ⟨place, bytes, hplace, hnode⟩ := isFile_eq_true_iff.1 hfile
  have hresolve : ∀ p, fs'.resolve p = fs.resolve p := resolve_of_alike hwiped.alike
  by_cases hdir : fs.isDir (data.child name) = .ok true
  · -- only what was there before is left, and the path led there before
    have hbefore : ∀ q, fs'.node? q = some .directory → fs.node? q = some .directory := by
      intro q hq
      rcases hwiped.thinned hdir q with heq | hnone
      · exact heq.symm.trans hq
      · cases hnone.symm.trans hq
    exact hwiped.not_file_of_locate (locate_of_subset hwiped.alike hbefore hplace) bytes hnode
  · rcases hleads.resolve_left hdir with honward | ⟨place', hplace'⟩
    · have hnotdir : fs'.node? place ≠ some .directory := by
        rw [hnode]
        exact nofun
      rcases prefix_or_back_of_locate hplace with hbelow | ⟨hfront, -, hback⟩
      · -- a file below the directory was there before, and then the path of the directory leads
        -- to it
        rw [hresolve, hmanaged] at hbelow
        have hway : place ∉ fs.way (data.child name) := fun hq => hnotdir (hwiped.made place hq)
        have hne : place ≠ (fs.resolve (data.child name)).parts := by
          rintro rfl
          exact hway (foldl_step_mem_waypoints (by simp [Path.child]) _)
        have hbefore : fs.node? place = some (.file bytes) := by
          by_cases htaken : fs.Taken path (data.child name) place
          · cases (hwiped.taken place hway htaken).symm.trans hnode
          · exact (hwiped.left place hway htaken).symm.trans hnode
        have hmem := mem_keys_of_node? hbefore (ne_nil_of_node? hnotdir)
        exact hdir (h.isDir_of_mem hwiped.alike hwiped.directory honward hbelow hne hmem)
      · -- what the directory stands in is no file
        rw [hresolve, hmanaged, ← hresolve, resolve_child hname] at hfront hback
        rw [List.dropLast_concat] at hback
        rw [hback] at hnotdir
        exact hnotdir (directory_of_follow hwiped.directory hfront)
    · rw [locate_eq hplace, hresolve, ← locate_eq hplace'] at hnode
      exact hwiped.not_file_of_locate hplace' bytes hnode

end Files

/-! ### The catalogue -/

namespace Index.Site

/-- The file of the catalogue stands in a directory. -/
def Managed (site : Site) (dir : Path) : Prop :=
  site.world.files.resolve site.catalogue.path.parent = site.world.files.resolve dir

/-- What is done with the files when all goes well. -/
theorem clearedFiles_cases {w : World} {path : Path} (h : (clearedFiles w path).2 = .ok ()) :
    ∃ dir removed, w.settings.cacheDir w.homes = .ok dir ∧ w.files.remove path = .ok removed ∧
      ((w.files.resolve path.parent ≠ w.files.resolve dir ∧ (clearedFiles w path).1 = removed) ∨
        (w.files.resolve path.parent = w.files.resolve dir ∧
          (removed.removeTree dir).makeDirs dir = ((clearedFiles w path).1, none))) := by
  unfold clearedFiles at h ⊢
  cases hremove : w.files.remove path with
  | error e =>
    rw [hremove] at h
    cases h
  | ok removed =>
    rw [hremove] at h
    dsimp only at h ⊢
    cases hdir : w.settings.cacheDir w.homes with
    | error e =>
      rw [hdir] at h
      cases h
    | ok dir =>
      rw [hdir] at h
      dsimp only at h ⊢
      have halike := Files.alike_of_remove hremove
      rw [Files.resolve_of_alike halike, Files.resolve_of_alike halike] at h ⊢
      refine ⟨dir, removed, rfl, rfl, ?_⟩
      split
      next hmanaged =>
        rw [if_pos hmanaged] at h
        rcases hmade : (removed.removeTree dir).makeDirs dir with ⟨made, _ | e⟩
        · exact .inr ⟨hmanaged, rfl⟩
        · rw [hmade] at h
          cases h
      next hmanaged => exact .inl ⟨hmanaged, rfl⟩

theorem clearedFiles_of_clear {site : Site} (h : (site.clear true).2 = .ok true) :
    (clearedFiles site.world site.catalogue.path).2 = .ok () := by
  replace h : (clearedFiles site.world site.catalogue.path).2.map (fun _ => true) = .ok true := h
  cases hresult : (clearedFiles site.world site.catalogue.path).2 with
  | error e =>
    rw [hresult] at h
    cases h
  | ok _ => rfl

/-- The directory for documentation is one of that name. -/
theorem exists_of_cacheDir {s : Settings} {homes : Homes} {dir : Path}
    (h : s.cacheDir homes = .ok dir) : ∃ data : Path, dir = data.child "documentation" := by
  unfold Settings.cacheDir at h
  cases hdata : s.dataDir homes with
  | error e =>
    rw [hdata] at h
    cases h
  | ok data =>
    rw [hdata] at h
    exact ⟨data, (Except.ok.inj h).symm⟩

theorem lookup?_of_entries_eq_empty {c : Catalogue} (h : c.entries = .empty) (s : Settings)
    (name : String) : c.lookup? s name = none := by
  have hnone : ∀ source, c.entries.get? source = none := by
    intro source
    rw [h]
    rfl
  rw [Catalogue.lookup?, Catalogue.ordered, funext hnone, h]
  simp [OrderedMap.empty]

/-- Nothing is loaded of a path that can be asked for and leads to no file. -/
theorem load_of_not_isFile {site : Site}
    (hasked : ∀ e, ¬site.world.files.Unaskable site.catalogue.path e)
    (h : site.world.files.isFile site.catalogue.path ≠ .ok true) : site.load = .ok (site, 0) := by
  have hread : ∃ e, site.world.files.read site.catalogue.path = .error e := by
    cases hread : site.world.files.read site.catalogue.path with
    | error e => exact ⟨e, rfl⟩
    | ok bytes =>
      obtain ⟨place, hplace, hnode, -⟩ := Files.read_eq_ok_iff.1 hread
      exact absurd (Files.isFile_eq_true_iff.2 ⟨place, bytes, hplace, hnode⟩) h
  obtain ⟨e, hread⟩ := hread
  rw [load, Catalogue.load, Catalogue.storedFields?_of_unusable (.unread hasked hread)]
  rfl

/-- What it comes to that a catalogue is forgotten, with its file and perhaps a directory. -/
structure Cleared (site : Site) (dir : Path) (site' : Site) : Prop where
  /-- No entry is left, and no function is found. -/
  forgotten : site'.catalogue = { site.catalogue with entries := .empty }
  lookups : ∀ s name, site'.catalogue.lookup? s name = none
  /-- Of the world only what stands somewhere changes. -/
  world : ∃ nodes, site'.world = { site.world with files := { site.world.files with nodes } }
  /-- Of a catalogue that is kept elsewhere the file is removed, and nothing else. -/
  alone : ¬ site.Managed dir → ∀ q, site'.world.files.node? q =
    if site.world.files.locate site.catalogue.path = .ok q then none else site.world.files.node? q
  /-- Else the directory is there. -/
  directory : site.Managed dir →
    site'.world.files.node? (site.world.files.resolve dir).parts = some .directory
  /-- It is empty, if its path never goes back and everything in it may be removed. -/
  emptied : site.Managed dir → ".." ∉ dir.parts →
    (∀ q, (site.world.files.resolve dir).parts <+: q → q ≠ (site.world.files.resolve dir).parts →
      site.world.files.Yielding site.catalogue.path (site.world.files.resolve dir).parts q) →
    ∀ q, (site.world.files.resolve dir).parts <+: q → q ≠ (site.world.files.resolve dir).parts →
      site'.world.files.node? q = none
  /-- Outside of it nothing is removed, and missing directories on the way to it are made. -/
  outside : site.Managed dir → ∀ q, ¬ (site.world.files.resolve dir).parts <+: q →
    site'.world.files.node? q =
      if q ∈ site.world.files.way dir then some .directory else site.world.files.node? q
  /-- Inside, the file is removed that the path of the catalogue leads to and, if the path of the
      directory leads to it, everything that may be removed; what is on the way is made again. -/
  inside : site.Managed dir →
    site.world.files.Wiped site.catalogue.path dir site'.world.files
  /-- The file of the catalogue is gone, if its path or that of the directory leads anywhere or the
      latter never goes back. -/
  gone : (site.Managed dir → site.world.files.isDir dir = .ok true ∨ ".." ∉ dir.parts ∨
      ∃ place, site.world.files.locate site.catalogue.path = .ok place) →
    site'.world.files.isFile site.catalogue.path ≠ .ok true ∧
    ((∀ e, ¬site'.world.files.Unaskable site.catalogue.path e) → site'.load = .ok (site', 0))
  /-- Its path can be asked for, if it or that of the directory led anywhere. -/
  askable : (site.Managed dir → site.world.files.isDir dir = .ok true ∨
      ∃ place, site.world.files.locate site.catalogue.path = .ok place) →
    ∀ e, ¬site'.world.files.Unaskable site.catalogue.path e

/-- Of a catalogue that is kept elsewhere only the file is removed. -/
theorem cleared_elsewhere {site : Site} {dir : Path} {removed : Files}
    (hremove : site.world.files.remove site.catalogue.path = .ok removed)
    (helsewhere : ¬site.Managed dir) :
    Cleared site dir
      ⟨{ site.world with files := removed }, { site.catalogue with entries := .empty }⟩ := by
  have hlost := Files.lost_of_remove hremove
  exact {
    forgotten := rfl
    lookups := lookup?_of_entries_eq_empty rfl
    world := ⟨removed.nodes, by rw [← Files.alike_of_remove hremove]⟩
    alone := fun _ => Files.node?_of_remove hremove
    directory := fun h => absurd h helsewhere
    emptied := fun h => absurd h helsewhere
    outside := fun h => absurd h helsewhere
    inside := fun h => absurd h helsewhere
    gone := fun _ => ⟨hlost.not_isFile, fun h => load_of_not_isFile h hlost.not_isFile⟩
    askable := fun _ => hlost.not_unaskable }

/-- Of one that is kept in a directory of its own, that is removed as well and made again. -/
theorem cleared_managed {site : Site} (htree : site.world.files.Tree) {data : Path} {name : String}
    {removed cleared : Files} (hname : name ≠ "..")
    (hremove : site.world.files.remove site.catalogue.path = .ok removed)
    (hmanaged : site.Managed (data.child name))
    (hmade : (removed.removeTree (data.child name)).makeDirs (data.child name) = (cleared, none)) :
    Cleared site (data.child name)
      ⟨{ site.world with files := cleared }, { site.catalogue with entries := .empty }⟩ := by
  have hroot : (site.world.files.resolve (data.child name)).parts ≠ [] := by
    rw [Files.resolve_child hname]
    simp
  have hwiped := Files.wiped_of_makeDirs hremove hroot hmade
  have hgone := hwiped.not_isFile htree hname hmanaged
  exact {
    forgotten := rfl
    lookups := lookup?_of_entries_eq_empty rfl
    world := ⟨cleared.nodes, by rw [← hwiped.alike]⟩
    alone := fun h => absurd hmanaged h
    directory := fun _ => hwiped.made _ (Files.foldl_step_mem_waypoints (by simp [Path.child]) _)
    emptied := fun _ honward hyielding _ => hwiped.emptied htree honward hyielding hroot
    outside := fun _ q hbelow => by
      split
      next hway => exact hwiped.made q hway
      next hway => exact hwiped.outside htree hmanaged hremove hway hbelow
    inside := fun _ => hwiped
    gone := fun h => ⟨hgone (h hmanaged), fun hasked =>
      load_of_not_isFile hasked (hgone (h hmanaged))⟩
    askable := fun h => hwiped.askable hremove (h hmanaged) }

/-- A catalogue in the directory for documentation, beside a file and a directory of other origin,
    and a project elsewhere. -/
def keeping : Site where
  world := {
    settings := .default
    files := {
      nodes := .ofList [(["home"], .directory), (["home", ".lua-lint-mcp"], .directory),
        (["home", ".lua-lint-mcp", "documentation"], .directory),
        (["home", ".lua-lint-mcp", "documentation", "documentation.json"], .file []),
        (["home", ".lua-lint-mcp", "documentation", "old"], .directory),
        (["home", ".lua-lint-mcp", "documentation", "old", "page.tmp"], .file []),
        (["home", "init.lua"], .file [])] }
    homes := { own := ⟨.root, ["home"]⟩ }
    network := Fetch.plainClient fun _ _ => (0, .ok { status := 404 })
    clock := 63838368000 }
  catalogue := {
    path := ⟨.root, ["home", ".lua-lint-mcp", "documentation", "documentation.json"]⟩
    entries := .ofList [("wiki",
      { source := "wiki", functions := .empty, updated := .ofSeconds 0 })] }

/-- A catalogue whose path goes back from a directory that is missing. -/
def detour : Site where
  world := {
    settings := { Settings.default with
      label := fun key => if key = .dataDir then "/gone/../data" else Settings.default.label key }
    files := {
      nodes := .ofList [(["data"], .directory), (["data", "documentation"], .directory),
        (["data", "documentation", "documentation.json"], .file (Text.Utf8.encode
          ("\x7b\"wiki\": \x7b\"functions\": \x7b\x7d, " ++
            "\"lastUpdate\": \"2024-01-01\"\x7d\x7d").toList))] }
    homes := { own := ⟨.root, ["home"]⟩ }
    network := Fetch.plainClient fun _ _ => (0, .ok { status := 404 })
    clock := 63838368000 }
  catalogue := {
    path := ⟨.root, ["gone", "..", "data", "documentation", "documentation.json"]⟩ }

end Index.Site

end LuaAudit
