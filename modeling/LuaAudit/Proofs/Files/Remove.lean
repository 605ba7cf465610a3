import LuaAudit.Proofs.Files.Tree

/-!
# Files removed

What stands where after files were removed or directories were made.  Each operation is told by what
it makes of every place.

* `locate_of_thinned`: a path leads where it led, or breaks off, when something is missing;
* `prefix_of_follow`: a way below something leads through it, unless it starts there;
* `remove_cases` and `node?_of_remove`: a file is removed where its path leads, and nowhere else;
* `lost_of_remove`: its path then leads to nothing;
* `goes_iff` and `node?_removeTree`: a directory is removed with everything below it, as far as that
  may be removed;
* `waypoints`: the places that a path passes through, all of which `node?_makeDirs_eq` makes
  directories;
* `Tree.prefix_of_remove`: in a tree a file that is removed stands below the directory of its path.
-/

namespace LuaAudit.Files

open Location (Anchor Path)

variable {fs fs' : Files} {p : Path}

/-! ### Ways -/

theorem resolve_of_alike (h : fs' = { fs with nodes := fs'.nodes }) (p : Path) :
    fs'.resolve p = fs.resolve p := by
  rw [h]
  rfl

theorem resolve_child {name : String} (hname : name ≠ "..") (p : Path) :
    (fs.resolve (p.child name)).parts = (fs.resolve p).parts ++ [name] := by
  have honward : ∀ other ∈ [name], other ≠ ".." := by simpa using hname
  exact resolve_below honward p

/-- Where a path leads depends on the directories only. -/
theorem locate_of_subset (halike : fs' = { fs with nodes := fs'.nodes })
    (h : ∀ q, fs'.node? q = some .directory → fs.node? q = some .directory) {place : Place}
    (hplace : fs'.locate p = .ok place) : fs.locate p = .ok place := by
  have hback : fs = { fs' with nodes := fs.nodes } := by
    rw [halike]
  rw [hback] at h ⊢
  exact locate_of_directories h hplace

/-- Where some of what was there is missing, a path leads where it led, or breaks off. -/
theorem locate_of_thinned (halike : fs' = { fs with nodes := fs'.nodes })
    (h : ∀ q, fs'.node? q = fs.node? q ∨ fs'.node? q = none) (p : Path) :
    fs'.locate p = fs.locate p ∨ fs'.locate p = .error .missing := by
  have hfollow : ∀ place parts, fs'.follow place parts = fs.follow place parts ∨
      fs'.follow place parts = .error .missing := by
    intro place parts
    induction parts generalizing place with
    | nil => exact .inl rfl
    | cons part parts ih =>
      have hpass : fs'.pass place part = fs.pass place part ∨
          fs'.pass place part = .error .missing := by
        unfold pass
        rcases h place with heq | hnone
        · left
          rw [heq]
          rw [halike]
        · rw [hnone]
          exact .inr rfl
      rw [follow, follow]
      rcases hpass with heq | hmissing
      · rw [heq]
        cases fs.pass place part with
        | ok next => exact ih next
        | error fault => exact .inl rfl
      · rw [hmissing]
        exact .inr rfl
  have horigin : fs'.origin p = fs.origin p := by
    rw [halike]
    rfl
  have hlimit : fs'.pathLimit = fs.pathLimit := by rw [halike]
  unfold locate
  rw [horigin, hlimit]
  split
  · exact .inl rfl
  · split
    · exact .inl rfl
    · exact hfollow _ _

/-- A way that comes below what is no directory starts below it. -/
theorem prefix_of_follow {place q front : Place} {parts : List String}
    (hfront : fs.node? front ≠ some .directory) (h : fs.follow place parts = .ok q)
    (hbelow : front <+: q) (hne : q ≠ front) : front <+: place ∧ place ≠ front := by
  induction parts generalizing place with
  | nil =>
    obtain rfl := Except.ok.inj h
    exact ⟨hbelow, hne⟩
  | cons part parts ih =>
    rw [follow_cons_eq_ok_iff] at h
    have hplace : place ≠ front := by
      rintro rfl
      exact hfront (pass_eq_ok_iff.1 h.1).1
    refine ⟨?_, hplace⟩
    obtain ⟨hstep, hstepne⟩ := ih h.2
    rw [step] at hstep hstepne
    split at hstep
    next => exact hstep.trans (List.dropLast_prefix place)
    next hpart =>
      rw [if_neg hpart] at hstepne
      exact (List.prefix_concat_iff.1 hstep).resolve_left (Ne.symm hstepne)

/-! ### One file -/

/-- A path leads to nothing: its way breaks off, or ends where nothing stands. -/
def Lost (fs : Files) (p : Path) : Prop :=
  fs.locate p = .error .missing ∨ ∃ place, fs.locate p = .ok place ∧ fs.node? place = none

/-- A file is removed, if its path leads to anything. -/
theorem remove_cases (h : fs.remove p = .ok fs') :
    (fs.Lost p ∧ fs' = fs) ∨
      ∃ place bytes, fs.locate p = .ok place ∧ fs.node? place = some (.file bytes) ∧
        fs' = { fs with nodes := fs.nodes.erase place } := by
  unfold remove at h
  cases hplace : fs.locate p with
  | error fault =>
    rw [hplace] at h
    cases fault with
    | missing => exact .inl ⟨.inl hplace, (Except.ok.inj h).symm⟩
    | _ => cases h
  | ok place =>
    rw [hplace] at h
    dsimp only at h
    cases hnode : fs.node? place with
    | none =>
      rw [hnode] at h
      exact .inl ⟨.inr ⟨place, hplace, hnode⟩, (Except.ok.inj h).symm⟩
    | some node =>
      rw [hnode] at h
      dsimp only at h
      split at h
      · cases h
      · cases node with
        | directory => cases h
        | file bytes => exact .inr ⟨place, bytes, rfl, hnode, (Except.ok.inj h).symm⟩

theorem alike_of_remove (h : fs.remove p = .ok fs') : fs' = { fs with nodes := fs'.nodes } := by
  obtain ⟨-, rfl⟩ | ⟨place, bytes, -, -, rfl⟩ := remove_cases h <;> rfl

/-- **Removing a file** leaves nothing where its path leads, and everything else as it is. -/
theorem node?_of_remove (h : fs.remove p = .ok fs') (q : Place) :
    fs'.node? q = if fs.locate p = .ok q then none else fs.node? q := by
  obtain ⟨hlost, rfl⟩ | ⟨place, bytes, hplace, hfile, rfl⟩ := remove_cases h
  · split
    next hq =>
      rcases hlost with hmissing | ⟨place, hplace, hnone⟩
      · cases hq.symm.trans hmissing
      · rw [Except.ok.inj (hq.symm.trans hplace), hnone]
    next => rfl
  · have hroot : place ≠ [] := ne_nil_of_node? (by rw [hfile]; exact nofun)
    by_cases hq : q = place
    · rw [if_pos (hq ▸ hplace), hq, node?, if_neg hroot]
      exact OrderedMap.get?_erase_self _ _
    · have hne : ¬ fs.locate p = .ok q := fun hlocate =>
        hq (Except.ok.inj (hlocate.symm.trans hplace))
      rw [if_neg hne, node?, node?, OrderedMap.get?_erase_of_ne _ hq]

/-- Where a file is removed, no directory stands. -/
theorem not_directory_of_remove (h : fs.remove p = .ok fs') {place : Place}
    (hplace : fs.locate p = .ok place) : fs.node? place ≠ some .directory := by
  intro hdirectory
  obtain ⟨hmissing | ⟨place', hplace', hnone⟩, -⟩ | ⟨place', bytes, hplace', hfile, -⟩ :=
    remove_cases h
  · cases hplace.symm.trans hmissing
  · obtain rfl := Except.ok.inj (hplace.symm.trans hplace')
    cases hdirectory.symm.trans hnone
  · obtain rfl := Except.ok.inj (hplace.symm.trans hplace')
    cases hdirectory.symm.trans hfile

/-- Removing a file removes no directory. -/
theorem directory_iff_of_remove (h : fs.remove p = .ok fs') (q : Place) :
    fs'.node? q = some .directory ↔ fs.node? q = some .directory := by
  rw [node?_of_remove h]
  split
  next hplace => exact ⟨nofun, fun hq => absurd hq (not_directory_of_remove h hplace)⟩
  next => exact Iff.rfl

theorem locate_iff_of_remove (h : fs.remove p = .ok fs') {r : Path} {place : Place} :
    fs'.locate r = .ok place ↔ fs.locate r = .ok place := by
  have halike := alike_of_remove h
  refine ⟨locate_of_subset halike fun q => (directory_iff_of_remove h q).1, fun hplace => ?_⟩
  have hkept : ∀ q, fs.node? q = some .directory →
      { fs with nodes := fs'.nodes }.node? q = some .directory := fun q hq =>
    (directory_iff_of_remove h q).2 hq
  rw [halike]
  exact locate_of_directories hkept hplace

/-- A path whose file was removed leads to nothing. -/
theorem lost_of_remove (h : fs.remove p = .ok fs') : fs'.Lost p := by
  obtain ⟨hlost, rfl⟩ | ⟨place, bytes, hplace, -, -⟩ := remove_cases h
  · exact hlost
  · exact .inr ⟨place, (locate_iff_of_remove h).2 hplace, by rw [node?_of_remove h, if_pos hplace]⟩

theorem Lost.not_unaskable (h : fs.Lost p) (e : FileError) : ¬fs.Unaskable p e := by
  rcases h with hmissing | ⟨place, hplace, -⟩
  · exact not_unaskable_of_missing hmissing e
  · exact not_unaskable_of_locate hplace e

theorem Lost.not_isFile (h : fs.Lost p) : fs.isFile p ≠ .ok true := by
  intro hfile
  obtain ⟨place, bytes, hplace, hnode⟩ := isFile_eq_true_iff.1 hfile
  rcases h with hmissing | ⟨place', hplace', hnone⟩
  · cases hplace.symm.trans hmissing
  · rw [Except.ok.inj (hplace.symm.trans hplace'), hnone] at hnode
    cases hnode

theorem isDir_of_remove (h : fs.remove p = .ok fs') (r : Path) :
    fs'.isDir r = .ok true ↔ fs.isDir r = .ok true := by
  rw [isDir_eq_true_iff, isDir_eq_true_iff]
  refine exists_congr fun place => ?_
  rw [locate_iff_of_remove h, directory_iff_of_remove h]

/-! ### A directory with everything in it -/

/-- A removal takes what stands at a place if it may remove everything there and below. -/
theorem goes_iff {top place : Place} (hplace : place ≠ []) : fs.goes top place = true ↔
    top <+: place ∧ ∀ r node, place <+: r → fs.node? r = some node →
      fs.yields top (r, node) = true := by
  rw [goes, Bool.and_eq_true, List.isPrefixOf_iff_prefix, List.all_eq_true]
  refine and_congr_right fun _ => ?_
  have hentry : ∀ {r node}, place <+: r →
      (fs.node? r = some node ↔ (r, node) ∈ fs.nodes.entries) := by
    intro r node hbelow
    have hr : r ≠ [] := by
      rintro rfl
      exact hplace (List.prefix_nil.1 hbelow)
    rw [OrderedMap.mem_entries_iff, node?, if_neg hr]
  constructor
  · intro h r node hbelow hnode
    have hyields := h _ ((hentry hbelow).1 hnode)
    rwa [List.isPrefixOf_iff_prefix.2 hbelow, Bool.not_true, Bool.false_or] at hyields
  · rintro h ⟨r, node⟩ hmem
    by_cases hbelow : place <+: r
    · rw [h r node hbelow ((hentry hbelow).2 hmem), Bool.or_true]
    · rw [show place.isPrefixOf r = false by
        rwa [← Bool.not_eq_true, List.isPrefixOf_iff_prefix]]
      rfl

theorem removeTree_cases (fs : Files) (p : Path) :
    (fs.isDir p ≠ .ok true ∧ fs.removeTree p = fs) ∨
      (fs.isDir p = .ok true ∧ fs.removeTree p =
        { fs with nodes := fs.nodes.filter fun e => !fs.goes (fs.resolve p).parts e.1 }) := by
  by_cases hdir : fs.isDir p = .ok true
  · refine .inr ⟨hdir, ?_⟩
    obtain ⟨place, hplace, hnode⟩ := isDir_eq_true_iff.1 hdir
    rw [removeTree, hplace, ← locate_eq hplace]
    dsimp only
    rw [hnode]
  · refine .inl ⟨hdir, ?_⟩
    unfold removeTree
    split
    next => rfl
    next place hplace =>
      split
      next hnode => exact absurd (isDir_eq_true_iff.2 ⟨place, hplace, hnode⟩) hdir
      next => rfl

theorem alike_removeTree (fs : Files) (p : Path) :
    fs.removeTree p = { fs with nodes := (fs.removeTree p).nodes } := by
  obtain ⟨-, heq⟩ | ⟨-, heq⟩ := fs.removeTree_cases p <;> rw [heq]

/-- **Removing a directory** other than the root leaves nothing of what it may take, and everything
    else as it is. -/
theorem node?_removeTree (h : fs.isDir p = .ok true) (hroot : (fs.resolve p).parts ≠ [])
    (q : Place) :
    (fs.removeTree p).node? q =
      if fs.goes (fs.resolve p).parts q then none else fs.node? q := by
  obtain ⟨hnot, -⟩ | ⟨-, heq⟩ := fs.removeTree_cases p
  · exact absurd h hnot
  rw [heq]
  unfold node?
  rw [OrderedMap.get?_filter fs.nodes fun key => !fs.goes (fs.resolve p).parts key]
  by_cases hq : q = []
  · have hstays : fs.goes (fs.resolve p).parts q = false := by
      rw [hq, goes, ← Bool.not_eq_true, Bool.and_eq_true, List.isPrefixOf_iff_prefix]
      exact fun h => hroot (List.prefix_nil.1 h.1)
    rw [hstays, if_pos hq, if_pos hq]
    rfl
  · cases fs.goes (fs.resolve p).parts q <;> simp [hq]

/-! ### Directories that are made -/

/-- The places that components pass through, the last of them included. -/
def waypoints : Place → List String → List Place
  | _, [] => []
  | place, part :: parts => step place part :: waypoints (step place part) parts

/-- The places that a path passes through. -/
def way (fs : Files) (p : Path) : List Place := waypoints (fs.origin p) p.parts

theorem way_of_alike (h : fs' = { fs with nodes := fs'.nodes }) (p : Path) :
    fs'.way p = fs.way p := by
  rw [h]
  rfl

theorem mem_waypoints_append {place q : Place} {front rel : List String} :
    q ∈ waypoints place (front ++ rel) ↔
      q ∈ waypoints place front ∨ q ∈ waypoints (front.foldl step place) rel := by
  induction front generalizing place with
  | nil => simp [waypoints]
  | cons part front ih => rw [List.cons_append, waypoints, waypoints, List.mem_cons, ih,
      List.mem_cons, or_assoc, List.foldl_cons]

/-- Components pass through the place that they lead to. -/
theorem foldl_step_mem_waypoints {parts : List String} (h : parts ≠ []) (place : Place) :
    parts.foldl step place ∈ waypoints place parts := by
  obtain ⟨front, last, rfl⟩ := (List.eq_nil_or_concat' parts).resolve_left h
  rw [mem_waypoints_append, List.foldl_append]
  exact .inr List.mem_cons_self

/-- Components that go onward pass through no other place than those on the way. -/
theorem prefix_of_mem_waypoints {place q : Place} {parts : List String} (h : ".." ∉ parts)
    (hq : q ∈ waypoints place parts) : q <+: place ++ parts := by
  induction parts generalizing place with
  | nil => cases hq
  | cons part parts ih =>
    rw [List.mem_cons, not_or] at h
    have hstep : step place part = place ++ [part] := if_neg (Ne.symm h.1)
    rw [waypoints, hstep, List.mem_cons] at hq
    rw [← List.singleton_append, ← List.append_assoc]
    rcases hq with rfl | hq
    · exact List.prefix_append _ _
    · exact ih h.2 hq

/-- A way that leads to a directory passes through directories. -/
theorem directory_of_mem_waypoints {place top q : Place} {parts : List String}
    (h : fs.follow place parts = .ok top) (htop : fs.node? top = some .directory)
    (hq : q ∈ waypoints place parts) : fs.node? q = some .directory := by
  induction parts generalizing place with
  | nil => cases hq
  | cons part parts ih =>
    rw [follow_cons_eq_ok_iff] at h
    rw [waypoints, List.mem_cons] at hq
    rcases hq with rfl | hq
    · cases parts with
      | nil =>
        obtain rfl := Except.ok.inj h.2
        exact htop
      | cons next parts => exact (pass_eq_ok_iff.1 (follow_cons_eq_ok_iff.1 h.2).1).1
    · exact ih h.2 hq

theorem directory_of_mem_way (h : fs.isDir p = .ok true) {q : Place} (hq : q ∈ fs.way p) :
    fs.node? q = some .directory := by
  obtain ⟨place, hplace, hdirectory⟩ := isDir_eq_true_iff.1 h
  exact directory_of_mem_waypoints (locate_eq_ok_iff.1 hplace).2.2 hdirectory hq

/-- A directory that is made stands where the path passes through. -/
theorem node?_ensureDir {q : Place} (hq : q ∉ fs.way p) :
    (fs.ensureDir p).1.node? q = fs.node? q := by
  obtain ⟨made, hmade, heq⟩ | ⟨-, heq⟩ | ⟨e, heq⟩ := fs.ensureDir_cases p
  · obtain ⟨place, hplace, -, hparts, -, rfl⟩ := makeDir_eq_ok_iff.1 hmade
    rw [heq, node?_insert_directory, if_neg]
    rintro rfl
    rw [locate_eq hplace] at hq
    exact hq (foldl_step_mem_waypoints hparts _)
  · rw [heq]
  · rw [heq]

theorem node?_makeUp {anchor : Anchor} {parts : List String} {q : Place}
    (hq : q ∉ fs.way ⟨anchor, parts.reverse⟩) :
    (fs.makeUp anchor parts).1.node? q = fs.node? q := by
  induction parts with
  | nil => exact node?_ensureDir hq
  | cons part above ih =>
    have habove : q ∉ fs.way ⟨anchor, above.reverse⟩ := by
      intro hmem
      refine hq ?_
      rw [way, List.reverse_cons]
      exact mem_waypoints_append.2 (.inl hmem)
    obtain heq | ⟨e, -, heq⟩ | ⟨-, heq⟩ := fs.makeUp_cases anchor part above
    · rw [heq]
      exact node?_ensureDir hq
    · rw [heq]
      exact ih habove
    · rw [heq, node?_ensureDir, ih habove]
      rwa [way_of_alike (extended_makeUp fs anchor above).alike]

/-- **Making directories** makes one of every place that the path passes through, and leaves
    everything else as it is. -/
theorem node?_makeDirs_eq (h : fs.makeDirs p = (fs', none)) (q : Place) :
    fs'.node? q = if q ∈ fs.way p then some .directory else fs.node? q := by
  have hextended := extended_makeDirs fs p
  have hkept : q ∉ fs.way p → (fs.makeDirs p).1.node? q = fs.node? q := by
    intro hq
    refine node?_makeUp ?_
    rwa [List.reverse_reverse]
  rw [h] at hextended hkept
  split
  next hq =>
    refine directory_of_mem_way (isDir_of_makeDirs h) ?_
    rwa [way_of_alike hextended.alike]
  next hq => exact hkept hq

/-- What a directory stands in is a directory, if any way leads there. -/
theorem directory_of_follow {name : String} (hdir : fs.isDir (p.child name) = .ok true)
    {r : Path} {parts : List String}
    (hfollow : fs.follow (fs.origin r) parts = .ok ((fs.resolve p).parts ++ [name])) :
    fs.node? (fs.resolve p).parts = some .directory := by
  by_cases hparts : p.parts = []
  · -- ways start at the root or at this place, so that one that comes below it leads through it
    have hplace : (fs.resolve p).parts = fs.origin p := by
      show p.parts.foldl step (fs.origin p) = _
      rw [hparts, List.foldl_nil]
    by_contra hnot
    have hroot := ne_nil_of_node? hnot
    obtain ⟨hstart, hne⟩ := prefix_of_follow hnot hfollow (List.prefix_append _ _) (by simp)
    rw [hplace] at hroot hstart hne
    by_cases hp : p.isAbsolute = true
    · exact hroot (if_pos hp)
    · have hstarts : fs.origin p = fs.cwd := if_neg hp
      rw [hstarts] at hroot hstart hne
      rw [origin] at hstart
      split at hstart
      next => exact hroot (List.prefix_nil.1 hstart)
      next hr => exact hne (if_neg hr)
  · refine directory_of_mem_way hdir ?_
    exact mem_waypoints_append.2 (.inl (foldl_step_mem_waypoints hparts _))

/-! ### In a tree -/

/-- A path leads below the place of its directory, or back from it. -/
theorem prefix_or_back_of_locate {place : Place} (h : fs.locate p = .ok place) :
    (fs.resolve p.parent).parts <+: place ∨
      fs.follow (fs.origin p) p.parent.parts = .ok (fs.resolve p.parent).parts ∧
        fs.node? (fs.resolve p.parent).parts = some .directory ∧
        place = (fs.resolve p.parent).parts.dropLast := by
  have hfollow := (locate_eq_ok_iff.1 h).2.2
  show p.parts.dropLast.foldl step (fs.origin p) <+: place ∨
    fs.follow (fs.origin p) p.parts.dropLast = .ok (p.parts.dropLast.foldl step (fs.origin p)) ∧
      fs.node? (p.parts.dropLast.foldl step (fs.origin p)) = some .directory ∧
      place = (p.parts.dropLast.foldl step (fs.origin p)).dropLast
  rcases List.eq_nil_or_concat' p.parts with hnil | ⟨front, last, hparts⟩
  · rw [hnil] at hfollow ⊢
    exact .inl (Except.ok.inj hfollow ▸ List.prefix_rfl)
  · rw [hparts] at hfollow ⊢
    obtain ⟨mid, hfront, hlast⟩ := exists_of_follow_append hfollow
    rw [List.dropLast_concat, ← follow_eq hfront]
    rw [follow_cons_eq_ok_iff] at hlast
    obtain rfl := Except.ok.inj hlast.2
    rw [step]
    split
    next => exact .inr ⟨hfront, (pass_eq_ok_iff.1 hlast.1).1, rfl⟩
    next => exact .inl (List.prefix_append _ _)

namespace Tree

variable (h : fs.Tree)
include h

/-- What a directory stands in is a directory. -/
theorem directory_dropLast {place : Place} (hplace : fs.node? place = some .directory) :
    fs.node? place.dropLast = some .directory := by
  by_cases hroot : place = []
  · rw [hroot]
    rfl
  · exact h.standing place (mem_keys_of_node? hplace hroot)

/-- A file that is removed stands below the place of the directory of its path. -/
theorem prefix_of_remove (hremove : fs.remove p = .ok fs') {place : Place}
    (hplace : fs.locate p = .ok place) : (fs.resolve p.parent).parts <+: place := by
  rcases prefix_or_back_of_locate hplace with hbelow | ⟨-, hdirectory, rfl⟩
  · exact hbelow
  · exact absurd (h.directory_dropLast hdirectory) (not_directory_of_remove hremove hplace)

/-- A way to something that stands in the tree leads there if it does among any other files under
    the same rules. -/
theorem follow_of_alike (halike : fs' = { fs with nodes := fs'.nodes }) {place q : Place}
    {rel : List String} (hmem : rel = [] ∨ place ++ rel ∈ fs.nodes.keys)
    (hfollow : fs'.follow place rel = .ok q) : fs.follow place rel = .ok q := by
  induction rel generalizing place with
  | nil => exact hfollow
  | cons name rel ih =>
    replace hmem : place ++ name :: rel ∈ fs.nodes.keys := by simpa using hmem
    have hname : name ≠ ".." := (h.onward _ hmem name (by simp)).1
    rw [follow_cons_eq_ok_iff] at hfollow ⊢
    obtain ⟨-, hopen, hshort, -⟩ := pass_eq_ok_iff.1 hfollow.1
    rw [halike] at hopen hshort
    have hdirectory := h.directory_of_append (List.cons_ne_nil _ _) hmem
    refine ⟨pass_eq_ok_iff.2 ⟨hdirectory, hopen, hshort, rfl⟩, ih (.inr ?_) hfollow.2⟩
    rwa [step, if_neg hname, List.append_assoc, List.singleton_append]

/-- A path that goes onward leads to the directory below which something stands, if it leads to a
    directory among any other files under the same rules. -/
theorem isDir_of_mem (halike : fs' = { fs with nodes := fs'.nodes }) (hdir : fs'.isDir p = .ok true)
    {q : Place} (honward : ".." ∉ p.parts) (hbelow : (fs.resolve p).parts <+: q)
    (hne : q ≠ (fs.resolve p).parts) (hmem : q ∈ fs.nodes.keys) : fs.isDir p = .ok true := by
  have hresolve : (fs.resolve p).parts = fs.origin p ++ p.parts :=
    foldl_step (fun name hname heq => honward (heq ▸ hname)) _
  obtain ⟨rel, rfl⟩ := hbelow
  have hdirectory := h.directory_of_append (by rintro rfl; simp at hne) hmem
  obtain ⟨place, hplace, -⟩ := isDir_eq_true_iff.1 hdir
  obtain ⟨hclean, hshort, hfollow⟩ := locate_eq_ok_iff.1 hplace
  rw [halike] at hshort
  have horigin : fs'.origin p = fs.origin p := by
    rw [halike]
    rfl
  rw [horigin] at hfollow
  have hway : fs.follow (fs.origin p) p.parts = .ok place := by
    refine h.follow_of_alike halike ?_ hfollow
    by_cases hparts : p.parts = []
    · exact .inl hparts
    · exact .inr (mem_keys_of_node? (hresolve ▸ hdirectory) (by simp [hparts]))
  have hfound : fs.locate p = .ok place := locate_eq_ok_iff.2 ⟨hclean, hshort, hway⟩
  exact isDir_eq_true_iff.2 ⟨place, hfound, by rwa [locate_eq hfound]⟩

end Tree

end LuaAudit.Files
