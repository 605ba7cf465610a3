import LuaAudit.Files.Basic
import LuaAudit.Proofs.OrderedMap

/-!
# Files written and read back

* `Unaskable`: a path that cannot be asked for, as `stat_eq_error_iff` says;
* `get?_of_read`: a file that can be read stands where its path comes to;
* `locate_of_directories`: a way stays a way as long as its directories stay;
* `write_eq_ok_iff`: what it takes to write a file, and what it does;
* `read_withFile`: it is read where it was put, unless reading is refused;
* `read_of_write`: where any file can be written and read, every file is read back;
* `Extended`: files with some directories more, which is all that `extended_makeDirs` makes;
* `isDir_of_makeDirs`: a directory that was made is there, and `makeDirs_of_isDir`: one that is
  there need not be made, `makeDirs_makeDirs`: what cannot be made, cannot be made the next time
  either;
* `write_withFile`: a file that is written again stays as it is.
-/

namespace LuaAudit.Files

open Location (Anchor Path)

variable {fs fs' : Files} {p : Path}

/-! ### Ways -/

/-- What it takes to go one component further. -/
theorem pass_eq_ok_iff {place next : Place} {part : String} : fs.pass place part = .ok next ↔
    fs.node? place = some .directory ∧ fs.closed.contains place = false ∧
      part.utf8ByteSize ≤ fs.nameLimit ∧ next = step place part := by
  unfold pass
  cases fs.node? place with
  | none => simp
  | some node =>
    cases node with
    | file bytes => simp
    | directory =>
      cases hclosed : fs.closed.contains place with
      | true => simp
      | false =>
        by_cases hlong : fs.nameLimit < part.utf8ByteSize
        · simp [hlong, Nat.not_le.2 hlong]
        · simp [hlong, eq_comm, Nat.not_lt.1 hlong]

/-- A way of one component more. -/
theorem follow_cons_eq_ok_iff {place q : Place} {part : String} {parts : List String} :
    fs.follow place (part :: parts) = .ok q ↔
      fs.pass place part = .ok (step place part) ∧ fs.follow (step place part) parts = .ok q := by
  rw [follow]
  cases hpass : fs.pass place part with
  | error fault => simp
  | ok next =>
    obtain rfl := (pass_eq_ok_iff.1 hpass).2.2.2
    simp

/-- A way that leads somewhere leads where its steps lead. -/
theorem follow_eq {place place' : Place} {parts : List String}
    (h : fs.follow place parts = .ok place') : place' = parts.foldl step place := by
  induction parts generalizing place with
  | nil => exact (Except.ok.inj h).symm
  | cons part parts ih => exact ih (follow_cons_eq_ok_iff.1 h).2

/-- A way in two parts. -/
theorem follow_append (fs : Files) (place : Place) (front rel : List String) :
    fs.follow place (front ++ rel) = (fs.follow place front).bind (fs.follow · rel) := by
  induction front generalizing place with
  | nil => rfl
  | cons part front ih =>
    rw [List.cons_append, follow, follow]
    cases fs.pass place part with
    | ok next => exact ih next
    | error fault => rfl

/-- A way that leads on, leads on from where it led. -/
theorem exists_of_follow_append {place q : Place} {front rel : List String}
    (h : fs.follow place (front ++ rel) = .ok q) :
    ∃ mid, fs.follow place front = .ok mid ∧ fs.follow mid rel = .ok q := by
  rw [follow_append] at h
  cases hfront : fs.follow place front with
  | error fault =>
    rw [hfront] at h
    cases h
  | ok mid =>
    rw [hfront] at h
    exact ⟨mid, rfl, h⟩

/-- A path leads somewhere if it can be written and its components lead there. -/
theorem locate_eq_ok_iff {place : Place} : fs.locate p = .ok place ↔
    p.parts.any (·.toList.any fun c => c.toNat = 0) = false ∧
      p.text.utf8ByteSize ≤ fs.pathLimit ∧ fs.follow (fs.origin p) p.parts = .ok place := by
  unfold locate
  cases p.parts.any (·.toList.any fun c => c.toNat = 0) with
  | true => simp
  | false =>
    by_cases hlong : fs.pathLimit < p.text.utf8ByteSize
    · simp [hlong, Nat.not_le.2 hlong]
    · simp [hlong, Nat.not_lt.1 hlong]

theorem locate_eq {place : Place} (h : fs.locate p = .ok place) : place = (fs.resolve p).parts :=
  follow_eq (locate_eq_ok_iff.1 h).2.2

/-- A way stays a way as long as its directories stay. -/
theorem follow_of_directories {nodes : OrderedMap Place Node}
    (h : ∀ q, fs.node? q = some .directory → { fs with nodes }.node? q = some .directory)
    {place q : Place} {parts : List String} (hfollow : fs.follow place parts = .ok q) :
    { fs with nodes }.follow place parts = .ok q := by
  induction parts generalizing place with
  | nil => exact hfollow
  | cons part parts ih =>
    rw [follow_cons_eq_ok_iff] at hfollow ⊢
    obtain ⟨hdirectory, hopen, hshort, -⟩ := pass_eq_ok_iff.1 hfollow.1
    exact ⟨pass_eq_ok_iff.2 ⟨h place hdirectory, hopen, hshort, rfl⟩, ih hfollow.2⟩

theorem locate_of_directories {nodes : OrderedMap Place Node}
    (h : ∀ q, fs.node? q = some .directory → { fs with nodes }.node? q = some .directory)
    {place : Place} (hlocate : fs.locate p = .ok place) :
    { fs with nodes }.locate p = .ok place := by
  obtain ⟨hclean, hshort, hfollow⟩ := locate_eq_ok_iff.1 hlocate
  exact locate_eq_ok_iff.2 ⟨hclean, hshort, follow_of_directories h hfollow⟩

/-! ### Asking -/

/-- A path leads to a directory when it leads somewhere and a directory stands there. -/
theorem isDir_eq_true_iff : fs.isDir p = .ok true ↔
    ∃ place, fs.locate p = .ok place ∧ fs.node? place = some .directory := by
  unfold isDir stat
  cases fs.locate p with
  | error fault => cases fault <;> simp [Except.map]
  | ok place => simp [Except.map]

/-- A path leads to a file when it leads somewhere and a file stands there. -/
theorem isFile_eq_true_iff : fs.isFile p = .ok true ↔
    ∃ place bytes, fs.locate p = .ok place ∧ fs.node? place = some (.file bytes) := by
  unfold isFile stat
  cases fs.locate p with
  | error fault => cases fault <;> simp [Except.map, foundFile]
  | ok place =>
    cases hnode : fs.node? place with
    | none => simp [Except.map, foundFile, hnode]
    | some node => cases node <;> simp [Except.map, foundFile, hnode]

/-- A path that cannot be asked for: a directory on its way may not be passed through, or it is too
    long. -/
def Unaskable (fs : Files) (p : Path) (e : FileError) : Prop :=
  e.path = p.text ∧ fs.locate p = .error e.fault ∧ (e.fault = .denied ∨ e.fault = .tooLong)

theorem fault_of_follow {place : Place} {parts : List String} {fault : FileFault}
    (h : fs.follow place parts = .error fault) : fault ≠ .exists ∧ fault ≠ .isDirectory := by
  induction parts generalizing place with
  | nil => cases h
  | cons part parts ih =>
    rw [follow] at h
    split at h
    · exact ih h
    next fault' hpass =>
      obtain rfl := Except.error.inj h
      unfold pass at hpass
      grind

theorem stat_eq_error_iff {e : FileError} : fs.stat p = .error e ↔ fs.Unaskable p e := by
  have hfault : ∀ fault, fs.locate p = .error fault → fault ≠ .exists ∧ fault ≠ .isDirectory := by
    intro fault h
    unfold locate at h
    split at h
    · obtain rfl := Except.error.inj h
      decide
    · split at h
      · obtain rfl := Except.error.inj h
        decide
      · exact fault_of_follow h
  obtain ⟨fault, text⟩ := e
  unfold stat Unaskable
  cases hlocate : fs.locate p with
  | ok place => simp
  | error fault' =>
    have hsome := hfault _ hlocate
    cases fault' <;> grind

theorem not_unaskable_of_locate {place : Place} (h : fs.locate p = .ok place) (e : FileError) :
    ¬fs.Unaskable p e := by
  rintro ⟨-, hlocate, -⟩
  cases h.symm.trans hlocate

/-- A path that leads to nothing can be asked for. -/
theorem not_unaskable_of_missing (h : fs.locate p = .error .missing) (e : FileError) :
    ¬fs.Unaskable p e := by
  rintro ⟨-, hlocate, hfault⟩
  rw [← Except.error.inj (h.symm.trans hlocate)] at hfault
  simp at hfault

theorem map_eq_error_iff {α β : Type} {x : Except FileError α} {f : α → β} {e : FileError} :
    x.map f = .error e ↔ x = .error e := by
  cases x <;> simp [Except.map]

/-- An answer is told by what is left of it without the failures. -/
theorem eq_ok_of_toOption {ε α : Type} {x : Except ε α} {a : α} (h : x.toOption = some a) :
    x = .ok a := by
  cases x with
  | error e => cases h
  | ok a' => rw [Option.some.inj h]

theorem isFile_eq_error_iff {e : FileError} : fs.isFile p = .error e ↔ fs.Unaskable p e :=
  map_eq_error_iff.trans stat_eq_error_iff

theorem isDir_eq_error_iff {e : FileError} : fs.isDir p = .error e ↔ fs.Unaskable p e :=
  map_eq_error_iff.trans stat_eq_error_iff

theorem pathExists_eq_error_iff {e : FileError} : fs.pathExists p = .error e ↔ fs.Unaskable p e :=
  map_eq_error_iff.trans stat_eq_error_iff

/-! ### Reading -/

/-- What it takes to read a file. -/
theorem read_eq_ok_iff {bytes : Bytes} : fs.read p = .ok bytes ↔
    ∃ place, fs.locate p = .ok place ∧ fs.node? place = some (.file bytes) ∧
      fs.denied.contains place = false := by
  unfold read
  cases fs.locate p with
  | error fault => simp
  | ok place =>
    simp only [Except.ok.injEq, exists_eq_left']
    cases fs.node? place with
    | none => simp
    | some node =>
      cases hdenied : fs.denied.contains place with
      | true => simp
      | false => cases node <;> simp

/-- What can be read is there. -/
theorem pathExists_of_read {bytes : Bytes} (h : fs.read p = .ok bytes) :
    fs.pathExists p = .ok true := by
  obtain ⟨place, hplace, hnode, -⟩ := read_eq_ok_iff.1 h
  rw [pathExists, stat, hplace]
  dsimp only
  rw [hnode]
  rfl

/-- A file whose reading is refused is not read. -/
theorem read_of_denied (h : (fs.resolve p).parts ∈ fs.denied) :
    ∃ fault, fs.read p = .error fault := by
  cases hread : fs.read p with
  | error fault => exact ⟨fault, rfl⟩
  | ok bytes =>
    obtain ⟨place, hplace, -, hallowed⟩ := read_eq_ok_iff.1 hread
    rw [locate_eq hplace, List.contains_iff_mem.2 h] at hallowed
    cases hallowed

/-- A file that can be read stands at the place that its path comes to. -/
theorem get?_of_read {bytes : Bytes} (h : fs.read p = .ok bytes) :
    fs.nodes.get? (fs.resolve p).parts = some (.file bytes) := by
  obtain ⟨place, hplace, hnode, -⟩ := read_eq_ok_iff.1 h
  unfold node? at hnode
  split at hnode
  · cases hnode
  · exact locate_eq hplace ▸ hnode

/-! ### Written files -/

theorem node?_withFile (fs : Files) (place q : Place) (bytes : Bytes) (hplace : place ≠ []) :
    (fs.withFile place bytes).node? q = if q = place then some (.file bytes) else fs.node? q := by
  unfold node? withFile
  rw [OrderedMap.get?_insert]
  by_cases hq : q = []
  · simp [hq, Ne.symm hplace]
  · rw [if_neg hq, if_neg hq]

/-- A file can be put at a place: no directory is there but a directory is around it, and neither
    the file that is there nor, for a new one, the directory is fixed. -/
structure Writable (fs : Files) (place : Place) : Prop where
  noDirectory : fs.node? place ≠ some .directory
  parent : fs.node? place.dropLast = some .directory
  loose : fs.fixed.contains place = false
  changeable : fs.node? place = none → fs.fixed.contains place.dropLast = false

/-- A file is written where its path leads to a place at which it can be put. -/
theorem write_eq_ok_iff {bytes : Bytes} : fs.write p bytes = .ok fs' ↔
    ∃ place, fs.locate p = .ok place ∧ fs.Writable place ∧ fs' = fs.withFile place bytes := by
  unfold write
  cases fs.locate p with
  | error fault => simp
  | ok place =>
    simp only [Except.ok.injEq, exists_eq_left']
    split
    next _ _ hdirectory => exact ⟨nofun, fun h => absurd hdirectory h.1.noDirectory⟩
    next _ _ hparent hdirectory =>
      split
      next hfixed =>
        refine ⟨nofun, fun h => ?_⟩
        rw [h.1.loose, Bool.false_or, Bool.and_eq_true, Option.isNone_iff_eq_none] at hfixed
        rw [h.1.changeable hfixed.1] at hfixed
        cases hfixed.2
      next hfree =>
        rw [Bool.or_eq_true, not_or, Bool.not_eq_true, Bool.and_eq_true, not_and,
          Option.isNone_iff_eq_none, Bool.not_eq_true] at hfree
        rw [Except.ok.injEq, eq_comm]
        exact ⟨fun h => ⟨⟨hdirectory, hparent, hfree.1, hfree.2⟩, h⟩, fun h => h.2⟩
    next _ _ _ hparent _ => exact ⟨nofun, fun h => by cases hparent.symm.trans h.1.parent⟩
    next _ _ hparent _ => exact ⟨nofun, fun h => by cases hparent.symm.trans h.1.parent⟩

/-- Only directories stand at the root. -/
theorem ne_nil_of_node? {place : Place} (h : fs.node? place ≠ some .directory) : place ≠ [] := by
  rintro rfl
  exact h rfl

/-- A file that is put where no directory is leaves every directory where it is. -/
theorem directory_withFile {place : Place} (hplace : fs.node? place ≠ some .directory)
    (bytes : Bytes) (q : Place) (hq : fs.node? q = some .directory) :
    (fs.withFile place bytes).node? q = some .directory := by
  have hne : q ≠ place := by
    rintro rfl
    exact hplace hq
  rw [node?_withFile fs place q bytes (ne_nil_of_node? hplace), if_neg hne, hq]

theorem locate_withFile {place : Place} (hlocate : fs.locate p = .ok place)
    (hplace : fs.node? place ≠ some .directory) (bytes : Bytes) :
    (fs.withFile place bytes).locate p = .ok place :=
  locate_of_directories (directory_withFile hplace bytes) hlocate

theorem isDir_withFile {place : Place} (hplace : fs.node? place ≠ some .directory) (bytes : Bytes)
    (h : fs.isDir p = .ok true) : (fs.withFile place bytes).isDir p = .ok true := by
  obtain ⟨q, hq, hdirectory⟩ := isDir_eq_true_iff.1 h
  have hkept := directory_withFile hplace bytes
  exact isDir_eq_true_iff.2 ⟨q, locate_of_directories hkept hq, hkept q hdirectory⟩

/-- The file that is put at the place of a path is read there, unless reading is refused. -/
theorem read_withFile {place : Place} (hlocate : fs.locate p = .ok place)
    (hplace : fs.node? place ≠ some .directory) (bytes : Bytes) :
    (fs.withFile place bytes).read p =
      if fs.denied.contains place then .error ⟨.denied, p.text⟩ else .ok bytes := by
  have hroot := ne_nil_of_node? hplace
  have hfound := locate_withFile hlocate hplace bytes
  have hnode : (fs.withFile place bytes).node? place = some (.file bytes) := by
    rw [node?_withFile fs place place bytes hroot, if_pos rfl]
  simp only [read, hfound, hnode]
  rfl

/-- **Read back.**  Where some file can be written and read, every file is read back. -/
theorem read_of_write {sample found : Bytes} (hwrite : fs.write p sample = .ok fs')
    (hread : fs'.read p = .ok found) (bytes : Bytes) :
    ∃ fs'', fs.write p bytes = .ok fs'' ∧ fs''.read p = .ok bytes := by
  obtain ⟨place, hlocate, hplace, rfl⟩ := write_eq_ok_iff.1 hwrite
  rw [read_withFile hlocate hplace.noDirectory] at hread
  split at hread
  · cases hread
  next hallowed =>
    refine ⟨_, write_eq_ok_iff.2 ⟨place, hlocate, hplace, rfl⟩, ?_⟩
    rw [read_withFile hlocate hplace.noDirectory, if_neg hallowed]

/-- A file that is written again stays as it is. -/
theorem write_withFile {place : Place} {bytes : Bytes} (hlocate : fs.locate p = .ok place)
    (hplace : fs.Writable place) :
    (fs.withFile place bytes).write p bytes = .ok (fs.withFile place bytes) := by
  have hroot := ne_nil_of_node? hplace.noDirectory
  have hnode : (fs.withFile place bytes).node? place = some (.file bytes) := by
    rw [node?_withFile fs place place bytes hroot, if_pos rfl]
  refine write_eq_ok_iff.2 ⟨place, locate_withFile hlocate hplace.noDirectory bytes, ?_, ?_⟩
  · refine ⟨by rw [hnode]; exact nofun, ?_, hplace.loose, by rw [hnode]; exact nofun⟩
    exact directory_withFile hplace.noDirectory bytes _ hplace.parent
  · unfold withFile
    rw [OrderedMap.insert_of_get? (OrderedMap.get?_insert_self ..)]

/-! ### New directories -/

/-- Files with some directories more. -/
structure Extended (fs fs' : Files) : Prop where
  alike : fs' = { fs with nodes := fs'.nodes }
  kept : ∀ {q node}, fs.node? q = some node → fs'.node? q = some node
  fresh : ∀ {q}, fs.node? q = none → fs'.node? q = none ∨ fs'.node? q = some .directory

namespace Extended

theorem refl (fs : Files) : Extended fs fs := ⟨rfl, id, .inl⟩

theorem trans {fs'' : Files} (h : Extended fs fs') (h' : Extended fs' fs'') :
    Extended fs fs'' where
  alike := by
    have halike' := h'.alike
    rw [h.alike] at halike'
    exact halike'
  kept hq := h'.kept (h.kept hq)
  fresh hq := by
    rcases h.fresh hq with hnone | hdirectory
    · exact h'.fresh hnone
    · exact .inr (h'.kept hdirectory)

/-- A path leads where it led. -/
theorem locate (h : Extended fs fs') {place : Place} (hplace : fs.locate p = .ok place) :
    fs'.locate p = .ok place := by
  have hkept : ∀ q, fs.node? q = some .directory →
      { fs with nodes := fs'.nodes }.node? q = some .directory := fun q hq => h.kept hq
  rw [h.alike]
  exact locate_of_directories hkept hplace

theorem resolve (h : Extended fs fs') (p : Path) : fs'.resolve p = fs.resolve p := by
  rw [h.alike]
  rfl

/-- The files are those from before. -/
theorem file (h : Extended fs fs') {q : Place} {bytes : Bytes}
    (hfile : fs'.node? q = some (.file bytes)) : fs.node? q = some (.file bytes) := by
  cases hq : fs.node? q with
  | none =>
    rcases h.fresh hq with hnone | hdirectory
    · cases hnone.symm.trans hfile
    · cases hdirectory.symm.trans hfile
  | some node => exact (h.kept hq).symm.trans hfile

end Extended

/-- A directory is made where a path with components leads and nothing stands. -/
theorem makeDir_eq_ok_iff : fs.makeDir p = .ok fs' ↔
    ∃ place, fs.locate p = .ok place ∧ fs.node? place = none ∧ p.parts ≠ [] ∧
      fs.fixed.contains place.dropLast = false ∧
      fs' = { fs with nodes := fs.nodes.insert place .directory } := by
  unfold makeDir
  cases fs.locate p with
  | error fault => simp
  | ok place =>
    simp only [Except.ok.injEq, exists_eq_left']
    cases fs.node? place with
    | some node => simp
    | none =>
      by_cases hparts : p.parts = []
      · simp [hparts]
      · cases hfixed : fs.fixed.contains place.dropLast with
        | true => simp [hparts]
        | false =>
          rw [eq_comm]
          simp [hparts]

theorem node?_insert_directory (fs : Files) (place q : Place) :
    { fs with nodes := fs.nodes.insert place .directory }.node? q =
      if q = place then some .directory else fs.node? q := by
  unfold node?
  rw [OrderedMap.get?_insert]
  by_cases hq : q = place
  · simp [hq]
  · rw [if_neg hq, if_neg hq]

theorem extended_makeDir (h : fs.makeDir p = .ok fs') : Extended fs fs' := by
  obtain ⟨place, -, hnone, -, -, rfl⟩ := makeDir_eq_ok_iff.1 h
  refine ⟨rfl, fun {q node} hq => ?_, fun {q} hq => ?_⟩
  · have hne : q ≠ place := by
      rintro rfl
      cases hnone.symm.trans hq
    rw [node?_insert_directory, if_neg hne, hq]
  · rw [node?_insert_directory]
    split
    · exact .inr rfl
    · exact .inl hq

theorem ensureDir_cases (fs : Files) (p : Path) :
    (∃ made, fs.makeDir p = .ok made ∧ fs.ensureDir p = (made, none)) ∨
      (fs.isDir p = .ok true ∧ fs.ensureDir p = (fs, none)) ∨
        ∃ e, fs.ensureDir p = (fs, some e) := by
  unfold ensureDir
  cases fs.makeDir p with
  | ok made => exact .inl ⟨made, rfl, rfl⟩
  | error fault =>
    refine .inr ?_
    dsimp only
    split
    next hdir => exact .inl ⟨hdir, rfl⟩
    next => exact .inr ⟨_, rfl⟩
    next => exact .inr ⟨_, rfl⟩

theorem extended_ensureDir (fs : Files) (p : Path) : Extended fs (fs.ensureDir p).1 := by
  obtain ⟨made, hmade, heq⟩ | ⟨-, heq⟩ | ⟨e, heq⟩ := fs.ensureDir_cases p
  · rw [heq]
    exact extended_makeDir hmade
  · rw [heq]
    exact .refl fs
  · rw [heq]
    exact .refl fs

/-- A directory that was made is there. -/
theorem isDir_of_ensureDir (h : fs.ensureDir p = (fs', none)) : fs'.isDir p = .ok true := by
  obtain ⟨made, hmade, heq⟩ | ⟨hdir, heq⟩ | ⟨e, heq⟩ := fs.ensureDir_cases p
  · obtain ⟨rfl, -⟩ := Prod.mk.inj (h.symm.trans heq)
    have hextended := extended_makeDir hmade
    obtain ⟨place, hplace, -, -, -, rfl⟩ := makeDir_eq_ok_iff.1 hmade
    refine isDir_eq_true_iff.2 ⟨place, hextended.locate hplace, ?_⟩
    rw [node?_insert_directory, if_pos rfl]
  · obtain ⟨rfl, -⟩ := Prod.mk.inj (h.symm.trans heq)
    exact hdir
  · cases (Prod.mk.inj (h.symm.trans heq)).2

/-- A directory that is there need not be made. -/
theorem ensureDir_of_isDir (h : fs.isDir p = .ok true) : fs.ensureDir p = (fs, none) := by
  obtain ⟨place, hplace, hnode⟩ := isDir_eq_true_iff.1 h
  have hthere : fs.makeDir p = .error .exists := by
    rw [makeDir, hplace]
    dsimp only
    rw [hnode]
    rfl
  rw [ensureDir, hthere]
  dsimp only
  rw [h]

/-- Making directories upward: the last one is made after those it stands in, which are made only
    when it cannot be. -/
theorem makeUp_cases (fs : Files) (anchor : Anchor) (part : String) (above : List String) :
    fs.makeUp anchor (part :: above) = fs.ensureDir ⟨anchor, (part :: above).reverse⟩ ∨
      (∃ e, (fs.makeUp anchor above).2 = some e ∧
        fs.makeUp anchor (part :: above) = fs.makeUp anchor above) ∨
      (fs.makeUp anchor above).2 = none ∧ fs.makeUp anchor (part :: above) =
        (fs.makeUp anchor above).1.ensureDir ⟨anchor, (part :: above).reverse⟩ := by
  rw [makeUp]
  split
  next =>
    right
    cases hmade : fs.makeUp anchor above with
    | mk made stop =>
      cases stop with
      | none => exact .inr ⟨rfl, rfl⟩
      | some e => exact .inl ⟨e, rfl, rfl⟩
  next => exact .inl rfl

theorem extended_makeUp (fs : Files) (anchor : Anchor) (parts : List String) :
    Extended fs (fs.makeUp anchor parts).1 := by
  induction parts with
  | nil => exact extended_ensureDir fs _
  | cons part above ih =>
    obtain heq | ⟨e, -, heq⟩ | ⟨-, heq⟩ := fs.makeUp_cases anchor part above
    · rw [heq]
      exact extended_ensureDir fs _
    · rw [heq]
      exact ih
    · rw [heq]
      exact ih.trans (extended_ensureDir _ _)

/-- **Making directories** adds some directories, and changes nothing else. -/
theorem extended_makeDirs (fs : Files) (p : Path) : Extended fs (fs.makeDirs p).1 :=
  extended_makeUp fs p.anchor p.parts.reverse

/-- The files after directories were made are those from before. -/
theorem get?_of_makeDirs {q : Place} {bytes : Bytes} (hq : q ≠ [])
    (hfile : (fs.makeDirs p).1.nodes.get? q = some (.file bytes)) :
    fs.nodes.get? q = some (.file bytes) := by
  have hnode : (fs.makeDirs p).1.node? q = some (.file bytes) := by rwa [node?, if_neg hq]
  have hbefore := (extended_makeDirs fs p).file hnode
  rwa [node?, if_neg hq] at hbefore

theorem isDir_of_makeUp {anchor : Anchor} {parts : List String}
    (h : fs.makeUp anchor parts = (fs', none)) :
    fs'.isDir ⟨anchor, parts.reverse⟩ = .ok true := by
  cases parts with
  | nil => exact isDir_of_ensureDir h
  | cons part above =>
    obtain heq | ⟨e, hstop, heq⟩ | ⟨-, heq⟩ := fs.makeUp_cases anchor part above
    · exact isDir_of_ensureDir (heq.symm.trans h)
    · rw [heq] at h
      rw [h] at hstop
      cases hstop
    · exact isDir_of_ensureDir (heq.symm.trans h)

/-- **A directory that was made** is there. -/
theorem isDir_of_makeDirs (h : fs.makeDirs p = (fs', none)) : fs'.isDir p = .ok true := by
  have hdir := isDir_of_makeUp h
  rwa [List.reverse_reverse] at hdir

/-- A directory that is there need not be made. -/
theorem makeDirs_of_isDir (h : fs.isDir p = .ok true) : fs.makeDirs p = (fs, none) := by
  obtain ⟨place, hplace, hnode⟩ := isDir_eq_true_iff.1 h
  have hthere : fs.makeDir p = .error .exists := by
    rw [makeDir, hplace]
    dsimp only
    rw [hnode]
    rfl
  have hp : p = ⟨p.anchor, p.parts.reverse.reverse⟩ := by rw [List.reverse_reverse]
  rw [makeDirs]
  cases hparts : p.parts.reverse with
  | nil =>
    rw [hparts, List.reverse_nil] at hp
    rw [makeUp, ← hp, ensureDir_of_isDir h]
  | cons part above =>
    rw [hparts] at hp
    rw [makeUp, ← hp, hthere, ensureDir_of_isDir h]

/-- A path that leads on passes through the directory before its last component. -/
theorem isDir_of_locate_concat {anchor : Anchor} {front : List String} {part : String}
    {place : Place} (hfront : front ≠ []) (h : fs.locate ⟨anchor, front ++ [part]⟩ = .ok place) :
    fs.isDir ⟨anchor, front⟩ = .ok true := by
  obtain ⟨hchars, hsize, hfollow⟩ := locate_eq_ok_iff.1 h
  obtain ⟨mid, hmid, hlast⟩ := exists_of_follow_append hfollow
  refine isDir_eq_true_iff.2 ⟨mid, locate_eq_ok_iff.2 ⟨?_, Nat.le_trans ?_ hsize, hmid⟩, ?_⟩
  · rw [List.any_append, Bool.or_eq_false_iff] at hchars
    exact hchars.1
  · -- the text of the directory is written in front
    rw [Path.text, Path.text, if_neg (by simp [hfront]), if_neg (by simp), Text.joinWith,
      Text.joinWith, String.intercalate_append_of_ne_nil hfront (by simp)]
    simp only [String.utf8ByteSize_append]
    omega
  · obtain ⟨hpass, -⟩ := follow_cons_eq_ok_iff.1 hlast
    exact (pass_eq_ok_iff.1 hpass).1

theorem makeUp_of_isDir {anchor : Anchor} {parts : List String}
    (h : fs.isDir ⟨anchor, parts.reverse⟩ = .ok true) : fs.makeUp anchor parts = (fs, none) := by
  have hmade := makeDirs_of_isDir h
  rwa [makeDirs, List.reverse_reverse] at hmade

theorem eq_of_ensureDir {e : FileError} (h : fs.ensureDir p = (fs', some e)) : fs' = fs := by
  obtain ⟨made, -, heq⟩ | ⟨-, heq⟩ | ⟨e', heq⟩ := fs.ensureDir_cases p
  · cases (Prod.mk.inj (h.symm.trans heq)).2
  · cases (Prod.mk.inj (h.symm.trans heq)).2
  · exact (Prod.mk.inj (h.symm.trans heq)).1

/-- Where the directories that a directory stands in are not there, it is neither made nor there. -/
theorem ensureDir_of_makeUp {anchor : Anchor} {part : String} {above : List String} {e : FileError}
    (habove : above ≠ []) (h : fs.makeUp anchor above = (fs, some e)) :
    ∃ e', fs.ensureDir ⟨anchor, (part :: above).reverse⟩ = (fs, some e') := by
  have hnowhere : ∀ place, fs.locate ⟨anchor, (part :: above).reverse⟩ ≠ .ok place := by
    intro place hplace
    rw [List.reverse_cons] at hplace
    have hdir := isDir_of_locate_concat (by simpa using habove) hplace
    cases h.symm.trans (makeUp_of_isDir hdir)
  obtain ⟨made, hmade, -⟩ | ⟨hdir, -⟩ | hstop :=
    fs.ensureDir_cases ⟨anchor, (part :: above).reverse⟩
  · obtain ⟨place, hplace, -⟩ := makeDir_eq_ok_iff.1 hmade
    exact absurd hplace (hnowhere place)
  · obtain ⟨place, hplace, -⟩ := isDir_eq_true_iff.1 hdir
    exact absurd hplace (hnowhere place)
  · exact hstop

/-- Directories that could not be made, cannot be made the next time either. -/
theorem makeUp_makeUp {anchor : Anchor} {parts : List String} {e : FileError}
    (h : fs.makeUp anchor parts = (fs', some e)) :
    ∃ e', fs'.makeUp anchor parts = (fs', some e') := by
  induction parts generalizing e with
  | nil =>
    obtain rfl := eq_of_ensureDir h
    exact ⟨e, h⟩
  | cons part above ih =>
    obtain heq | ⟨e₁, -, heq⟩ | ⟨hmade, heq⟩ := fs.makeUp_cases anchor part above
    · obtain rfl := eq_of_ensureDir (heq.symm.trans h)
      exact ⟨e, h⟩
    · -- It failed further up, and does so again.
      have habove : fs.makeUp anchor above = (fs', some e) := heq.symm.trans h
      cases above with
      | nil =>
        obtain rfl := eq_of_ensureDir habove
        exact ⟨e, h⟩
      | cons part' above =>
        obtain ⟨e', hagain⟩ := ih habove
        obtain heq' | ⟨e₂, -, heq'⟩ | ⟨hnone, -⟩ := fs'.makeUp_cases anchor part (part' :: above)
        · rw [heq']
          exact ensureDir_of_makeUp (List.cons_ne_nil _ _) hagain
        · rw [heq']
          exact ⟨e', hagain⟩
        · rw [hagain] at hnone
          cases hnone
    · -- It failed here, in a directory that is there now.
      have hensure := heq.symm.trans h
      obtain rfl := eq_of_ensureDir hensure
      have hdir := isDir_of_makeUp (Prod.ext rfl hmade : fs.makeUp anchor above = (_, none))
      have hthere := makeUp_of_isDir hdir
      obtain heq' | ⟨e₂, hstop, -⟩ | ⟨-, heq'⟩ :=
        (fs.makeUp anchor above).1.makeUp_cases anchor part above
      · exact ⟨e, heq'.trans hensure⟩
      · rw [hthere] at hstop
        cases hstop
      · rw [hthere] at heq'
        exact ⟨e, heq'.trans hensure⟩

theorem makeDirs_makeDirs {e : FileError} (h : fs.makeDirs p = (fs', some e)) :
    ∃ e', fs'.makeDirs p = (fs', some e') :=
  makeUp_makeUp h

end LuaAudit.Files
