import LuaAudit.Proofs.Docs.Settled
import LuaAudit.Proofs.Index.Load

/-!
# Loading and saving again

A file that was loaded and saved once stays as it is, however often that is done again, by the same
catalogue or by a new one, unless it spells a surrogate without its other half.  What was read is
settled, so it is written the same; and what is written of it is read again, so that nothing is lost
on the way.

* `Docs.Entry.storableWithin_of_ofJson`: what was read of a file can stand in a file, nested no
  deeper;
* `save_cases`: a file that was saved, or a place where none can be;
* `written_load_save`: what is loaded of a saved file is written as that was;
* `cycle`: loading and saving, `after_of_kind`: what one cycle after the other leaves alone;
* `resting_of_cycle`: after the first cycle nothing changes;
* `reading_settles`: records and files are settled once they were read, and
  `not_all_cycles_settle`: not every file is.
-/

namespace LuaAudit.Docs

/-! ### What was read can be written -/

section StorableWithin

variable {n : Nat}

theorem storableWithin_of_field? {fields : List (String × Json)}
    (h : Json.StorableWithin (n + 1) (.obj fields)) {key : String} {x : Json}
    (hx : Json.field? fields key = some x) : x.StorableWithin n := by
  obtain ⟨f, hf, rfl⟩ := Option.map_eq_some_iff.1 hx
  exact (Json.StorableWithin.obj_iff.1 h).2 f (List.mem_of_find?_eq_some hf)

theorem storableWithin_getD_field? {fields : List (String × Json)}
    (h : Json.StorableWithin (n + 1) (.obj fields)) (key : String) :
    ((Json.field? fields key).getD .null).StorableWithin n := by
  cases hx : Json.field? fields key with
  | none => exact .null n
  | some x => exact storableWithin_of_field? h hx

/-- The members of what can be stored can be stored. -/
theorem storableWithin_of_members {v : Option Json}
    (h : ∀ x, v = some x → x.StorableWithin (n + 1)) {items : List Json}
    (hitems : members v = .ok items) : ∀ x ∈ items, x.StorableWithin n := by
  unfold members at hitems
  split at hitems
  next =>
    obtain rfl := Except.ok.inj hitems
    exact nofun
  next x =>
    split at hitems
    next =>
      obtain rfl := Except.ok.inj hitems
      exact nofun
    next =>
      split at hitems
      next =>
        obtain rfl := Except.ok.inj hitems
        exact Json.StorableWithin.arr_iff.1 (h _ rfl)
      next =>
        obtain rfl := Except.ok.inj hitems
        exact List.forall_mem_map.2 fun _ _ => .str _ _
      next => cases (h _ rfl).storable
      next =>
        obtain rfl := Except.ok.inj hitems
        exact List.forall_mem_map.2 fun _ _ => .str _ _
      next => cases hitems

theorem Signature.storableWithin_of_ofJson {v : Json} (hv : v.StorableWithin (n + 3))
    {d : Signature} (h : Signature.ofJson v = .ok d) : d.StorableWithin n := by
  have hfield : ∀ key x, v.get? key = some x → x.StorableWithin (n + 2) := by
    intro key x hx
    cases v with
    | obj fields => exact storableWithin_of_field? hv hx
    | _ => cases hx
  obtain ⟨parameters, returns, hp, hr, hparameters, hreturns⟩ := exists_of_signature_ofJson h
  constructor
  · intro p hmem
    rw [hparameters] at hmem
    obtain ⟨fields, hobj, rfl⟩ := exists_obj_of_mem_objects hmem
    have hfields := storableWithin_of_members (hfield "parameters") hp _ hobj
    exact storableWithin_getD_field? hfields "description"
  · intro r hmem
    rw [hreturns] at hmem
    obtain ⟨fields, hobj, rfl⟩ := exists_obj_of_mem_objects hmem
    have hfields := storableWithin_of_members (hfield "returns") hr _ hobj
    exact storableWithin_getD_field? hfields "description"

theorem storableWithin_of_namedMembers {v : Option Json}
    (h : ∀ x, v = some x → x.StorableWithin (n + 1)) {named : List (String × Json)}
    (hnamed : namedMembers v = .ok named) : ∀ f ∈ named, f.2.StorableWithin n := by
  unfold namedMembers at hnamed
  split at hnamed
  next =>
    obtain rfl := Except.ok.inj hnamed
    exact nofun
  next x =>
    split at hnamed
    next =>
      obtain rfl := Except.ok.inj hnamed
      exact nofun
    next =>
      split at hnamed
      next =>
        obtain rfl := Except.ok.inj hnamed
        exact (Json.StorableWithin.obj_iff.1 (h _ rfl)).2
      next => cases hnamed

/-- **What was read of a file can stand in a file,** and is nested no deeper there. -/
theorem Entry.storableWithin_of_ofJson {name : String} {v : Json} (hv : v.StorableWithin (n + 5))
    {e : Entry} (h : Entry.ofJson name v = .ok e) : e.StorableWithin n := by
  obtain ⟨fields, named, functions, s, rfl, hnamed, hread, hfunctions, -, -, hetag, hmodified⟩ :=
    exists_of_entry_ofJson h
  refine ⟨fun d hd => ?_, hetag ▸ storableWithin_getD_field? hv _,
    hmodified ▸ storableWithin_getD_field? hv _⟩
  rw [hfunctions] at hd
  obtain ⟨key, hmem⟩ := OrderedMap.mem_of_mem_values_ofList hd
  obtain ⟨⟨key, x⟩, hx, hpair⟩ := exists_of_mem_mapM hread hmem
  obtain ⟨d', hd', hpair⟩ := exists_of_bind_eq_ok hpair
  cases hpair
  have hrecord := storableWithin_of_namedMembers
    (fun y hy => storableWithin_of_field? hv hy) hnamed _ hx
  exact Signature.storableWithin_of_ofJson hrecord hd'

end StorableWithin

end LuaAudit.Docs

namespace LuaAudit.Index.Catalogue

open Location (Path)
open Docs (Entry Parameter Return Signature Settles)

/-! ### Saved files -/

/-- What is written of a catalogue, entry by entry. -/
def written (c : Catalogue) : OrderedMap String Json := c.entries.map (·.toJson)

theorem toJson_eq_iff {c c' : Catalogue} : c.toJson = c'.toJson ↔ c.written = c'.written := by
  constructor
  · intro h
    exact OrderedMap.ext (Json.obj.inj h)
  · intro h
    show Json.obj c.written.entries = _
    rw [h]
    rfl

section Save

variable {c c' : Catalogue} {fs made : Files} {place : Place}

/-- The bytes that are put into the file. -/
def savedBytes (c : Catalogue) : Bytes :=
  if (c.toJson.encodingFault? .file).isSome then [] else Text.Utf8.encode c.fileText.toList

theorem savedBytes_of_encodable (h : c.toJson.encodingFault? .file = none) :
    c.savedBytes = Text.Utf8.encode c.fileText.toList := by
  simp [savedBytes, h]

theorem save_of_write_error {e : FileError} (hdirs : fs.makeDirs c.path.parent = (made, none))
    (hwrite : made.write c.path c.savedBytes = .error e) : c.save fs = (made, none) := by
  rw [save, hdirs]
  simp only
  rw [← savedBytes, hwrite]

theorem save_of_write_ok {saved : Files} (hdirs : fs.makeDirs c.path.parent = (made, none))
    (hwrite : made.write c.path c.savedBytes = .ok saved) :
    c.save fs = (saved, c.toJson.encodingFault? .file) := by
  rw [save, hdirs]
  simp only
  rw [← savedBytes, hwrite]

/-- Directories that were made need not be made again. -/
theorem makeDirs_again (hdirs : fs.makeDirs c.path.parent = (made, none)) :
    made.makeDirs c.path.parent = (made, none) :=
  Files.makeDirs_of_isDir (Files.isDir_of_makeDirs hdirs)

/-- Where no file can be saved, there can be none the next time either. -/
theorem save_save_of_error {e : FileError} (hdirs : fs.makeDirs c.path.parent = (made, none))
    (hwrite : made.write c.path c.savedBytes = .error e) (hpath : c'.path = c.path) :
    c'.save made = (made, none) := by
  have hagain : c'.path = c.path → made.makeDirs c'.path.parent = (made, none) :=
    fun h => h ▸ makeDirs_again hdirs
  cases hother : made.write c'.path c'.savedBytes with
  | error e' => exact save_of_write_error (hagain hpath) hother
  | ok saved =>
    -- what bytes are written makes no difference
    rw [hpath] at hother
    obtain ⟨place, hlocate, hplace, -⟩ := Files.write_eq_ok_iff.1 hother
    rw [Files.write_eq_ok_iff.2 ⟨place, hlocate, hplace, rfl⟩] at hwrite
    cases hwrite

/-- A file that was saved is left as it is by a catalogue that writes the same. -/
theorem save_withFile (hdirs : fs.makeDirs c.path.parent = (made, none))
    (hlocate : made.locate c.path = .ok place) (hplace : made.Writable place)
    (hpath : c'.path = c.path) (hjson : c'.toJson = c.toJson) :
    c'.save (made.withFile place c.savedBytes) =
      (made.withFile place c.savedBytes, c.toJson.encodingFault? .file) := by
  have hdir := Files.isDir_withFile hplace.noDirectory c.savedBytes (Files.isDir_of_makeDirs hdirs)
  have hbytes : c'.savedBytes = c.savedBytes := by
    rw [savedBytes, savedBytes, fileText, fileText, hjson]
  rw [← hjson]
  refine save_of_write_ok (hpath ▸ Files.makeDirs_of_isDir hdir) ?_
  rw [hpath, hbytes]
  exact Files.write_withFile hlocate hplace

/-- A file that cannot be read where it was saved could not be read before. -/
theorem read_of_denied_made (hdirs : fs.makeDirs c.path.parent = (made, none))
    (hlocate : made.locate c.path = .ok place) (hdenied : place ∈ made.denied) :
    ∃ e, fs.read c.path = .error e := by
  have hextended : fs.Extended made := by
    have h := Files.extended_makeDirs fs c.path.parent
    rwa [hdirs] at h
  have hsame : made.denied = fs.denied := by rw [hextended.alike]
  have hplace : place = (fs.resolve c.path).parts := by
    rw [Files.locate_eq hlocate, hextended.resolve]
  exact Files.read_of_denied (hsame ▸ hplace ▸ hdenied)

end Save

/-- Saving again, what can be encoded.  Where no file can be saved, nothing that is saved later
    changes anything or fails.  A file that was saved is left as it is by whatever is written in the
    same words; it can be asked for, and it can be read or it could not be read before. -/
theorem save_cases {c : Catalogue} (hencode : c.toJson.encodingFault? .file = none) (fs : Files) :
    ∃ saved, c.save fs = (saved, none) ∧
      ((∀ c' : Catalogue, c'.path = c.path → c'.save saved = (saved, none)) ∨
        (∀ c' : Catalogue, c'.path = c.path → c'.toJson = c.toJson →
          c'.save saved = (saved, none)) ∧
          (∀ e, ¬saved.Unaskable c.path e) ∧
          (saved.read c.path = .ok (Text.Utf8.encode c.fileText.toList) ∨
            (∃ e, saved.read c.path = .error e) ∧ ∃ e, fs.read c.path = .error e)) := by
  rcases hdirs : fs.makeDirs c.path.parent with ⟨made, _ | e⟩
  · cases hwrite : made.write c.path c.savedBytes with
    | error e =>
      refine ⟨made, save_of_write_error hdirs hwrite, .inl fun c' hpath => ?_⟩
      exact save_save_of_error hdirs hwrite hpath
    | ok saved =>
      have hsave := save_of_write_ok hdirs hwrite
      obtain ⟨place, hlocate, hplace, rfl⟩ := Files.write_eq_ok_iff.1 hwrite
      rw [hencode] at hsave
      refine ⟨_, hsave, .inr ⟨fun c' hpath hjson => ?_, ?_, ?_⟩⟩
      · rw [save_withFile hdirs hlocate hplace hpath hjson, hencode]
      · exact Files.not_unaskable_of_locate (Files.locate_withFile hlocate hplace.noDirectory _)
      · rw [Files.read_withFile hlocate hplace.noDirectory, savedBytes_of_encodable hencode]
        split
        next hdenied =>
          exact .inr ⟨⟨_, rfl⟩, read_of_denied_made hdirs hlocate (List.contains_iff_mem.1 hdenied)⟩
        next => exact .inl rfl
  · have hsave : ∀ c' : Catalogue, c'.path = c.path → ∀ files e',
        files.makeDirs c.path.parent = (made, some e') → c'.save files = (made, none) := by
      intro c' hpath files e' hfail
      rw [save, hpath, hfail]
    obtain ⟨e', hagain⟩ := Files.makeDirs_makeDirs hdirs
    exact ⟨made, hsave c rfl fs e hdirs, .inl fun c' hpath => hsave c' hpath made e' hagain⟩

/-! ### Loaded files -/

section Load

variable {limit : Json.Depth} {n : Nat}

theorem exists_read_of_storedFields? {fs : Files} {p : Path} {fields : List (String × Json)}
    (h : storedFields? limit fs p = .ok (some fields)) : ∃ bytes, fs.read p = .ok bytes := by
  unfold storedFields? at h
  split at h
  · cases h
  · cases h
  next =>
    split at h
    · cases h
    next bytes hread => exact ⟨bytes, hread⟩

theorem path_of_load {c loaded : Catalogue} {fs : Files} {count : Nat}
    (h : c.load limit fs = .ok (loaded, count)) : loaded.path = c.path := by
  unfold load at h
  split at h
  · cases h
  next fields _ =>
    rw [addStored_eq] at h
    obtain ⟨rfl, -⟩ := Prod.mk.inj (Except.ok.inj h)
    rfl
  next =>
    obtain ⟨rfl, -⟩ := Prod.mk.inj (Except.ok.inj h)
    rfl

/-- Of a file that holds an object, the fields that are entries are added. -/
theorem load_of_holds {c : Catalogue} {fs : Files} {fields : List (String × Json)}
    (h : Holds limit fs c.path fields) :
    c.load limit fs =
      .ok ({ c with entries := (stored fields).foldl (fun m e => m.insert e.1 e.2) c.entries },
        (stored fields).length) := by
  rw [load, storedFields?_of_holds h]
  dsimp only
  rw [addStored_eq]

/-- A new catalogue takes over the fields that are entries, in their order. -/
theorem entries_of_load {p : Path} {fs : Files} {fields : List (String × Json)} {c : Catalogue}
    {count : Nat} (h : Holds limit fs p fields)
    (hload : Catalogue.load { path := p } limit fs = .ok (c, count)) :
    c.entries.entries = stored fields := by
  have hkeys := (keys_stored_sublist fields).nodup h.nodup_keys
  have hloaded := (load_of_holds (c := { path := p }) h).symm.trans hload
  obtain ⟨rfl, -⟩ := Prod.mk.inj (Except.ok.inj hloaded)
  exact congrArg OrderedMap.entries (OrderedMap.ofList_entries ⟨stored fields, hkeys⟩)

/-- What is read is deep enough for a file of entries. -/
theorem exists_levels_eq (limit : Json.Depth) : ∃ n, n + 6 = limit.levels :=
  Nat.exists_eq_add_of_le' (Nat.le_trans (by decide) limit.enough) |>.imp fun _ h => h.symm

/-- The entries of a catalogue were read of values that a file can hold. -/
def WasRead (n : Nat) (c : Catalogue) : Prop :=
  ∀ e ∈ c.entries.entries, ∃ v, v.StorableWithin (n + 5) ∧ Entry.ofJson e.1 v = .ok e.2

theorem WasRead.storableWithin {c : Catalogue} (h : c.WasRead n) :
    ∀ e ∈ c.entries.entries, e.2.StorableWithin n := by
  intro e he
  obtain ⟨v, hv, hok⟩ := h e he
  exact Entry.storableWithin_of_ofJson hv hok

theorem WasRead.encodable {c : Catalogue} (h : c.WasRead n) :
    c.toJson.encodingFault? .file = none :=
  Json.encodingFault?_of_storable .file (storableWithin_toJson h.storableWithin).storable

/-- What was loaded of a paired text was read of values that a file can hold. -/
theorem wasRead_of_load {p : Path} {fs : Files} {c : Catalogue} {count : Nat}
    (hdepth : n + 6 = limit.levels)
    (hpaired : ∀ cs, fs.read p = .ok (Text.Utf8.encode cs) → Json.Paired (textOf cs))
    (hload : Catalogue.load { path := p } limit fs = .ok (c, count)) : c.WasRead n := by
  intro e he
  obtain ⟨e', hfile⟩ | ⟨atObject, hfile⟩ | hfile | ⟨fields, hfile⟩ := file_cases limit fs p
  · rw [load, storedFields?_of_unaskable hfile] at hload
    cases hload
  · rw [load, storedFields?_of_tooDeep hfile] at hload
    cases hload
  · rw [load, storedFields?_of_unusable hfile] at hload
    obtain ⟨rfl, -⟩ := Prod.mk.inj (Except.ok.inj hload)
    cases he
  · rw [entries_of_load hfile hload] at he
    obtain ⟨v, hmem, hread⟩ := mem_stored_iff.1 he
    obtain ⟨cs, hcs, hjson⟩ := hfile
    have hfields : Json.StorableWithin (n + 6) (.obj fields) :=
      ⟨Json.storable_of_read (hpaired cs hcs) hjson, hdepth ▸ Json.within_of_read hjson⟩
    exact ⟨v, (Json.StorableWithin.obj_iff.1 hfields).2 _ hmem, hread⟩

/-- Of a file that cannot be read, nothing is loaded. -/
theorem eq_of_load {c loaded : Catalogue} {fs : Files} {count : Nat} {e : FileError}
    (hread : fs.read c.path = .error e) (h : c.load limit fs = .ok (loaded, count)) :
    loaded = c := by
  unfold load at h
  split at h
  · cases h
  next fields hstored =>
    obtain ⟨bytes, hbytes⟩ := exists_read_of_storedFields? hstored
    cases hread.symm.trans hbytes
  next => exact (Prod.mk.inj (Except.ok.inj h)).1.symm

/-- A file with the text of a catalogue holds what is written of it. -/
theorem holds_of_read {c : Catalogue} {fs : Files} (hentries : c.WasRead n)
    (hdepth : n + 6 = limit.levels)
    (hread : fs.read c.path = .ok (Text.Utf8.encode c.fileText.toList)) :
    Holds limit fs c.path c.written.entries :=
  ⟨_, hread, read_fileText hentries.storableWithin (Nat.le_of_eq hdepth)⟩

/-- What is loaded of a file that was saved is written as what was saved, by a new catalogue and by
    one that writes the same anyway. -/
theorem written_load_save {c c' : Catalogue} {fs : Files} (hentries : c.WasRead n)
    (hdepth : n + 6 = limit.levels) (hpath : c'.path = c.path)
    (hread : fs.read c.path = .ok (Text.Utf8.encode c.fileText.toList))
    (hwritten : c'.entries = .empty ∨ c'.written = c.written) :
    ∃ loaded count, c'.load limit fs = .ok (loaded, count) ∧ loaded.path = c.path ∧
      loaded.written = c.written := by
  have hsettled : ∀ e ∈ c.entries.entries, Entry.ofJson e.1 e.2.toJson = .ok e.2.settled := by
    intro e he
    obtain ⟨v, -, hok⟩ := hentries e he
    exact Entry.ofJson_toJson_of_ofJson hok
  have hfields : stored c.written.entries = c.entries.entries.map fun e => (e.1, e.2.settled) :=
    stored_map Entry.settled hsettled
  -- entry by entry, the same is written
  have hsame : (c.entries.entries.map fun e => (e.1, e.2.settled)).map
      (fun e => (e.1, e.2.toJson)) = c.written.entries := by
    rw [List.map_map]
    refine List.map_congr_left fun e _ => ?_
    show (e.1, e.2.settled.toJson) = (e.1, e.2.toJson)
    rw [Entry.toJson_settled]
  have hload := load_of_holds (hpath ▸ holds_of_read hentries hdepth hread)
  refine ⟨_, _, hload, hpath, ?_⟩
  rw [written, hfields, OrderedMap.map_foldl_insert, hsame]
  rcases hwritten with hempty | hwritten
  · rw [hempty]
    exact OrderedMap.ofList_entries c.written
  · rw [show c'.entries.map (·.toJson) = c.written from hwritten]
    exact OrderedMap.foldl_insert_of_get? fun e he => (OrderedMap.mem_entries_iff _ e.1 e.2).1 he

end Load

/-! ### One cycle after the other -/

/-- Loads the file and saves it, with what is known already or, after a restart, with nothing.
    Where the file cannot be loaded, nothing is saved. -/
def cycle (limit : Json.Depth) (restart : Bool) (s : Catalogue × Files) :
    Catalogue × Files × Option Json.EncodingFault :=
  let c := if restart then { path := s.1.path } else s.1
  match c.load limit s.2 with
  | .error _ => (c, s.2, none)
  | .ok (loaded, _) => (loaded, loaded.save s.2)

/-- The catalogue and the files after some cycles. -/
def after (limit : Json.Depth) (s : Catalogue × Files) (restarts : List Bool) : Catalogue × Files :=
  restarts.foldl (fun s restart => ((cycle limit restart s).1, (cycle limit restart s).2.1)) s

section Cycle

variable {limit : Json.Depth} {fs : Files} {p : Path}

/-- Catalogues of a kind that leave the files as they are, do not fail, and stay of the kind. -/
def Resting (limit : Json.Depth) (fs : Files) (kind : Catalogue → Prop) : Prop :=
  ∀ c restart, kind c → ∃ c', cycle limit restart (c, fs) = (c', fs, none) ∧ kind c'

theorem after_of_resting {kind : Catalogue → Prop} (h : Resting limit fs kind)
    (restarts : List Bool) {c : Catalogue} (hc : kind c) :
    ∃ c', after limit (c, fs) restarts = (c', fs) ∧ kind c' := by
  induction restarts generalizing c with
  | nil => exact ⟨c, rfl, hc⟩
  | cons restart restarts ih =>
    obtain ⟨c', hcycle, hc'⟩ := h c restart hc
    have hstep : after limit (c, fs) (restart :: restarts) = after limit (c', fs) restarts := by
      rw [after, List.foldl_cons, hcycle]
      rfl
    rw [hstep]
    exact ih hc'

/-- Where saving does nothing, catalogues of the path rest. -/
theorem resting_of_path (hsave : ∀ c : Catalogue, c.path = p → c.save fs = (fs, none)) :
    Resting limit fs (·.path = p) := by
  intro c restart hc
  have hpath : (if restart then { path := c.path } else c : Catalogue).path = p := by
    cases restart <;> exact hc
  unfold cycle
  dsimp only
  split
  · exact ⟨_, rfl, hpath⟩
  next loaded count hload =>
    have hloaded := (path_of_load hload).trans hpath
    exact ⟨loaded, by rw [hsave loaded hloaded], hloaded⟩

/-- A catalogue that was saved rests, with all that write the same, when they load what they
    write. -/
theorem resting_of_written {c : Catalogue}
    (hload : ∀ c' : Catalogue, c'.path = c.path → c'.entries = .empty ∨ c'.written = c.written →
      ∃ loaded count, c'.load limit fs = .ok (loaded, count) ∧ loaded.path = c.path ∧
        loaded.written = c.written)
    (hsave : ∀ c' : Catalogue, c'.path = c.path → c'.toJson = c.toJson → c'.save fs = (fs, none)) :
    Resting limit fs fun c' => c'.path = c.path ∧ c'.written = c.written := by
  rintro c' restart ⟨hpath, hwritten⟩
  obtain ⟨loaded, count, hloaded, hsame⟩ :
      ∃ loaded count, (if restart then { path := c'.path } else c' : Catalogue).load limit fs =
        .ok (loaded, count) ∧ loaded.path = c.path ∧ loaded.written = c.written := by
    cases restart with
    | false => exact hload c' hpath (.inr hwritten)
    | true => exact hload { path := c'.path } hpath (.inl rfl)
  refine ⟨loaded, ?_, hsame⟩
  unfold cycle
  simp only [hloaded, hsave loaded hsame.1 (toJson_eq_iff.2 hsame.2)]

/-- **The first cycle** of a new catalogue, with a file that is paired, does not fail and comes to
    rest. -/
theorem resting_of_cycle (limit : Json.Depth) (restart : Bool)
    (hpaired : ∀ cs, fs.read p = .ok (Text.Utf8.encode cs) → Json.Paired (textOf cs)) :
    ∃ c fs' kind, cycle limit restart ({ path := p }, fs) = (c, fs', none) ∧ kind c ∧
      Resting limit fs' kind := by
  cases hload : Catalogue.load { path := p } limit fs with
  | error fault =>
    have hcycle : ∀ restart, cycle limit restart ({ path := p }, fs) =
        ({ path := p }, fs, none) := by
      intro restart
      simp [cycle, hload]
    refine ⟨_, fs, (· = { path := p }), hcycle restart, rfl, fun c restart hc => ?_⟩
    exact ⟨_, hc ▸ hcycle restart, rfl⟩
  | ok result =>
    obtain ⟨c, count⟩ := result
    obtain ⟨n, hdepth⟩ := exists_levels_eq limit
    have hentries := wasRead_of_load hdepth hpaired hload
    obtain ⟨saved, hsave, hcases⟩ := save_cases hentries.encodable fs
    have hpath : c.path = p := path_of_load hload
    have hcycle : cycle limit restart ({ path := p }, fs) = (c, saved, none) := by
      simp [cycle, hload, hsave]
    rcases hcases with hany | ⟨hsame, hasked, hfile⟩
    · exact ⟨c, saved, (·.path = c.path), hcycle, rfl, resting_of_path hany⟩
    · refine ⟨c, saved, _, hcycle, ⟨rfl, rfl⟩,
        resting_of_written (fun c' hpath' hwritten => ?_) hsame⟩
      rcases hfile with hread | ⟨⟨e, hread⟩, e', hbefore⟩
      · exact written_load_save hentries hdepth hpath' hread hwritten
      · -- what cannot be read now could not be read before, so nothing was loaded
        have hnothing : c = { path := p } := eq_of_load (hpath ▸ hbefore) hload
        have hload' : c'.load limit saved = .ok (c', 0) := by
          rw [load, storedFields?_of_unusable
            (.unread (hpath'.symm ▸ hasked) (hpath'.symm ▸ hread))]
        refine ⟨c', 0, hload', hpath', hwritten.elim (fun hempty => ?_) id⟩
        rw [written, written, hempty, hnothing]

end Cycle

/-- Where a file can be written and read at all, what was loaded is held by the file after the first
    cycle. -/
theorem holds_of_cycle {limit : Json.Depth} {p : Path} {fs made probe : Files} (restart : Bool)
    {fields : List (String × Json)}
    (hpaired : ∀ cs, fs.read p = .ok (Text.Utf8.encode cs) → Json.Paired (textOf cs))
    (hholds : Holds limit fs p fields) (hdirs : fs.makeDirs p.parent = (made, none))
    (hwrite : made.write p [] = .ok probe) (hread : probe.read p = .ok []) :
    Holds limit (cycle limit restart ({ path := p }, fs)).2.1 p
      ((stored fields).map fun e => (e.1, e.2.toJson)) := by
  obtain ⟨n, hdepth⟩ := exists_levels_eq limit
  obtain ⟨c, count, hload⟩ : ∃ c count, Catalogue.load { path := p } limit fs = .ok (c, count) :=
    ⟨_, _, load_of_holds (c := { path := p }) hholds⟩
  have hentries := wasRead_of_load hdepth hpaired hload
  obtain rfl : c.path = p := path_of_load hload
  obtain ⟨saved, hsaved, hfile⟩ :=
    Files.read_of_write hwrite hread (Text.Utf8.encode c.fileText.toList)
  have hsave : c.save fs = (saved, none) := save_of_write hentries.storableWithin hdirs hsaved
  have hcycle : (cycle limit restart ({ path := c.path }, fs)).2.1 = saved := by
    simp [cycle, hload, hsave]
  rw [hcycle, ← entries_of_load hholds hload]
  exact holds_of_read hentries hdepth hfile

theorem paired_mixedFiles (cs : List Char)
    (h : mixedFiles.read olderCatalogue.path = .ok (Text.Utf8.encode cs)) :
    Json.Paired (textOf cs) := by
  have hstorable := storableWithin_mixedFields.storable
  have hread : mixedFiles.read olderCatalogue.path =
      .ok (Text.Utf8.encode ((Json.obj mixedFields).render .file).toList) := rfl
  have hdecode := congrArg Text.Utf8.decode? (Except.ok.inj (h.symm.trans hread))
  rw [Text.Utf8.decode?_encode, Text.Utf8.decode?_encode, Option.some.injEq] at hdecode
  rw [hdecode, textOf_render hstorable]
  exact Json.paired_render rfl hstorable

/-- An entry whose version mark has a surrogate without its other half. -/
def raggedText : String :=
  "\x7b\"wiki\": \x7b\"functions\": \x7b\x7d, \"lastUpdate\": \"2024-01-01\", " ++
    "\"etag\": \"v\\ud800\"\x7d\x7d"

/-- A file with this text. -/
def raggedFiles : Files where
  nodes := .ofList [(["index.json"], .file (Text.Utf8.encode raggedText.toList))]

end LuaAudit.Index.Catalogue
