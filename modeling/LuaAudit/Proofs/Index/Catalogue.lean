import LuaAudit.Index.Catalogue
import LuaAudit.Proofs.Docs.Record
import LuaAudit.Proofs.Docs.Timestamp
import LuaAudit.Proofs.Files.Write
import LuaAudit.Proofs.Json.Written
import LuaAudit.Proofs.Text.Utf8

/-!
# The catalogue saved and loaded

What is saved of a catalogue is loaded again, entry by entry and in the same order: the file holds
JSON text in UTF-8, the text is cut into the tokens of the entries, and each record is read back.

* `Docs.Entry.WellFormed` says which entries are read back as they were;
* `Docs.Entry.StorableWithin`: the entries whose values can stand in a file and are nested so deep,
  `storableWithin_toJson`: as they are written;
* `addStored_eq`: what is made of the fields of a file;
* `read_fileText`, `storedFields?_of_read`: a file with the text of a catalogue holds its entries;
* `load_save`: saving and then loading gives the catalogue back.
-/

namespace LuaAudit.Text

/-- A text without carriage returns has no other line ends than line feeds. -/
theorem unifyNewlines_of_notMem {cs : List Char} (h : '\r' ∉ cs) : unifyNewlines cs = cs := by
  fun_induction unifyNewlines cs with
  | case1 => rfl
  | case2 cs _ => simp at h
  | case3 cs _ _ => simp at h
  | case4 c cs _ _ ih => rw [ih fun hmem => h (List.mem_cons_of_mem c hmem)]

end LuaAudit.Text

namespace LuaAudit.Docs

/-! ### Well-formed entries -/

/-- A text, or nothing. -/
def IsNote (v : Json) : Prop := v = .null ∨ ∃ s, v = .str s

/-- A text that is not empty, or nothing. -/
def IsMark (v : Json) : Prop := v = .null ∨ ∃ s, s ≠ "" ∧ v = .str s

/-- A timestamp that was read, or the present moment when it was taken, in universal time and up to
    the end of year 9999. -/
def Timestamp.IsTaken (t : Timestamp) : Prop :=
  (∃ s, Timestamp.parse s = .ok t) ∨
    ∃ seconds micro, seconds < 315537897600 ∧ micro < 1000000 ∧
      t = { Timestamp.ofSeconds seconds with micro }

/-- An entry under a name: its functions are well formed and described by texts, if at all; its time
    was read or taken; its version marks are not empty; and it has a source, or that of its name. -/
structure Entry.WellFormed (name : String) (e : Entry) : Prop where
  functions : ∀ d ∈ e.functions.values, d.WellFormed
  parameters : ∀ d ∈ e.functions.values, ∀ p ∈ d.parameters, IsNote p.description
  returns : ∀ d ∈ e.functions.values, ∀ r ∈ d.returns, IsNote r.description
  updated : e.updated.IsTaken
  etag : IsMark e.etag
  lastModified : IsMark e.lastModified
  source : e.source ≠ "" ∨ e.source = name

theorem IsNote.storableWithin {v : Json} (h : IsNote v) (n : Nat) : v.StorableWithin n := by
  rcases h with rfl | ⟨s, rfl⟩
  · exact .null n
  · exact .str n s

theorem IsMark.isNote {v : Json} (h : IsMark v) : IsNote v :=
  h.imp_right fun ⟨s, _, hs⟩ => ⟨s, hs⟩

theorem IsMark.truthy_or {v : Json} (h : IsMark v) : v.truthy ∨ v = .null := by
  rcases h with rfl | ⟨s, hs, rfl⟩
  · exact .inr rfl
  · exact .inl (by simpa [Json.truthy] using hs)

theorem Timestamp.IsTaken.inRange {t : Timestamp} (h : t.IsTaken) : t.InRange := by
  rcases h with ⟨s, hs⟩ | ⟨seconds, micro, hseconds, hmicro, rfl⟩
  · exact Timestamp.inRange_of_parse hs
  · exact Timestamp.inRange_ofSeconds hseconds hmicro

/-- A well-formed entry is read back under its name. -/
theorem Entry.WellFormed.ofJson_toJson {name : String} {e : Entry} (h : e.WellFormed name) :
    Entry.ofJson name e.toJson = .ok e :=
  Entry.ofJson_toJson h.functions h.source (Timestamp.parse_text h.updated.inRange)
    h.etag.truthy_or h.lastModified.truthy_or

/-! ### Records in a file -/

/-- A description that can be stored makes a field that can. -/
theorem storableWithin_descriptionField {n : Nat} {v : Json} (h : v.StorableWithin n) :
    ∀ f ∈ descriptionField v, f.2.StorableWithin n := by
  unfold descriptionField
  split
  · exact nofun
  · exact List.forall_mem_singleton.2 h

theorem nodup_keys_descriptionField (v : Json) {keys : List String} (hkeys : keys.Nodup)
    (hnew : "description" ∉ keys) : (keys ++ (descriptionField v).map Prod.fst).Nodup := by
  unfold descriptionField
  split
  · simpa using hkeys
  · refine List.nodup_append.2 ⟨hkeys, List.nodup_singleton _, ?_⟩
    rintro a ha b hb rfl
    obtain rfl : a = "description" := List.mem_singleton.1 hb
    exact hnew ha

theorem Parameter.storableWithin_toJson {n : Nat} {p : Parameter}
    (h : p.description.StorableWithin n) : p.toJson.StorableWithin (n + 1) := by
  unfold Parameter.toJson
  refine Json.StorableWithin.obj_iff.2 ⟨?_, ?_⟩
  · rw [List.map_append]
    exact nodup_keys_descriptionField _ (by simp) (by simp)
  · refine List.forall_mem_append.2 ⟨?_, storableWithin_descriptionField h⟩
    simp [Json.StorableWithin.str, Json.StorableWithin.bool]

theorem Return.storableWithin_toJson {n : Nat} {r : Return} (h : r.description.StorableWithin n) :
    r.toJson.StorableWithin (n + 1) := by
  unfold Return.toJson
  refine Json.StorableWithin.obj_iff.2
    ⟨?_, List.forall_mem_cons.2 ⟨.str _ _, storableWithin_descriptionField h⟩⟩
  exact nodup_keys_descriptionField r.description (show ["type"].Nodup by simp) (by simp)

/-- A list of values that are written each for itself. -/
theorem storableWithin_map {α : Type} {write : α → Json} {as : List α} {n : Nat}
    (h : ∀ a ∈ as, (write a).StorableWithin n) :
    Json.StorableWithin (n + 1) (.arr (as.map write)) := by
  refine Json.StorableWithin.arr_iff.2 fun v hv => ?_
  obtain ⟨a, ha, rfl⟩ := List.mem_map.1 hv
  exact h a ha

/-- A signature whose descriptions can stand in a file and are nested at most so deep. -/
structure Signature.StorableWithin (n : Nat) (d : Signature) : Prop where
  parameters : ∀ p ∈ d.parameters, p.description.StorableWithin n
  returns : ∀ r ∈ d.returns, r.description.StorableWithin n

theorem Signature.StorableWithin.toJson {n : Nat} {d : Signature} (h : d.StorableWithin n) :
    d.toJson.StorableWithin (n + 3) := by
  have hp : Json.StorableWithin (n + 2) (.arr (d.parameters.map (·.toJson))) :=
    storableWithin_map fun p hp => Parameter.storableWithin_toJson (h.parameters p hp)
  have hr : Json.StorableWithin (n + 2) (.arr (d.returns.map (·.toJson))) :=
    storableWithin_map fun r hr => Return.storableWithin_toJson (h.returns r hr)
  have he : Json.StorableWithin (n + 2) (.arr (d.examples.map .str)) :=
    storableWithin_map fun s _ => .str _ s
  exact Json.StorableWithin.obj_iff.2 ⟨by simp, by simp [Json.StorableWithin.str, hp, hr, he]⟩

/-- The values of a map, each written for itself under its key. -/
theorem storableWithin_entries {α : Type} {write : α → Json} {m : OrderedMap String α} {n : Nat}
    (h : ∀ a ∈ m.entries, (write a.2).StorableWithin n) :
    Json.StorableWithin (n + 1) (.obj (m.map write).entries) := by
  refine Json.StorableWithin.obj_iff.2 ⟨(m.map write).distinct, fun f hf => ?_⟩
  obtain ⟨a, ha, rfl⟩ := List.mem_map.1 hf
  exact h a ha

/-- An entry whose descriptions and version marks can stand in a file.  The marks may be nested
    deeper than the descriptions, as far as the entry itself is not. -/
structure Entry.StorableWithin (n : Nat) (e : Entry) : Prop where
  functions : ∀ d ∈ e.functions.values, d.StorableWithin n
  etag : e.etag.StorableWithin (n + 4)
  lastModified : e.lastModified.StorableWithin (n + 4)

theorem Entry.StorableWithin.toJson {n : Nat} {e : Entry} (h : e.StorableWithin n) :
    e.toJson.StorableWithin (n + 5) := by
  have hfunctions : Json.StorableWithin (n + 4) (.obj (e.functions.map (·.toJson)).entries) :=
    storableWithin_entries fun f hf => (h.functions f.2 (List.mem_map.2 ⟨f, hf, rfl⟩)).toJson
  have hetag := h.etag
  have hmodified := h.lastModified
  unfold Entry.toJson markField
  by_cases h1 : e.etag.truthy <;> by_cases h2 : e.lastModified.truthy <;>
    exact Json.StorableWithin.obj_iff.2 ⟨by simp [h1, h2],
      by simp [h1, h2, Json.StorableWithin.str, hfunctions, hetag, hmodified]⟩

theorem Entry.WellFormed.storableWithin {name : String} {e : Entry} (h : e.WellFormed name) :
    e.StorableWithin 0 where
  functions d hd := ⟨fun p hp => (h.parameters d hd p hp).storableWithin _,
    fun r hr => (h.returns d hd r hr).storableWithin _⟩
  etag := h.etag.isNote.storableWithin _
  lastModified := h.lastModified.isNote.storableWithin _

end LuaAudit.Docs

namespace LuaAudit.Index.Catalogue

open Location (Path)
open Docs (Entry)

/-! ### Saving and loading -/

variable {c : Catalogue} {limit : Json.Depth}

theorem storableWithin_toJson {n : Nat} (h : ∀ e ∈ c.entries.entries, e.2.StorableWithin n) :
    c.toJson.StorableWithin (n + 6) :=
  Docs.storableWithin_entries fun e he => (h e he).toJson

/-- The text that bytes of characters stand for, with its line ends unified. -/
def textOf (cs : List Char) : String := String.ofList (Text.unifyNewlines cs)

/-- The entries that can be read of some fields, each under its key. -/
def stored (fields : List (String × Json)) : List (String × Entry) :=
  fields.filterMap fun f => (Entry.ofJson f.1 f.2).toOption.map fun e => (f.1, e)

/-- What can be read is kept, entry by entry, and counted. -/
theorem addStored_eq (c : Catalogue) (fields : List (String × Json)) :
    c.addStored fields =
      ({ c with entries := (stored fields).foldl (fun m e => m.insert e.1 e.2) c.entries },
        (stored fields).length) := by
  induction fields generalizing c with
  | nil => rfl
  | cons f fields ih =>
    obtain ⟨name, v⟩ := f
    rw [addStored, stored, List.filterMap_cons]
    cases hread : Entry.ofJson name v with
    | error cause => exact ih c
    | ok e =>
      dsimp only
      rw [ih]
      rfl

/-- Entries that are read back, as they were or in another form. -/
theorem stored_map {es : List (String × Entry)} (restore : Entry → Entry)
    (h : ∀ e ∈ es, Entry.ofJson e.1 e.2.toJson = .ok (restore e.2)) :
    stored (es.map fun e => (e.1, e.2.toJson)) = es.map fun e => (e.1, restore e.2) := by
  unfold stored
  rw [List.filterMap_map, ← List.filterMap_eq_map]
  refine List.filterMap_congr fun e he => ?_
  simp [h e he, Except.toOption]

/-- The entries that are written are read one by one, and counted. -/
theorem addStored_map {es : List (String × Entry)}
    (h : ∀ e ∈ es, Entry.ofJson e.1 e.2.toJson = .ok e.2) (c : Catalogue) :
    c.addStored (es.map fun e => (e.1, e.2.toJson)) =
      ({ c with entries := es.foldl (fun m e => m.insert e.1 e.2) c.entries }, es.length) := by
  have hstored := stored_map id h
  rw [show (es.map fun e => (e.1, id e.2)) = es from List.map_id es] at hstored
  rw [addStored_eq, hstored]

/-- A carriage return in a text is escaped, so that line ends are left alone. -/
theorem textOf_render {v : Json} (h : v.Storable) :
    textOf (v.render .file).toList = v.render .file := by
  rw [textOf, Text.unifyNewlines_of_notMem (Json.return_notMem_render rfl h), String.ofList_toList]

/-- The text of a value, as it is read of a file, is that of the value. -/
theorem read_textOf_render {v : Json} (h : v.StorableWithin limit.levels) :
    Json.read limit (textOf (v.render .file).toList) = .ok (some v) := by
  rw [textOf_render h.storable]
  exact Json.read_render rfl h.storable h.within

theorem read_fileText {n : Nat} (h : ∀ e ∈ c.entries.entries, e.2.StorableWithin n)
    (hdepth : n + 6 ≤ limit.levels) :
    Json.read limit (textOf c.fileText.toList) = .ok (some c.toJson) :=
  read_textOf_render ((storableWithin_toJson h).mono hdepth)

/-- What is made of a file that can be read. -/
theorem storedFields?_of_read_eq_ok {fs : Files} {p : Path} {bytes : Bytes}
    (hread : fs.read p = .ok bytes) : storedFields? limit fs p = fieldsIn? limit bytes := by
  have hexists : fs.pathExists p = .ok true := Files.pathExists_of_read hread
  rw [storedFields?, hexists]
  dsimp only
  rw [hread]

/-- A file with the text of a catalogue holds its entries. -/
theorem storedFields?_of_read {fs : Files} {p : Path} {n : Nat}
    (h : ∀ e ∈ c.entries.entries, e.2.StorableWithin n) (hdepth : n + 6 ≤ limit.levels)
    (hread : fs.read p = .ok (Text.Utf8.encode c.fileText.toList)) :
    storedFields? limit fs p = .ok (some (c.entries.map (·.toJson)).entries) := by
  rw [storedFields?_of_read_eq_ok hread, fieldsIn?, Text.Utf8.decode?_encode]
  dsimp only
  rw [← textOf, read_fileText h hdepth]
  rfl

/-- What can be stored is saved where a file can be written. -/
theorem save_of_write {n : Nat} {fs made written : Files}
    (h : ∀ e ∈ c.entries.entries, e.2.StorableWithin n)
    (hdirs : fs.makeDirs c.path.parent = (made, none))
    (hwrite : made.write c.path (Text.Utf8.encode c.fileText.toList) = .ok written) :
    c.save fs = (written, none) := by
  have hfault := Json.encodingFault?_of_storable .file (storableWithin_toJson h).storable
  unfold save
  rw [hdirs]
  simp only [hfault, Option.isSome_none, Bool.false_eq_true, if_false, hwrite]

/-- **Nothing is lost.**  Where a file can be written and read at all, the file of a catalogue of
    well-formed entries holds their JSON in UTF-8, and loading it gives the same entries in the same
    order, and their number. -/
theorem load_save {c : Catalogue} {fs made written : Files}
    (hentries : ∀ e ∈ c.entries.entries, e.2.WellFormed e.1)
    (hdirs : fs.makeDirs c.path.parent = (made, none)) (hwrite : made.write c.path [] = .ok written)
    (hread : written.read c.path = .ok []) (limit : Json.Depth) :
    ∃ saved, c.save fs = (saved, none) ∧
      saved.read c.path =
        .ok (Text.Utf8.encode (c.toJson.render { indent := some 2, ascii := false }).toList) ∧
      Catalogue.load { path := c.path } limit saved = .ok (c, c.entries.size) := by
  obtain ⟨saved, hsaved, hfile⟩ :=
    Files.read_of_write hwrite hread (Text.Utf8.encode c.fileText.toList)
  have hstorable := fun e he => (hentries e he).storableWithin
  refine ⟨saved, save_of_write hstorable hdirs hsaved, hfile, ?_⟩
  have hstored := storedFields?_of_read hstorable (Nat.le_trans (by decide) limit.enough) hfile
  have hadd := addStored_map (fun e he => (hentries e he).ofJson_toJson) { path := c.path }
  -- inserting the entries one by one into nothing gives the map they came from
  have hall : c.entries.entries.foldl (fun m e => m.insert e.1 e.2) .empty = c.entries :=
    OrderedMap.ofList_entries c.entries
  rw [load, hstored]
  exact congrArg Except.ok (hadd.trans (by rw [hall]; rfl))

/-- A function whose texts have quotes, backslashes, line ends and characters beyond ASCII. -/
def oddFunction : Docs.Signature where
  name := "Core\\Use"
  source := "Wiki"
  description := "first\r\nsecond\u0000\t𝄞"
  parameters := [
    { name := "item", type := .known "number|nil", optional := true, description := .str "" },
    { name := "..." }]
  returns := [{ type := "table", description := .str "\"\\\r" }]
  examples := ["", "\u2028"]

/-- An entry with that function and all there is to know of it. -/
def oddEntry : Entry where
  source := "Wiki"
  functions := .ofList [("Core\\Use", oddFunction)]
  updated := {
    year := 2024, month := 2, day := 29, hour := 23, micro := 5, offset := some (-5400000000) }
  etag := .str "W/\"1\""

/-- An entry with next to nothing, under the empty name. -/
def bareEntry : Entry where
  source := ""
  functions := .empty
  updated := .ofSeconds 63838368000

/-- A catalogue of the two. -/
def oddCatalogue : Catalogue where
  path := ⟨.root, ["data", "docs", "index.json"]⟩
  entries := .ofList [("Wiki \"é\"", oddEntry), ("", bareEntry)]

theorem wellFormed_oddCatalogue : ∀ e ∈ oddCatalogue.entries.entries, e.2.WellFormed e.1 := by
  have hodd : oddEntry.WellFormed "Wiki \"é\"" := {
    functions := by
      rintro d (_ | ⟨_, ⟨⟩⟩)
      exact ⟨by simp [oddFunction]; exact ⟨.known rfl (by decide) (by decide), .unknown⟩,
        by simp [oddFunction]⟩
    parameters := by
      rintro d (_ | ⟨_, ⟨⟩⟩)
      simp [oddFunction, Docs.IsNote]
    returns := by
      rintro d (_ | ⟨_, ⟨⟩⟩)
      simp [oddFunction, Docs.IsNote]
    updated := .inl ⟨_, Docs.Timestamp.parse_text
      ⟨by decide, by decide, by decide, by decide, by decide, by decide, by decide,
        by simp [oddEntry]⟩⟩
    etag := .inr ⟨_, by decide, rfl⟩
    lastModified := .inl rfl
    source := .inl (by decide) }
  have hbare : bareEntry.WellFormed "" := {
    functions := nofun
    parameters := nofun
    returns := nofun
    updated := .inr ⟨63838368000, 0, by decide, by decide, rfl⟩
    etag := .inl rfl
    lastModified := .inl rfl
    source := .inr rfl }
  rintro e (_ | ⟨_, _ | ⟨_, ⟨⟩⟩⟩)
  · exact hodd
  · exact hbare

theorem load_save_oddCatalogue : ∃ saved, oddCatalogue.save {} = (saved, none) ∧
    Catalogue.load { path := oddCatalogue.path } {} saved = .ok (oddCatalogue, 2) := by
  have hdirs : Files.makeDirs {} oddCatalogue.path.parent = (_, none) := rfl
  obtain ⟨saved, hsave, -, hload⟩ := load_save wellFormed_oddCatalogue hdirs rfl rfl {}
  exact ⟨saved, hsave, hload⟩

end LuaAudit.Index.Catalogue
