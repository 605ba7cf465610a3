import LuaAudit.Proofs.Docs.Catalog

/-!
# The keys that functions stand under

A declaration gives a function its name and its key at once.  A catalog and a stored record have the
two apart: the key is that of the object, and the name is one of its fields.

* `Keyed`: every function stands under its name;
* `keyed_extract`: so it is for every kind of source but catalogs;
* `exists_of_get?_ofJson`: what a function of a stored entry is read from;
* `Renamed`: a key and a name that a catalog or a stored record has apart;
* `renamed_of_extract`, `renamed_of_ofJson`: no function stands under another key for another
  reason.
-/

namespace LuaAudit.Docs

/-! ### Declarations -/

/-- Every function stands under its name. -/
def Keyed (functions : Signatures) : Prop := ∀ k d, functions.get? k = some d → d.name = k

theorem Keyed.insert {functions : Signatures} (h : Keyed functions) (d : Signature) :
    Keyed (functions.insert d.name d) := by
  intro k d' hget
  rw [OrderedMap.get?_insert] at hget
  split at hget
  next hk =>
    obtain rfl := Option.some.inj hget
    exact hk.symm
  · exact h k d' hget

/-- A declaration is kept under the name that its signature has. -/
theorem name_signature (source : String) (d : Declaration) (comment : Option (List (List Char))) :
    (signature source d comment).name = String.ofList d.name := by
  cases comment <;> rfl

theorem Walk.keyed_step {w : Walk} (h : Keyed w.found) (source : String) (shapes : List Shape)
    (line : List Char) : Keyed (w.step source shapes line).found := by
  unfold Walk.step
  split
  · exact h
  · split
    next d _ =>
      have hkept := h.insert (signature source d w.pending)
      rwa [name_signature] at hkept
    · split <;> exact h

theorem keyed_walk (content source : String) (shapes : List Shape) :
    Keyed (walk content source shapes) := by
  unfold walk
  generalize (Text.splitOn '\n' content.toList).map Text.trim = lines
  have hfold : ∀ w : Walk, Keyed w.found →
      Keyed (lines.foldl (Walk.step source shapes) w).found := by
    induction lines with
    | nil => exact fun w h => h
    | cons line lines ih => exact fun w h => ih _ (Walk.keyed_step h source shapes line)
  exact hfold {} fun k d h => by cases h

/-- Declarations are keyed by name, whatever the form and the kind of the source. -/
theorem keyed_extract {limit : Json.Depth} {content source : String} {kind : Kind}
    {found : Signatures} (hkind : kind ≠ .catalog)
    (h : extract limit content source kind = .ok found) : Keyed found := by
  cases kind with
  | annotated =>
    obtain rfl := Except.ok.inj h
    exact keyed_walk content source annotatedShapes
  | hybrid =>
    obtain rfl := Except.ok.inj h
    exact keyed_walk content source hybridShapes
  | catalog => exact absurd rfl hkind
  | plain =>
    obtain rfl := Except.ok.inj h
    unfold extractPlain
    split
    · exact keyed_walk content source hybridShapes
    · intro k d hget
      obtain ⟨o, -, ho⟩ := List.mem_map.1 (OrderedMap.mem_of_get?_ofList hget)
      obtain ⟨rfl, rfl⟩ := Prod.mk.inj ho
      exact name_signature source o.value none

/-! ### Catalogs -/

/-- A text that is not the default was given. -/
theorem exists_of_textOr_ne {default : String} {v : Option Json} (h : textOr default v ≠ default) :
    ∃ x, v = some x ∧ x.truthy ∧ textOr default v = x.asText := by
  unfold textOr at h ⊢
  split at h
  next x =>
    split at h
    next htruthy => exact ⟨x, rfl, htruthy, if_pos htruthy⟩
    · exact absurd rfl h
  · exact absurd rfl h

/-! ### Stored entries -/

section Except

variable {ε α β : Type}

theorem exists_of_bind_eq_ok {x : Except ε α} {f : α → Except ε β} {b : β}
    (h : x >>= f = .ok b) : ∃ a, x = .ok a ∧ f a = .ok b := by
  cases x with
  | error e => cases h
  | ok a => exact ⟨a, rfl, h⟩

/-- What is read of a list was read of one of its members. -/
theorem exists_of_mem_mapM {f : α → Except ε β} {xs : List α} {ys : List β}
    (h : xs.mapM f = .ok ys) {y : β} (hy : y ∈ ys) : ∃ x ∈ xs, f x = .ok y := by
  induction xs generalizing ys with
  | nil =>
    cases h
    cases hy
  | cons x xs ih =>
    rw [List.mapM_cons] at h
    obtain ⟨z, hz, h⟩ := exists_of_bind_eq_ok h
    obtain ⟨zs, hzs, h⟩ := exists_of_bind_eq_ok h
    cases h
    rcases List.mem_cons.1 hy with rfl | hy
    · exact ⟨x, List.mem_cons_self, hz⟩
    · obtain ⟨x', hx', hread⟩ := ih hzs hy
      exact ⟨x', List.mem_cons_of_mem x hx', hread⟩

end Except

theorem exists_of_keyed {v x : Json} {key : String} (h : keyed v key = .ok x) :
    ∃ fields, v = .obj fields ∧ Json.field? fields key = some x := by
  unfold keyed at h
  split at h
  next fields =>
    split at h
    next hfield =>
      cases h
      exact ⟨fields, rfl, hfield⟩
    · cases h
  · cases h

/-- A stored function has the name that its record gives. -/
theorem exists_of_ofJson {v : Json} {d : Signature} (h : Signature.ofJson v = .ok d) :
    ∃ record x, v = .obj record ∧ Json.field? record "name" = some x ∧ d.name = x.asText := by
  obtain ⟨x, hx, h⟩ := exists_of_bind_eq_ok h
  obtain ⟨parameters, -, h⟩ := exists_of_bind_eq_ok h
  obtain ⟨returns, -, h⟩ := exists_of_bind_eq_ok h
  obtain ⟨examples, -, h⟩ := exists_of_bind_eq_ok h
  cases h
  obtain ⟨record, rfl, hfield⟩ := exists_of_keyed hx
  exact ⟨record, x, rfl, hfield, rfl⟩

/-- A function of a stored entry is read from the record under its key. -/
theorem exists_of_get?_ofJson {name k : String} {v : Json} {e : Entry} {d : Signature}
    (h : Entry.ofJson name v = .ok e) (hget : e.functions.get? k = some d) :
    ∃ fields stored record, v = .obj fields ∧
      Json.field? fields "functions" = some (.obj stored) ∧ (k, .obj record) ∈ stored ∧
      Signature.ofJson (.obj record) = .ok d := by
  obtain ⟨fields, hfields, h⟩ := exists_of_bind_eq_ok h
  obtain ⟨named, hnamed, h⟩ := exists_of_bind_eq_ok h
  obtain ⟨functions, hfunctions, h⟩ := exists_of_bind_eq_ok h
  obtain ⟨time, -, h⟩ := exists_of_bind_eq_ok h
  obtain ⟨updated, -, h⟩ := exists_of_bind_eq_ok h
  cases h
  obtain ⟨⟨key, x⟩, hmem, hread⟩ :=
    exists_of_mem_mapM hfunctions (OrderedMap.mem_of_get?_ofList hget)
  obtain ⟨d', hd', hpair⟩ := exists_of_bind_eq_ok hread
  cases hpair
  obtain ⟨record, n, rfl, -, -⟩ := exists_of_ofJson hd'
  have hv : v = .obj fields := by
    unfold fieldsOf at hfields
    split at hfields
    · cases hfields
      rfl
    · cases hfields
  refine ⟨fields, named, record, hv, ?_, hmem, hd'⟩
  -- Members that are there were named in an object.
  unfold namedMembers at hnamed
  split at hnamed
  · cases hnamed
    cases hmem
  next hfield =>
    split at hnamed
    · cases hnamed
      cases hmem
    · split at hnamed
      · cases hnamed
        exact hfield
      · cases hnamed

/-! ### Other names -/

/-- Why a function of an entry stands under a key that is not its name, where the sources are of
    some kinds. -/
inductive Renamed (kinds : List Kind) (e : Entry) (k : String) (d : Signature) : Prop where
  /-- The entry was extracted from a catalog, and the object under the key gives another name. -/
  | catalog {limit : Json.Depth} {content source : String} {natives fields : List (String × Json)}
      {v : Json} (hkind : .catalog ∈ kinds)
      (hentry : extract limit content source .catalog = .ok e.functions)
      (hcontent : Json.read limit content = .ok (some (.obj natives)))
      (hobject : (k, .obj fields) ∈ natives) (hd : readEntry source k (.obj fields) = .ok d)
      (hname : Json.field? fields "name" = some v) (htruthy : v.truthy) (hother : v.asText ≠ k)
  /-- The entry was stored, and the record under the key gives another name. -/
  | stored {source : String} {fields functions record : List (String × Json)} {v : Json}
      (hentry : Entry.ofJson source (.obj fields) = .ok e)
      (hfunctions : Json.field? fields "functions" = some (.obj functions))
      (hrecord : (k, .obj record) ∈ functions) (hd : Signature.ofJson (.obj record) = .ok d)
      (hname : Json.field? record "name" = some v) (hother : v.asText ≠ k)

/-- What is extracted stands under its name, unless a catalog gives another. -/
theorem renamed_of_extract {kinds : List Kind} {e : Entry} {limit : Json.Depth}
    {content source k : String} {kind : Kind} {d : Signature}
    (hkind : kind = .annotated ∨ kind ∈ kinds)
    (hentry : extract limit content source kind = .ok e.functions)
    (hget : e.functions.get? k = some d) (hname : d.name ≠ k) : Renamed kinds e k d := by
  by_cases hcatalog : kind = .catalog
  · subst hcatalog
    obtain ⟨natives, fields, hcontent, hobject, hd⟩ := exists_of_get?_extractCatalog hentry hget
    rw [(describes_of_readEntry hd).name] at hname
    obtain ⟨v, hv, htruthy, htext⟩ := exists_of_textOr_ne hname
    refine .catalog (hkind.resolve_left (by decide)) hentry hcontent hobject hd hv htruthy ?_
    exact fun hk => hname (htext.trans hk)
  · exact absurd (keyed_extract hcatalog hentry k d hget) hname

/-- What was stored stands under its name, unless its record gives another. -/
theorem renamed_of_ofJson {kinds : List Kind} {name k : String} {v : Json} {e : Entry}
    {d : Signature} (h : Entry.ofJson name v = .ok e) (hget : e.functions.get? k = some d)
    (hname : d.name ≠ k) : Renamed kinds e k d := by
  obtain ⟨fields, stored, record, rfl, hfunctions, hrecord, hd⟩ := exists_of_get?_ofJson h hget
  obtain ⟨record', n, hrecord', hn, htext⟩ := exists_of_ofJson hd
  cases hrecord'
  exact .stored h hfunctions hrecord hd hn fun hk => hname (htext.trans hk)

end LuaAudit.Docs
