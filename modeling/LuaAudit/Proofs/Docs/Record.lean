import LuaAudit.Docs.Record
import LuaAudit.Proofs.OrderedMap
import LuaAudit.Proofs.Text.Blank

/-!
# Records written and read back

Writing a record and reading it again gives it back, but for what reading takes as missing: a
parameter without a name, a result without a type, and a type that is no clean name.

* `TypeRef.Clean` and `TypeRef.parse_text_eq_self_iff`: the types that are read back;
* `Signature.restored` is what is read back of a signature, `Signature.ofJson_toJson`: always, and
  `Signature.restored_eq_self_iff`: when that is the signature itself;
* `Entry.ofJson_toJson`: what it takes for an entry to be read back.
-/

namespace LuaAudit.Docs

/-! ### Types -/

/-- A type that is not known, or a name without blanks around it that is neither empty nor `any`. -/
inductive TypeRef.Clean : TypeRef → Prop where
  | unknown : Clean .unknown
  | known {name : String} (trimmed : Text.trim name.toList = name.toList) (hne : name ≠ "")
      (hany : name ≠ "any") : Clean (.known name)

/-- Reading a type gives a clean one. -/
theorem TypeRef.clean_parse (s : String) : (TypeRef.parse s).Clean := by
  unfold TypeRef.parse
  dsimp only
  split
  · exact .unknown
  next h =>
    obtain ⟨hne, hany⟩ := not_or.1 h
    refine .known ?_ hne hany
    rw [String.toList_ofList, Text.trim_trim]

theorem TypeRef.clean_ofJson (v : Option Json) : (TypeRef.ofJson v).Clean := by
  unfold TypeRef.ofJson
  split
  · exact TypeRef.clean_parse _
  · exact TypeRef.clean_parse _
  · exact .unknown

/-- A type is read back as it was written exactly when it is clean. -/
theorem TypeRef.parse_text_eq_self_iff (t : TypeRef) : TypeRef.parse t.text = t ↔ t.Clean := by
  constructor
  · intro h
    rw [← h]
    exact TypeRef.clean_parse _
  · intro h
    cases h with
    | unknown => decide
    | known htrim hne hany =>
      simp only [TypeRef.text, TypeRef.parse, htrim, String.ofList_toList, hne, hany, or_self,
        if_false]

/-! ### Parameters, results and signatures -/

@[simp] theorem asText_str (s : String) : (Json.str s).asText = s := rfl

/-- A text in the place of which another stands when it is empty. -/
theorem textOr_str (default s : String) :
    textOr default (some (.str s)) = if s = "" then default else s := by
  by_cases hs : s = "" <;> simp [textOr, Json.truthy, hs]

/-- A description is read back, there or not. -/
theorem field?_descriptionField (v : Json) :
    (Json.field? (descriptionField v) "description").getD .null = v := by
  cases v <;> rfl

/-- What is read back of a parameter. -/
def Parameter.restored (p : Parameter) : Parameter :=
  { p with
    name := if p.name = "" then "unknown" else p.name
    type := .parse p.type.text }

theorem Parameter.ofJson_toJson (p : Parameter) : Parameter.ofJson p.toJson = .ok p.restored := by
  have hdescription := field?_descriptionField p.description
  simp only [Json.field?] at hdescription
  simp [Parameter.ofJson, Parameter.toJson, fieldsOf, Except.map, Parameter.ofFields,
    Parameter.restored, Json.field?, textOr_str, TypeRef.ofJson, Json.truthy, hdescription]

/-- What is read back of a result. -/
def Return.restored (r : Return) : Return :=
  { r with type := if r.type = "" then "any" else r.type }

theorem Return.ofJson_toJson (r : Return) : Return.ofJson r.toJson = .ok r.restored := by
  have hdescription := field?_descriptionField r.description
  simp only [Json.field?] at hdescription
  simp [Return.ofJson, Return.toJson, fieldsOf, Except.map, Return.ofFields, Return.restored,
    Json.field?, textOr_str, hdescription]

/-- Values that are written as objects are read one by one. -/
theorem objects_map {α β : Type} {read : List (String × Json) → β} {write : α → Json}
    {restore : α → β} (h : ∀ a, ∃ fields, write a = .obj fields ∧ read fields = restore a)
    (as : List α) : objects read (as.map write) = as.map restore := by
  unfold objects
  rw [List.filterMap_map, ← List.filterMap_eq_map]
  congr 1
  funext a
  obtain ⟨fields, hwrite, hread⟩ := h a
  simp [hwrite, hread]

/-- The members of a list, empty or not. -/
theorem members_arr (items : List Json) : members (some (.arr items)) = .ok items := by
  cases items <;> rfl

/-- What is read back of a signature. -/
def Signature.restored (d : Signature) : Signature :=
  { d with
    parameters := d.parameters.map Parameter.restored
    returns := d.returns.map Return.restored }

theorem Signature.ofJson_toJson (d : Signature) : Signature.ofJson d.toJson = .ok d.restored := by
  have hparameters : objects Parameter.ofFields (d.parameters.map (·.toJson)) =
      d.parameters.map Parameter.restored :=
    objects_map (fun p => ⟨_, rfl, Except.ok.inj p.ofJson_toJson⟩) d.parameters
  have hreturns : objects Return.ofFields (d.returns.map (·.toJson)) =
      d.returns.map Return.restored :=
    objects_map (fun r => ⟨_, rfl, Except.ok.inj r.ofJson_toJson⟩) d.returns
  have hdescription : textOr "" (some (.str d.description)) = d.description := by
    rw [textOr_str]
    split
    next h => exact h.symm
    · rfl
  simp [Signature.ofJson, Signature.toJson, keyed, Json.get?, Json.field?, members_arr, bind,
    Except.bind, pure, Except.pure, hparameters, hreturns, hdescription, Signature.restored,
    Function.comp_def]

/-- A signature whose parameters have names and clean types, and whose results have types. -/
structure Signature.WellFormed (d : Signature) : Prop where
  parameters : ∀ p ∈ d.parameters, p.name ≠ "" ∧ p.type.Clean
  returns : ∀ r ∈ d.returns, r.type ≠ ""

theorem Parameter.restored_eq_self_iff (p : Parameter) :
    p.restored = p ↔ p.name ≠ "" ∧ p.type.Clean := by
  rw [← TypeRef.parse_text_eq_self_iff]
  constructor
  · intro h
    have hname := congrArg Parameter.name h
    have htype := congrArg Parameter.type h
    simp only [Parameter.restored] at hname htype
    refine ⟨fun hempty => ?_, htype⟩
    simp [hempty] at hname
  · rintro ⟨hname, htype⟩
    simp only [Parameter.restored, if_neg hname, htype]

theorem Return.restored_eq_self_iff (r : Return) : r.restored = r ↔ r.type ≠ "" := by
  constructor
  · intro h hempty
    have htype := congrArg Return.type h
    simp [Return.restored, hempty] at htype
  · intro htype
    simp only [Return.restored, if_neg htype]

/-- A list stays as it is under a function exactly when each of its members does. -/
theorem map_eq_self_iff {α : Type} {f : α → α} {as : List α} :
    as.map f = as ↔ ∀ a ∈ as, f a = a := by
  induction as with
  | nil => simp
  | cons a as ih => simp [ih]

/-- **Read back.**  A signature is read back as it was written exactly when it is well formed. -/
theorem Signature.restored_eq_self_iff (d : Signature) : d.restored = d ↔ d.WellFormed := by
  have hparameters : d.parameters.map Parameter.restored = d.parameters ↔
      ∀ p ∈ d.parameters, p.name ≠ "" ∧ p.type.Clean := by
    simp only [map_eq_self_iff, Parameter.restored_eq_self_iff]
  have hreturns : d.returns.map Return.restored = d.returns ↔ ∀ r ∈ d.returns, r.type ≠ "" := by
    simp only [map_eq_self_iff, Return.restored_eq_self_iff]
  constructor
  · intro h
    exact ⟨hparameters.1 (congrArg Signature.parameters h),
      hreturns.1 (congrArg Signature.returns h)⟩
  · rintro ⟨hp, hr⟩
    simp only [Signature.restored, hparameters.2 hp, hreturns.2 hr]

/-! ### Entries -/

theorem namedMembers_obj (fields : List (String × Json)) :
    namedMembers (some (.obj fields)) = .ok fields := by
  cases fields <;> rfl

/-- The functions of an entry are read one by one. -/
theorem mapM_ofJson {es : List (String × Signature)} (h : ∀ e ∈ es, e.2.WellFormed) :
    (es.map fun e => (e.1, e.2.toJson)).mapM (fun f => do
      return (f.1, ← Signature.ofJson f.2)) = Except.ok es := by
  induction es with
  | nil => rfl
  | cons e es ih =>
    have hrest := ih fun f hf => h f (List.mem_cons_of_mem e hf)
    have hfirst := e.2.ofJson_toJson
    rw [e.2.restored_eq_self_iff.2 (h e List.mem_cons_self)] at hfirst
    rw [List.map_cons, List.mapM_cons, hrest]
    dsimp only
    rw [hfirst]
    rfl

theorem readTime_str {s : String} {t : Timestamp} (h : Timestamp.parse s = .ok t) :
    readTime (.str s) = .ok t := by
  simp only [readTime, Json.asText, h]

/-- The version marks are read back, there or not, and none of them hides another field. -/
theorem field?_markField {e : Entry} (hetag : e.etag.truthy ∨ e.etag = .null)
    (hmodified : e.lastModified.truthy ∨ e.lastModified = .null) :
    (Json.field? (markField "etag" e.etag ++ markField "lastModified" e.lastModified)
        "etag").getD .null = e.etag ∧
      (Json.field? (markField "etag" e.etag ++ markField "lastModified" e.lastModified)
        "lastModified").getD .null = e.lastModified := by
  have hnull : Json.null.truthy = false := rfl
  rcases hetag with hetag | hetag <;> rcases hmodified with hmodified | hmodified <;>
    simp [markField, Json.field?, hetag, hmodified, hnull]

/-- **Read back.**  An entry is read back under its name if its functions are well formed, its time
    is read back and nothing in it counts as absent. -/
theorem Entry.ofJson_toJson {name : String} {e : Entry}
    (hfunctions : ∀ d ∈ e.functions.values, d.WellFormed)
    (hsource : e.source ≠ "" ∨ e.source = name)
    (htime : Timestamp.parse e.updated.text = .ok e.updated)
    (hetag : e.etag.truthy ∨ e.etag = .null)
    (hmodified : e.lastModified.truthy ∨ e.lastModified = .null) :
    Entry.ofJson name e.toJson = .ok e := by
  have hread : (e.functions.map (·.toJson)).entries.mapM (fun f => do
      return (f.1, ← Signature.ofJson f.2)) = Except.ok e.functions.entries :=
    mapM_ofJson fun f hf => hfunctions f.2 (List.mem_map.2 ⟨f, hf, rfl⟩)
  have hname : textOr name (some (.str e.source)) = e.source := by
    rw [textOr_str]
    split
    next hempty => exact (hsource.resolve_left (· hempty)).symm
    next => rfl
  obtain ⟨hetag, hmodified⟩ := field?_markField hetag hmodified
  have hbind {α β : Type} (a : α) (f : α → Except RecordError β) : (Except.ok a >>= f) = f a := rfl
  have hfields : e.toJson = .obj (("functions", .obj (e.functions.map (·.toJson)).entries) ::
      ("lastUpdate", .str e.updated.text) :: ("source", .str e.source) ::
      (markField "etag" e.etag ++ markField "lastModified" e.lastModified)) := by
    simp [Entry.toJson]
  simp only [Json.field?] at hetag hmodified
  rw [hfields]
  simp only [Entry.ofJson, fieldsOf, keyed, readTime_str htime, Json.field?, List.find?_cons, hbind,
    namedMembers_obj, hread, hname, hetag, hmodified, OrderedMap.ofList_entries, decide_true,
    Option.map_some, String.reduceEq, decide_false]
  rfl

end LuaAudit.Docs
