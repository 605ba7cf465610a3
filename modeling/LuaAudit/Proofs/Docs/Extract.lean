import LuaAudit.Proofs.Docs.Catalog
import LuaAudit.Proofs.Docs.Record

/-!
# Extracted signatures read back

Whatever a source holds, the signatures extracted from it have clean types and results with a type.
Only the names of parameters can be empty, as after the last comma of `f(a,)`, and an empty name is
read back as `unknown`.

* `Signature.Tidy`: what every extracted signature has, by `tidy_of_mem_extract`;
* `name_ne_empty_of_mem_extractCatalog`: in a catalog every parameter has a name;
* `extracted_read_back`: what an extracted signature is read back as.
-/

namespace LuaAudit.Docs

open Text (Recogniser Occurrence occurrences occurrencesFrom first?)

/-! ### Finds -/

/-- A find was recognised somewhere in the text. -/
theorem exists_of_mem_occurrencesFrom {α : Type} {find : Recogniser α} {skip offset : Nat}
    {before : Option Char} {cs : List Char} {o : Occurrence α}
    (h : o ∈ occurrencesFrom find skip offset before cs) :
    ∃ before cs length, find before cs = some (o.value, length) := by
  fun_induction occurrencesFrom find skip offset before cs with
  | case1 => cases h
  | case2 skip offset _ c cs ih => exact ih h
  | case3 offset before c cs value length hfind ih =>
    rcases List.mem_cons.1 h with rfl | h
    · exact ⟨before, c :: cs, length, hfind⟩
    · exact ih h
  | case4 offset before c cs _ ih => exact ih h

theorem exists_of_first? {α : Type} {find : Recogniser α} {cs : List Char} {o : Occurrence α}
    (h : first? find cs = some o) : ∃ before cs length, find before cs = some (o.value, length) :=
  exists_of_mem_occurrencesFrom (List.mem_of_head? h)

/-! ### Comments -/

namespace Comment

/-- An annotated type is not empty. -/
theorem ne_nil_of_typeAndText? {cs type text : List Char}
    (h : typeAndText? cs = some (type, text)) : type ≠ [] := by
  unfold typeAndText? at h
  split at h
  · cases h
  next hne => exact (Prod.mk.inj (Option.some.inj h)).1 ▸ hne

theorem type_ne_empty_of_returnNote {before : Option Char} {cs : List Char} {r : Return}
    {length : Nat} (h : returnNote before cs = some (r, length)) : r.type ≠ "" := by
  simp only [returnNote, Option.bind_eq_bind, Option.bind_eq_some_iff] at h
  obtain ⟨rest, -, tail, -, ⟨type, text⟩, htype, h⟩ := h
  obtain ⟨rfl, -⟩ := Prod.mk.inj (Option.some.inj h)
  exact fun hempty => ne_nil_of_typeAndText? htype (String.ofList_eq_empty_iff.1 hempty)

theorem clean_of_parameterNote {before : Option Char} {cs : List Char} {p : Parameter}
    {length : Nat} (h : parameterNote before cs = some (p, length)) : p.type.Clean := by
  simp only [parameterNote, Option.bind_eq_bind, Option.bind_eq_some_iff] at h
  obtain ⟨rest, -, tail, -, last, -, ⟨type, text⟩, -, h⟩ := h
  split at h
  · cases h
  · have htype := congrArg Parameter.type (Prod.mk.inj (Option.some.inj h)).1
    dsimp only at htype
    rw [← htype]
    exact TypeRef.clean_parse (String.ofList type)

/-- Every result of a comment has a type. -/
theorem type_ne_empty_of_mem_returnDocs {lines : List (List Char)} {r : Return}
    (h : r ∈ returnDocs lines) : r.type ≠ "" := by
  obtain ⟨line, -, h⟩ := List.mem_filterMap.1 h
  obtain ⟨o, hfind, rfl⟩ := Option.map_eq_some_iff.1 h
  obtain ⟨before, cs, length, hnote⟩ := exists_of_first? hfind
  exact type_ne_empty_of_returnNote hnote

/-- Every annotated parameter has a clean type. -/
theorem clean_of_mem_parameterNotes {lines : List (List Char)} {p : Parameter}
    (h : p ∈ (parameterNotes lines).values) : p.type.Clean := by
  have hall : ∀ p ∈ (parameterNotes lines).values, p.type.Clean := by
    unfold parameterNotes
    refine List.foldlRecOn (motive := fun notes : OrderedMap String Parameter =>
      ∀ p ∈ notes.values, p.type.Clean) lines _ (fun p hp => by cases hp) ?_
    intro notes hnotes line _
    split
    next o hfind =>
      split
      · exact hnotes
      · intro p hp
        rcases OrderedMap.mem_values_insert hp with rfl | hp
        · obtain ⟨before, cs, length, hnote⟩ := exists_of_first? hfind
          exact clean_of_parameterNote hnote
        · exact hnotes p hp
    · exact hnotes
  exact hall p h

/-- Every declared parameter has a clean type: that of its annotation, or none. -/
theorem clean_of_mem_parameters {text : List Char} {lines : List (List Char)} {p : Parameter}
    (h : p ∈ parameters text lines) : p.type.Clean := by
  unfold parameters at h
  split at h
  · cases h
  · obtain ⟨raw, -, rfl⟩ := List.mem_map.1 h
    unfold parameter
    cases hnote : (parameterNotes lines).get?
        (String.ofList (Text.trim (dropQuestion (Text.trim raw)))) with
    | none =>
      simp only [hnote, Option.map_none, Option.getD_none]
      exact .unknown
    | some note =>
      simp only [hnote, Option.map_some, Option.getD_some]
      exact clean_of_mem_parameterNotes ((OrderedMap.mem_values_iff _ _).2 ⟨_, hnote⟩)

end Comment

/-! ### Tidy signatures -/

/-- A signature whose parameters have clean types and whose results have types. -/
structure Signature.Tidy (d : Signature) : Prop where
  parameters : ∀ p ∈ d.parameters, p.type.Clean
  returns : ∀ r ∈ d.returns, r.type ≠ ""

/-- A signature with `unknown` for the parameters without a name. -/
def Signature.named (d : Signature) : Signature :=
  { d with parameters := d.parameters.map fun p =>
      { p with name := if p.name = "" then "unknown" else p.name } }

/-- Only the names of a tidy signature can change when it is read back. -/
theorem Signature.Tidy.restored_eq {d : Signature} (h : d.Tidy) : d.restored = d.named := by
  have hparameters : d.parameters.map Parameter.restored = d.parameters.map fun p =>
      { p with name := if p.name = "" then "unknown" else p.name } := by
    apply List.map_congr_left
    intro p hp
    rw [Parameter.restored, (TypeRef.parse_text_eq_self_iff p.type).2 (h.parameters p hp)]
  have hreturns : d.returns.map Return.restored = d.returns :=
    map_eq_self_iff.2 fun r hr => (Return.restored_eq_self_iff r).2 (h.returns r hr)
  rw [Signature.restored, Signature.named, hparameters, hreturns]

theorem Signature.Tidy.wellFormed_iff {d : Signature} (h : d.Tidy) :
    d.WellFormed ↔ ∀ p ∈ d.parameters, p.name ≠ "" :=
  ⟨fun hwell p hp => (hwell.parameters p hp).1,
    fun hnames => ⟨fun p hp => ⟨hnames p hp, h.parameters p hp⟩, h.returns⟩⟩

/-! ### Declarations -/

theorem tidy_signature (source : String) (d : Declaration) (comment : Option (List (List Char))) :
    (signature source d comment).Tidy := by
  cases comment with
  | none => exact ⟨fun p hp => Comment.clean_of_mem_parameters hp, fun r hr => by cases hr⟩
  | some lines =>
    exact ⟨fun p hp => Comment.clean_of_mem_parameters hp,
      fun r hr => Comment.type_ne_empty_of_mem_returnDocs hr⟩

/-- One line keeps what was found tidy. -/
theorem Walk.tidy_step {source : String} {shapes : List Shape} {w : Walk}
    (h : ∀ d ∈ w.found.values, d.Tidy) (line : List Char) :
    ∀ d ∈ (w.step source shapes line).found.values, d.Tidy := by
  unfold Walk.step
  split
  · exact h
  · split
    next declared _ =>
      intro d hd
      rcases OrderedMap.mem_values_insert hd with rfl | hd
      · exact tidy_signature source declared w.pending
      · exact h d hd
    · split
      · exact h
      · exact h

theorem tidy_of_mem_walk {content source : String} {shapes : List Shape} {d : Signature}
    (h : d ∈ (walk content source shapes).values) : d.Tidy := by
  have hall : ∀ d ∈ (walk content source shapes).values, d.Tidy :=
    List.foldlRecOn (motive := fun w : Walk => ∀ d ∈ w.found.values, d.Tidy) _ _
      (fun d hd => by cases hd) fun w hw line _ => Walk.tidy_step hw line
  exact hall d h

theorem tidy_of_mem_extractPlain {content source : String} {d : Signature}
    (h : d ∈ (extractPlain content source).values) : d.Tidy := by
  unfold extractPlain at h
  split at h
  · exact tidy_of_mem_walk h
  · obtain ⟨key, hkey⟩ := OrderedMap.mem_of_mem_values_ofList h
    obtain ⟨o, -, heq⟩ := List.mem_map.1 hkey
    rw [← (Prod.mk.inj heq).2]
    exact tidy_signature source o.value none

/-! ### Catalogs -/

/-- What is read of objects was read of one of them. -/
theorem exists_obj_of_mem_objects {α : Type} {read : List (String × Json) → α} {vs : List Json}
    {a : α} (h : a ∈ objects read vs) : ∃ fields, .obj fields ∈ vs ∧ read fields = a := by
  obtain ⟨v, hmem, hv⟩ := List.mem_filterMap.1 h
  split at hv
  next fields => exact ⟨fields, hmem, Option.some.inj hv⟩
  · cases hv

theorem exists_of_mem_objects {α : Type} {read : List (String × Json) → α} {vs : List Json} {a : α}
    (h : a ∈ objects read vs) : ∃ fields, read fields = a := by
  obtain ⟨fields, -, hread⟩ := exists_obj_of_mem_objects h
  exact ⟨fields, hread⟩

theorem forall_of_forall₂ {α β : Type} {R : α → β → Prop} {P : β → Prop} (hP : ∀ a b, R a b → P b)
    {as : List α} {bs : List β} (h : List.Forall₂ R as bs) : ∀ b ∈ bs, P b := by
  induction h with
  | nil => exact fun b hb => absurd hb List.not_mem_nil
  | cons hR _ ih => exact List.forall_mem_cons.2 ⟨hP _ _ hR, ih⟩

section Catalog

variable {source key : String} {fields : List (String × Json)} {d : Signature}

/-- Every parameter is read from an object. -/
theorem Describes.forall_parameters (h : Describes source key fields d) {P : Parameter → Prop}
    (hP : ∀ member p, Parameter.ReadFrom member p → P p) : ∀ p ∈ d.parameters, P p := by
  by_cases hlist : ∃ items, Json.field? fields "parameters" = some (.arr items)
  · obtain ⟨items, hitems⟩ := hlist
    exact forall_of_forall₂ hP (h.parameters items hitems)
  · rw [h.noParameters fun items hitems => hlist ⟨items, hitems⟩]
    exact fun p hp => absurd hp List.not_mem_nil

/-- Every result is read from an object. -/
theorem Describes.forall_returns (h : Describes source key fields d) {P : Return → Prop}
    (hP : ∀ member r, Return.ReadFrom member r → P r) : ∀ r ∈ d.returns, P r := by
  by_cases hlist : ∃ items, Json.field? fields "returns" = some (.arr items)
  · obtain ⟨items, hitems⟩ := hlist
    exact forall_of_forall₂ hP (h.returns items hitems)
  · by_cases hobject : ∃ member, Json.field? fields "returns" = some (.obj member)
    · obtain ⟨member, hmember⟩ := hobject
      exact forall_of_forall₂ hP (h.oneReturn member hmember)
    · rw [h.noReturns (fun items hitems => hlist ⟨items, hitems⟩)
        fun member hmember => hobject ⟨member, hmember⟩]
      exact fun r hr => absurd hr List.not_mem_nil

theorem Describes.tidy (h : Describes source key fields d) : d.Tidy where
  parameters := h.forall_parameters fun _ _ hread => hread.type ▸ TypeRef.clean_ofJson _
  returns := h.forall_returns fun _ _ hread => hread.typed

end Catalog

section Extract

variable {limit : Json.Depth} {content source : String} {found : Signatures} {d : Signature}

/-- The signatures of a catalog are those of its objects. -/
theorem exists_of_mem_extractCatalog (h : extractCatalog limit content source = .ok found)
    (hd : d ∈ found.values) : ∃ key fields, Describes source key fields d := by
  obtain ⟨key, hget⟩ := (OrderedMap.mem_values_iff _ _).1 hd
  obtain ⟨-, fields, -, -, hread⟩ := exists_of_get?_extractCatalog h hget
  exact ⟨key, fields, describes_of_readEntry hread⟩

/-- In a catalog every parameter has a name. -/
theorem name_ne_empty_of_mem_extractCatalog (h : extractCatalog limit content source = .ok found)
    (hd : d ∈ found.values) : ∀ p ∈ d.parameters, p.name ≠ "" := by
  obtain ⟨key, fields, hread⟩ := exists_of_mem_extractCatalog h hd
  exact hread.forall_parameters fun _ _ hp => hp.named

/-! ### All sources -/

/-- Every extracted signature is tidy, whatever the source holds. -/
theorem tidy_of_mem_extract {kind : Kind} (h : extract limit content source kind = .ok found)
    (hd : d ∈ found.values) : d.Tidy := by
  cases kind with
  | annotated =>
    obtain rfl := Except.ok.inj h
    exact tidy_of_mem_walk hd
  | plain =>
    obtain rfl := Except.ok.inj h
    exact tidy_of_mem_extractPlain hd
  | hybrid =>
    obtain rfl := Except.ok.inj h
    exact tidy_of_mem_walk hd
  | catalog =>
    obtain ⟨key, fields, hread⟩ := exists_of_mem_extractCatalog h hd
    exact hread.tidy

/-- **Extracted signatures read back.**  Whatever a source holds, a signature extracted from it is
    read back with `unknown` for each parameter without a name and is otherwise as it was.  So it is
    read back as it was exactly when every parameter has a name, which in a catalog is always so. -/
theorem extracted_read_back {kind : Kind} (h : extract limit content source kind = .ok found)
    (hd : d ∈ found.values) :
    Signature.ofJson d.toJson = .ok d.named ∧
      (Signature.ofJson d.toJson = .ok d ↔ ∀ p ∈ d.parameters, p.name ≠ "") ∧
      (kind = .catalog → Signature.ofJson d.toJson = .ok d) := by
  have htidy := tidy_of_mem_extract h hd
  have hiff : Signature.ofJson d.toJson = .ok d ↔ ∀ p ∈ d.parameters, p.name ≠ "" := by
    rw [d.ofJson_toJson, Except.ok.injEq, d.restored_eq_self_iff, htidy.wellFormed_iff]
  refine ⟨?_, hiff, ?_⟩
  · rw [d.ofJson_toJson, htidy.restored_eq]
  · rintro rfl
    exact hiff.2 (name_ne_empty_of_mem_extractCatalog h hd)

end Extract

/-- The signature of `f(a,)`: its second parameter has no name. -/
def trailingComma : Signature :=
  { name := "f", source := "s", description := "Function from s",
    parameters := [{ name := "a" }, { name := "" }] }

theorem extract_trailingComma (limit : Json.Depth) :
    extract limit "function f(a,)" "s" .annotated =
      .ok (OrderedMap.empty.insert "f" trailingComma) := rfl

/-- Of `f(a,)` the second parameter is read back as `unknown`. -/
theorem extracted_read_back_trailingComma : ∃ found,
    extract {} "function f(a,)" "s" .annotated = .ok found ∧ trailingComma ∈ found.values ∧
      Signature.ofJson trailingComma.toJson = .ok trailingComma.named ∧
      trailingComma.named.parameters = [{ name := "a" }, { name := "unknown" }] := by
  have hextract := extract_trailingComma {}
  have hmem : trailingComma ∈ (OrderedMap.empty.insert "f" trailingComma).values :=
    List.mem_singleton_self _
  exact ⟨_, hextract, hmem, (extracted_read_back hextract hmem).1, rfl⟩

/-- Not every extracted signature is read back as it was. -/
theorem not_all_extracted_read_back :
    ¬ ∀ (limit : Json.Depth) (content source : String) (kind : Kind) (found : Signatures),
      extract limit content source kind = .ok found →
      ∀ d ∈ found.values, Signature.ofJson d.toJson = .ok d := by
  intro hall
  have hback := hall {} _ _ _ _ (extract_trailingComma {}) trailingComma (List.mem_singleton_self _)
  rw [trailingComma.ofJson_toJson, Except.ok.injEq, trailingComma.restored_eq_self_iff] at hback
  exact (hback.parameters { name := "" } (by simp [trailingComma])).1 rfl

end LuaAudit.Docs
