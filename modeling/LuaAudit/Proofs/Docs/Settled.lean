import LuaAudit.Proofs.Docs.Extract
import LuaAudit.Proofs.Docs.Readable
import LuaAudit.Proofs.Docs.Record
import LuaAudit.Proofs.Docs.Timestamp

/-!
# Records that were read once

Reading a record replaces what counts as absent by its default and shows as text what has another
type.  What comes of it needs no more of that: written and read again, it is written as it was.

* `Settles read write`: whatever is read is written so that it is read again and written the same;
* `Parameter.settles`, `Return.settles`, `Signature.settles`: these three are even read back as they
  were;
* `Entry.settled`: an entry without the marks that count as absent, `Entry.ofJson_toJson_of_ofJson`:
  which is what is read back, and `Entry.settles`.
-/

namespace LuaAudit.Docs

/-- Reading settles what is written: it is accepted again, and written the same again. -/
def Settles {α : Type} (read : Json → Except RecordError α) (write : α → Json) : Prop :=
  ∀ v a, read v = .ok a → ∃ b, read (write a) = .ok b ∧ write b = write a

/-- What is read back as it was is settled. -/
theorem settles_of_read_back {α : Type} {read : Json → Except RecordError α} {write : α → Json}
    (h : ∀ v a, read v = .ok a → read (write a) = .ok a) : Settles read write :=
  fun v a hread => ⟨a, h v a hread, rfl⟩

/-! ### Parameters, results and signatures -/

theorem exists_of_fieldsOf {v : Json} {fields : List (String × Json)}
    (h : fieldsOf v = .ok fields) :
    v = .obj fields := by
  unfold fieldsOf at h
  split at h
  next => rw [Except.ok.inj h]
  next => cases h

theorem Parameter.restored_ofFields (fields : List (String × Json)) :
    (Parameter.ofFields fields).restored = Parameter.ofFields fields :=
  (Parameter.restored_eq_self_iff _).2
    ⟨textOr_ne_empty (by decide) (Json.field? fields "name"), TypeRef.clean_ofJson _⟩

theorem Return.restored_ofFields (fields : List (String × Json)) :
    (Return.ofFields fields).restored = Return.ofFields fields :=
  (Return.restored_eq_self_iff _).2 (textOr_ne_empty (by decide) (Json.field? fields "type"))

theorem Parameter.settles : Settles Parameter.ofJson Parameter.toJson := by
  refine settles_of_read_back fun v p h => ?_
  unfold Parameter.ofJson at h
  cases hfields : fieldsOf v with
  | error cause => rw [hfields] at h; cases h
  | ok fields =>
    rw [hfields] at h
    obtain rfl := Except.ok.inj h
    rw [Parameter.ofJson_toJson, Parameter.restored_ofFields]

theorem Return.settles : Settles Return.ofJson Return.toJson := by
  refine settles_of_read_back fun v r h => ?_
  unfold Return.ofJson at h
  cases hfields : fieldsOf v with
  | error cause => rw [hfields] at h; cases h
  | ok fields =>
    rw [hfields] at h
    obtain rfl := Except.ok.inj h
    rw [Return.ofJson_toJson, Return.restored_ofFields]

/-- The parts of a signature that was read. -/
theorem exists_of_signature_ofJson {v : Json} {d : Signature} (h : Signature.ofJson v = .ok d) :
    ∃ parameters returns, members (v.get? "parameters") = .ok parameters ∧
      members (v.get? "returns") = .ok returns ∧
      d.parameters = objects Parameter.ofFields parameters ∧
      d.returns = objects Return.ofFields returns := by
  obtain ⟨x, -, h⟩ := exists_of_bind_eq_ok h
  obtain ⟨parameters, hparameters, h⟩ := exists_of_bind_eq_ok h
  obtain ⟨returns, hreturns, h⟩ := exists_of_bind_eq_ok h
  obtain ⟨examples, -, h⟩ := exists_of_bind_eq_ok h
  cases h
  exact ⟨parameters, returns, hparameters, hreturns, rfl, rfl⟩

theorem Signature.wellFormed_of_ofJson {v : Json} {d : Signature} (h : Signature.ofJson v = .ok d) :
    d.WellFormed := by
  obtain ⟨parameters, returns, -, -, hparameters, hreturns⟩ := exists_of_signature_ofJson h
  constructor
  · intro p hp
    rw [hparameters] at hp
    obtain ⟨fields, rfl⟩ := exists_of_mem_objects hp
    exact (Parameter.restored_eq_self_iff _).1 (Parameter.restored_ofFields fields)
  · intro r hr
    rw [hreturns] at hr
    obtain ⟨fields, rfl⟩ := exists_of_mem_objects hr
    exact (Return.restored_eq_self_iff _).1 (Return.restored_ofFields fields)

theorem Signature.settles : Settles Signature.ofJson Signature.toJson := by
  refine settles_of_read_back fun v d h => ?_
  rw [Signature.ofJson_toJson,
    (Signature.restored_eq_self_iff d).2 (Signature.wellFormed_of_ofJson h)]

/-! ### Entries -/

/-- A mark, or nothing where it counts as absent. -/
def mark (v : Json) : Json := if v.truthy then v else .null

theorem mark_truthy_or (v : Json) : (mark v).truthy ∨ mark v = .null := by
  unfold mark
  split
  next h => exact .inl h
  next => exact .inr rfl

theorem markField_mark (key : String) (v : Json) : markField key (mark v) = markField key v := by
  unfold markField mark
  by_cases h : v.truthy
  · rw [if_pos h]
  · rw [if_neg h, if_neg h, if_neg (by decide)]

/-- An entry without the marks that count as absent. -/
def Entry.settled (e : Entry) : Entry :=
  { e with etag := mark e.etag, lastModified := mark e.lastModified }

/-- Marks that count as absent are not written anyway. -/
theorem Entry.toJson_settled (e : Entry) : e.settled.toJson = e.toJson := by
  unfold Entry.toJson
  simp only [Entry.settled, markField_mark]

/-- The parts of an entry that was read. -/
theorem exists_of_entry_ofJson {name : String} {v : Json} {e : Entry}
    (h : Entry.ofJson name v = .ok e) :
    ∃ fields named functions s, v = .obj fields ∧
      namedMembers (Json.field? fields "functions") = .ok named ∧
      named.mapM (fun f => do return (f.1, ← Signature.ofJson f.2)) = .ok functions ∧
      e.functions = .ofList functions ∧ Timestamp.parse s = .ok e.updated ∧
      e.source = textOr name (Json.field? fields "source") ∧
      e.etag = (Json.field? fields "etag").getD .null ∧
      e.lastModified = (Json.field? fields "lastModified").getD .null := by
  obtain ⟨fields, hfields, h⟩ := exists_of_bind_eq_ok h
  obtain ⟨named, hnamed, h⟩ := exists_of_bind_eq_ok h
  obtain ⟨functions, hfunctions, h⟩ := exists_of_bind_eq_ok h
  obtain ⟨time, -, h⟩ := exists_of_bind_eq_ok h
  obtain ⟨updated, hupdated, h⟩ := exists_of_bind_eq_ok h
  cases h
  exact ⟨fields, named, functions, time.asText, exists_of_fieldsOf hfields, hnamed, hfunctions, rfl,
    (readTime_eq_ok_iff.1 hupdated).2, rfl, rfl, rfl⟩

/-- What is read back of an entry that was read is that entry, without the marks that count as
    absent. -/
theorem Entry.ofJson_toJson_of_ofJson {name : String} {v : Json} {e : Entry}
    (h : Entry.ofJson name v = .ok e) : Entry.ofJson name e.toJson = .ok e.settled := by
  obtain ⟨fields, named, functions, s, -, -, hread, hfunctions, htime, hsource, -⟩ :=
    exists_of_entry_ofJson h
  rw [← Entry.toJson_settled]
  refine Entry.ofJson_toJson ?_ ?_ ?_ (mark_truthy_or _) (mark_truthy_or _)
  · intro d hd
    rw [show e.settled.functions = .ofList functions from hfunctions] at hd
    obtain ⟨key, hmem⟩ := OrderedMap.mem_of_mem_values_ofList hd
    obtain ⟨⟨key, x⟩, -, hx⟩ := exists_of_mem_mapM hread hmem
    obtain ⟨d', hd', hpair⟩ := exists_of_bind_eq_ok hx
    cases hpair
    exact Signature.wellFormed_of_ofJson hd'
  · show e.source ≠ "" ∨ e.source = name
    rw [hsource]
    by_cases hname : textOr name (Json.field? fields "source") = name
    · exact .inr hname
    · obtain ⟨x, -, htruthy, htext⟩ := exists_of_textOr_ne hname
      exact .inl (htext ▸ asText_ne_empty htruthy)
  · exact Timestamp.parse_text (Timestamp.inRange_of_parse htime)

theorem Entry.settles (name : String) : Settles (Entry.ofJson name) Entry.toJson :=
  fun _ e h => ⟨e.settled, Entry.ofJson_toJson_of_ofJson h, e.toJson_settled⟩

end LuaAudit.Docs
