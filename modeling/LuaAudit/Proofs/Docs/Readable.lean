import LuaAudit.Proofs.Docs.Keyed

/-!
# Which values are records

Records are read from untyped values.  Reading fills in what is missing and replaces what counts as
absent, so that most shapes pass; what does not pass is said here without the reader, level by
level.

* `Listable`: the values whose members can be listed;
* `Signature.Readable` and `Entry.Readable`: the values that are signatures and entries;
* `Signature.exists_ofJson_iff`, `Entry.exists_ofJson_iff`: those and no others are read.
-/

namespace LuaAudit.Docs

/-! ### Steps that can fail -/

section Except

variable {ε α β : Type}

/-- Two steps succeed when the first does and the second does on what the first gives. -/
theorem exists_bind_eq_ok_iff {x : Except ε α} {f : α → Except ε β} :
    (∃ b, x >>= f = .ok b) ↔ ∃ a, x = .ok a ∧ ∃ b, f a = .ok b := by
  constructor
  · rintro ⟨b, h⟩
    obtain ⟨a, ha, hb⟩ := exists_of_bind_eq_ok h
    exact ⟨a, ha, b, hb⟩
  · rintro ⟨a, rfl, b, hb⟩
    exact ⟨b, hb⟩

/-- A list is read when each of its members is. -/
theorem exists_mapM_eq_ok_iff {f : α → Except ε β} {xs : List α} :
    (∃ ys, xs.mapM f = .ok ys) ↔ ∀ x ∈ xs, ∃ y, f x = .ok y := by
  induction xs with
  | nil => exact ⟨fun _ => nofun, fun _ => ⟨[], rfl⟩⟩
  | cons x xs ih =>
    rw [List.mapM_cons, exists_bind_eq_ok_iff, List.forall_mem_cons, ← ih]
    constructor
    · rintro ⟨y, hy, h⟩
      obtain ⟨ys, hys, -⟩ := exists_bind_eq_ok_iff.1 h
      exact ⟨⟨y, hy⟩, ys, hys⟩
    · rintro ⟨⟨y, hy⟩, ys, hys⟩
      exact ⟨y, hy, exists_bind_eq_ok_iff.2 ⟨ys, hys, y :: ys, rfl⟩⟩

theorem exists_pure_eq_ok (a : α) : ∃ b, (pure a : Except ε α) = .ok b := ⟨a, rfl⟩

end Except

/-! ### Lists -/

/-- A value that is a text. -/
inductive IsText : Json → Prop where
  | str (s : String) : IsText (.str s)
  | ragged (points : List Point) : IsText (.ragged points)

/-- A value that has members to list: it is missing or counts as absent, or it is a list, a text or
    an object.  So only truth, a number other than zero and the like have none. -/
inductive Listable : Option Json → Prop where
  | missing : Listable none
  | absent {v : Json} (h : v.truthy = false) : Listable (some v)
  | list (items : List Json) : Listable (some (.arr items))
  | text {v : Json} (h : IsText v) : Listable (some v)
  | object (fields : List (String × Json)) : Listable (some (.obj fields))

theorem exists_members_iff {v : Option Json} : (∃ items, members v = .ok items) ↔ Listable v := by
  constructor
  · rintro ⟨items, h⟩
    unfold members at h
    split at h
    next => exact .missing
    next x =>
      split at h
      next habsent => exact .absent (by simpa using habsent)
      next =>
        split at h
        next => exact .list _
        next => exact .text (.str _)
        next => exact .text (.ragged _)
        next => exact .object _
        next => cases h
  · intro h
    unfold members
    cases h with
    | missing => exact ⟨[], rfl⟩
    | absent h => exact ⟨[], by simp [h]⟩
    | list items | object fields =>
      dsimp only
      split
      next => exact ⟨[], rfl⟩
      next => exact ⟨_, rfl⟩
    | text h =>
      cases h <;>
      · dsimp only
        split
        next => exact ⟨[], rfl⟩
        next => exact ⟨_, rfl⟩

/-! ### Records -/

/-- A record of a function: an object with a name, whose parameters, results and examples can be
    listed.  Its other fields, and the members of those lists, may be anything. -/
inductive Signature.Readable : Json → Prop where
  | record {fields : List (String × Json)} (name : ∃ x, Json.field? fields "name" = some x)
      (parameters : Listable (Json.field? fields "parameters"))
      (returns : Listable (Json.field? fields "returns"))
      (examples : Listable (Json.field? fields "examples")) : Readable (.obj fields)

theorem Signature.exists_ofJson_iff {v : Json} :
    (∃ d, Signature.ofJson v = .ok d) ↔ Signature.Readable v := by
  simp only [Signature.ofJson, exists_bind_eq_ok_iff]
  constructor
  · rintro ⟨x, hx, parameters, hparameters, returns, hreturns, examples, hexamples, -⟩
    obtain ⟨fields, rfl, hname⟩ := exists_of_keyed hx
    exact .record ⟨x, hname⟩ (exists_members_iff.1 ⟨_, hparameters⟩)
      (exists_members_iff.1 ⟨_, hreturns⟩) (exists_members_iff.1 ⟨_, hexamples⟩)
  · rintro (@⟨fields, ⟨name, hname⟩, hparameters, hreturns, hexamples⟩)
    have hkeyed : keyed (.obj fields) "name" = .ok name := by rw [keyed, hname]
    obtain ⟨parameters, hparameters⟩ := exists_members_iff.2 hparameters
    obtain ⟨returns, hreturns⟩ := exists_members_iff.2 hreturns
    obtain ⟨examples, hexamples⟩ := exists_members_iff.2 hexamples
    exact ⟨name, hkeyed, parameters, hparameters, returns, hreturns, examples, hexamples,
      exists_pure_eq_ok _⟩

/-- The records of an entry: they are missing or count as absent, or they are an object each of
    whose values is the record of a function. -/
inductive Recorded : Option Json → Prop where
  | missing : Recorded none
  | absent {v : Json} (h : v.truthy = false) : Recorded (some v)
  | object {records : List (String × Json)} (h : ∀ r ∈ records, Signature.Readable r.2) :
    Recorded (some (.obj records))

/-- An entry: an object whose functions are recorded, and whose time is a text that is a time. -/
inductive Entry.Readable : Json → Prop where
  | entry {fields : List (String × Json)} (functions : Recorded (Json.field? fields "functions"))
      {x : Json} {t : Timestamp} (given : Json.field? fields "lastUpdate" = some x)
      (text : IsText x) (time : Timestamp.parse x.asText = .ok t) : Readable (.obj fields)

theorem exists_namedMembers_iff {v : Option Json} :
    (∃ records, namedMembers v = .ok records ∧ ∀ r ∈ records, Signature.Readable r.2) ↔
      Recorded v := by
  constructor
  · rintro ⟨records, h, hrecords⟩
    unfold namedMembers at h
    split at h
    next => exact .missing
    next x =>
      split at h
      next habsent => exact .absent (by simpa using habsent)
      next =>
        split at h
        next =>
          obtain rfl := Except.ok.inj h
          exact .object hrecords
        next => cases h
  · intro h
    unfold namedMembers
    cases h with
    | missing => exact ⟨[], rfl, nofun⟩
    | absent h => exact ⟨[], by simp [h], nofun⟩
    | object h =>
      dsimp only
      split
      next => exact ⟨[], rfl, nofun⟩
      next => exact ⟨_, rfl, h⟩

theorem readTime_eq_ok_iff {v : Json} {t : Timestamp} :
    readTime v = .ok t ↔ IsText v ∧ Timestamp.parse v.asText = .ok t := by
  unfold readTime
  split
  next s => cases Timestamp.parse (Json.str s).asText <;> simp [IsText.str s]
  next points => cases Timestamp.parse (Json.ragged points).asText <;> simp [IsText.ragged points]
  next hstr hragged =>
    refine ⟨nofun, fun h => ?_⟩
    cases h.1 with
    | str s => exact absurd rfl (hstr s)
    | ragged points => exact absurd rfl (hragged points)

/-- **The values that are entries.**  Whatever the name, a value is read as an entry exactly when it
    has the shape of one at every level. -/
theorem Entry.exists_ofJson_iff {name : String} {v : Json} :
    (∃ e, Entry.ofJson name v = .ok e) ↔ Entry.Readable v := by
  simp only [Entry.ofJson, exists_bind_eq_ok_iff]
  constructor
  · rintro ⟨fields, hfields, named, hnamed, functions, hfunctions, time, htime, updated,
      hupdated, -⟩
    obtain ⟨fields', rfl, htext⟩ := exists_of_keyed htime
    obtain rfl := Except.ok.inj hfields
    obtain ⟨hx, ht⟩ := readTime_eq_ok_iff.1 hupdated
    refine .entry (exists_namedMembers_iff.1 ⟨named, hnamed, ?_⟩) htext hx ht
    intro r hr
    obtain ⟨y, hy⟩ := exists_mapM_eq_ok_iff.1 ⟨_, hfunctions⟩ r hr
    obtain ⟨d, hd, -⟩ := exists_of_bind_eq_ok hy
    exact Signature.exists_ofJson_iff.1 ⟨d, hd⟩
  · rintro (@⟨fields, hfunctions, x, t, hgiven, htext, htime⟩)
    obtain ⟨named, hnamed, hrecords⟩ := exists_namedMembers_iff.2 hfunctions
    have hkeyed : keyed (.obj fields) "lastUpdate" = .ok x := by rw [keyed, hgiven]
    have hupdated : readTime x = .ok t := readTime_eq_ok_iff.2 ⟨htext, htime⟩
    have hread : ∀ r ∈ named, ∃ y, (do return (r.1, ← Signature.ofJson r.2)) =
        (.ok y : Except RecordError (String × Signature)) := by
      intro r hr
      obtain ⟨d, hd⟩ := Signature.exists_ofJson_iff.2 (hrecords r hr)
      exact exists_bind_eq_ok_iff.2 ⟨d, hd, exists_pure_eq_ok _⟩
    obtain ⟨functions, hfunctions⟩ := exists_mapM_eq_ok_iff.2 hread
    exact ⟨_, rfl, named, hnamed, functions, hfunctions, _, hkeyed, t, hupdated,
      exists_pure_eq_ok _⟩

end LuaAudit.Docs
