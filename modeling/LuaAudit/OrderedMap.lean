/-!
# Ordered maps

A finite map that remembers in which order its keys were first inserted.  Writing to a key that is
present replaces its value in place; a new key goes to the end.

* `get?`, `insert` and `erase` are the operations, `entries` is the view;
* the keys of the entries are distinct by construction.
-/

namespace LuaAudit

/-- Replaces the value of a key where it stands, or appends the pair. -/
def putEntry {κ α : Type} [DecidableEq κ] (k : κ) (v : α) : List (κ × α) → List (κ × α)
  | [] => [(k, v)]
  | (k', v') :: rest => if k' = k then (k, v) :: rest else (k', v') :: putEntry k v rest

theorem mem_keys_putEntry {κ α : Type} [DecidableEq κ] (k x : κ) (v : α) (es : List (κ × α)) :
    x ∈ (putEntry k v es).map Prod.fst ↔ x = k ∨ x ∈ es.map Prod.fst := by
  induction es with
  | nil => simp [putEntry]
  | cons e rest ih =>
    obtain ⟨k', v'⟩ := e
    by_cases h : k' = k
    · subst h; simp [putEntry]
    · simp only [putEntry, h, if_false, List.map_cons, List.mem_cons, ih]
      grind

theorem nodup_keys_putEntry {κ α : Type} [DecidableEq κ] (k : κ) (v : α) (es : List (κ × α))
    (h : (es.map Prod.fst).Nodup) : ((putEntry k v es).map Prod.fst).Nodup := by
  induction es with
  | nil => simp [putEntry]
  | cons e rest ih =>
    obtain ⟨k', v'⟩ := e
    rw [List.map_cons, List.nodup_cons] at h
    by_cases hk : k' = k
    · subst hk; simpa [putEntry] using h
    · simp only [putEntry, hk, if_false, List.map_cons, List.nodup_cons]
      refine ⟨?_, ih h.2⟩
      rw [mem_keys_putEntry]
      exact fun hm => hm.elim (fun e => hk e) h.1

/-- A map with its entries in order of first insertion. -/
structure OrderedMap (κ α : Type) where
  entries : List (κ × α)
  distinct : (entries.map Prod.fst).Nodup

namespace OrderedMap

variable {κ α β : Type}

/-- Two maps with the same entries are the same. -/
@[ext]
theorem ext {m n : OrderedMap κ α} (h : m.entries = n.entries) : m = n := by
  cases m; cases n; simp_all

instance [DecidableEq κ] [DecidableEq α] : DecidableEq (OrderedMap κ α) := fun m n =>
  if h : m.entries = n.entries then isTrue (ext h) else isFalse fun e => h (e ▸ rfl)

/-- The map without entries. -/
def empty : OrderedMap κ α := ⟨[], List.nodup_nil⟩

/-- The number of entries. -/
def size (m : OrderedMap κ α) : Nat := m.entries.length

/-- The keys, in order of first insertion. -/
def keys (m : OrderedMap κ α) : List κ := m.entries.map Prod.fst

/-- The values, in the order of their keys. -/
def values (m : OrderedMap κ α) : List α := m.entries.map Prod.snd

/-- Whether there are no entries. -/
def isEmpty (m : OrderedMap κ α) : Bool := m.entries.isEmpty

variable [DecidableEq κ]

/-- The value of a key. -/
def get? (m : OrderedMap κ α) (k : κ) : Option α :=
  (m.entries.find? fun e => e.1 = k).map Prod.snd

/-- Whether a key is present. -/
def contains (m : OrderedMap κ α) (k : κ) : Bool := m.keys.contains k

/-- Gives a key a value: in place when the key is present, at the end when it is new. -/
def insert (m : OrderedMap κ α) (k : κ) (v : α) : OrderedMap κ α :=
  ⟨putEntry k v m.entries, nodup_keys_putEntry k v m.entries m.distinct⟩

/-- Keeps the entries that have a property. -/
def filter (p : κ × α → Bool) (m : OrderedMap κ α) : OrderedMap κ α :=
  ⟨m.entries.filter p, (List.filter_sublist.map Prod.fst).nodup m.distinct⟩

/-- Removes a key. -/
def erase (m : OrderedMap κ α) (k : κ) : OrderedMap κ α := m.filter fun e => e.1 ≠ k

/-- The map of a list of pairs: a later value of a key replaces an earlier one in its place. -/
def ofList (es : List (κ × α)) : OrderedMap κ α := es.foldl (fun m e => m.insert e.1 e.2) empty

/-- Applies a function to every value. -/
def map (f : α → β) (m : OrderedMap κ α) : OrderedMap κ β :=
  ⟨m.entries.map fun e => (e.1, f e.2), by
    have h : (m.entries.map fun e => (e.1, f e.2)).map Prod.fst = m.entries.map Prod.fst := by
      simp [Function.comp_def]
    rw [h]; exact m.distinct⟩

end OrderedMap

end LuaAudit
