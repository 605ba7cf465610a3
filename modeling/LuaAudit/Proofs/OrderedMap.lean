import LuaAudit.OrderedMap

/-!
# Ordered maps through their values and their order

What each operation does to the value of a key, how keys and values are read off the entries, and
where a new entry goes.

* `get?_insert`, `get?_erase`, `get?_filter`, `get?_empty`: one equation per operation;
* `mem_entries_iff`: a pair is an entry exactly when its key has its value;
* `keys_insert`: a key that is present keeps its place, a new one goes to the end, as in
  `eraseDups_concat`;
* `entries_ofList` and `ofList_entries`: a map is built from its entries;
* `get?_foldl_insert_of_mem`, `insert_of_get?`, `map_insert`: many entries, an entry that is there
  already, and entries written in another form.
-/

namespace LuaAudit.OrderedMap

variable {κ α : Type} [DecidableEq κ]

@[simp] theorem get?_empty (k : κ) : (empty : OrderedMap κ α).get? k = none := rfl

/-- Writing an entry changes the value of its key only. -/
theorem find?_putEntry (k x : κ) (v : α) (es : List (κ × α)) :
    ((putEntry k v es).find? fun e => e.1 = x).map Prod.snd =
      if x = k then some v else (es.find? fun e => e.1 = x).map Prod.snd := by
  induction es with
  | nil => by_cases h : x = k <;> simp [putEntry, h, eq_comm]
  | cons e es ih =>
    obtain ⟨k', v'⟩ := e
    by_cases hk : k' = k
    · subst hk
      by_cases hx : x = k'
      · simp [putEntry, hx]
      · simp [putEntry, hx, Ne.symm hx]
    · simp only [putEntry, hk, if_false]
      by_cases hx : k' = x
      · subst hx
        simp [hk]
      · simp only [List.find?_cons, decide_eq_false hx]
        exact ih

theorem get?_insert (m : OrderedMap κ α) (k x : κ) (v : α) :
    (m.insert k v).get? x = if x = k then some v else m.get? x :=
  find?_putEntry k x v m.entries

theorem get?_erase (m : OrderedMap κ α) (k x : κ) :
    (m.erase k).get? x = if x = k then none else m.get? x := by
  unfold erase filter get?
  by_cases hx : x = k
  · subst hx
    simp
  · rw [if_neg hx, List.find?_filter]
    congr 2
    funext e
    by_cases he : e.1 = x <;> simp [he, hx]

@[simp] theorem get?_insert_self (m : OrderedMap κ α) (k : κ) (v : α) :
    (m.insert k v).get? k = some v := by
  rw [get?_insert, if_pos rfl]

@[simp] theorem get?_erase_self (m : OrderedMap κ α) (k : κ) : (m.erase k).get? k = none := by
  rw [get?_erase, if_pos rfl]

theorem get?_insert_of_ne (m : OrderedMap κ α) {k x : κ} (v : α) (h : x ≠ k) :
    (m.insert k v).get? x = m.get? x := by
  rw [get?_insert, if_neg h]

theorem get?_erase_of_ne (m : OrderedMap κ α) {k x : κ} (h : x ≠ k) :
    (m.erase k).get? x = m.get? x := by
  rw [get?_erase, if_neg h]

/-- Keeping the entries of some keys keeps the values of these keys. -/
theorem get?_filter (m : OrderedMap κ α) (keep : κ → Bool) (k : κ) :
    (m.filter fun e => keep e.1).get? k = if keep k then m.get? k else none := by
  unfold filter get?
  rw [List.find?_filter]
  split
  next hkeep =>
    congr 2
    funext e
    by_cases he : e.1 = k <;> simp [he, hkeep]
  next hdrop =>
    rw [Option.map_eq_none_iff, List.find?_eq_none]
    rintro e - he
    simp only [decide_eq_true_eq] at he
    exact hdrop (he.2 ▸ he.1)

/-- The entries are the keys with their values, since no key has two entries. -/
theorem mem_entries_iff (m : OrderedMap κ α) (k : κ) (v : α) :
    (k, v) ∈ m.entries ↔ m.get? k = some v := by
  obtain ⟨es, hdistinct⟩ := m
  unfold get?
  induction es with
  | nil => simp
  | cons e es ih =>
    obtain ⟨k', v'⟩ := e
    rw [List.map_cons, List.nodup_cons] at hdistinct
    by_cases hk : k' = k
    · subst hk
      have hnot : (k', v) ∉ es := fun h => hdistinct.1 (List.mem_map.2 ⟨_, h, rfl⟩)
      simp [hnot, eq_comm]
    · simp only [List.mem_cons, Prod.mk.injEq, Ne.symm hk, false_and, false_or, List.find?_cons,
        decide_eq_false hk]
      exact ih hdistinct.2

omit [DecidableEq κ] in
theorem nodup_keys (m : OrderedMap κ α) : m.keys.Nodup := m.distinct

theorem mem_keys_iff (m : OrderedMap κ α) (k : κ) : k ∈ m.keys ↔ ∃ v, m.get? k = some v := by
  simp [keys, ← mem_entries_iff]

/-- A map in which no key has a value is empty. -/
theorem eq_empty_of_get? {m : OrderedMap κ α} (h : ∀ k, m.get? k = none) : m = empty := by
  apply OrderedMap.ext
  show m.entries = []
  rw [List.eq_nil_iff_forall_not_mem]
  rintro ⟨k, v⟩ hmem
  rw [mem_entries_iff, h k] at hmem
  cases hmem

theorem mem_values_iff (m : OrderedMap κ α) (v : α) : v ∈ m.values ↔ ∃ k, m.get? k = some v := by
  simp [values, ← mem_entries_iff]

theorem contains_iff (m : OrderedMap κ α) (k : κ) : m.contains k ↔ ∃ v, m.get? k = some v := by
  rw [contains, List.contains_iff_mem, mem_keys_iff]

theorem mem_keys_insert (m : OrderedMap κ α) (k x : κ) (v : α) :
    x ∈ (m.insert k v).keys ↔ x = k ∨ x ∈ m.keys :=
  mem_keys_putEntry k x v m.entries

/-- A value that stands in a map after a key was written is the one written, or stood there
    before. -/
theorem mem_values_insert {m : OrderedMap κ α} {k : κ} {v w : α}
    (h : w ∈ (m.insert k v).values) : w = v ∨ w ∈ m.values := by
  obtain ⟨x, hx⟩ := (mem_values_iff _ w).1 h
  rw [get?_insert] at hx
  split at hx
  · exact .inl (Option.some.inj hx).symm
  · exact .inr ((mem_values_iff m w).2 ⟨x, hx⟩)

/-- What the map of a list has under a key stands in the list. -/
theorem mem_of_get?_ofList {es : List (κ × α)} {k : κ} {v : α} (h : (ofList es).get? k = some v) :
    (k, v) ∈ es := by
  have hfold : ∀ m : OrderedMap κ α, (es.foldl (fun m e => m.insert e.1 e.2) m).get? k = some v →
      m.get? k = some v ∨ (k, v) ∈ es := by
    clear h
    induction es with
    | nil => exact fun m h => .inl h
    | cons e es ih =>
      intro m h
      rcases ih _ h with h | h
      · rw [get?_insert] at h
        split at h
        next hk =>
          obtain rfl := Option.some.inj h
          exact .inr (hk ▸ List.mem_cons_self)
        · exact .inl h
      · exact .inr (List.mem_cons_of_mem e h)
  rcases hfold empty h with h | h
  · cases h
  · exact h

/-- So its values come from the list. -/
theorem mem_of_mem_values_ofList {es : List (κ × α)} {w : α} (h : w ∈ (ofList es).values) :
    ∃ k, (k, w) ∈ es := by
  obtain ⟨k, hk⟩ := (mem_values_iff _ w).1 h
  exact ⟨k, mem_of_get?_ofList hk⟩

/-! ### Where entries stand -/

/-- A map that is built from entries has their keys. -/
theorem mem_keys_ofList (es : List (κ × α)) (k : κ) :
    k ∈ (ofList es).keys ↔ k ∈ es.map Prod.fst := by
  have hfold : ∀ m : OrderedMap κ α, k ∈ (es.foldl (fun m e => m.insert e.1 e.2) m).keys ↔
      k ∈ es.map Prod.fst ∨ k ∈ m.keys := by
    induction es with
    | nil => simp
    | cons e es ih =>
      intro m
      rw [List.foldl_cons, ih, mem_keys_insert, List.map_cons, List.mem_cons, or_left_comm,
        or_assoc]
  rw [ofList, hfold]
  simp [keys, empty]

theorem putEntry_of_notMem {k : κ} {es : List (κ × α)} (h : k ∉ es.map Prod.fst) (v : α) :
    putEntry k v es = es ++ [(k, v)] := by
  induction es with
  | nil => rfl
  | cons e es ih =>
    obtain ⟨k', v'⟩ := e
    rw [List.map_cons, List.mem_cons, not_or] at h
    rw [putEntry, if_neg (Ne.symm h.1), ih h.2, List.cons_append]

theorem keys_putEntry_of_mem {k : κ} {es : List (κ × α)} (h : k ∈ es.map Prod.fst) (v : α) :
    (putEntry k v es).map Prod.fst = es.map Prod.fst := by
  induction es with
  | nil => cases h
  | cons e es ih =>
    obtain ⟨k', v'⟩ := e
    by_cases hk : k' = k
    · simp [putEntry, hk]
    · have hmem : k ∈ es.map Prod.fst := by simpa [Ne.symm hk] using h
      simp [putEntry, hk, ih hmem]

/-- A key that is present keeps its place, a new one goes to the end. -/
theorem keys_insert (m : OrderedMap κ α) (k : κ) (v : α) :
    (m.insert k v).keys = if k ∈ m.keys then m.keys else m.keys ++ [k] := by
  unfold keys insert
  split
  next h => exact keys_putEntry_of_mem h v
  next h => simp [putEntry_of_notMem h]

/-- First occurrences in a list with one more element: the element is one if it is new. -/
theorem eraseDups_concat (ks : List κ) (k : κ) :
    (ks ++ [k]).eraseDups = if k ∈ ks then ks.eraseDups else ks.eraseDups ++ [k] := by
  rw [List.eraseDups_append]
  split
  next hknown => simp [List.removeAll, hknown]
  next hnew => simp [List.removeAll, hnew, List.eraseDups_cons]

/-- Writing pairs with new and different keys appends them. -/
theorem foldl_putEntry {es fs : List (κ × α)} (h : ((es ++ fs).map Prod.fst).Nodup) :
    fs.foldl (fun es e => putEntry e.1 e.2 es) es = es ++ fs := by
  induction fs generalizing es with
  | nil => simp
  | cons f fs ih =>
    have hnew : f.1 ∉ es.map Prod.fst := by
      intro hmem
      rw [List.map_append, List.nodup_append] at h
      exact h.2.2 _ hmem _ (by simp) rfl
    rw [List.append_cons] at h
    rw [List.foldl_cons, putEntry_of_notMem hnew, ih h, ← List.append_cons]

theorem entries_foldl_insert (es : List (κ × α)) (m : OrderedMap κ α) :
    (es.foldl (fun m e => m.insert e.1 e.2) m).entries =
      es.foldl (fun es e => putEntry e.1 e.2 es) m.entries := by
  induction es generalizing m with
  | nil => rfl
  | cons e es ih => exact ih (m.insert e.1 e.2)

/-- Pairs with different keys are the entries of the map that is built from them. -/
theorem entries_ofList {es : List (κ × α)} (h : (es.map Prod.fst).Nodup) :
    (ofList es).entries = es := by
  rw [ofList, entries_foldl_insert]
  exact foldl_putEntry h

/-- The entries of a map give it back. -/
theorem ofList_entries (m : OrderedMap κ α) : ofList m.entries = m :=
  OrderedMap.ext (entries_ofList m.distinct)

/-! ### Many entries -/

theorem get?_foldl_insert_of_notMem {es : List (κ × α)} {k : κ} (h : k ∉ es.map Prod.fst)
    (m : OrderedMap κ α) : (es.foldl (fun m e => m.insert e.1 e.2) m).get? k = m.get? k := by
  induction es generalizing m with
  | nil => rfl
  | cons e es ih =>
    rw [List.map_cons, List.mem_cons, not_or] at h
    rw [List.foldl_cons, ih h.2, get?_insert_of_ne m e.2 h.1]

/-- Of several entries with different keys each gives its key its value. -/
theorem get?_foldl_insert_of_mem {es : List (κ × α)} (hkeys : (es.map Prod.fst).Nodup) {k : κ}
    {v : α} (h : (k, v) ∈ es) (m : OrderedMap κ α) :
    (es.foldl (fun m e => m.insert e.1 e.2) m).get? k = some v := by
  induction es generalizing m with
  | nil => cases h
  | cons e es ih =>
    rw [List.map_cons, List.nodup_cons] at hkeys
    rw [List.foldl_cons]
    rcases List.mem_cons.1 h with rfl | h
    · rw [get?_foldl_insert_of_notMem hkeys.1, get?_insert_self]
    · exact ih hkeys.2 h _

theorem putEntry_of_mem {k : κ} {v : α} {es : List (κ × α)} (hkeys : (es.map Prod.fst).Nodup)
    (h : (k, v) ∈ es) : putEntry k v es = es := by
  induction es with
  | nil => cases h
  | cons e es ih =>
    obtain ⟨k', v'⟩ := e
    rw [List.map_cons, List.nodup_cons] at hkeys
    rw [putEntry]
    rcases List.mem_cons.1 h with heq | hmem
    · obtain ⟨rfl, rfl⟩ := Prod.mk.inj heq
      rw [if_pos rfl]
    · have hne : k' ≠ k := by
        rintro rfl
        exact hkeys.1 (List.mem_map.2 ⟨_, hmem, rfl⟩)
      rw [if_neg hne, ih hkeys.2 hmem]

/-- Writing the value that a key has changes nothing. -/
theorem insert_of_get? {m : OrderedMap κ α} {k : κ} {v : α} (h : m.get? k = some v) :
    m.insert k v = m := by
  apply OrderedMap.ext
  exact putEntry_of_mem m.distinct ((mem_entries_iff m k v).2 h)

theorem foldl_insert_of_get? {m : OrderedMap κ α} {es : List (κ × α)}
    (h : ∀ e ∈ es, m.get? e.1 = some e.2) : es.foldl (fun m e => m.insert e.1 e.2) m = m := by
  induction es with
  | nil => rfl
  | cons e es ih =>
    rw [List.foldl_cons, insert_of_get? (h e List.mem_cons_self)]
    exact ih fun f hf => h f (List.mem_cons_of_mem e hf)

theorem map_putEntry {β : Type} (f : α → β) (k : κ) (v : α) (es : List (κ × α)) :
    (putEntry k v es).map (fun e => (e.1, f e.2)) =
      putEntry k (f v) (es.map fun e => (e.1, f e.2)) := by
  induction es with
  | nil => rfl
  | cons e es ih =>
    obtain ⟨k', v'⟩ := e
    by_cases hk : k' = k
    · simp [putEntry, hk]
    · simp [putEntry, hk, ih]

/-- Writing an entry and then the map in another form, or the entry in that form. -/
theorem map_insert {β : Type} (f : α → β) (m : OrderedMap κ α) (k : κ) (v : α) :
    (m.insert k v).map f = (m.map f).insert k (f v) := by
  apply OrderedMap.ext
  exact map_putEntry f k v m.entries

theorem map_foldl_insert {β : Type} (f : α → β) (es : List (κ × α)) (m : OrderedMap κ α) :
    (es.foldl (fun m e => m.insert e.1 e.2) m).map f =
      (es.map fun e => (e.1, f e.2)).foldl (fun m e => m.insert e.1 e.2) (m.map f) := by
  induction es generalizing m with
  | nil => rfl
  | cons e es ih => rw [List.foldl_cons, ih, List.map_cons, List.foldl_cons, map_insert]

end LuaAudit.OrderedMap
