import LuaAudit.Proofs.Scan.Sound

/-!
# What each operation does to one document

An operation changes three things for a document: whether it waits, what was reported about it, and
what is made known.  Here is one lemma for each, per operation.

* `publication s d` is what a scan of `d` makes known;
* `pending_scanAll`, `Sound.pending_flush` and `Sound.pending_dispose`: after a scan of all waiting
  documents, and after stopping every timer, nothing waits;
* `Sound.get?_store_flush`: what a scan of all waiting documents leaves in the store;
* `ring_eq`: a call of the loop scans the document that waits.
-/

namespace LuaAudit.Scan.Scheduler

/-! ### One scan -/

/-- What a scan of a document makes known. -/
def publication (s : Settings) (d : Document) : List Event :=
  match found? s d with
  | some found => [.publish d.uri found]
  | none => []

theorem mem_publication {s : Settings} {d : Document} {e : Event} (h : e ∈ publication s d) :
    ∃ found, found? s d = some found ∧ e = .publish d.uri found := by
  unfold publication at h
  split at h
  next found hfound => exact ⟨found, hfound, List.mem_singleton.1 h⟩
  · cases h

theorem scan_events (s : Settings) (x : Scheduler) (d : Document) :
    (x.scan s d).2 = publication s d := by
  unfold scan publication
  cases found? s d <;> rfl

@[simp] theorem scan_pending (s : Settings) (x : Scheduler) (d : Document) :
    (x.scan s d).1.pending = x.pending := by
  unfold scan
  split <;> rfl

@[simp] theorem scan_timers (s : Settings) (x : Scheduler) (d : Document) :
    (x.scan s d).1.timers = x.timers := by
  unfold scan
  split <;> rfl

/-- A scan replaces the reports of its document, if it has any, and no others. -/
theorem get?_store_scan (s : Settings) (x : Scheduler) (d : Document) (u : String) :
    (x.scan s d).1.store.get? u =
      if u = d.uri then (found? s d).or (x.store.get? u) else x.store.get? u := by
  unfold scan
  split
  next found hfound => simp [OrderedMap.get?_insert, hfound]
  next hfound => simp [hfound]

/-! ### Many scans -/

/-- Documents that are scanned do not wait any longer; the others do as before. -/
theorem pending_scanAll (s : Settings) (x : Scheduler) (ds : List Document) (u : String) :
    (x.scanAll s ds).1.pending.get? u =
      if u ∈ ds.map Document.uri then none else x.pending.get? u := by
  induction ds generalizing x with
  | nil => simp [scanAll]
  | cons d ds ih =>
    simp only [scanAll, ih, scan_pending, cancel_pending, OrderedMap.get?_erase, List.map_cons,
      List.mem_cons]
    by_cases hd : u = d.uri <;> by_cases hds : u ∈ ds.map Document.uri <;> simp [hd, hds]

/-- What scans make known is made known by the scan of one of the documents. -/
theorem mem_events_scanAll {s : Settings} {x : Scheduler} {ds : List Document} {e : Event}
    (h : e ∈ (x.scanAll s ds).2) : ∃ d ∈ ds, e ∈ publication s d := by
  induction ds generalizing x with
  | nil => simp [scanAll] at h
  | cons d ds ih =>
    simp only [scanAll, scan_events, List.mem_append] at h
    rcases h with h | h
    · exact ⟨d, List.mem_cons_self, h⟩
    · obtain ⟨d', hd', h⟩ := ih h
      exact ⟨d', List.mem_cons_of_mem d hd', h⟩

/-- Scans of documents that have the same reports, if any, replace the reports under their name. -/
theorem get?_store_scanAll {s : Settings} {ds : List Document} {u : String}
    {found : Option (List Lint.Diagnostic)} (h : ∀ d ∈ ds, d.uri = u → found? s d = found)
    (x : Scheduler) :
    (x.scanAll s ds).1.store.get? u =
      if u ∈ ds.map Document.uri then found.or (x.store.get? u) else x.store.get? u := by
  induction ds generalizing x with
  | nil => simp [scanAll]
  | cons d ds ih =>
    rw [List.forall_mem_cons] at h
    simp only [scanAll, ih h.2, get?_store_scan, cancel_store, List.map_cons, List.mem_cons]
    by_cases hd : u = d.uri
    · rw [h.1 hd.symm]
      cases found <;> simp [hd]
    · simp [hd]

/-- A waiting document waits under its own name. -/
theorem Sound.get?_uri {x : Scheduler} (hs : x.Sound) {d : Document} (hd : d ∈ x.pending.values) :
    x.pending.get? d.uri = some d := by
  obtain ⟨u, hu⟩ := (x.pending.mem_values_iff d).1 hd
  rw [hs.named hu, hu]

/-- The names of the waiting documents are the names under which one waits. -/
theorem Sound.mem_waiting_iff {x : Scheduler} (hs : x.Sound) (u : String) :
    u ∈ x.pending.values.map Document.uri ↔ ∃ d, x.pending.get? u = some d := by
  rw [List.mem_map]
  constructor
  · rintro ⟨d, hd, rfl⟩
    exact ⟨d, hs.get?_uri hd⟩
  · rintro ⟨d, hd⟩
    exact ⟨d, (x.pending.mem_values_iff d).2 ⟨u, hd⟩, hs.named hd⟩

/-- The scheduler after all waiting documents were scanned. -/
theorem flush_fst (s : Settings) (x : Scheduler) :
    (x.flush s).1 = (x.scanAll s x.pending.values).1 := rfl

theorem Sound.flush {x : Scheduler} (hs : x.Sound) (s : Settings) : (x.flush s).1.Sound :=
  hs.scanAll s _

/-- After a scan of all waiting documents nothing waits. -/
theorem Sound.pending_flush {x : Scheduler} (hs : x.Sound) (s : Settings) (u : String) :
    (x.flush s).1.pending.get? u = none := by
  rw [flush_fst, pending_scanAll]
  split
  · rfl
  next hu =>
    rw [Option.eq_none_iff_forall_ne_some]
    intro d hd
    exact hu ((hs.mem_waiting_iff u).2 ⟨d, hd⟩)

/-- A scan of all waiting documents reports on each that waits, and leaves the reports on all
    others. -/
theorem Sound.get?_store_flush {x : Scheduler} (hs : x.Sound) (s : Settings) (u : String) :
    (x.flush s).1.store.get? u = ((x.pending.get? u).bind (found? s)).or (x.store.get? u) := by
  -- All documents scanned under the name are the one that waits under it.
  have honly : ∀ d ∈ x.pending.values, d.uri = u →
      found? s d = (x.pending.get? u).bind (found? s) := by
    rintro d hd rfl
    rw [hs.get?_uri hd, Option.bind_some]
  rw [flush_fst, get?_store_scanAll honly]
  split
  · rfl
  next hu =>
    have hfree : x.pending.get? u = none := by
      rw [Option.eq_none_iff_forall_ne_some]
      intro d hd
      exact hu ((hs.mem_waiting_iff u).2 ⟨d, hd⟩)
    rw [hfree, Option.bind_none, Option.none_or]

/-! ### Stopping every timer -/

theorem pending_foldl_cancel (x : Scheduler) (us : List String) (u : String) :
    (us.foldl Scheduler.cancel x).pending.get? u =
      if u ∈ us then none else x.pending.get? u := by
  induction us generalizing x with
  | nil => simp
  | cons v us ih =>
    simp only [List.foldl_cons, ih, cancel_pending, OrderedMap.get?_erase, List.mem_cons]
    by_cases hv : u = v <;> by_cases hus : u ∈ us <;> simp [hv, hus]

theorem Sound.dispose {x : Scheduler} (hs : x.Sound) : x.dispose.Sound :=
  hs.foldl_cancel x.timers.keys

/-- After stopping every timer nothing waits. -/
theorem Sound.pending_dispose {x : Scheduler} (hs : x.Sound) (u : String) :
    x.dispose.pending.get? u = none := by
  rw [Scheduler.dispose, pending_foldl_cancel]
  split
  · rfl
  next hu =>
    apply hs.pending_eq_none
    rw [Option.eq_none_iff_forall_ne_some]
    intro handle hh
    exact hu ((x.timers.mem_keys_iff u).2 ⟨handle, hh⟩)

/-! ### Live calls and waiting documents -/

/-- A live call is about a document that waits. -/
theorem Sound.exists_pending {x : Scheduler} (hs : x.Sound) {a : Alarm} (ha : a ∈ x.loop.live) :
    ∃ d, x.pending.get? a.uri = some d :=
  (hs.paired a.uri).1 ⟨_, hs.tracked ha⟩

/-- A live call, when it is made, scans the document that waits for it. -/
theorem ring_eq {x : Scheduler} {a : Alarm} {d : Document} (hd : x.pending.get? a.uri = some d)
    (s : Settings) :
    x.ring s a = ({ x with loop := x.loop.take a }.forget a.uri).scan s d := by
  simp only [ring, fire, hd]

/-- Making a call that is due keeps the scheduler sound. -/
theorem Sound.ring {x : Scheduler} (hs : x.Sound) {a : Alarm} (ha : a ∈ x.loop.live)
    (hearly : ∀ b ∈ x.loop.live, max x.loop.now a.deadline ≤ b.deadline) (s : Settings) :
    (x.ring s a).1.Sound := by
  obtain ⟨d, hd⟩ := hs.exists_pending ha
  rw [ring_eq hd]
  exact (hs.release ha hearly).scan s d

end LuaAudit.Scan.Scheduler
