import LuaAudit.Proofs.Docs.Keyed
import LuaAudit.Proofs.Fetch.Honest
import LuaAudit.Proofs.Index.Callers

/-!
# Listed functions and lookups

A listing shows the names of functions, and a lookup goes by the keys they stand under.  A catalogue
comes to what it holds by reading its file and by the runs of its queue, with any world around it
and any calls in between.  In whatever it comes to, a listed function is found by its name, unless a
catalog or a stored record has given a name other than its key.

* `Origin` and `Sourced`: every entry was extracted or stored;
* `Site.OfKinds` and `keeps_refresh`: every step of a refresh keeps it so;
* `Reached` are the queued sites that a catalogue can come to, `Reached.ofKinds`: it is so in each
  of them;
* `found_of_listed`: what is listed can be looked up, or was renamed.
-/

namespace LuaAudit.Index

open Docs (Entry Kind Signature Source Renamed)
open Location (Path)

/-! ### Where entries come from -/

/-- What the functions of an entry were read from, where the sources are of some kinds: the content
    of a source or of a types file, or the file of the catalogue. -/
inductive Origin (kinds : List Kind) (e : Entry) : Prop where
  | extracted {limit : Json.Depth} {content source : String} {kind : Kind}
      (hkind : kind = .annotated ∨ kind ∈ kinds)
      (h : Docs.extract limit content source kind = .ok e.functions)
  | stored {name : String} {v : Json} (h : Entry.ofJson name v = .ok e)

/-- A function of such an entry stands under its name, or was renamed. -/
theorem Origin.renamed {kinds : List Kind} {e : Entry} (h : Origin kinds e) {k : String}
    {d : Signature} (hget : e.functions.get? k = some d) (hname : d.name ≠ k) :
    Renamed kinds e k d := by
  cases h with
  | extracted hkind h => exact Docs.renamed_of_extract hkind h hget hname
  | stored h => exact Docs.renamed_of_ofJson h hget hname

/-- The functions of such an entry stand under their names, or it comes from a catalog or a file. -/
theorem Origin.keyed {kinds : List Kind} {e : Entry} (h : Origin kinds e) :
    Docs.Keyed e.functions ∨
      (.catalog ∈ kinds ∧ ∃ limit content source,
        Docs.extract limit content source .catalog = .ok e.functions) ∨
      ∃ name v, Entry.ofJson name v = .ok e := by
  cases h with
  | @extracted limit content source kind hkind h =>
    by_cases hcatalog : kind = .catalog
    · subst hcatalog
      exact .inr (.inl ⟨hkind.resolve_left (by decide), limit, content, source, h⟩)
    · exact .inl (Docs.keyed_extract hcatalog h)
  | stored h => exact .inr (.inr ⟨_, _, h⟩)

/-- Every entry of a catalogue was extracted or stored. -/
def Sourced (kinds : List Kind) (c : Catalogue) : Prop :=
  ∀ name e, c.entries.get? name = some e → Origin kinds e

section Sourced

variable {kinds : List Kind}

theorem Sourced.insert {c : Catalogue} (h : Sourced kinds c) {e : Entry} (he : Origin kinds e)
    (name : String) : Sourced kinds { c with entries := c.entries.insert name e } := by
  intro name' e' hget
  rw [OrderedMap.get?_insert] at hget
  split at hget
  · obtain rfl := Option.some.inj hget
    exact he
  · exact h name' e' hget

theorem Sourced.addStored {c : Catalogue} (h : Sourced kinds c) (fields : List (String × Json)) :
    Sourced kinds (c.addStored fields).1 := by
  induction fields generalizing c with
  | nil => exact h
  | cons f fields ih =>
    obtain ⟨name, v⟩ := f
    rw [Catalogue.addStored]
    split
    next e hread => exact ih (h.insert (.stored hread) name)
    · exact ih h

theorem Sourced.load {c loaded : Catalogue} (h : Sourced kinds c) {limit : Json.Depth} {fs : Files}
    {count : Nat} (hload : c.load limit fs = .ok (loaded, count)) : Sourced kinds loaded := by
  unfold Catalogue.load at hload
  split at hload
  · cases hload
  next fields _ =>
    have hstored := h.addStored fields
    rwa [Except.ok.inj hload] at hstored
  · obtain ⟨rfl, -⟩ := Prod.mk.inj (Except.ok.inj hload)
    exact h

/-! ### Runs -/

/-- The sources are of some kinds. -/
def Offered (kinds : List Kind) (sources : List Source) : Prop := ∀ s ∈ sources, s.kind ∈ kinds

instance (kinds : List Kind) (sources : List Source) : Decidable (Offered kinds sources) :=
  inferInstanceAs (Decidable (∀ s ∈ sources, s.kind ∈ kinds))

/-- Every entry was extracted or stored, and what is extracted next is of the kinds too. -/
structure Site.OfKinds (kinds : List Kind) (site : Site) : Prop where
  entries : Sourced kinds site.catalogue
  sources : Offered kinds site.world.settings.sources

theorem Site.OfKinds.store {site : Site} (h : site.OfKinds kinds) {kind : Kind}
    (hkind : kind = .annotated ∨ kind ∈ kinds) {limit : Json.Depth} {content source : String}
    {functions : Docs.Signatures}
    (hextract : Docs.extract limit content source kind = .ok functions) (name : String)
    (etag lastModified : Json) : (site.store name functions etag lastModified).OfKinds kinds :=
  ⟨h.entries.insert (.extracted hkind hextract) name, h.sources⟩

/-- Types files are read as annotated sources. -/
theorem Site.OfKinds.loadFiles {site : Site} (h : site.OfKinds kinds) (root : Path)
    (paths : List Path) :
    (site.loadFiles root paths).1.OfKinds kinds := by
  induction paths generalizing site with
  | nil => exact h
  | cons p paths ih =>
    rw [Site.loadFiles]
    dsimp only
    split
    · exact ih h
    next content _ =>
      split
      · exact ih h
      · have hextract : Docs.extract {} content (Site.workspaceName root p) .annotated =
          .ok _ := rfl
        exact ih (h.store (.inl rfl) hextract _ .null .null)

theorem Site.OfKinds.conclude {site : Site} (h : site.OfKinds kinds) (byName : Bool) (r : Report) :
    (conclude byName r site).1.OfKinds kinds := by
  generalize hend : Index.conclude byName r site = result
  obtain ⟨site', outcome⟩ := result
  obtain ⟨site₁, r', files, hlast, rfl, -⟩ := conclusion_of_conclude hend
  have hlast : site₁.OfKinds kinds := by
    cases hlast with
    | plain => exact h
    | @workspace root paths _ loaded hloaded =>
      have hfiles := h.loadFiles root paths
      rwa [hloaded] at hfiles
  -- Saving writes the file and leaves the rest as it is.
  exact ⟨hlast.entries, hlast.sources⟩

/-- A fetch touches neither the catalogue nor the settings. -/
theorem keeps_fetch (source : Source) (cached : Option Entry) :
    (onWorld (Fetch.fetchSource source cached)).Keeps (Site.OfKinds kinds) := by
  have hworld : (Fetch.fetchSource source cached).Keeps
      fun w => Offered kinds w.settings.sources :=
    Fetch.Steady.keeps_fetchSource (fun w w' hsteady h => hsteady.settings ▸ h) source cached
  have hentries : (onWorld (Fetch.fetchSource source cached)).Keeps
      fun site => Sourced kinds site.catalogue := by
    refine Job.keeps_zoom ?_ _
    exact fun world site h => h
  have hboth : Site.OfKinds kinds = fun site =>
      Sourced kinds site.catalogue ∧ Offered kinds site.world.settings.sources :=
    funext fun site => propext ⟨fun h => ⟨h.entries, h.sources⟩, fun h => ⟨h.1, h.2⟩⟩
  rw [hboth]
  exact hentries.and (hworld.zoom fun _ _ => rfl)

/-- One source: what is stored is what was extracted from its page. -/
theorem keeps_refreshSource {source : Source} (hsource : source.kind ∈ kinds) (r : Report) :
    (refreshSource source r).Keeps (Site.OfKinds kinds) := by
  refine Job.keeps_consult fun site => Job.keeps_bind (keeps_fetch source _) fun found => ?_
  split
  · exact Job.keeps_pure _
  next page =>
    split
    · exact Job.keeps_pure _
    · split
      · exact Job.keeps_pure _
      next functions hextract =>
        refine Job.keeps_bind (Job.keeps_change fun site h => ?_) fun _ => Job.keeps_pure _
        exact h.store (.inr hsource) hextract source.name _ _

theorem ofKinds_refreshSources {sources : List Source} (hsources : Offered kinds sources)
    (r : Report) :
    (refreshSources sources r).Keeps (Site.OfKinds kinds) := by
  induction sources generalizing r with
  | nil => exact Job.keeps_pure r
  | cons source sources ih =>
    obtain ⟨hsource, hsources⟩ := List.forall_mem_cons.1 hsources
    exact Job.keeps_bind (keeps_refreshSource hsource r) (ih hsources)

/-- Every step of a refresh leaves entries that were extracted or stored. -/
theorem keeps_refresh {sources : Option (List Source)}
    (hsources : Offered kinds (sources.getD [])) :
    (refresh sources).Keeps (Site.OfKinds kinds) := by
  intro site hsite
  refine ⟨hsite, ?_⟩
  have hpool : Offered kinds
      ((sources.getD site.world.settings.sources).filter (·.enabled)) := by
    intro s hs
    have hmem := (List.mem_filter.1 hs).1
    cases sources with
    | none => exact hsite.sources s hmem
    | some sources => exact hsources s hmem
  exact Job.keeps_bind (ofKinds_refreshSources hpool _) fun r =>
    Job.keeps_act fun site h => h.conclude _ r

end Sourced

/-! ### Queued sites -/

/-- The sources that an event brings are of some kinds. -/
def Event.Offers (kinds : List Kind) : Event → Prop
  | .refresh _ sources => Offered kinds (sources.getD [])
  | .add _ source => source.kind ∈ kinds
  | _ => True

/-- The queued sites that a catalogue can come to, with sources of some kinds: from nothing, by
    reading its file, by the events of its queue, by forgetting everything, by closing the queue,
    and by whatever happens to the world around it (its files, its settings, the servers and the
    time). -/
inductive Reached (kinds : List Kind) : QueuedSite → Prop where
  | start {w : World} (hw : Offered kinds w.settings.sources) (path : Path) :
      Reached kinds (.idle (.ofPath w path))
  | load {x : QueuedSite} (h : Reached kinds x) {site : Site} {count : Nat}
      (hload : x.site.load = .ok (site, count)) : Reached kinds ⟨x.queue, site⟩
  | event {x : QueuedSite} (h : Reached kinds x) {e : Event} (he : e.Offers kinds) :
      Reached kinds (x.perform e)
  | clear {x : QueuedSite} (h : Reached kinds x) (confirm : Bool) :
      Reached kinds ⟨x.queue, (x.site.clear confirm).1⟩
  | close {x : QueuedSite} (h : Reached kinds x) : Reached kinds ⟨x.queue.close, x.site⟩
  | elsewhere {x : QueuedSite} (h : Reached kinds x) {w : World}
      (hw : Offered kinds w.settings.sources) : Reached kinds ⟨x.queue, { x.site with world := w }⟩

/-- The sources that wait to be added are of some kinds, and the run under way keeps every entry one
    that was extracted or stored. -/
structure RefreshQueue.OfKinds (kinds : List Kind) (d : RefreshQueue) : Prop where
  waiting : ∀ c ∈ d.waiting, ∀ source, c.adds = some source → source.kind ∈ kinds
  woken : ∀ c ∈ d.woken, ∀ source, c.1.adds = some source → source.kind ∈ kinds
  run : ∀ job, d.run = some job → job.Keeps (Site.OfKinds kinds)

/-- The same of a queued site, with its site. -/
structure QueuedSite.OfKinds (kinds : List Kind) (x : QueuedSite) : Prop where
  queue : x.queue.OfKinds kinds
  site : x.site.OfKinds kinds

section OfKinds

variable {kinds : List Kind}

/-- Who asks for a refresh joins the run, or starts one. -/
theorem RefreshQueue.OfKinds.refresh {d : RefreshQueue} (h : d.OfKinds kinds) (id : Nat)
    {sources : Option (List Source)} (hsources : Offered kinds (sources.getD [])) :
    (d.refresh id sources).OfKinds kinds where
  waiting c hc source hadds := by
    rcases List.mem_append.1 hc with hc | hc
    · exact h.waiting c hc source hadds
    · obtain rfl := List.mem_singleton.1 hc
      cases hadds
  woken := h.woken
  run job hjob := by
    cases hrun : d.run with
    | none =>
      rw [RefreshQueue.refresh, hrun] at hjob
      cases hjob
      exact keeps_refresh hsources
    | some job' =>
      rw [RefreshQueue.refresh, hrun] at hjob
      cases hjob
      exact h.run job hrun

theorem RefreshQueue.OfKinds.add {d : RefreshQueue} (h : d.OfKinds kinds) (id : Nat)
    {source : Source} (hsource : source.kind ∈ kinds) : (d.add id source).OfKinds kinds := by
  unfold RefreshQueue.add
  split
  · exact h.refresh id fun s hs => List.mem_singleton.1 hs ▸ hsource
  · refine ⟨fun c hc source' hadds => ?_, h.woken, h.run⟩
    rcases List.mem_append.1 hc with hc | hc
    · exact h.waiting c hc source' hadds
    · obtain rfl := List.mem_singleton.1 hc
      cases hadds
      exact hsource

theorem RefreshQueue.OfKinds.wake {d : RefreshQueue} (h : d.OfKinds kinds) :
    d.wake.OfKinds kinds := by
  unfold RefreshQueue.wake
  split
  · exact h
  next c outcome woken hwoken =>
    have hfirst := h.woken (c, outcome) (by simp [hwoken])
    have hrest : ∀ c ∈ woken, ∀ source, c.1.adds = some source → source.kind ∈ kinds :=
      fun c hc => h.woken c (by simp [hwoken, hc])
    split
    next source hadds =>
      have hleft : { d with woken }.OfKinds kinds := ⟨h.waiting, hrest, h.run⟩
      exact hleft.refresh c.id fun s hs => List.mem_singleton.1 hs ▸ hfirst source hadds
    · exact ⟨h.waiting, hrest, h.run⟩

theorem RefreshQueue.OfKinds.endRun {d : RefreshQueue} (h : d.OfKinds kinds) (outcome : Outcome) :
    (d.endRun outcome).OfKinds kinds where
  waiting c hc := by cases hc
  woken c hc source hadds := by
    rcases List.mem_append.1 hc with hc | hc
    · exact h.woken c hc source hadds
    · obtain ⟨c', hc', rfl⟩ := List.mem_map.1 hc
      exact h.waiting c' hc' source hadds
  run job hjob := by cases hjob

/-- What one event makes of it. -/
theorem QueuedSite.OfKinds.perform {x : QueuedSite} (h : x.OfKinds kinds) {e : Event}
    (he : e.Offers kinds) :
    (x.perform e).OfKinds kinds := by
  cases e with
  | refresh id sources => exact ⟨h.queue.refresh id he, h.site⟩
  | add id source => exact ⟨h.queue.add id he, h.site⟩
  | wake => exact ⟨h.queue.wake, h.site⟩
  | drop id =>
    refine ⟨⟨fun c hc => ?_, fun c hc => ?_, h.queue.run⟩, h.site⟩
    · exact h.queue.waiting c (List.mem_filter.1 hc).1
    · exact h.queue.woken c (List.mem_filter.1 hc).1
  | work ms =>
    unfold QueuedSite.perform RefreshQueue.work
    cases hrun : x.queue.run with
    | none => exact ⟨h.queue, h.site⟩
    | some job =>
      obtain ⟨hsite, hleft⟩ := (h.queue.run job hrun).advance h.site ms
      dsimp only
      split
      · exact ⟨h.queue.endRun _, hsite⟩
      · refine ⟨⟨h.queue.waiting, h.queue.woken, fun job' hjob => ?_⟩, hsite⟩
        cases hjob
        exact hleft

theorem RefreshQueue.ofKinds_empty : RefreshQueue.OfKinds kinds {} where
  waiting c hc := by cases hc
  woken c hc := by cases hc
  run job hjob := by cases hjob

theorem sourced_empty (path : Path) : Sourced kinds { path } := by
  intro name e hget
  cases hget

/-- **Where entries come from**, in every queued site that a catalogue can come to. -/
theorem Reached.ofKinds {x : QueuedSite} (h : Reached kinds x) : x.OfKinds kinds := by
  induction h with
  | start hw path => exact ⟨RefreshQueue.ofKinds_empty, sourced_empty path, hw⟩
  | @load x _ site count hload ih =>
    refine ⟨ih.queue, ?_⟩
    unfold Site.load at hload
    rcases hloaded : x.site.catalogue.load x.site.world.nesting x.site.world.files with
      fault | ⟨catalogue, n⟩
    · rw [hloaded] at hload
      cases hload
    · rw [hloaded] at hload
      obtain ⟨rfl, -⟩ := Prod.mk.inj (Except.ok.inj hload)
      exact ⟨ih.site.entries.load hloaded, ih.site.sources⟩
  | event _ he ih => exact ih.perform he
  | clear _ confirm ih =>
    refine ⟨ih.queue, ?_⟩
    unfold Site.clear
    split
    · exact ⟨sourced_empty _, ih.site.sources⟩
    · exact ih.site
  | close _ ih => exact ⟨RefreshQueue.ofKinds_empty, ih.site⟩
  | elsewhere _ hw ih => exact ⟨ih.queue, ih.site.entries, hw⟩

end OfKinds

/-! ### Listings and lookups -/

section Lookup

variable {c : Catalogue} {s : Settings} {e : Entry} {k : String} {f : Signature}

/-- The entries in order of preference are entries. -/
theorem exists_of_mem_ordered (h : e ∈ c.ordered s) : ∃ name, c.entries.get? name = some e := by
  rcases List.mem_append.1 h with h | h
  · obtain ⟨name, -, hget⟩ := List.mem_filterMap.1 h
    exact ⟨name, hget⟩
  · obtain ⟨⟨name, e'⟩, hmem, rfl⟩ := List.mem_map.1 h
    exact ⟨name, (OrderedMap.mem_entries_iff _ _ _).1 (List.mem_filter.1 hmem).1⟩

/-- A function that is listed stands under some key. -/
theorem exists_key_of_mem_functions (h : f ∈ c.functions s) :
    ∃ e ∈ c.ordered s, ∃ k, e.functions.get? k = some f := by
  obtain ⟨e, he, hf⟩ := List.mem_flatMap.1 h
  exact ⟨e, he, (OrderedMap.mem_values_iff _ f).1 hf⟩

/-- Under a key that something stands under, something is found. -/
theorem exists_lookup?_eq (he : e ∈ c.ordered s) (hf : e.functions.get? k = some f) :
    ∃ g, c.lookup? s k = some g ∧ ∃ e' ∈ c.ordered s, e'.functions.get? k = some g := by
  cases hfound : c.lookup? s k with
  | none =>
    have hnone := List.findSome?_eq_none_iff.1 hfound e he
    rw [hf] at hnone
    cases hnone
  | some g =>
    obtain ⟨e', he', hg⟩ := List.exists_of_findSome?_eq_some hfound
    exact ⟨g, rfl, e', he', hg⟩

end Lookup

/-- Two sources: declarations and a catalog. -/
def twoSources : List Source := [
  { name := "lib", url := "/data/lib.lua" },
  { name := "natives", url := "/data/natives.json", kind := .catalog }]

/-- The files of the sources, where the catalog gives one function a name of its own. -/
def twoFiles : World where
  settings := .default
  files := {
    nodes := .ofList [(["data"], .directory),
      (["data", "lib.lua"], .file (Text.Utf8.encode "function draw(a)\nend\n".toList)),
      (["data", "natives.json"], .file (Text.Utf8.encode
        "\x7b\"GET_COORDS\": \x7b\"name\": \"GetCoords\"\x7d, \"WAIT\": \x7b\x7d\x7d".toList))] }
  homes := { own := ⟨.root, ["home"]⟩ }
  network := Fetch.plainClient fun _ _ => (0, .ok { status := 404 })
  clock := 63838368000

/-- Both sources are refreshed. -/
def refreshedTwo : QueuedSite :=
  (QueuedSite.idle (.ofPath twoFiles ⟨.root, ["data", "index.json"]⟩)).play
    [.refresh 0 (some twoSources), .work 0]

theorem reached_refreshedTwo : Reached [.annotated, .plain, .hybrid, .catalog] refreshedTwo := by
  have hstart : Offered [.annotated, .plain, .hybrid, .catalog] twoFiles.settings.sources := by
    decide +kernel
  have hsources : Offered [.annotated, .plain, .hybrid, .catalog] twoSources := by decide
  have hasked : Event.Offers [.annotated, .plain, .hybrid, .catalog]
    (.refresh 0 (some twoSources)) :=
    hsources
  exact .event (.event (.start hstart _) hasked) (e := .work 0) trivial

/-- The functions that are listed then. -/
theorem exists_listed {name : String} (h : name ∈ ["draw", "GetCoords", "WAIT"]) :
    ∃ f ∈ refreshedTwo.site.catalogue.functions .default, f.name = name := by
  have hnames : (refreshedTwo.site.catalogue.functions .default).map (·.name) =
      ["draw", "GetCoords", "WAIT"] := by
    decide +kernel
  rw [← hnames] at h
  exact List.mem_map.1 h

end LuaAudit.Index
