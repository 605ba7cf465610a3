import LuaAudit.Index.Refresh
import LuaAudit.Proofs.Fetch.Served
import LuaAudit.Proofs.OrderedMap
import Mathlib.Data.List.Nodup

/-!
# A refresh keeps its sources apart

Sources are brought up to date one after the other.  Each of them ends in exactly one place of the
report, and touches no entry but its own, and that only when it is updated.

* `Turn`: all that the turn of one source can do, and `turn_of_ends`: it does nothing else;
* `Turn.frame`, `Turn.names`, `Turn.kept`, `Turn.keys`: what a turn does to other names, to the
  names of the report, to entries and to their order;
* `frame_of_ends`, `names_of_ends`, `kept_of_ends`, `keys_of_ends`: what a run of turns does;
* `Conclusion`: all that a refresh does after its last turn, by `conclusion_of_conclude`;
* `Isolated` puts this together, and `refresh_isolated` says it of every refresh.
-/

namespace LuaAudit.Index

open Docs (Entry Source)
open Fetch (Page FetchError Served fetchSource)

/-- All names that a report accounts for. -/
def Report.names (r : Report) : List String := r.updated.keys ++ r.unchanged ++ r.failed.keys

@[simp] theorem names_empty : Report.names {} = [] := rfl

/-- A version mark as it is stored. -/
def storedMark (text : Option String) : Json := (text.map Json.str).getD .null

/-- What is extracted from a page for a source. -/
def extracted (w : World) (source : Source) (page : Page) : Except Json.ReadFault Docs.Signatures :=
  Docs.extract w.nesting (page.content.getD "") source.name source.kind

/-- The entry of a source that is updated from a page, with the functions extracted from it. -/
def pageEntry (source : Source) (page : Page) (functions : Docs.Signatures)
    (time : Docs.Timestamp) :
    Entry where
  source := source.name
  functions
  updated := time
  etag := storedMark page.etag
  lastModified := storedMark page.lastModified

/-! ### One turn -/

/-- What the turn of a source comes to: it fails, it is unchanged, nothing can be extracted from its
    page, or its entry is stored anew. -/
inductive Turn (source : Source) (site : Site) (r : Report) : Site → Report → Prop where
  | failed {world : World} {e : FetchError}
      (hfetch : (fetchSource source (site.catalogue.entries.get? source.name)).Ends site.world world
        (.error e)) :
      Turn source site r { site with world }
        { r with failed := r.failed.insert source.name e.message }
  | unchanged {world : World} {page : Page}
      (hfetch : (fetchSource source (site.catalogue.entries.get? source.name)).Ends site.world world
        (.ok page)) (hpage : page.isUnchanged = true) :
      Turn source site r { site with world } { r with unchanged := r.unchanged ++ [source.name] }
  | garbled {world : World} {page : Page} {fault : Json.ReadFault}
      (hfetch : (fetchSource source (site.catalogue.entries.get? source.name)).Ends site.world world
        (.ok page)) (hpage : page.isUnchanged = false)
      (hextract : extracted site.world source page = .error fault) :
      Turn source site r { site with world }
        { r with failed := r.failed.insert source.name fault.message }
  | updated {world world' : World} {page : Page} {functions : Docs.Signatures}
      {time : Docs.Timestamp}
      (hfetch : (fetchSource source (site.catalogue.entries.get? source.name)).Ends site.world world
        (.ok page)) (hpage : page.isUnchanged = false)
      (hextract : extracted site.world source page = .ok functions) :
      Turn source site r
        ⟨world', { site.catalogue with
          entries := site.catalogue.entries.insert source.name
            (pageEntry source page functions time) }⟩
        { r with updated := r.updated.insert source.name functions.size }

theorem ends_onWorld {α : Type} {job : Job World α} {site site' : Site} {a : α} :
    (onWorld job).Ends site site' a ↔
      ∃ world, job.Ends site.world world a ∧ site' = { site with world } := by
  unfold onWorld
  refine Job.ends_zoom ?_ ?_ ?_ job site site' a
  · exact fun _ _ => rfl
  · exact fun _ _ _ => rfl
  · exact fun _ => rfl

/-- A turn does nothing else. -/
theorem turn_of_ends {source : Source} {r r' : Report} {site site' : Site}
    (h : (refreshSource source r).Ends site site' r') : Turn source site r site' r' := by
  unfold refreshSource at h
  rw [Job.ends_consult] at h
  obtain ⟨site₁, found, hjob, h⟩ := Job.ends_bind.1 h
  obtain ⟨world, hfetch, rfl⟩ := ends_onWorld.1 hjob
  split at h
  next e =>
    obtain ⟨rfl, rfl⟩ := Job.ends_pure.1 h
    exact .failed hfetch
  next page =>
    split at h
    next hpage =>
      obtain ⟨rfl, rfl⟩ := Job.ends_pure.1 h
      exact .unchanged hfetch hpage
    next hpage =>
      rw [Bool.not_eq_true] at hpage
      split at h
      next fault hextract =>
        obtain ⟨rfl, rfl⟩ := Job.ends_pure.1 h
        exact .garbled hfetch hpage hextract
      next functions hextract =>
        obtain ⟨site₂, _, hstore, h⟩ := Job.ends_bind.1 h
        obtain ⟨rfl, rfl⟩ := Job.ends_pure.1 h
        obtain rfl := Job.ends_change.1 hstore
        exact .updated hfetch hpage hextract

variable {source : Source} {site site' : Site} {r r' : Report} {name : String}

/-- What a report and a catalogue say under a name stays as it is. -/
structure Frame (name : String) (site : Site) (r : Report) (site' : Site) (r' : Report) : Prop where
  updated : r'.updated.get? name = r.updated.get? name
  unchanged : name ∈ r'.unchanged ↔ name ∈ r.unchanged
  failed : r'.failed.get? name = r.failed.get? name
  entry : site'.catalogue.entries.get? name = site.catalogue.entries.get? name

theorem Frame.trans {site₁ site₂ site₃ : Site} {r₁ r₂ r₃ : Report}
    (h : Frame name site₁ r₁ site₂ r₂) (h' : Frame name site₂ r₂ site₃ r₃) :
    Frame name site₁ r₁ site₃ r₃ where
  updated := h'.updated.trans h.updated
  unchanged := h'.unchanged.trans h.unchanged
  failed := h'.failed.trans h.failed
  entry := h'.entry.trans h.entry

/-- A turn changes nothing under other names. -/
theorem Turn.frame (h : Turn source site r site' r') (hname : name ≠ source.name) :
    Frame name site r site' r' := by
  cases h with
  | failed | garbled => exact ⟨rfl, .rfl, OrderedMap.get?_insert_of_ne _ _ hname, rfl⟩
  | unchanged => exact ⟨rfl, by simp [hname], rfl, rfl⟩
  | updated =>
    exact ⟨OrderedMap.get?_insert_of_ne _ _ hname, .rfl, rfl,
      OrderedMap.get?_insert_of_ne _ _ hname⟩

/-- A turn adds the name of its source to the report, once. -/
theorem Turn.names (h : Turn source site r site' r') (hname : source.name ∉ r.names) :
    r'.names.Perm (source.name :: r.names) := by
  unfold Report.names at hname ⊢
  simp only [List.mem_append, not_or] at hname
  obtain ⟨⟨hupdated, -⟩, hfailed⟩ := hname
  cases h with
  | failed | garbled =>
    simp only [OrderedMap.keys_insert, if_neg hfailed, ← List.append_assoc]
    exact List.perm_append_singleton _ _
  | unchanged =>
    show (r.updated.keys ++ (r.unchanged ++ [source.name]) ++ r.failed.keys).Perm _
    rw [← List.append_assoc, List.append_assoc _ [source.name], List.singleton_append]
    exact List.perm_middle
  | updated =>
    simp only [OrderedMap.keys_insert, if_neg hupdated]
    rw [List.append_assoc, List.append_assoc, List.singleton_append, List.append_assoc]
    exact List.perm_middle

/-- A turn leaves the entries alone that it does not report as updated, and takes no name back. -/
theorem Turn.kept (h : Turn source site r site' r') :
    (∀ name ∈ r.updated.keys, name ∈ r'.updated.keys) ∧
      ∀ name, name ∉ r'.updated.keys →
        site'.catalogue.entries.get? name = site.catalogue.entries.get? name := by
  cases h with
  | failed | garbled => exact ⟨fun _ => id, fun _ _ => rfl⟩
  | unchanged => exact ⟨fun _ => id, fun _ _ => rfl⟩
  | updated =>
    refine ⟨fun name h => (OrderedMap.mem_keys_insert _ _ _ _).2 (.inr h), fun name h => ?_⟩
    rw [OrderedMap.mem_keys_insert, not_or] at h
    exact OrderedMap.get?_insert_of_ne _ _ h.1

/-- A turn puts a new entry at the end, and only when it reports its source as updated. -/
theorem Turn.keys (h : Turn source site r site' r') (hname : source.name ∉ r.updated.keys) :
    site'.catalogue.entries.keys = site.catalogue.entries.keys ++
      [source.name].filter (fun name =>
        name ∈ r'.updated.keys ∧ name ∉ site.catalogue.entries.keys) := by
  cases h with
  | failed | garbled => simp [hname]
  | unchanged => simp [hname]
  | @updated _ _ page functions time =>
    have hreported : source.name ∈ (r.updated.insert source.name functions.size).keys :=
      (OrderedMap.mem_keys_insert _ _ _ _).2 (.inl rfl)
    by_cases hpresent : source.name ∈ site.catalogue.entries.keys
    · rw [OrderedMap.keys_insert, if_pos hpresent]
      simp [hpresent]
    · rw [OrderedMap.keys_insert, if_neg hpresent]
      simp [hpresent, hreported]

/-! ### Turn after turn -/

theorem ends_refreshSources_cons {sources : List Source} :
    (refreshSources (source :: sources) r).Ends site site' r' ↔
      ∃ site₁ r₁, (refreshSource source r).Ends site site₁ r₁ ∧
        (refreshSources sources r₁).Ends site₁ site' r' :=
  Job.ends_bind

theorem ends_refreshSources_append {before after : List Source} :
    (refreshSources (before ++ after) r).Ends site site' r' ↔
      ∃ site₁ r₁, (refreshSources before r).Ends site site₁ r₁ ∧
        (refreshSources after r₁).Ends site₁ site' r' := by
  induction before generalizing site r with
  | nil =>
    constructor
    · exact fun h => ⟨site, r, Job.ends_pure.2 ⟨rfl, rfl⟩, h⟩
    · rintro ⟨site₁, r₁, hdone, h⟩
      obtain ⟨rfl, rfl⟩ := Job.ends_pure.1 hdone
      exact h
  | cons source before ih =>
    simp only [List.cons_append, ends_refreshSources_cons, ih]
    constructor
    · rintro ⟨site₁, r₁, hturn, site₂, r₂, hbefore, hafter⟩
      exact ⟨site₂, r₂, ⟨site₁, r₁, hturn, hbefore⟩, hafter⟩
    · rintro ⟨site₂, r₂, ⟨site₁, r₁, hturn, hbefore⟩, hafter⟩
      exact ⟨site₁, r₁, hturn, site₂, r₂, hbefore, hafter⟩

section Run

variable {sources : List Source} (h : (refreshSources sources r).Ends site site' r')

include h

/-- Nothing changes under names that no source has. -/
theorem frame_of_ends (hname : ∀ s ∈ sources, name ≠ s.name) : Frame name site r site' r' := by
  induction sources generalizing site r with
  | nil =>
    obtain ⟨rfl, rfl⟩ := Job.ends_pure.1 h
    exact ⟨rfl, .rfl, rfl, rfl⟩
  | cons source sources ih =>
    obtain ⟨site₁, r₁, hturn, hrest⟩ := ends_refreshSources_cons.1 h
    exact ((turn_of_ends hturn).frame (hname source List.mem_cons_self)).trans
      (ih hrest fun s hs => hname s (List.mem_cons_of_mem source hs))

/-- Every source is accounted for once. -/
theorem names_of_ends (hnames : (sources.map (·.name) ++ r.names).Nodup) :
    r'.names.Perm (sources.map (·.name) ++ r.names) := by
  induction sources generalizing site r with
  | nil =>
    obtain ⟨rfl, rfl⟩ := Job.ends_pure.1 h
    exact .rfl
  | cons source sources ih =>
    obtain ⟨site₁, r₁, hturn, hrest⟩ := ends_refreshSources_cons.1 h
    rw [List.map_cons, List.cons_append] at hnames ⊢
    have hnew : source.name ∉ r.names := fun hmem =>
      (List.nodup_cons.1 hnames).1 (List.mem_append_right _ hmem)
    have hperm : (sources.map (·.name) ++ r₁.names).Perm
        (source.name :: (sources.map (·.name) ++ r.names)) :=
      (((turn_of_ends hturn).names hnew).append_left _).trans List.perm_middle
    exact (ih hrest (hperm.nodup_iff.2 hnames)).trans hperm

/-- Entries that are not reported as updated stay as they are. -/
theorem kept_of_ends :
    (∀ name ∈ r.updated.keys, name ∈ r'.updated.keys) ∧
      ∀ name, name ∉ r'.updated.keys →
        site'.catalogue.entries.get? name = site.catalogue.entries.get? name := by
  induction sources generalizing site r with
  | nil =>
    obtain ⟨rfl, rfl⟩ := Job.ends_pure.1 h
    exact ⟨fun _ => id, fun _ _ => rfl⟩
  | cons source sources ih =>
    obtain ⟨site₁, r₁, hturn, hrest⟩ := ends_refreshSources_cons.1 h
    obtain ⟨hgrows, hkept⟩ := (turn_of_ends hturn).kept
    obtain ⟨hgrows', hkept'⟩ := ih hrest
    refine ⟨fun name hname => hgrows' name (hgrows name hname), fun name hname => ?_⟩
    rw [hkept' name hname, hkept name fun hmem => hname (hgrows' name hmem)]

/-- Entries keep their places, and new ones follow in the order of the sources. -/
theorem keys_of_ends (hnames : (sources.map (·.name)).Nodup)
    (hnew : ∀ s ∈ sources, s.name ∉ r.updated.keys) :
    site'.catalogue.entries.keys = site.catalogue.entries.keys ++
      (sources.map (·.name)).filter (fun name =>
        name ∈ r'.updated.keys ∧ name ∉ site.catalogue.entries.keys) := by
  induction sources generalizing site r with
  | nil =>
    obtain ⟨rfl, rfl⟩ := Job.ends_pure.1 h
    simp
  | cons source sources ih =>
    obtain ⟨site₁, r₁, hturn, hrest⟩ := ends_refreshSources_cons.1 h
    rw [List.map_cons, List.nodup_cons] at hnames
    have hturn := turn_of_ends hturn
    have hother : ∀ s ∈ sources, source.name ≠ s.name := fun s hs heq =>
      hnames.1 (List.mem_map.2 ⟨s, hs, heq.symm⟩)
    -- what the first turn reports of its source is not touched by the others
    have hsame : source.name ∈ r'.updated.keys ↔ source.name ∈ r₁.updated.keys := by
      rw [OrderedMap.mem_keys_iff, OrderedMap.mem_keys_iff, (frame_of_ends hrest hother).updated]
    have hrestNew : ∀ s ∈ sources, s.name ∉ r₁.updated.keys := by
      intro s hs
      rw [OrderedMap.mem_keys_iff, (hturn.frame (hother s hs).symm).updated,
        ← OrderedMap.mem_keys_iff]
      exact hnew s (List.mem_cons_of_mem source hs)
    have hfirst := hturn.keys (hnew source List.mem_cons_self)
    have hkeys := ih hrest hnames.2 hrestNew
    have hpresent : ∀ s ∈ sources, (s.name ∈ site₁.catalogue.entries.keys ↔
        s.name ∈ site.catalogue.entries.keys) := by
      intro s hs
      rw [OrderedMap.mem_keys_iff, OrderedMap.mem_keys_iff,
        (hturn.frame (hother s hs).symm).entry]
    have hlater : (sources.map (·.name)).filter (fun name =>
          name ∈ r'.updated.keys ∧ name ∉ site₁.catalogue.entries.keys) =
        (sources.map (·.name)).filter (fun name =>
          name ∈ r'.updated.keys ∧ name ∉ site.catalogue.entries.keys) := by
      apply List.filter_congr
      intro name hname
      obtain ⟨s, hs, rfl⟩ := List.mem_map.1 hname
      simp only [hpresent s hs]
    have hown : [source.name].filter (fun name =>
          name ∈ r₁.updated.keys ∧ name ∉ site.catalogue.entries.keys) =
        [source.name].filter (fun name =>
          name ∈ r'.updated.keys ∧ name ∉ site.catalogue.entries.keys) := by
      apply List.filter_congr
      intro name hname
      obtain rfl := List.mem_singleton.1 hname
      simp only [hsame]
    rw [hkeys, hlater, hfirst, hown, List.append_assoc, ← List.filter_append, List.singleton_append,
      List.map_cons]

end Run

/-! ### What becomes of each source -/

/-- What a refresh makes of the result of a fetch that led from a world to another: a failure is
    reported, an unchanged source is listed, and a page that was served is stored with its marks and
    counted, unless nothing can be extracted from it, which is a failure as well. -/
inductive Settled (r : Report) (entries : OrderedMap String Entry) (source : Source)
    (cached : Option Entry) (w w' : World) : Except FetchError Page → Prop where
  | failed {e : FetchError} (hreport : r.failed.get? source.name = some e.message) :
      Settled r entries source cached w w' (.error e)
  | unchanged {page : Page} (hpage : page.isUnchanged = true)
      (hreport : source.name ∈ r.unchanged) : Settled r entries source cached w w' (.ok page)
  | garbled {page : Page} {fault : Json.ReadFault} (hserved : Served source cached w w' page)
      (hextract : extracted w source page = .error fault)
      (hreport : r.failed.get? source.name = some fault.message) :
      Settled r entries source cached w w' (.ok page)
  | updated {page : Page} {functions : Docs.Signatures} {time : Docs.Timestamp}
      (hserved : Served source cached w w' page)
      (hextract : extracted w source page = .ok functions)
      (hentry : entries.get? source.name = some (pageEntry source page functions time))
      (hreport : r.updated.get? source.name = some functions.size) :
      Settled r entries source cached w w' (.ok page)

/-- The world when the turn of a source comes, after those of the sources before it. -/
def worldAfter (site : Site) (r : Report) (before : List Source) : World :=
  ((refreshSources before r).run site).1.world

/-- What the fetch of a source comes to at its turn, with the entry at hand that it had at first. -/
def fetchAfter (site : Site) (r : Report) (before : List Source) (source : Source) :
    World × Except FetchError Page × Nat :=
  (fetchSource source (site.catalogue.entries.get? source.name)).run (worldAfter site r before)

theorem Settled.of_frame {cached : Option Entry} {w w' : World} {result : Except FetchError Page}
    (h : Settled r site.catalogue.entries source cached w w' result)
    (hframe : Frame source.name site r site' r') :
    Settled r' site'.catalogue.entries source cached w w' result := by
  cases h with
  | failed hreport => exact .failed (hframe.failed.trans hreport)
  | unchanged hpage hreport => exact .unchanged hpage (hframe.unchanged.2 hreport)
  | garbled hserved hextract hreport =>
    exact .garbled hserved hextract (hframe.failed.trans hreport)
  | updated hserved hextract hentry hreport =>
    exact .updated hserved hextract (hframe.entry.trans hentry) (hframe.updated.trans hreport)

/-- The turn of a source settles it. -/
theorem Turn.settled (h : Turn source site r site' r') :
    Settled r' site'.catalogue.entries source (site.catalogue.entries.get? source.name) site.world
      ((fetchSource source (site.catalogue.entries.get? source.name)).run site.world).1
      ((fetchSource source (site.catalogue.entries.get? source.name)).run site.world).2.1 := by
  cases h with
  | failed hfetch =>
    obtain ⟨hworld, hresult⟩ := hfetch.eq
    rw [hworld, hresult]
    exact .failed (OrderedMap.get?_insert_self _ _ _)
  | unchanged hfetch hpage =>
    obtain ⟨hworld, hresult⟩ := hfetch.eq
    rw [hworld, hresult]
    exact .unchanged hpage (by simp)
  | garbled hfetch hpage hextract =>
    obtain ⟨hworld, hresult⟩ := hfetch.eq
    rw [hworld, hresult]
    exact .garbled (Fetch.served_of_fetchSource hfetch hpage) hextract
      (OrderedMap.get?_insert_self _ _ _)
  | updated hfetch hpage hextract =>
    obtain ⟨hworld, hresult⟩ := hfetch.eq
    rw [hworld, hresult]
    exact .updated (Fetch.served_of_fetchSource hfetch hpage) hextract
      (OrderedMap.get?_insert_self _ _ _) (OrderedMap.get?_insert_self _ _ _)

/-- A source is settled by its turn: the sources before it have not touched its entry, and those
    after it touch neither its entry nor its place in the report. -/
theorem settled_of_ends {before after : List Source}
    (h : (refreshSources (before ++ source :: after) r).Ends site site' r')
    (hbefore : ∀ s ∈ before, source.name ≠ s.name) (hafter : ∀ s ∈ after, source.name ≠ s.name) :
    Settled r' site'.catalogue.entries source (site.catalogue.entries.get? source.name)
      (worldAfter site r before) (fetchAfter site r before source).1
      (fetchAfter site r before source).2.1 := by
  obtain ⟨site₁, r₁, hfirst, hlast⟩ := ends_refreshSources_append.1 h
  obtain ⟨site₂, r₂, hturn, hrest⟩ := ends_refreshSources_cons.1 hlast
  have hworld : worldAfter site r before = site₁.world := by
    rw [worldAfter, hfirst.eq.1]
  rw [fetchAfter, hworld, ← (frame_of_ends hfirst hbefore).entry]
  exact (turn_of_ends hturn).settled.of_frame (frame_of_ends hrest hafter)

/-- A source that is reported as updated, and nowhere else, holds what was served. -/
theorem Settled.of_updated {entries : OrderedMap String Entry} {cached : Option Entry}
    {w w' : World} {result : Except FetchError Page}
    (h : Settled r entries source cached w w' result) (honce : r.names.Nodup)
    (hupdated : source.name ∈ r.updated.keys) :
    ∃ page functions time, Served source cached w w' page ∧
      extracted w source page = .ok functions ∧
      entries.get? source.name = some (pageEntry source page functions time) ∧
      r.updated.get? source.name = some functions.size := by
  rw [Report.names, List.append_assoc, List.nodup_append] at honce
  have hnot : source.name ∉ r.unchanged ++ r.failed.keys := fun hmem =>
    honce.2.2 _ hupdated _ hmem rfl
  rw [List.mem_append, not_or] at hnot
  cases h with
  | failed hreport => exact absurd ((OrderedMap.mem_keys_iff _ _).2 ⟨_, hreport⟩) hnot.2
  | unchanged _ hreport => exact absurd hreport hnot.1
  | garbled _ _ hreport => exact absurd ((OrderedMap.mem_keys_iff _ _).2 ⟨_, hreport⟩) hnot.2
  | updated hserved hextract hentry hreport => exact ⟨_, _, _, hserved, hextract, hentry, hreport⟩

/-! ### The end of a refresh -/

/-- All that a refresh with a report does after the last turn, before it saves: nothing, or reading
    types files. -/
inductive Conclusion (site : Site) (r : Report) : Site → Report → Prop where
  | plain : Conclusion site r site r
  | workspace {root : Location.Path} {paths : List Location.Path} {site' : Site}
      {loaded : List (String × Nat)} (hloaded : site.loadFiles root paths = (site', loaded)) :
      Conclusion site r site' { r with workspace := .ofList loaded }

/-- Reading the types files of a workspace stores the entries of files, and breaks off or lists
    them. -/
theorem exists_of_loadWorkspace {root : Location.Path} {pattern : String}
    {result : Except GlobError (List (String × Nat))}
    (h : site.loadWorkspace root pattern = (site', result)) :
    ∃ paths loaded, site.loadFiles root paths = (site', loaded) ∧
      ((∃ e, result = .error e) ∨ result = .ok loaded) := by
  unfold Site.loadWorkspace at h
  dsimp only at h
  split at h
  next e _ =>
    obtain ⟨rfl, rfl⟩ := Prod.mk.inj h
    exact ⟨[], [], rfl, .inl ⟨e, rfl⟩⟩
  next paths _ =>
    obtain ⟨rfl, hresult⟩ := Prod.mk.inj h
    refine ⟨_, _, rfl, ?_⟩
    split at hresult
    next e _ => exact .inl ⟨_, hresult.symm⟩
    · exact .inr hresult.symm

theorem conclusion_of_addWorkspace {outcome : Outcome}
    (h : addWorkspace site r = (site', outcome)) :
    ∃ r', Conclusion site r site' r' ∧ ((∃ e, outcome = .error e) ∨ outcome = .ok r') := by
  unfold addWorkspace at h
  dsimp only at h
  split at h
  · split at h
    next e _ =>
      obtain ⟨rfl, rfl⟩ := Prod.mk.inj h
      exact ⟨r, .plain, .inl ⟨_, rfl⟩⟩
    next root _ =>
      split at h
      next site₁ e hloaded =>
        obtain ⟨rfl, rfl⟩ := Prod.mk.inj h
        obtain ⟨paths, loaded, hfiles, -⟩ := exists_of_loadWorkspace hloaded
        exact ⟨_, .workspace hfiles, .inl ⟨_, rfl⟩⟩
      next site₁ loaded hloaded =>
        obtain ⟨rfl, rfl⟩ := Prod.mk.inj h
        obtain ⟨paths, loaded', hfiles, hend⟩ := exists_of_loadWorkspace hloaded
        obtain rfl : loaded = loaded' := by
          rcases hend with ⟨e, he⟩ | hok
          · cases he
          · exact Except.ok.inj hok
        exact ⟨_, .workspace hfiles, .inr rfl⟩
  · obtain ⟨rfl, rfl⟩ := Prod.mk.inj h
    exact ⟨r, .plain, .inr rfl⟩

/-- Saving fails only for a text that cannot be encoded. -/
theorem fault_of_save {fault : Json.EncodingFault} (h : site.save.2 = some fault) :
    site.catalogue.toJson.encodingFault? .file = some fault := by
  have hfault : (site.catalogue.save site.world.files).2 = some fault := h
  unfold Catalogue.save at hfault
  split at hfault
  · cases hfault
  · dsimp only at hfault
    split at hfault
    · exact hfault
    · cases hfault

/-- A refresh ends with a report or breaks off, when the entries of types files are stored, if any;
    after that, only files can have changed. -/
theorem conclusion_of_conclude {byName : Bool} {outcome : Outcome}
    (h : conclude byName r site = (site', outcome)) :
    ∃ site₁ r' files, Conclusion site r site₁ r' ∧
      site' = { site₁ with world := { site₁.world with files } } ∧
      ((∃ e, outcome = .error e) ∨ outcome = .ok r') := by
  unfold conclude at h
  split at h
  next site₁ e hend =>
    obtain ⟨rfl, rfl⟩ := Prod.mk.inj h
    cases byName with
    | false =>
      obtain ⟨r', hconclusion, -⟩ := conclusion_of_addWorkspace hend
      exact ⟨_, r', _, hconclusion, rfl, .inl ⟨e, rfl⟩⟩
    | true => cases (Prod.mk.inj hend).2
  next site₁ r₁ hend =>
    have hconclusion : Conclusion site r site₁ r₁ := by
      cases byName with
      | false =>
        obtain ⟨r', hconclusion, ⟨e, he⟩ | hok⟩ := conclusion_of_addWorkspace hend
        · cases he
        · obtain rfl := Except.ok.inj hok
          exact hconclusion
      | true =>
        obtain ⟨rfl, hr⟩ := Prod.mk.inj hend
        obtain rfl := Except.ok.inj hr
        exact .plain
    split at h
    next saved hsave =>
      obtain ⟨rfl, rfl⟩ := Prod.mk.inj h
      exact ⟨site₁, r₁, _, hconclusion, (congrArg Prod.fst hsave).symm, .inr rfl⟩
    next saved fault hsave =>
      obtain ⟨rfl, rfl⟩ := Prod.mk.inj h
      exact ⟨site₁, r₁, _, hconclusion, (congrArg Prod.fst hsave).symm, .inl ⟨_, rfl⟩⟩

/-! ### The refresh -/

/-- What a refresh of given sources makes of a catalogue, as a report tells. -/
structure Isolated (sources : List Source) (site site' : Site) (r : Report) : Prop where
  /-- No name is reported twice, be it in one place or in two. -/
  once : r.names.Nodup
  /-- The names of the enabled sources are reported, and no others. -/
  accounted : ∀ name, name ∈ r.names ↔ ∃ s ∈ sources, s.enabled = true ∧ s.name = name
  /-- Sources that are not enabled are not reported at all. -/
  disabled : ∀ s ∈ sources, s.enabled = false → s.name ∉ r.names
  /-- Whatever is not reported as updated is as before: failed, unchanged, disabled or not asked
      for. -/
  kept : ∀ name, name ∉ r.updated.keys →
    site'.catalogue.entries.get? name = site.catalogue.entries.get? name
  /-- Each enabled source is settled by what its fetch gave, when its turn came. -/
  settled : ∀ before source after, sources.filter (·.enabled) = before ++ source :: after →
    Settled r site'.catalogue.entries source (site.catalogue.entries.get? source.name)
      (worldAfter site {} before) (fetchAfter site {} before source).1
      (fetchAfter site {} before source).2.1
  /-- An updated source holds what was served when its turn came, and the report counts it. -/
  updated : ∀ before source after, sources.filter (·.enabled) = before ++ source :: after →
    source.name ∈ r.updated.keys → ∃ page functions time,
      Served source (site.catalogue.entries.get? source.name) (worldAfter site {} before)
        (fetchAfter site {} before source).1 page ∧
      extracted (worldAfter site {} before) source page = .ok functions ∧
      site'.catalogue.entries.get? source.name = some (pageEntry source page functions time) ∧
      r.updated.get? source.name = some functions.size
  /-- Entries keep their places, and new ones follow in the order of the sources. -/
  order : site'.catalogue.entries.keys = site.catalogue.entries.keys ++
    ((sources.filter (·.enabled)).map (·.name)).filter (fun name =>
      name ∈ r.updated.keys ∧ name ∉ site.catalogue.entries.keys)

theorem ends_refresh_some {sources : List Source} {outcome : Outcome} :
    (refresh (some sources)).Ends site site' outcome ↔
      ∃ site₁ r, (refreshSources (sources.filter (·.enabled)) {}).Ends site site₁ r ∧
        site' = site₁.save.1 ∧
        outcome = (match site₁.save.2 with
          | none => .ok r
          | some fault => .error (.encoding fault)) := by
  have hconclude (site₁ : Site) (r : Report) : conclude true r site₁ = (site₁.save.1,
      match site₁.save.2 with
      | none => .ok r
      | some fault => .error (.encoding fault)) := by
    unfold conclude
    rcases hsave : site₁.save with ⟨saved, _ | fault⟩ <;> simp [hsave]
  simp [refresh, hconclude]

/-- **Failures stay apart.**  A refresh of sources with different names ends with a report, unless
    the catalogue has a text that cannot be encoded.  Every enabled source is in exactly one place
    of the report and no other source is in any.  No entry changes but those of updated sources,
    which hold what was extracted from what was served; and no entry changes its place. -/
theorem refresh_isolated (site : Site) {sources : List Source}
    (hnames : (sources.map (·.name)).Nodup) :
    ∃ site' r outcome time, (refresh (some sources)).run site = (site', outcome, time) ∧
      Isolated sources site site' r ∧
      (outcome = .ok r ∨ ∃ fault, outcome = .error (.encoding fault) ∧
        site'.catalogue.toJson.encodingFault? .file = some fault) := by
  obtain ⟨time, hrun⟩ := Job.exists_ends (refresh (some sources)) site
  obtain ⟨site₁, r, hends, hsite, houtcome⟩ := ends_refresh_some.1 ⟨time, hrun⟩
  rw [hsite] at hrun
  refine ⟨site₁.save.1, r, _, time, hrun, ?_, ?_⟩
  rotate_left
  · rw [houtcome]
    split
    · exact .inl rfl
    next fault hfault =>
      have hencode : site₁.catalogue.toJson.encodingFault? .file = some fault :=
        fault_of_save hfault
      exact .inr ⟨fault, rfl, hencode⟩
  -- saving leaves the catalogue as it is, so that the facts about `site₁` are what counts
  have hdistinct : ((sources.filter (·.enabled)).map (·.name)).Nodup :=
    (List.filter_sublist.map _).nodup hnames
  have hperm : r.names.Perm ((sources.filter (·.enabled)).map (·.name)) := by
    simpa using names_of_ends hends (by simpa using hdistinct)
  have honce : r.names.Nodup := hperm.nodup_iff.2 hdistinct
  have hkeys := keys_of_ends hends hdistinct fun _ _ => List.not_mem_nil
  have haccounted : ∀ name, name ∈ r.names ↔ ∃ s ∈ sources, s.enabled = true ∧ s.name = name := by
    intro name
    rw [hperm.mem_iff]
    simp [and_assoc]
  have hsettled (before : List Source) (source : Source) (after : List Source)
      (hsplit : sources.filter (·.enabled) = before ++ source :: after) := by
    rw [hsplit] at hends hdistinct
    rw [List.map_append, List.map_cons, List.nodup_middle, List.nodup_cons, List.mem_append,
      not_or] at hdistinct
    exact settled_of_ends hends
      (fun s hs heq => hdistinct.1.1 (List.mem_map.2 ⟨s, hs, heq.symm⟩))
      (fun s hs heq => hdistinct.1.2 (List.mem_map.2 ⟨s, hs, heq.symm⟩))
  exact {
    once := honce
    accounted := haccounted
    disabled := by
      intro s hs hdisabled hmem
      obtain ⟨s', hs', henabled, hname⟩ := (haccounted s.name).1 hmem
      obtain rfl := List.inj_on_of_nodup_map hnames hs' hs hname
      exact absurd henabled (by simp [hdisabled])
    kept := (kept_of_ends hends).2
    settled := hsettled
    updated := fun before source after hsplit =>
      (hsettled before source after hsplit).of_updated honce
    order := hkeys }

/-- A file, a missing file, a page that its server calls unchanged, and a source that is not
    enabled. -/
def mixedSources : List Source := [
  { name := "notes", url := "/data/notes.lua" },
  { name := "lost", url := "/data/lost.lua" },
  { name := "wiki", url := "https://lua.org/api.lua" },
  { name := "off", url := "/data/notes.lua", enabled := false }]

/-- A world with the file and the server, and a catalogue that knows two of the sources. -/
def mixedSite : Site where
  world := {
    settings := .default
    files := {
      nodes := .ofList [(["data"], .directory),
        (["data", "notes.lua"], .file (Text.Utf8.encode "function f(a)\nend\n".toList))] }
    homes := { own := ⟨.root, ["home"]⟩ }
    network := Fetch.plainClient fun _ _ => (0, .ok { status := 304 })
    clock := 63838368000 }
  catalogue := {
    path := ⟨.root, ["data", "index.json"]⟩
    entries := .ofList [
      ("lost", { source := "lost", functions := .empty, updated := .ofSeconds 0 }),
      ("wiki", {
        source := "wiki", functions := .empty, updated := .ofSeconds 0, etag := .str "1" })] }

/-- All of it can be encoded, so that there is a report. -/
theorem refresh_isolated_mixed : ∃ site' r time,
    (refresh (some mixedSources)).run mixedSite = (site', .ok r, time) ∧
      Isolated mixedSources mixedSite site' r ∧
      (r.updated.entries, r.unchanged, r.failed.keys) = ([("notes", 1)], ["wiki"], ["lost"]) := by
  have hreport : (((refresh (some mixedSources)).run mixedSite).2.1.toOption.map fun r =>
      (r.updated.entries, r.unchanged, r.failed.keys)) =
        some ([("notes", 1)], ["wiki"], ["lost"]) := by
    decide +kernel
  have hnames : (mixedSources.map (·.name)).Nodup := by decide
  obtain ⟨site', r, outcome, time, hrun, hisolated, rfl | ⟨fault, rfl, -⟩⟩ :=
    refresh_isolated mixedSite hnames
  · rw [hrun] at hreport
    exact ⟨site', r, time, hrun, hisolated, Option.some.inj hreport⟩
  · rw [hrun] at hreport
    cases hreport

end LuaAudit.Index
