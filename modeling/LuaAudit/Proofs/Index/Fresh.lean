import LuaAudit.Proofs.Docs.Catalog
import LuaAudit.Proofs.Fetch.Honest
import LuaAudit.Proofs.Index.Refresh

/-!
# When an entry is current

An entry is kept under the name of its source, with the mark of the version that it was made of.  A
server that calls the page unchanged compares that mark only: it knows neither from which address
nor for which kind of source the entry was made.  So an entry that is reported as updated holds what
its source offers, and one that is reported as unchanged does if no source of another address or
kind has had the name since the entry was last updated.

* `Visit`: a refresh in a world of its own, with the versions that are current then;
* `Fresh`: an entry holds what its source offers in a visit;
* `Made`: an entry with a mark is what its source makes of the version of that mark;
* `Accounted`: what turns can do to the entry of a source and to what is reported of it, for one
  turn in `Turn.accounted` and for a run of them in `accounted_of_ends`;
* `Owned`: visits after which the entry of a source is one that it made itself;
* `fresh_of_reported`: what a report says of an entry, after every run of visits to honest servers.
-/

namespace LuaAudit.Index

open Docs (Entry Source)
open Fetch (Version Steady fetchSource)
open Location (Path isLocal localPath)

/-! ### Visits -/

/-- A refresh of some sources, or of all those of the settings, in the world as it is then, and the
    version of every page that is current then. -/
structure Visit where
  world : World
  current : (url : String) → Version
  sources : Option (List Source)

namespace Visit

/-- The sources that are brought up to date. -/
def pool (v : Visit) : List Source :=
  (v.sources.getD v.world.settings.sources).filter (·.enabled)

/-- The servers are honest. -/
def Honest (v : Visit) : Prop := Fetch.Honest v.current v.world.network

/-- They stay so while a fetch goes on. -/
theorem Honest.of_steady {v : Visit} (h : v.Honest) {w : World} (hsteady : Steady v.world w) :
    Fetch.Honest v.current w.network where
  unchanged := by
    rw [hsteady.ask]
    exact h.unchanged
  changed := by
    rw [hsteady.ask, hsteady.decode]
    exact h.changed

/-- What is to be had at an address: the text of its file, or the current version of its page. -/
inductive Offers (v : Visit) (url : String) : (text : String) → Prop where
  | file {p : Path} {text : String} (hlocal : isLocal url = .ok true)
      (hpath : localPath v.world.homes url = .ok p)
      (htext : v.world.files.readText p = .ok text) : Offers v url text
  | web (hweb : isLocal url = .ok false) : Offers v url (v.current url).content

/-- All sources that have the name of this one have its address and its kind. -/
def Agrees (v : Visit) (source : Source) : Prop :=
  ∀ s ∈ v.pool, s.name = source.name → s.url = source.url ∧ s.kind = source.kind

/-- What a visit comes to. -/
def outcome (v : Visit) (c : Catalogue) : Outcome := ((refresh v.sources).run ⟨v.world, c⟩).2.1

/-- The catalogue after a visit. -/
def leaves (v : Visit) (c : Catalogue) : Catalogue :=
  ((refresh v.sources).run ⟨v.world, c⟩).1.catalogue

end Visit

/-- The catalogue after some visits. -/
def afterVisits (c : Catalogue) (visits : List Visit) : Catalogue :=
  visits.foldl (fun c v => v.leaves c) c

/-- The functions that are extracted from a text for a source, whenever the limit on nested JSON is
    high enough for the text. -/
def Yields (source : Source) (text : String) (functions : Docs.Signatures) : Prop :=
  ∃ depth, ∀ limit : Json.Depth, depth ≤ limit.levels →
    Docs.extract limit text source.name source.kind = .ok functions

/-- The entry of a source holds what the source offers. -/
def Fresh (v : Visit) (source : Source) (entries : OrderedMap String Entry) : Prop :=
  ∃ text entry, v.Offers source.url text ∧ entries.get? source.name = some entry ∧
    Yields source text entry.functions

/-- If the entry of a source has a mark, it is what the source makes of the version of that mark. -/
def Made (visits : List Visit) (source : Source) (entries : OrderedMap String Entry) : Prop :=
  ∀ entry, entries.get? source.name = some entry → entry.etag.truthy = true →
    ∃ v ∈ visits, entry.etag = .str (v.current source.url).etag ∧
      Yields source (v.current source.url).content entry.functions

/-- Marks tell versions apart: one that is current in a visit is not that of an older version. -/
def Tells (visits : List Visit) (v : Visit) : Prop :=
  ∀ u ∈ visits, ∀ url, (u.current url).etag = (v.current url).etag →
    (u.current url).content = (v.current url).content

theorem yields_of_extract {source : Source} {text : String} {functions : Docs.Signatures}
    {limit : Json.Depth} (h : Docs.extract limit text source.name source.kind = .ok functions) :
    Yields source text functions :=
  ⟨limit.levels, fun _ hle => Docs.extract_mono hle h⟩

/-- A source makes one thing of a text. -/
theorem Yields.unique {source : Source} {text : String} {functions functions' : Docs.Signatures}
    (h : Yields source text functions) (h' : Yields source text functions') :
    functions = functions' := by
  obtain ⟨depth, hyields⟩ := h
  obtain ⟨depth', hyields'⟩ := h'
  let limit : Json.Depth := ⟨max 16 (max depth depth'), by omega⟩
  have hsame := (hyields limit (by simp only [limit]; omega)).symm.trans
    (hyields' limit (by simp only [limit]; omega))
  exact Except.ok.inj hsame

/-! ### One turn -/

section Turn

variable {visits : List Visit} {v : Visit} {source : Source} {site site' : Site} {r r' : Report}

/-- An entry that is left alone stays fresh. -/
theorem Fresh.of_get?_eq {entries entries' : OrderedMap String Entry} (h : Fresh v source entries)
    (heq : entries'.get? source.name = entries.get? source.name) : Fresh v source entries' := by
  unfold Fresh
  rw [heq]
  exact h

theorem Made.of_get?_eq {entries entries' : OrderedMap String Entry}
    (h : Made visits source entries) (heq : entries'.get? source.name = entries.get? source.name) :
    Made visits source entries' := by
  unfold Made
  rw [heq]
  exact h

theorem Made.mono {visits' : List Visit} {entries : OrderedMap String Entry}
    (h : Made visits source entries) (hsub : visits ⊆ visits') : Made visits' source entries := by
  intro entry hget htruthy
  obtain ⟨v, hv, hmade⟩ := h entry hget htruthy
  exact ⟨v, hsub hv, hmade⟩

/-- What is stored anew is what the source offers, and is marked with its version. -/
theorem fresh_of_updated (hv : v ∈ visits) (hhonest : v.Honest)
    (hsteady : Steady v.world site.world) {world : World} {page : Fetch.Page}
    {functions : Docs.Signatures}
    (hfetch : (fetchSource source (site.catalogue.entries.get? source.name)).Ends site.world world
      (.ok page)) (hpage : page.isUnchanged = false)
    (hextract : extracted site.world source page = .ok functions) (time : Docs.Timestamp) :
    let entries := site.catalogue.entries.insert source.name (pageEntry source page functions time)
    Made visits source entries ∧ Fresh v source entries := by
  intro entries
  have hget : entries.get? source.name = some (pageEntry source page functions time) :=
    OrderedMap.get?_insert_self _ _ _
  unfold extracted at hextract
  rcases (hhonest.of_steady hsteady).served hfetch hpage with
    ⟨p, text, hlocal, hpath, htext, hcontent, hetag⟩ | ⟨hweb, hcontent, hetag⟩
  · rw [hcontent] at hextract
    refine ⟨fun entry hentry htruthy => ?_, text, _, ?_, hget, yields_of_extract hextract⟩
    · -- A file has no mark.
      obtain rfl := Option.some.inj (hget.symm.trans hentry)
      rw [pageEntry, hetag] at htruthy
      cases htruthy
    · rw [hsteady.homes] at hpath
      rw [hsteady.files] at htext
      exact .file hlocal hpath htext
  · rw [hcontent] at hextract
    have hyields : Yields source (v.current source.url).content functions :=
      yields_of_extract hextract
    refine ⟨fun entry hentry _ => ?_, _, _, .web hweb, hget, hyields⟩
    obtain rfl := Option.some.inj (hget.symm.trans hentry)
    refine ⟨v, hv, ?_, hyields⟩
    rw [pageEntry, hetag]
    rfl

/-- What is called unchanged is what the source offers, if the source made it. -/
theorem fresh_of_unchanged (hhonest : v.Honest) (hsteady : Steady v.world site.world)
    (htells : Tells visits v) {world : World} {page : Fetch.Page}
    (hfetch : (fetchSource source (site.catalogue.entries.get? source.name)).Ends site.world world
      (.ok page)) (hpage : page.isUnchanged = true)
    (hmade : Made visits source site.catalogue.entries) :
    Fresh v source site.catalogue.entries := by
  obtain ⟨entry, hweb, hcached, hetag, htruthy⟩ := (hhonest.of_steady hsteady).at_hand hfetch hpage
  obtain ⟨u, hu, hetag', hyields⟩ := hmade entry hcached htruthy
  -- The mark is that of the current version, so the entry was made of what is current.
  rw [hetag] at hetag'
  have hsame := htells u hu source.url (Json.str.inj hetag').symm
  rw [hsame] at hyields
  exact ⟨_, entry, .web hweb, hcached, hyields⟩

/-- What turns do to the entry of a source: they store it anew, or leave it alone, and then they
    report it as unchanged only if it is fresh, provided that marks tell versions apart and the
    source made it. -/
inductive Accounted (visits : List Visit) (v : Visit) (source : Source) (site : Site) (r : Report)
    (site' : Site) (r' : Report) : Prop where
  | renewed (hmade : Made visits source site'.catalogue.entries)
      (hfresh : Fresh v source site'.catalogue.entries)
  | left (hentry : site'.catalogue.entries.get? source.name =
      site.catalogue.entries.get? source.name)
      (hupdated : source.name ∈ r'.updated.keys → source.name ∈ r.updated.keys)
      (hunchanged : source.name ∈ r'.unchanged → source.name ∈ r.unchanged ∨
        (Tells visits v → Made visits source site.catalogue.entries →
          Fresh v source site.catalogue.entries))

/-- **One turn,** of a source that has the address and the kind of this one if it has its name. -/
theorem Turn.accounted {turned : Source} (h : Turn turned site r site' r') (hv : v ∈ visits)
    (hhonest : v.Honest) (hsteady : Steady v.world site.world)
    (hsame : turned.name = source.name → turned.url = source.url ∧ turned.kind = source.kind) :
    Accounted visits v source site r site' r' := by
  by_cases hname : turned.name = source.name
  · obtain ⟨hurl, hkind⟩ := hsame hname
    -- Of a source, the entry depends on its name, address and kind.
    have hmade : ∀ entries, Made visits turned entries ↔ Made visits source entries := by
      intro entries
      simp only [Made, Yields, hname, hurl, hkind]
    have hfresh : ∀ entries, Fresh v turned entries ↔ Fresh v source entries := by
      intro entries
      simp only [Fresh, Yields, hname, hurl, hkind]
    cases h with
    | failed | garbled => exact .left rfl id .inl
    | unchanged hfetch hpage =>
      refine .left rfl id fun _ => .inr fun htells hbefore => (hfresh _).1 ?_
      exact fresh_of_unchanged hhonest hsteady htells hfetch hpage ((hmade _).2 hbefore)
    | updated hfetch hpage hextract =>
      obtain ⟨hmade', hfresh'⟩ := fresh_of_updated hv hhonest hsteady hfetch hpage hextract _
      exact .renewed ((hmade _).1 hmade') ((hfresh _).1 hfresh')
  · -- The turn of another name touches neither the entry nor what the report says of it.
    have hframe := h.frame (Ne.symm hname)
    refine .left hframe.entry (fun hmem => ?_) fun hmem => .inl (hframe.unchanged.1 hmem)
    rw [OrderedMap.mem_keys_iff, hframe.updated, ← OrderedMap.mem_keys_iff] at hmem
    exact hmem

theorem Accounted.trans {site₁ : Site} {r₁ : Report} (h : Accounted visits v source site r site₁ r₁)
    (h' : Accounted visits v source site₁ r₁ site' r') :
    Accounted visits v source site r site' r' := by
  cases h' with
  | renewed hmade hfresh => exact .renewed hmade hfresh
  | left hentry' hupdated' hunchanged' =>
    cases h with
    | renewed hmade hfresh => exact .renewed (hmade.of_get?_eq hentry') (hfresh.of_get?_eq hentry')
    | left hentry hupdated hunchanged =>
      refine .left (hentry'.trans hentry) (hupdated ∘ hupdated') fun hmem => ?_
      rcases hunchanged' hmem with hmem₁ | hfresh
      · exact hunchanged hmem₁
      · refine .inr fun htells hmade => ?_
        exact (hfresh htells (hmade.of_get?_eq hentry)).of_get?_eq hentry.symm

end Turn

/-! ### Turn after turn -/

/-- A refresh leaves the world steady while it fetches. -/
theorem keeps_refreshSources (w : World) (sources : List Source) (r : Report) :
    (refreshSources sources r).Keeps fun site => Steady w site.world := by
  induction sources generalizing r with
  | nil => exact Job.keeps_pure r
  | cons source sources ih =>
    refine Job.keeps_bind (Job.keeps_consult fun site => ?_) fun r' => ih r'
    refine Job.keeps_bind ?_ fun found => ?_
    · exact (Fetch.keeps_fetchSource w source _).zoom fun _ _ => rfl
    · split
      · exact Job.keeps_pure _
      · split
        · exact Job.keeps_pure _
        · split
          · exact Job.keeps_pure _
          · refine Job.keeps_bind (Job.keeps_change fun site h => ?_) fun _ => Job.keeps_pure _
            exact ⟨h.settings, h.files, h.homes, h.nesting, h.ask, h.decode⟩

/-- **Turn after turn.** -/
theorem accounted_of_ends {visits : List Visit} {v : Visit} {source : Source} (hv : v ∈ visits)
    (hhonest : v.Honest) (hagree : v.Agrees source) {sources : List Source}
    (hsources : sources ⊆ v.pool) {site site' : Site} {r r' : Report}
    (hsteady : Steady v.world site.world) (h : (refreshSources sources r).Ends site site' r') :
    Accounted visits v source site r site' r' := by
  induction sources generalizing site r with
  | nil =>
    obtain ⟨rfl, rfl⟩ := Job.ends_pure.1 h
    exact .left rfl id .inl
  | cons turned sources ih =>
    obtain ⟨site₁, r₁, hfirst, hrest⟩ := ends_refreshSources_cons.1 h
    rw [List.cons_subset] at hsources
    have hsteady₁ : Steady v.world site₁.world := by
      have hone : (refreshSources [turned] r).Ends site site₁ r₁ :=
        ends_refreshSources_cons.2 ⟨site₁, r₁, hfirst, Job.ends_pure.2 ⟨rfl, rfl⟩⟩
      exact (keeps_refreshSources v.world [turned] r).ends hsteady hone
    have hturn := (turn_of_ends hfirst).accounted hv hhonest hsteady (hagree turned hsources.1)
    exact hturn.trans (ih hsources.2 hsteady₁ hrest)

/-! ### The types files of the workspace -/

/-- Entries of some names are stored without a mark, the others are as they were. -/
structure Overlaid (names : List String) (site site' : Site) : Prop where
  kept : ∀ name, name ∉ names →
    site'.catalogue.entries.get? name = site.catalogue.entries.get? name
  made : ∀ visits source, Made visits source site.catalogue.entries →
    Made visits source site'.catalogue.entries

theorem Overlaid.refl (names : List String) (site : Site) : Overlaid names site site :=
  ⟨fun _ _ => rfl, fun _ _ => id⟩

/-- Storing an entry without a mark. -/
theorem overlaid_store (site : Site) (name : String) (functions : Docs.Signatures) :
    Overlaid [name] site (site.store name functions .null .null) := by
  refine ⟨fun name' hname => ?_, fun visits source hmade entry hget htruthy => ?_⟩
  · exact OrderedMap.get?_insert_of_ne _ _ (List.ne_of_not_mem_cons hname)
  · rw [Site.store, OrderedMap.get?_insert] at hget
    split at hget
    · obtain rfl := Option.some.inj hget
      cases htruthy
    · exact hmade entry hget htruthy

/-- Reading types files stores those that it lists. -/
theorem overlaid_of_loadFiles {root : Path} {paths : List Path} {site site' : Site}
    {loaded : List (String × Nat)} (h : site.loadFiles root paths = (site', loaded)) :
    Overlaid (loaded.map Prod.fst) site site' := by
  induction paths generalizing site site' loaded with
  | nil =>
    obtain ⟨rfl, -⟩ := Prod.mk.inj h
    exact .refl _ _
  | cons p paths ih =>
    rw [Site.loadFiles] at h
    dsimp only at h
    split at h
    · exact ih h
    next content _ =>
      split at h
      · exact ih h
      · obtain ⟨rfl, rfl⟩ := Prod.mk.inj h
        have hfirst := overlaid_store site (Site.workspaceName root p)
          (Docs.extractAnnotated content (Site.workspaceName root p))
        generalize site.store _ _ .null .null = stored at hfirst ⊢
        have hrest : Overlaid _ stored (Site.loadFiles root stored paths).1 := ih rfl
        refine ⟨fun name hname => ?_, fun visits source hmade => ?_⟩
        · rw [List.map_cons, List.mem_cons, not_or] at hname
          rw [hrest.kept name hname.2, hfirst.kept name (by simpa using hname.1)]
        · exact hrest.made visits source (hfirst.made visits source hmade)

theorem Conclusion.overlaid {site site' : Site} {r r' : Report} (h : Conclusion site r site' r') :
    Overlaid r'.workspace.keys site site' := by
  cases h with
  | plain => exact .refl _ _
  | workspace hloaded =>
    have hover := overlaid_of_loadFiles hloaded
    refine ⟨fun name hname => hover.kept name fun hmem => hname ?_, hover.made⟩
    exact (OrderedMap.mem_keys_ofList _ name).2 hmem

/-! ### Visit after visit -/

/-- Visits after which the entry of a source is its own, if it has a mark: all sources of the name
    had this address and this kind, from the start or since a visit that reports it as updated. -/
inductive Owned (path : Path) (source : Source) : List Visit → Prop where
  | start : Owned path source []
  | renewed {visits : List Visit} {v : Visit} {report : Report} (hagree : v.Agrees source)
      (hreport : v.outcome (afterVisits { path } visits) = .ok report)
      (hupdated : source.name ∈ report.updated.keys) : Owned path source (visits ++ [v])
  | kept {visits : List Visit} {v : Visit} (h : Owned path source visits)
      (hagree : v.Agrees source) : Owned path source (visits ++ [v])

/-- What a visit does: turns that account for the entry of a source, and an end. -/
theorem Visit.accounted {visits : List Visit} {v : Visit} {source : Source} (hv : v ∈ visits)
    (hhonest : v.Honest) (hagree : v.Agrees source) (c : Catalogue) :
    ∃ site r, Accounted visits v source ⟨v.world, c⟩ {} site r ∧
      conclude v.sources.isSome r site =
        (((refresh v.sources).run ⟨v.world, c⟩).1, v.outcome c) := by
  have hends := Job.exists_ends (refresh v.sources) ⟨v.world, c⟩
  unfold refresh at hends
  rw [Job.ends_consult] at hends
  obtain ⟨site, r, hsources, hlast⟩ := Job.ends_bind.1 hends
  have haccounted : Accounted visits v source ⟨v.world, c⟩ {} site r :=
    accounted_of_ends hv hhonest hagree (List.Subset.refl v.pool) (.refl _) hsources
  exact ⟨site, r, haccounted, (Job.ends_act.1 hlast).symm⟩

section Visits

variable {visits : List Visit} {v : Visit} {source : Source} {path : Path} {c : Catalogue}

/-- A visit keeps an entry that its source made, and makes one that it reports as updated. -/
theorem Visit.made (hv : v ∈ visits) (hhonest : v.Honest) (hagree : v.Agrees source)
    (h : Made visits source c.entries ∨
      ∃ report, v.outcome c = .ok report ∧ source.name ∈ report.updated.keys) :
    Made visits source (v.leaves c).entries := by
  obtain ⟨site, r, haccounted, hlast⟩ := Visit.accounted hv hhonest hagree c
  have hturns : (source.name ∈ r.updated.keys ∨ Made visits source c.entries) →
      Made visits source site.catalogue.entries := by
    cases haccounted with
    | renewed hmade => exact fun _ => hmade
    | left hentry hupdated =>
      rintro (hmem | hmade)
      · cases hupdated hmem
      · exact hmade.of_get?_eq hentry
  obtain ⟨site₁, r', files, hend, hsite, houtcome⟩ := conclusion_of_conclude hlast
  unfold Visit.leaves
  rw [hsite]
  refine hend.overlaid.made visits source (hturns ?_)
  rcases h with hmade | ⟨report, hreport, hmem⟩
  · exact .inr hmade
  · refine .inl ?_
    rcases houtcome with ⟨e, hfail⟩ | hok
    · cases hfail.symm.trans hreport
    · obtain rfl : r' = report := Except.ok.inj (hok.symm.trans hreport)
      cases hend with
      | plain | workspace => exact hmem

theorem afterVisits_concat (c : Catalogue) (visits : List Visit) (v : Visit) :
    afterVisits c (visits ++ [v]) = v.leaves (afterVisits c visits) := by
  simp [afterVisits]

/-- **Visit after visit,** the entry of a source that owns it was made by the source. -/
theorem Owned.made (h : Owned path source visits) (hhonest : ∀ u ∈ visits, u.Honest) :
    Made visits source (afterVisits { path } visits).entries := by
  induction h with
  | start =>
    intro entry hget
    cases hget
  | @renewed visits v report hagree hreport hupdated =>
    rw [afterVisits_concat]
    exact Visit.made (by simp) (hhonest v (by simp)) hagree (.inr ⟨report, hreport, hupdated⟩)
  | @kept visits v _ hagree ih =>
    rw [afterVisits_concat]
    have hbefore := ih fun u hu => hhonest u (List.mem_append_left _ hu)
    exact Visit.made (by simp) (hhonest v (by simp)) hagree
      (.inl (hbefore.mono (List.subset_append_left _ _)))

/-- A visit tells its own versions apart. -/
theorem Tells.concat (h : Tells visits v) : Tells (visits ++ [v]) v := by
  intro u hu
  rcases List.mem_append.1 hu with hu | hu
  · exact h u hu
  · obtain rfl := List.mem_singleton.1 hu
    exact fun _ _ => rfl

/-- **No entry is stale.**  Take any run of visits to honest servers, whose marks tell the versions
    of a page apart.  When a visit reports a source as updated, its entry holds what the source
    offers then.  So it does when the source is reported as unchanged and its entry is its own.
    Sources of one name in the visit have one address and one kind, and no types file of the
    workspace has that name. -/
theorem fresh_of_reported {report : Report} (hhonest : ∀ u ∈ visits ++ [v], u.Honest)
    (htells : Tells visits v) (hreport : v.outcome (afterVisits { path } visits) = .ok report)
    (hagree : v.Agrees source)
    (hlisted : source.name ∈ report.updated.keys ∨
      source.name ∈ report.unchanged ∧ Owned path source visits)
    (hworkspace : source.name ∉ report.workspace.keys) :
    Fresh v source (v.leaves (afterVisits { path } visits)).entries := by
  have hv : v ∈ visits ++ [v] := by simp
  obtain ⟨site, r, haccounted, hlast⟩ :=
    Visit.accounted hv (hhonest v hv) hagree (afterVisits { path } visits)
  obtain ⟨site₁, r', files, hend, hsite, houtcome⟩ := conclusion_of_conclude hlast
  obtain rfl : r' = report := by
    rcases houtcome with ⟨e, hfail⟩ | hok
    · cases hfail.symm.trans hreport
    · exact Except.ok.inj (hok.symm.trans hreport)
  have hturns : source.name ∈ r.updated.keys ∨
      source.name ∈ r.unchanged ∧ Owned path source visits := by
    cases hend with
    | plain | workspace => exact hlisted
  unfold Visit.leaves
  rw [hsite]
  refine Fresh.of_get?_eq ?_ (hend.overlaid.kept _ hworkspace)
  cases haccounted with
  | renewed _ hfresh => exact hfresh
  | left hentry hupdated hunchanged =>
    rcases hturns with hmem | ⟨hmem, howned⟩
    · cases hupdated hmem
    · rcases hunchanged hmem with hbefore | hfresh
      · cases hbefore
      · have hmade := howned.made fun u hu => hhonest u (List.mem_append_left _ hu)
        exact (hfresh htells.concat (hmade.mono (List.subset_append_left _ _))).of_get?_eq hentry

end Visits

/-! ### A page that stays, for a source that changes -/

/-- The only version that the page ever has. -/
def lastingPage : Version where
  etag := "v1"
  content := "\x7b\"f\": \x7b\"name\": \"f\"\x7d\x7d"

/-- A response that brings this version. -/
def lastingResponse : Fetch.Response where
  status := 200
  etag := some lastingPage.etag
  chunks := [Text.Utf8.encode lastingPage.content.toList]

/-- The source of the page, as one of some kind. -/
def lastingSource (kind : Docs.Kind) : Source :=
  { name := "api", url := "https://lua.org/api", kind }

/-- Whether a header says that the version at hand is this one. -/
def marksLasting : String × Json → Bool
  | (name, .str etag) => name == "If-None-Match" && etag == lastingPage.etag
  | _ => false

theorem carries_lasting {call : Fetch.Call} :
    call.headers.any marksLasting = true ↔ call.Carries lastingPage.etag := by
  rw [List.any_eq_true]
  refine ⟨fun ⟨header, hmem, hmarks⟩ => ?_, fun hmem => ⟨_, hmem, by decide⟩⟩
  unfold marksLasting at hmarks
  split at hmarks
  · simp only [Bool.and_eq_true, beq_iff_eq] at hmarks
    rw [hmarks.1, hmarks.2] at hmem
    exact hmem
  · cases hmarks

/-- A visit to the page, for a source of some kind. -/
def lastingVisit (kind : Docs.Kind) : Visit where
  world := { mixedSite.world with
    network := Fetch.plainClient fun _ call => (0, .ok (
      if call.headers.any marksLasting then { status := 304 } else lastingResponse)) }
  current := fun _ => lastingPage
  sources := some [lastingSource kind]

/-- The catalogue when a source of some kind has been visited. -/
def lastingCatalogue (kind : Docs.Kind) : Catalogue :=
  afterVisits { path := ⟨.root, ["data", "index.json"]⟩ } [lastingVisit kind]

theorem honest_lastingVisit (kind : Docs.Kind) : (lastingVisit kind).Honest := by
  have hdecode : mixedSite.world.network.decode lastingResponse.charset
      lastingResponse.chunks.flatten = .ok lastingPage.content := by
    rfl
  refine ⟨fun call sent sent' response hanswer hmark => ?_,
    fun call sent sent' response hanswer hother => ?_⟩
  · obtain ⟨-, hresponse⟩ := Fetch.ends_plainClient.1 hanswer
    obtain rfl := Except.ok.inj hresponse
    rw [if_pos (carries_lasting.2 hmark)]
  · obtain ⟨-, hresponse⟩ := Fetch.ends_plainClient.1 hanswer
    obtain rfl := Except.ok.inj hresponse
    rw [if_neg (mt carries_lasting.1 hother)]
    exact ⟨rfl, rfl, fun _ => hdecode⟩

theorem honest_of_mem_lasting {kind : Docs.Kind} {u : Visit}
    (hu : u ∈ [lastingVisit kind] ++ [lastingVisit .catalog]) : u.Honest := by
  simp only [List.cons_append, List.nil_append, List.mem_cons, List.not_mem_nil, or_false] at hu
  rcases hu with rfl | rfl <;> exact honest_lastingVisit _

theorem tells_lasting (kind : Docs.Kind) : Tells [lastingVisit kind] (lastingVisit .catalog) := by
  intro u hu _ _
  rw [List.mem_singleton.1 hu]
  rfl

theorem agrees_lastingVisit (kind : Docs.Kind) :
    (lastingVisit kind).Agrees (lastingSource kind) := by
  intro s hs _
  obtain rfl : s = lastingSource kind := List.mem_singleton.1 hs
  exact ⟨rfl, rfl⟩

/-- The second visit is told that the page is unchanged, whatever kind the source had in the
    first. -/
theorem exists_unchanged (kind : Docs.Kind) : ∃ report,
    (lastingVisit .catalog).outcome (lastingCatalogue kind) = .ok report ∧
      "api" ∈ report.unchanged ∧ "api" ∉ report.workspace.keys := by
  have hlists : ((lastingVisit .catalog).outcome (lastingCatalogue kind)).toOption.map
      (fun r => (r.unchanged, r.workspace.keys)) = some (["api"], []) := by
    cases kind <;> decide +kernel
  cases hreport : (lastingVisit .catalog).outcome (lastingCatalogue kind) with
  | error e =>
    rw [hreport] at hlists
    cases hlists
  | ok report =>
    rw [hreport] at hlists
    obtain ⟨hunchanged, hworkspace⟩ := Prod.mk.inj (Option.some.inj hlists)
    refine ⟨report, rfl, ?_, ?_⟩
    · rw [hunchanged]
      exact List.mem_singleton.2 rfl
    · rw [hworkspace]
      exact List.not_mem_nil

theorem fresh_of_reported_lasting : ∃ report,
    (lastingVisit .catalog).outcome (lastingCatalogue .catalog) = .ok report ∧
      "api" ∈ report.unchanged ∧
      Fresh (lastingVisit .catalog) (lastingSource .catalog)
        ((lastingVisit .catalog).leaves (lastingCatalogue .catalog)).entries := by
  obtain ⟨report, hreport, hunchanged, hworkspace⟩ := exists_unchanged .catalog
  have howned (path : Path) : Owned path (lastingSource .catalog) [lastingVisit .catalog] :=
    .kept .start (agrees_lastingVisit _)
  exact ⟨report, hreport, hunchanged, fresh_of_reported (fun _ => honest_of_mem_lasting)
    (tells_lasting _) hreport (agrees_lastingVisit _) (.inr ⟨hunchanged, howned _⟩) hworkspace⟩

/-- The page has a function for a source of its kind, and the entry was made for plain functions. -/
theorem not_fresh_lasting :
    ¬ Fresh (lastingVisit .catalog) (lastingSource .catalog)
      ((lastingVisit .catalog).leaves (lastingCatalogue .plain)).entries := by
  intro ⟨text, entry, hoffers, hget, hyields⟩
  have htext : text = lastingPage.content := by
    cases hoffers with
    | file hlocal =>
      have hweb : isLocal "https://lua.org/api" = .ok false := by decide +kernel
      cases hweb.symm.trans hlocal
    | web => rfl
  have hkept : (((lastingVisit .catalog).leaves (lastingCatalogue .plain)).entries.get?
      (lastingSource .catalog).name).map (·.functions.keys) = some [] := by
    decide +kernel
  have hpage : (Docs.extract {} lastingPage.content "api" .catalog).toOption.map (·.keys) =
      some ["f"] := by
    decide +kernel
  rcases hextract : Docs.extract {} lastingPage.content "api" .catalog with fault | functions
  · rw [hextract] at hpage
    cases hpage
  · rw [hextract] at hpage
    have hkeys : functions.keys = ["f"] := Option.some.inj hpage
    rw [htext] at hyields
    rw [hget, Option.map_some, hyields.unique (yields_of_extract hextract), hkeys] at hkept
    cases Option.some.inj hkept

/-- **Stale.**  Not every source that is reported as updated or unchanged has an entry that holds
    what it offers: the entry may have been made for another kind. -/
theorem not_all_reported_fresh :
    ¬ ∀ (path : Path) (visits : List Visit) (v : Visit) (source : Source) (report : Report),
      (∀ u ∈ visits ++ [v], u.Honest) → Tells visits v →
      v.outcome (afterVisits { path } visits) = .ok report → source ∈ v.pool → v.Agrees source →
      source.name ∈ report.updated.keys ∨ source.name ∈ report.unchanged →
      source.name ∉ report.workspace.keys →
      Fresh v source (v.leaves (afterVisits { path } visits)).entries := by
  intro h
  obtain ⟨report, hreport, hunchanged, hworkspace⟩ := exists_unchanged .plain
  exact not_fresh_lasting (h _ _ _ (lastingSource .catalog) report (fun _ => honest_of_mem_lasting)
    (tells_lasting _) hreport (List.mem_singleton.2 rfl) (agrees_lastingVisit _) (.inr hunchanged)
    hworkspace)

end LuaAudit.Index
