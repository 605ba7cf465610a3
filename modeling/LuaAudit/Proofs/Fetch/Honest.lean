import LuaAudit.Proofs.Fetch.Served

/-!
# Fetching from honest servers

An honest server knows the current version of every page.  It calls a page unchanged exactly when
the call carries the mark of that version, and otherwise sends the version with its mark.  A fetch
sends the mark of the entry at hand, whatever that entry was made of.

* `Honest`: such servers;
* `Honest.served` and `Honest.at_hand`: what a page that was fetched from them says.
-/

namespace LuaAudit.Fetch

open Location

/-! ### Marks -/

theorem eq_of_mem_markHeader {name name' : String} {mark value : Json}
    (h : (name, value) ∈ markHeader name' mark) :
    name = name' ∧ value = mark ∧ mark.truthy = true := by
  unfold markHeader at h
  split at h
  next htruthy =>
    obtain ⟨hname, hvalue⟩ := Prod.mk.inj (List.mem_singleton.1 h)
    exact ⟨hname, hvalue, htruthy⟩
  · cases h

/-- The mark that a request carries is the one of the entry at hand. -/
theorem etag_of_mem_conditionalHeaders {s : Settings} {cached : Option Docs.Entry} {etag : String}
    (h : ("If-None-Match", Json.str etag) ∈ conditionalHeaders s cached) :
    ∃ entry, cached = some entry ∧ entry.etag = .str etag ∧ entry.etag.truthy = true := by
  unfold conditionalHeaders at h
  rcases List.mem_cons.1 h with hagent | hmark
  · exact absurd (Prod.mk.inj hagent).1 (by decide)
  · cases cached with
    | none => cases hmark
    | some entry =>
      rcases List.mem_append.1 hmark with hmatch | hsince
      · obtain ⟨-, hvalue, htruthy⟩ := eq_of_mem_markHeader hmatch
        exact ⟨entry, rfl, hvalue.symm, htruthy⟩
      · exact absurd (eq_of_mem_markHeader hsince).1 (by decide)

/-! ### Honest servers -/

/-- A version of a page: its mark and its content. -/
structure Version where
  etag : String
  content : String

/-- A call carries a mark as that of the version at hand. -/
def Call.Carries (call : Call) (etag : String) : Prop :=
  ("If-None-Match", Json.str etag) ∈ call.headers

/-- A client of servers that are honest about the current version of every address.  A call is
    answered by calling the page unchanged exactly when it carries the mark of that version, and
    otherwise by the version with its mark, which the client reads as it is when it comes whole; a
    call may also break on the way. -/
structure Honest (current : (url : String) → Version) (n : Network) : Prop where
  unchanged : ∀ call sent sent' response, (n.ask call).Ends sent sent' (.ok response) →
    call.Carries (current call.url).etag → response.status = 304
  changed : ∀ call sent sent' response, (n.ask call).Ends sent sent' (.ok response) →
    ¬ call.Carries (current call.url).etag →
      response.status = 200 ∧ response.etag = some (current call.url).etag ∧
      (response.ending = none →
        n.decode response.charset response.chunks.flatten = .ok (current call.url).content)

/-! ### What is fetched from them -/

theorem status_of_judge {n : Network} {name : String} {max : Int} {r : Response} {page : Page}
    (h : judge n name max r = .page page) : page.status = r.status := by
  unfold judge at h
  split at h
  · cases h
    rfl
  · split at h
    · cases h
    · split at h
      next fault _ => exact absurd h (BodyFault.outcome_ne_page name max fault page)
      · cases h
        rfl

section Fetch

variable {current : String → Version} {source : Docs.Source} {cached : Option Docs.Entry}
  {w w' : World} {page : Page}

/-- **A page that is not unchanged** holds the text of a file, without a mark, or the current
    version with its mark. -/
theorem Honest.served (hhonest : Honest current w.network)
    (h : (fetchSource source cached).Ends w w' (.ok page)) (hpage : page.isUnchanged = false) :
    (∃ p text, isLocal source.url = .ok true ∧ localPath w.homes source.url = .ok p ∧
      w.files.readText p = .ok text ∧ page.content = some text ∧ page.etag = none) ∨
    isLocal source.url = .ok false ∧ page.content = some (current source.url).content ∧
      page.etag = some (current source.url).etag := by
  cases served_of_fetchSource h hpage with
  | file hlocal hpath htext => exact .inl ⟨_, _, hlocal, hpath, htext, rfl, rfl⟩
  | web hweb hanswer hstatus hwhole htext =>
    have hother := fun hmark => hstatus.2 (hhonest.unchanged _ _ _ _ hanswer hmark)
    obtain ⟨-, hetag, hcontent⟩ := hhonest.changed _ _ _ _ hanswer hother
    have hsame := Except.ok.inj (htext.symm.trans (hcontent hwhole))
    exact .inr ⟨hweb, congrArg some hsame, hetag⟩

/-- **A page that is unchanged** is one whose current version has the mark of the entry at hand. -/
theorem Honest.at_hand (hhonest : Honest current w.network)
    (h : (fetchSource source cached).Ends w w' (.ok page)) (hpage : page.isUnchanged = true) :
    ∃ entry, isLocal source.url = .ok false ∧ cached = some entry ∧
      entry.etag = .str (current source.url).etag ∧ entry.etag.truthy = true := by
  have hsteady := (keeps_fetchSource w source cached).ends (.refl w) h
  have hstatus : page.status = 304 := by simpa [Page.isUnchanged] using hpage
  rcases judged_of_fetchSource h with ⟨hlocal, hread⟩ | ⟨hweb, -, hjudged⟩
  · -- A file is never unchanged.
    have hserved : Served source cached w w page := served_of_fetchLocal hlocal hread
    cases hserved with
    | file => cases hstatus
    | web hweb =>
      rw [hlocal] at hweb
      cases hweb
  · obtain ⟨timeout, sent, response, max, hanswer, hjudge⟩ := hjudged
    rw [hsteady.ask] at hanswer
    rw [status_of_judge hjudge] at hstatus
    have hmark : Call.Carries ⟨source.url, conditionalHeaders w.settings cached, timeout⟩
        (current source.url).etag := by
      refine Classical.byContradiction fun hother => ?_
      have hpage := (hhonest.changed _ _ _ _ hanswer hother).1
      rw [hstatus] at hpage
      cases hpage
    obtain ⟨entry, hcached, hetag, htruthy⟩ := etag_of_mem_conditionalHeaders hmark
    exact ⟨entry, hweb, hcached, hetag, htruthy⟩

end Fetch

end LuaAudit.Fetch
