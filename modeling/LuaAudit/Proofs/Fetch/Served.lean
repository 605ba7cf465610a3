import LuaAudit.Fetch.Source
import LuaAudit.Proofs.Job

/-!
# What a fetched page holds

Whatever delays, breakages and failing servers come before, a page that is fetched is the text of
the file that the source names, or the body of the response with which the last call for its address
was answered, with its two version marks.

* `Steady`: what a fetch leaves as it is, by `keeps_fetchSource`;
* `Served`: a page with the content of a file or of the response to a call;
* `ends_ask`, `judged_of_attempt`, `judged_of_fetchPage`: the page of a fetch is what the last call
  came to;
* `eq_of_judge`: and holds the whole body, as the client reads it;
* `served_of_fetchSource`: every page that is fetched and not unchanged is served;
* `plainClient`: a client for examples.
-/

namespace LuaAudit.Fetch

open Location

/-! ### What a fetch leaves alone -/

/-- Two worlds with the same settings, files and client; time may have passed and requests been
    sent. -/
structure Steady (w w' : World) : Prop where
  settings : w'.settings = w.settings
  files : w'.files = w.files
  homes : w'.homes = w.homes
  nesting : w'.nesting = w.nesting
  ask : w'.network.ask = w.network.ask
  decode : w'.network.decode = w.network.decode

theorem Steady.refl (w : World) : Steady w w := ⟨rfl, rfl, rfl, rfl, rfl, rfl⟩

theorem Steady.trans {w w' w'' : World} (h : Steady w w') (h' : Steady w' w'') : Steady w w'' where
  settings := h'.settings.trans h.settings
  files := h'.files.trans h.files
  homes := h'.homes.trans h.homes
  nesting := h'.nesting.trans h.nesting
  ask := h'.ask.trans h.ask
  decode := h'.decode.trans h.decode

section Steady

variable {I : World → Prop} (hI : ∀ w w', Steady w w' → I w → I w')
include hI

theorem keeps_ask (call : Call) : (ask call).Keeps I := by
  refine Job.keeps_consult fun w => Job.keeps_zoom (fun sent w h => ?_) _
  exact hI w _ ⟨rfl, rfl, rfl, rfl, rfl, rfl⟩ h

theorem keeps_attempt (name url : String) (headers : List (String × Json)) :
    (attempt name url headers).Keeps I := by
  have honce : (fetchOnce name url headers).Keeps I := by
    refine Job.keeps_consult fun w => Job.keeps_bind (keeps_ask hI _) fun reply => ?_
    split
    · exact Job.keeps_ask _
    · exact Job.keeps_pure _
  refine Job.keeps_consult fun w' => Job.keeps_bind (honce.withinLimit _) fun found => ?_
  split
  · exact Job.keeps_pure _
  · exact Job.keeps_ask _

omit hI in
theorem keeps_retry {rest : Rat → Job World Unit} (hrest : ∀ d, (rest d).Keeps I) {source : String}
    {attempt : Job World Outcome} (h : attempt.Keeps I) (left tried : Nat) :
    (retry rest source attempt left tried).Keeps I := by
  induction left generalizing tried with
  | zero => exact Job.keeps_bind h fun _ => Job.keeps_pure _
  | succ left ih =>
    refine Job.keeps_consult fun w' => Job.keeps_bind h fun outcome => ?_
    split
    · exact Job.keeps_pure _
    · exact Job.keeps_bind (hrest _) fun _ => ih _

/-- A fetch keeps whatever does not depend on the time and on what was sent. -/
theorem Steady.keeps_fetchSource (source : Docs.Source) (cached : Option Docs.Entry) :
    (fetchSource source cached).Keeps I := by
  unfold fetchSource
  split
  · exact Job.keeps_pure _
  · exact Job.keeps_ask _
  · split
    · exact Job.keeps_consult fun _ => Job.keeps_consult fun _ =>
        keeps_retry (fun _ => Job.keeps_sleep _) (keeps_attempt hI _ _ _) _ _
    · exact Job.keeps_pure _

end Steady

/-- A fetch changes nothing but what was sent. -/
theorem keeps_fetchSource (w : World) (source : Docs.Source) (cached : Option Docs.Entry) :
    (fetchSource source cached).Keeps (Steady w) :=
  Steady.keeps_fetchSource (fun _ _ h hw => hw.trans h) source cached

/-! ### Pages that are served -/

/-- A page with what a source has to offer: the text of its file, or the body and the version marks
    of a successful response to a call for its address, as the client reads it. -/
inductive Served (source : Docs.Source) (cached : Option Docs.Entry) (w w' : World) :
    Page → Prop where
  | file {p : Path} {text : String} (hlocal : isLocal source.url = .ok true)
      (hpath : localPath w.homes source.url = .ok p) (htext : w.files.readText p = .ok text) :
      Served source cached w w' { status := 200, content := some text }
  | web {timeout : Seconds} {sent : List Request} {response : Response} {text : String}
      (hweb : isLocal source.url = .ok false)
      (hanswer : Job.Ends
        (w.network.ask ⟨source.url, conditionalHeaders w.settings cached, timeout⟩) sent
        w'.network.sent (.ok response))
      (hstatus : response.status < 400 ∧ response.status ≠ 304) (hwhole : response.ending = none)
      (htext : w.network.decode response.charset response.chunks.flatten = .ok text) :
      Served source cached w w' {
        status := response.status
        content := some text
        etag := response.etag
        lastModified := response.lastModified }

/-- What the client makes of a call, with what it sends on the way. -/
theorem ends_ask {call : Call} {w w' : World} {reply : Except Breakage Response} :
    (ask call).Ends w w' reply ↔
      ∃ sent, (w.network.ask call).Ends w.network.sent sent reply ∧
        w' = { w with network := { w.network with sent } } := by
  unfold ask
  rw [Job.ends_consult]
  refine Job.ends_zoom ?_ ?_ ?_ _ w w' reply
  · exact fun _ _ => rfl
  · exact fun _ _ _ => rfl
  · exact fun _ => rfl

/-! ### Attempts -/

theorem Breakage.outcome_ne_page (cause : Breakage) (page : Page) : cause.outcome ≠ .page page := by
  cases cause <;> exact nofun

theorem BodyFault.outcome_ne_page (name : String) (max : Int) (fault : BodyFault) (page : Page) :
    fault.outcome name max ≠ .page page := by
  cases fault with
  | broken cause => exact cause.outcome_ne_page page
  | _ => exact nofun

/-- A page is what the response to a call for the address amounts to. -/
def Judged (name url : String) (headers : List (String × Json)) (w' : World) (page : Page) : Prop :=
  ∃ timeout sent response max,
    (w'.network.ask ⟨url, headers, timeout⟩).Ends sent w'.network.sent (.ok response) ∧
    judge w'.network name max response = .page page

theorem judged_of_fetchOnce {name url : String} {headers : List (String × Json)} {w w' : World}
    {page : Page} (h : (fetchOnce name url headers).Ends w w' (.page page)) :
    Judged name url headers w' page := by
  unfold fetchOnce at h
  rw [Job.ends_consult] at h
  obtain ⟨w₁, reply, hreply, h⟩ := Job.ends_bind.1 h
  obtain ⟨sent, hanswer, rfl⟩ := ends_ask.1 hreply
  split at h
  next response =>
    obtain ⟨rfl, hpage⟩ := Job.ends_ask.1 h
    exact ⟨_, _, response, _, hanswer, hpage.symm⟩
  next cause => exact absurd (Job.ends_pure.1 h).2.symm (cause.outcome_ne_page page)

theorem judged_of_attempt {name url : String} {headers : List (String × Json)} {w w' : World}
    {page : Page} (h : (attempt name url headers).Ends w w' (.page page)) :
    Judged name url headers w' page := by
  unfold attempt at h
  rw [Job.ends_consult] at h
  obtain ⟨w₁, found, hwithin, h⟩ := Job.ends_bind.1 h
  split at h
  next outcome =>
    obtain ⟨rfl, rfl⟩ := Job.ends_pure.1 h
    -- the attempt came in time, so the deadline played no part in it
    exact judged_of_fetchOnce hwithin.of_withinLimit
  next => cases (Job.ends_ask.1 h).2

/-- A page that is settled for comes from the last attempt, and from no failing server. -/
theorem Outcome.settle_eq_ok_iff {source : String} {o : Outcome} {page : Page} :
    o.settle source = .ok page ↔ o = .page page ∧ page.status < 500 := by
  cases o with
  | page p =>
    simp only [settle]
    split
    next hstatus =>
      constructor
      · intro h
        cases h
      · rintro ⟨h, hlow⟩
        cases h
        omega
    next hstatus =>
      constructor
      · intro h
        cases h
        exact ⟨rfl, by omega⟩
      · rintro ⟨h, -⟩
        cases h
        rfl
  | transport | late | failed => simp [settle]

/-- So does the page of a fetch with retries. -/
theorem ends_of_retry {rest : Rat → Job World Unit} {source : String} {attempt : Job World Outcome}
    {left tried : Nat} {w w' : World} {page : Page}
    (h : (retry rest source attempt left tried).Ends w w' (.ok page)) :
    page.status < 500 ∧ ∃ w₀, attempt.Ends w₀ w' (.page page) := by
  -- the page comes from the last attempt, whatever became of those before it
  induction left generalizing tried w with
  | zero =>
    obtain ⟨w₁, outcome, hattempt, h⟩ := Job.ends_bind.1 h
    obtain ⟨rfl, hsettle⟩ := Job.ends_pure.1 h
    obtain ⟨rfl, hstatus⟩ := Outcome.settle_eq_ok_iff.1 hsettle.symm
    exact ⟨hstatus, w, hattempt⟩
  | succ left ih =>
    unfold retry at h
    rw [Job.ends_consult] at h
    obtain ⟨w₁, outcome, hattempt, h⟩ := Job.ends_bind.1 h
    split at h
    next =>
      obtain ⟨rfl, hsettle⟩ := Job.ends_pure.1 h
      obtain ⟨rfl, hstatus⟩ := Outcome.settle_eq_ok_iff.1 hsettle.symm
      exact ⟨hstatus, w, hattempt⟩
    next =>
      obtain ⟨w₂, _, -, h⟩ := Job.ends_bind.1 h
      exact ih h

/-- The page of a fetch is what a last call for the address came to. -/
theorem judged_of_fetchPage {name url : String} {headers : List (String × Json)} {w w' : World}
    {page : Page} (h : (fetchPage name url headers).Ends w w' (.ok page)) :
    page.status < 500 ∧ Judged name url headers w' page := by
  rw [fetchPage, persist, Job.ends_consult] at h
  obtain ⟨hstatus, w₀, hattempt⟩ := ends_of_retry h
  exact ⟨hstatus, judged_of_attempt hattempt⟩

/-! ### Bodies -/

/-- A body that is not too large is read whole. -/
theorem eq_flatten_of_readChunks {max : Int} {total : Nat} {chunks unread : List Bytes}
    {bytes : Bytes} (h : readChunks max total chunks = (some bytes, unread)) :
    bytes = chunks.flatten := by
  induction chunks generalizing total bytes with
  | nil => exact (Option.some.inj (Prod.mk.inj h).1).symm
  | cons chunk chunks ih =>
    rw [readChunks] at h
    split at h
    next hempty =>
      rw [List.flatten_cons, List.isEmpty_iff.1 hempty, List.nil_append]
      exact ih h
    next =>
      dsimp only at h
      split at h
      · cases (Prod.mk.inj h).1
      · obtain ⟨hbytes, hunread⟩ := Prod.mk.inj h
        obtain ⟨rest, hrest, rfl⟩ := Option.map_eq_some_iff.1 hbytes
        rw [List.flatten_cons, ih (Prod.ext hrest hunread)]

/-- A body that is read has come to its end, and is read whole. -/
theorem eq_of_readBody {n : Network} {max : Int} {r : Response} {text : String}
    (h : (readBody n max r).1 = .ok text) :
    r.ending = none ∧ n.decode r.charset r.chunks.flatten = .ok text := by
  unfold readBody at h
  split at h
  · cases h
  · split at h
    · cases h
    next bytes unread hbytes =>
      rw [← eq_flatten_of_readChunks hbytes]
      dsimp only at h
      unfold Response.text at h
      split at h
      · cases h
      next hending =>
        split at h
        next decoded hdecoded =>
          rw [hdecoded, Except.ok.inj h]
          exact ⟨hending, rfl⟩
        · cases h

/-- A page that is neither unchanged nor from a failing server holds the whole response. -/
theorem eq_of_judge {n : Network} {name : String} {max : Int} {r : Response} {page : Page}
    (h : judge n name max r = .page page) (hchanged : page.isUnchanged = false)
    (hstatus : page.status < 500) :
    (r.status < 400 ∧ r.status ≠ 304) ∧ r.ending = none ∧
      ∃ text, n.decode r.charset r.chunks.flatten = .ok text ∧ page = {
        status := r.status
        content := some text
        etag := r.etag
        lastModified := r.lastModified } := by
  unfold judge at h
  split at h
  next hfirst =>
    -- no content: the page is unchanged or comes from a failing server
    cases h
    have hnot : r.status ≠ 304 := by simpa [Page.isUnchanged] using hchanged
    have hlow : r.status < 500 := hstatus
    omega
  next hfirst =>
    split at h
    · cases h
    · split at h
      next fault _ => exact absurd h (BodyFault.outcome_ne_page name max fault page)
      next text hbody =>
        obtain ⟨hending, hdecode⟩ := eq_of_readBody hbody
        exact ⟨by omega, hending, text, hdecode, (Outcome.page.inj h).symm⟩

/-! ### Sources -/

theorem served_of_fetchLocal {source : Docs.Source} {cached : Option Docs.Entry} {w w' : World}
    {page : Page} (hlocal : isLocal source.url = .ok true)
    (h : fetchLocal w source.name source.url = .ok page) : Served source cached w w' page := by
  unfold fetchLocal at h
  split at h
  · cases h
  next p hpath =>
    unfold readLocal at h
    dsimp only at h
    split at h
    · cases h
    · split at h
      · cases h
      · split at h
        next text htext =>
          cases h
          exact .file hlocal hpath htext
        · cases h
    · cases h

/-- A page comes from a file, or from a last call. -/
theorem judged_of_fetchSource {source : Docs.Source} {cached : Option Docs.Entry} {w w' : World}
    {page : Page} (h : (fetchSource source cached).Ends w w' (.ok page)) :
    isLocal source.url = .ok true ∧ fetchLocal w source.name source.url = .ok page ∨
    isLocal source.url = .ok false ∧ page.status < 500 ∧
      Judged source.name source.url (conditionalHeaders w.settings cached) w' page := by
  unfold fetchSource at h
  split at h
  next => cases (Job.ends_pure.1 h).2
  next hlocal => exact .inl ⟨hlocal, (Job.ends_ask.1 h).2.symm⟩
  next hweb =>
    split at h
    next =>
      rw [Job.ends_consult] at h
      exact .inr ⟨hweb, judged_of_fetchPage h⟩
    next => cases (Job.ends_pure.1 h).2

/-- **Served.**  A page that is fetched and not unchanged holds what the source has to offer. -/
theorem served_of_fetchSource {source : Docs.Source} {cached : Option Docs.Entry} {w w' : World}
    {page : Page} (h : (fetchSource source cached).Ends w w' (.ok page))
    (hchanged : page.isUnchanged = false) : Served source cached w w' page := by
  have hsteady := (keeps_fetchSource w source cached).ends (.refl w) h
  rcases judged_of_fetchSource h with ⟨hlocal, hread⟩ | ⟨hweb, hstatus, hjudged⟩
  · exact served_of_fetchLocal hlocal hread
  · obtain ⟨timeout, sent, response, max, hanswer, hjudge⟩ := hjudged
    obtain ⟨hsuccess, hending, text, htext, rfl⟩ := eq_of_judge hjudge hchanged hstatus
    rw [hsteady.ask] at hanswer
    rw [hsteady.decode] at htext
    exact .web hweb hanswer hsuccess hending htext

/-! ### A plain client -/

/-- A client that sends one request for each call, and hands on what a server that knows the earlier
    ones makes of it after some milliseconds.  It reads well-formed UTF-8. -/
def plainClient (serve : List Request → Call → Nat × Except Breakage Response) : Network where
  ask call := do
    let (delay, answer) ← Job.act fun sent => (⟨call.url, []⟩ :: sent, serve sent call)
    Job.sleep delay
    return answer
  decode _ bytes :=
    match Text.Utf8.decode? bytes with
    | some text => .ok (String.ofList text)
    | none => .error ⟨"UnicodeDecodeError", "ill-formed"⟩

theorem ends_plainClient {serve : List Request → Call → Nat × Except Breakage Response}
    {call : Call} {sent sent' : List Request} {answer : Except Breakage Response} :
    ((plainClient serve).ask call).Ends sent sent' answer ↔
      sent' = ⟨call.url, []⟩ :: sent ∧ answer = (serve sent call).2 := by
  simp [plainClient, Prod.ext_iff]

end LuaAudit.Fetch
