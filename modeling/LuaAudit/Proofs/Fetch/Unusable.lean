import LuaAudit.Proofs.Fetch.Served
import LuaAudit.Proofs.Files.Write
import LuaAudit.Proofs.Location.Url

/-!
# Sources that cannot be used

A source that names neither a file that is there nor an address on the web fails at once: no request
is sent and nothing changes.  How it fails depends on where the text of its location breaks.

* `NamesFile`: the location of a file that is there, as a path or as a file URL;
* `NamesNoHome`, `NamesUnaskable`: the location of a path that cannot be made out or asked for;
* `FetchError.RefusesSource`: the failure that says of a source that its location is of no use;
* `run_fetchSource_of_malformed`, `run_fetchSource_of_writes` and `run_fetchSource_of_other`: what
  becomes of each kind of location;
* `unusable_fails`: hence of every location that is of no use.
-/

namespace LuaAudit.Fetch

open Location

/-- A text that is the location of a file, as a path or as a file URL. -/
def NamesFile (w : World) (s : String) : Prop :=
  ∃ p q, Writes s p ∧ p.expandUser w.homes = .ok q ∧ w.files.isFile q = .ok true

/-- A text that is the location of a path that starts in a home directory which is not found. -/
def NamesNoHome (w : World) (s : String) (cause : HomeError) : Prop :=
  ∃ p, Writes s p ∧ p.Homeless w.homes cause

/-- A text that is the location of a path that cannot be asked for: a directory on the way may not
    be passed through, or a name or the path is too long. -/
def NamesUnaskable (w : World) (s : String) (cause : FileError) : Prop :=
  ∃ p q, Writes s p ∧ p.expandUser w.homes = .ok q ∧ w.files.Unaskable q cause

/-- The source is refused: its file is not found, or its location is no address on the web. -/
def FetchError.RefusesSource (name : String) (e : FetchError) : Prop :=
  e = .notWeb name ∨ ∃ place, e = .missing name place

section Kinds

variable {source : Docs.Source} (cached : Option Docs.Entry) (w : World)

theorem run_fetchSource_of_malformed {cause : UrlError} (h : Malformed source.url cause) :
    (fetchSource source cached).run w = (w, .error (.path (.url cause)), 0) := by
  rw [fetchSource, isLocal_of_malformed h]
  rfl

/-- Where a path is written, the file is read at once. -/
theorem run_fetchSource_of_writes {p : Path} (h : Writes source.url p) :
    (fetchSource source cached).run w = (w, fetchLocal w source.name source.url, 0) := by
  rw [fetchSource, h.isLocal_eq.1]
  rfl

theorem run_fetchSource_of_other (hsound : ∀ cause, ¬ Malformed source.url cause)
    (hpath : ∀ p, ¬ Writes source.url p) (hweb : ¬ WebAddress source.url) :
    (fetchSource source cached).run w = (w, .error (.notWeb source.name), 0) := by
  have hfetchable : isFetchable source.url = false := by
    rw [← Bool.not_eq_true, isFetchable_iff]
    exact hweb
  rw [fetchSource, isLocal_of_other hsound hpath, hfetchable]
  rfl

end Kinds

section Local

variable {w : World} (name : String) {url : String}

/-- What is read is what the path leads to, once it is made out. -/
theorem fetchLocal_of_expandUser {p q : Path} (h : Writes url p)
    (hq : p.expandUser w.homes = .ok q) :
    fetchLocal w name url = readLocal w name q := by
  rw [fetchLocal, h.isLocal_eq.2, expand, hq]

theorem fetchLocal_of_namesNoHome {cause : HomeError} (h : NamesNoHome w url cause) :
    fetchLocal w name url = .error (.path (.home cause)) := by
  obtain ⟨p, hp, hhome⟩ := h
  rw [fetchLocal, hp.isLocal_eq.2, expand, Path.expandUser_eq_error_iff.2 hhome]

theorem fetchLocal_of_namesUnaskable {cause : FileError} (h : NamesUnaskable w url cause) :
    fetchLocal w name url = .error (.file cause) := by
  obtain ⟨p, q, hp, hq, hasked⟩ := h
  rw [fetchLocal_of_expandUser name hp hq, readLocal, Files.stat_eq_error_iff.2 hasked]

/-- A path that can be asked for and leads to no file is missing. -/
theorem fetchLocal_of_missing {p : Path} (h : Writes url p) (hfile : ¬ NamesFile w url)
    (hhome : ∀ cause, ¬ NamesNoHome w url cause) (hasked : ∀ cause, ¬ NamesUnaskable w url cause) :
    ∃ place, fetchLocal w name url = .error (.missing name place) := by
  cases hexpand : p.expandUser w.homes with
  | error cause => exact absurd ⟨p, h, Path.expandUser_eq_error_iff.1 hexpand⟩ (hhome cause)
  | ok q =>
    refine ⟨q, ?_⟩
    rw [fetchLocal_of_expandUser name h hexpand, readLocal]
    split
    next cause hstat =>
      exact absurd ⟨p, q, h, hexpand, Files.stat_eq_error_iff.1 hstat⟩ (hasked cause)
    next bytes hstat =>
      refine absurd ⟨p, q, h, hexpand, ?_⟩ hfile
      rw [Files.isFile, hstat]
      rfl
    · rfl

/-- Whatever leads to no file fails. -/
theorem exists_fetchLocal_eq_error {p : Path} (h : Writes url p) (hfile : ¬ NamesFile w url) :
    ∃ e, fetchLocal w name url = .error e := by
  by_cases hhome : ∃ cause, NamesNoHome w url cause
  · exact ⟨_, fetchLocal_of_namesNoHome name hhome.choose_spec⟩
  · by_cases hasked : ∃ cause, NamesUnaskable w url cause
    · exact ⟨_, fetchLocal_of_namesUnaskable name hasked.choose_spec⟩
    · obtain ⟨place, hplace⟩ := fetchLocal_of_missing name h hfile
        (fun cause hcause => hhome ⟨cause, hcause⟩) fun cause hcause => hasked ⟨cause, hcause⟩
      exact ⟨_, hplace⟩

end Local

/-- **Locations of no use.**  For every source whose location is neither that of a file that is
    there nor an absolute address on the web with a host, the fetch fails at once: it sends no
    request, takes no time and changes nothing.  It fails with what is wrong with the network
    location if that is not sound, for want of a home directory if the path starts in one that is
    not found, and as a file that cannot be asked for if the path cannot; in every other case the
    source is refused. -/
theorem unusable_fails (source : Docs.Source) (cached : Option Docs.Entry) (w : World)
    (hfile : ¬ NamesFile w source.url) (hweb : ¬ WebAddress source.url) :
    ∃ e, (fetchSource source cached).run w = (w, .error e, 0) ∧
      (∀ cause, Malformed source.url cause → e = .path (.url cause)) ∧
      (∀ cause, NamesNoHome w source.url cause → e = .path (.home cause)) ∧
      (∀ cause, NamesUnaskable w source.url cause → e = .file cause) ∧
      ((∀ cause, ¬ Malformed source.url cause) → (∀ cause, ¬ NamesNoHome w source.url cause) →
        (∀ cause, ¬ NamesUnaskable w source.url cause) → e.RefusesSource source.name) := by
  by_cases hmalformed : ∃ cause, Malformed source.url cause
  · obtain ⟨cause, hcause⟩ := hmalformed
    refine ⟨_, run_fetchSource_of_malformed cached w hcause, fun cause' hcause' => ?_, ?_, ?_, ?_⟩
    · have hsame := split_eq_error_iff.2 hcause
      rw [split_eq_error_iff.2 hcause'] at hsame
      rw [Except.error.inj hsame]
    · exact fun _ ⟨p, hp, _⟩ => absurd hp (hcause.not_writes p)
    · exact fun _ ⟨p, _, hp, _⟩ => absurd hp (hcause.not_writes p)
    · exact fun hsound => absurd hcause (hsound cause)
  have hsound : ∀ cause, ¬ Malformed source.url cause := fun cause h => hmalformed ⟨cause, h⟩
  by_cases hpath : ∃ p, Writes source.url p
  · obtain ⟨p, hp⟩ := hpath
    obtain ⟨e, he⟩ := exists_fetchLocal_eq_error source.name hp hfile
    have hrun := run_fetchSource_of_writes cached w hp
    rw [he] at hrun
    refine ⟨e, hrun, fun cause h => absurd h (hsound cause), fun cause h => ?_, fun cause h => ?_,
      fun _ hhome hasked => ?_⟩
    · exact Except.error.inj (he.symm.trans (fetchLocal_of_namesNoHome source.name h))
    · exact Except.error.inj (he.symm.trans (fetchLocal_of_namesUnaskable source.name h))
    · obtain ⟨place, hplace⟩ := fetchLocal_of_missing source.name hp hfile hhome hasked
      exact .inr ⟨place, Except.error.inj (he.symm.trans hplace)⟩
  · have hother : ∀ p, ¬ Writes source.url p := fun p h => hpath ⟨p, h⟩
    exact ⟨_, run_fetchSource_of_other cached w hsound hother hweb,
      fun cause h => absurd h (hsound cause), fun _ ⟨p, hp, _⟩ => absurd hp (hother p),
      fun _ ⟨p, _, hp, _⟩ => absurd hp (hother p), fun _ _ _ => .inl rfl⟩

/-! ### Four locations of no use -/

/-- A world with a directory that may not be passed through, whose servers answer everything. -/
def bareWorld : World where
  settings := .default
  files := { nodes := .ofList [(["vault"], .directory)], closed := [["vault"]] }
  homes := { own := ⟨.root, ["home"]⟩ }
  network := plainClient fun _ _ => (0, .ok { status := 200 })
  clock := 0

/-- A source named `ox`. -/
def sourceAt (url : String) : Docs.Source := ⟨"ox", url, .annotated, true⟩

/-- A host whose bracket is not closed is no location at all. -/
theorem openBracket_malformed : Malformed "http://[::1/types.lua" .unmatchedBracket :=
  split_eq_error_iff.1 (by rfl)

theorem openBracket_unusable : ¬ NamesFile bareWorld "http://[::1/types.lua" ∧
    ¬ WebAddress "http://[::1/types.lua" := by
  refine ⟨?_, by rw [← isFetchable_iff]; decide +kernel⟩
  rintro ⟨p, q, hp, -⟩
  exact openBracket_malformed.not_writes p hp

/-- A location that is that of a file is made out. -/
theorem exists_localPath_of_namesFile {w : World} {url : String} (h : NamesFile w url) :
    ∃ q, localPath w.homes url = .ok q ∧ w.files.isFile q = .ok true := by
  obtain ⟨p, q, hp, hq, hfile⟩ := h
  refine ⟨q, ?_, hfile⟩
  rw [hp.isLocal_eq.2, expand, hq]

/-- An open bracket, a path in the home of an unknown user, one behind a closed directory, and an
    address without a host: all four fail at once, and only the last one is refused. -/
theorem unusable_fails_four :
    (fetchSource (sourceAt "http://[::1/types.lua") none).run bareWorld =
      (bareWorld, .error (.path (.url .unmatchedBracket)), 0) ∧
    (fetchSource (sourceAt "~nosuchuser/types.lua") none).run bareWorld =
      (bareWorld, .error (.path (.home .unknown)), 0) ∧
    (fetchSource (sourceAt "/vault/types.lua") none).run bareWorld =
      (bareWorld, .error (.file ⟨.denied, "/vault/types.lua"⟩), 0) ∧
    ∃ e, (fetchSource (sourceAt "https://:80/types.lua") none).run bareWorld =
      (bareWorld, .error e, 0) ∧ e.RefusesSource "ox" := by
  refine ⟨?_, ?_, ?_, ?_⟩
  · obtain ⟨e, hrun, hcause, -⟩ := unusable_fails (sourceAt "http://[::1/types.lua") none bareWorld
      openBracket_unusable.1 openBracket_unusable.2
    rw [hrun, hcause _ openBracket_malformed]
  · have hpath : localPath bareWorld.homes "~nosuchuser/types.lua" =
      .error (.home .unknown) := by rfl
    obtain ⟨p, hp⟩ := exists_writes (s := "~nosuchuser/types.lua") (by rfl)
    obtain ⟨e, hrun, -, hhome, -⟩ :=
      unusable_fails (sourceAt "~nosuchuser/types.lua") none bareWorld
      (fun h => by
        obtain ⟨q, hq, -⟩ := exists_localPath_of_namesFile h
        cases hpath.symm.trans hq)
      (by rw [← isFetchable_iff]; decide +kernel)
    have hnone : NamesNoHome bareWorld "~nosuchuser/types.lua" .unknown := by
      refine ⟨p, hp, Path.expandUser_eq_error_iff.1 ?_⟩
      rw [hp.isLocal_eq.2, expand] at hpath
      split at hpath
      · cases hpath
      next cause hcause =>
        cases hpath
        exact hcause
    rw [hrun, hhome _ hnone]
  · have hpath : localPath bareWorld.homes "/vault/types.lua" =
      .ok ⟨.root, ["vault", "types.lua"]⟩ := by rfl
    have hstat : bareWorld.files.stat ⟨.root, ["vault", "types.lua"]⟩ =
        .error ⟨.denied, "/vault/types.lua"⟩ := by
      rfl
    obtain ⟨p, hp⟩ := exists_writes (s := "/vault/types.lua") (by rfl)
    obtain ⟨e, hrun, -, -, hasked, -⟩ := unusable_fails (sourceAt "/vault/types.lua") none bareWorld
      (fun h => by
        obtain ⟨q, hq, hfile⟩ := exists_localPath_of_namesFile h
        obtain rfl := Except.ok.inj (hpath.symm.trans hq)
        rw [Files.isFile, hstat] at hfile
        cases hfile)
      (by rw [← isFetchable_iff]; decide +kernel)
    have hclosed : NamesUnaskable bareWorld "/vault/types.lua" ⟨.denied, "/vault/types.lua"⟩ := by
      rw [hp.isLocal_eq.2, expand] at hpath
      split at hpath
      next q hq =>
        obtain rfl := Except.ok.inj hpath
        exact ⟨p, _, hp, hq, Files.stat_eq_error_iff.1 hstat⟩
      · cases hpath
    rw [hrun, hasked _ hclosed]
  · have hlocal : isLocal "https://:80/types.lua" = .ok false := by rfl
    have hpath : ∀ p, ¬ Writes "https://:80/types.lua" p := by
      intro p hp
      cases hlocal.symm.trans hp.isLocal_eq.1
    obtain ⟨e, hrun, -, -, -, hrefused⟩ := unusable_fails (sourceAt "https://:80/types.lua") none
      bareWorld (fun ⟨p, _, hp, _⟩ => hpath p hp) (by rw [← isFetchable_iff]; decide +kernel)
    refine ⟨e, hrun, hrefused (fun cause hcause => ?_) (fun _ ⟨p, hp, _⟩ => hpath p hp)
      fun _ ⟨p, _, hp, _⟩ => hpath p hp⟩
    cases hlocal.symm.trans (isLocal_of_malformed hcause)

/-- **Not every location of no use is refused**: one with an open bracket in its host fails
    otherwise. -/
theorem not_all_unusable_refused :
    ¬ ∀ (source : Docs.Source) (cached : Option Docs.Entry) (w : World),
      ¬ NamesFile w source.url → ¬ WebAddress source.url →
      ∃ e, (fetchSource source cached).run w = (w, .error e, 0) ∧ e.RefusesSource source.name := by
  intro h
  obtain ⟨e, hrun, hrefused⟩ := h (sourceAt "http://[::1/types.lua") none bareWorld
    openBracket_unusable.1 openBracket_unusable.2
  rw [run_fetchSource_of_malformed none bareWorld openBracket_malformed] at hrun
  cases hrun
  rcases hrefused with heq | ⟨place, heq⟩ <;> cases heq

end LuaAudit.Fetch
