import LuaAudit.Location.Url

/-!
# How a text reads as a URL

A URL is a scheme and a colon, two slashes and a network location, and a rest; either of the first
two may be absent.  Every text reads so in one way, and how it reads decides what it names: a path,
a page on the web, or nothing.

* `Url.Reads`: the parts of a text, by the syntax alone;
* `Url.split_of_reads`: the text is cut into these parts, if its network location is sound;
* `Malformed`, `Writes`, `WebAddress`: texts with an unsound network location, with a path, and with
  an address on the web;
* `Writes.isLocal_eq`, `isLocal_of_malformed`, `isLocal_of_other` and `isFetchable_iff`: what is
  made of each;
* `Path.Homeless`: paths that lead nowhere, since they start in a home that is not found.
-/

namespace LuaAudit.Location

namespace Url

/-! ### The parts of a text -/

/-- The characters of a text that count: no controls or spaces in front, and no tabs and line
    ends. -/
def clean (s : String) : List Char :=
  (s.toList.dropWhile fun c => c.toNat ≤ 0x20).filter fun c => c != '\t' && c != '\r' && c != '\n'

/-- A letter, and then letters, digits and three marks. -/
def IsScheme (name : List Char) : Prop :=
  name.head?.any Char.isAlpha = true ∧ name.all isSchemeChar = true

/-- The scheme of a text, if it has one, and what follows. -/
inductive Scheme : List Char → Option (List Char) → List Char → Prop where
  | named {name rest : List Char} (h : IsScheme name) :
      Scheme (name ++ ':' :: rest) (some name) rest
  | absent {cs : List Char} (h : ∀ name rest, IsScheme name → cs ≠ name ++ ':' :: rest) :
      Scheme cs none cs

/-- The network location at the start of a text, if it has one, and what follows. -/
inductive Netloc : List Char → Option (List Char) → List Char → Prop where
  | given {place rest : List Char} (hplace : ∀ c ∈ place, endsNetloc c = false)
      (hrest : ∀ c, rest.head? = some c → endsNetloc c = true) :
      Netloc ('/' :: '/' :: (place ++ rest)) (some place) rest
  | absent {cs : List Char} (h : ∀ rest, cs ≠ '/' :: '/' :: rest) : Netloc cs none cs

/-- The parts of a text. -/
def Reads (s : String) (scheme netloc : Option (List Char)) (rest : List Char) : Prop :=
  ∃ tail, Scheme (clean s) scheme tail ∧ Netloc tail netloc rest

/-- What a text ends in, up to a query or a fragment. -/
def pathOf (rest : List Char) : List Char := rest.takeWhile fun c => c != '?' && c != '#'

theorem Scheme.isScheme {cs name rest : List Char} (h : Scheme cs (some name) rest) :
    IsScheme name := by
  cases h with
  | named h => exact h

/-- Up to the first colon there is no other. -/
theorem takeWhile_colon {name : List Char} (h : IsScheme name) (rest : List Char) :
    (name ++ ':' :: rest).takeWhile (· != ':') = name ∧
      (name ++ ':' :: rest).dropWhile (· != ':') = ':' :: rest := by
  have hcolon : ∀ c ∈ name, (c != ':') = true := by
    intro c hc
    rw [bne_iff_ne]
    rintro rfl
    exact absurd (List.all_eq_true.1 h.2 _ hc) (by decide)
  constructor
  · rw [List.takeWhile_append_of_pos hcolon, List.takeWhile_cons_of_neg (by decide),
      List.append_nil]
  · rw [List.dropWhile_append_of_pos hcolon, List.dropWhile_cons_of_neg (by decide)]

theorem takeScheme_eq {cs rest : List Char} {scheme : Option (List Char)}
    (h : Scheme cs scheme rest) :
    takeScheme cs = ((scheme.getD []).map Char.toLower, rest) := by
  cases h with
  | named h =>
    rw [takeScheme, (takeWhile_colon h rest).1, (takeWhile_colon h rest).2]
    exact if_pos (Bool.and_eq_true_iff.2 h)
  | absent h =>
    unfold takeScheme
    split
    next rest hrest =>
      refine if_neg fun hscheme => h _ rest (Bool.and_eq_true_iff.1 hscheme) ?_
      rw [← hrest, List.takeWhile_append_dropWhile]
    next => rfl

theorem takeNetloc_eq {cs rest : List Char} {netloc : Option (List Char)}
    (h : Netloc cs netloc rest) :
    takeNetloc cs = (netloc.getD [], rest) := by
  cases h with
  | @given place _ hplace hrest =>
    have hin : ∀ c ∈ place, (!endsNetloc c) = true := fun c hc => by rw [hplace c hc]; rfl
    rw [takeNetloc, List.takeWhile_append_of_pos hin, List.dropWhile_append_of_pos hin]
    cases rest with
    | nil => simp
    | cons c rest => simp [hrest c rfl]
  | absent h =>
    unfold takeNetloc
    split
    next rest => exact absurd rfl (h rest)
    next => rfl

/-- Every text has its parts. -/
theorem exists_reads (s : String) : ∃ scheme netloc rest, Reads s scheme netloc rest := by
  have hscheme : ∀ cs, ∃ scheme tail, Scheme cs scheme tail := by
    intro cs
    by_cases h : ∃ name rest, IsScheme name ∧ cs = name ++ ':' :: rest
    · obtain ⟨name, rest, hname, rfl⟩ := h
      exact ⟨some name, rest, .named hname⟩
    · exact ⟨none, cs, .absent fun name rest hname heq => h ⟨name, rest, hname, heq⟩⟩
  have hnetloc : ∀ cs, ∃ netloc rest, Netloc cs netloc rest := by
    intro cs
    by_cases h : ∃ rest, cs = '/' :: '/' :: rest
    · obtain ⟨rest, rfl⟩ := h
      have hgiven : Netloc ('/' :: '/' :: (rest.takeWhile (!endsNetloc ·) ++
          rest.dropWhile (!endsNetloc ·))) (some (rest.takeWhile (!endsNetloc ·)))
          (rest.dropWhile (!endsNetloc ·)) := by
        refine .given (fun c hc => ?_) fun c hc => ?_
        · simpa using List.all_eq_true.1 List.all_takeWhile c hc
        · have hhead := List.head?_dropWhile_not (!endsNetloc ·) rest
          rw [hc] at hhead
          simpa using hhead
      rw [List.takeWhile_append_dropWhile] at hgiven
      exact ⟨_, _, hgiven⟩
    · exact ⟨none, cs, .absent fun rest heq => h ⟨rest, heq⟩⟩
  obtain ⟨scheme, tail, htail⟩ := hscheme (clean s)
  obtain ⟨netloc, rest, hrest⟩ := hnetloc tail
  exact ⟨scheme, netloc, rest, tail, htail, hrest⟩

/-- **A text is cut into its parts**, if its network location is sound. -/
theorem split_of_reads {s : String} {scheme netloc : Option (List Char)} {rest : List Char}
    (h : Reads s scheme netloc rest) :
    split s = (checkNetloc (netloc.getD [])).map fun _ =>
      ⟨(scheme.getD []).map Char.toLower, netloc.getD [], pathOf rest⟩ := by
  obtain ⟨tail, hscheme, hnetloc⟩ := h
  have hcut : split s = (do
      checkNetloc (takeNetloc (takeScheme (clean s)).2).1
      return ⟨(takeScheme (clean s)).1, (takeNetloc (takeScheme (clean s)).2).1,
        pathOf (takeNetloc (takeScheme (clean s)).2).2⟩) := rfl
  rw [hcut, takeScheme_eq hscheme, takeNetloc_eq hnetloc]
  cases checkNetloc (netloc.getD []) <;> rfl

end Url

/-! ### What a text names -/

/-- A text whose network location is not sound, with what is wrong with it. -/
def Malformed (s : String) (cause : UrlError) : Prop :=
  ∃ scheme netloc rest, Url.Reads s scheme (some netloc) rest ∧
    Url.checkNetloc netloc = .error cause

/-- The path that a text writes: that of a file URL, or the text itself where it has no scheme, or
    one letter in place of one. -/
inductive Writes (s : String) : Path → Prop where
  | url {scheme rest : List Char} {netloc : Option (List Char)}
      (hreads : Url.Reads s (some scheme) netloc rest)
      (hfile : scheme.map Char.toLower = "file".toList)
      (hsound : Url.checkNetloc (netloc.getD []) = .ok ()) :
      Writes s (.parse (String.ofList (Percent.decode (Url.pathOf rest))))
  | text {scheme netloc : Option (List Char)} {rest : List Char}
      (hreads : Url.Reads s scheme netloc rest)
      (hletter : ∀ name, scheme = some name → name.length = 1)
      (hsound : Url.checkNetloc (netloc.getD []) = .ok ()) :
      Writes s (.parse s)

/-- An absolute address on the web, with a host. -/
def WebAddress (s : String) : Prop :=
  ∃ scheme netloc rest, Url.Reads s (some scheme) (some netloc) rest ∧
    (scheme.map Char.toLower = "http".toList ∨ scheme.map Char.toLower = "https".toList) ∧
    Url.checkNetloc netloc = .ok () ∧ Url.host netloc ≠ []

/-- A text without network location has a sound one. -/
theorem checkNetloc_getD_eq_error {netloc : Option (List Char)} {cause : UrlError}
    (h : Url.checkNetloc (netloc.getD []) = .error cause) :
    ∃ place, netloc = some place ∧ Url.checkNetloc place = .error cause := by
  cases netloc with
  | none => cases h
  | some place => exact ⟨place, rfl, h⟩

/-- A text is cut into parts unless it is malformed. -/
theorem split_eq_error_iff {s : String} {cause : UrlError} :
    Url.split s = .error cause ↔ Malformed s cause := by
  constructor
  · intro h
    obtain ⟨scheme, netloc, rest, hreads⟩ := Url.exists_reads s
    rw [Url.split_of_reads hreads] at h
    cases hcheck : Url.checkNetloc (netloc.getD []) with
    | ok => rw [hcheck] at h; cases h
    | error e =>
      rw [hcheck] at h
      cases h
      obtain ⟨place, rfl, hplace⟩ := checkNetloc_getD_eq_error hcheck
      exact ⟨scheme, place, rest, hreads, hplace⟩
  · rintro ⟨scheme, netloc, rest, hreads, hcheck⟩
    rw [Url.split_of_reads hreads, Option.getD_some, hcheck]
    rfl

theorem isLocal_of_malformed {s : String} {cause : UrlError} (h : Malformed s cause) :
    isLocal s = .error cause := by
  rw [isLocal, split_eq_error_iff.2 h]
  rfl

/-- A text with a sound network location is cut into its parts. -/
theorem split_of_sound {s : String} {scheme netloc : Option (List Char)} {rest : List Char}
    (hreads : Url.Reads s scheme netloc rest) (hsound : Url.checkNetloc (netloc.getD []) = .ok ()) :
    Url.split s = .ok ⟨(scheme.getD []).map Char.toLower, netloc.getD [], Url.pathOf rest⟩ := by
  rw [Url.split_of_reads hreads, hsound]
  rfl

theorem isLocal_of_split {s : String} {url : Url} (h : Url.split s = .ok url) :
    isLocal s =
      .ok (url.scheme.isEmpty || url.scheme == "file".toList || url.scheme.length == 1) := by
  rw [isLocal, h]
  rfl

/-- **Paths.**  A text that writes a path is local, and names that path. -/
theorem Writes.isLocal_eq {s : String} {p : Path} (h : Writes s p) :
    isLocal s = .ok true ∧ ∀ homes, localPath homes s = expand homes p := by
  cases h with
  | url hreads hfile hsound =>
    have hsplit := split_of_sound hreads hsound
    rw [Option.getD_some, hfile] at hsplit
    refine ⟨by rw [isLocal_of_split hsplit]; rfl, fun homes => ?_⟩
    rw [localPath, hsplit]
    exact if_pos rfl
  | @text scheme _ _ hreads hletter hsound =>
    have hsplit := split_of_sound hreads hsound
    have hlength : (scheme.getD []).length = 0 ∨ (scheme.getD []).length = 1 := by
      cases scheme with
      | none => exact .inl rfl
      | some name => exact .inr (hletter name rfl)
    constructor
    · rw [isLocal_of_split hsplit]
      rcases hlength with hnone | hone
      · simp [List.length_eq_zero_iff.1 hnone]
      · simp [hone]
    · intro homes
      -- The name of the file scheme is longer.
      have hfile : (scheme.getD []).map Char.toLower ≠ "file".toList := by
        intro heq
        have hfour := congrArg List.length heq
        rw [List.length_map] at hfour
        have : "file".toList.length = 4 := by decide
        omega
      rw [localPath, hsplit]
      exact if_neg hfile

theorem Malformed.not_writes {s : String} {cause : UrlError} (h : Malformed s cause) (p : Path) :
    ¬ Writes s p := by
  intro hwrites
  have hlocal := isLocal_of_malformed h
  rw [hwrites.isLocal_eq.1] at hlocal
  cases hlocal

/-- A text that is neither malformed nor writes a path has another scheme. -/
theorem isLocal_of_other {s : String} (hsound : ∀ cause, ¬ Malformed s cause)
    (hpath : ∀ p, ¬ Writes s p) : isLocal s = .ok false := by
  obtain ⟨scheme, netloc, rest, hreads⟩ := Url.exists_reads s
  have hok : Url.checkNetloc (netloc.getD []) = .ok () := by
    cases hcheck : Url.checkNetloc (netloc.getD []) with
    | ok => rfl
    | error cause =>
      obtain ⟨place, rfl, hplace⟩ := checkNetloc_getD_eq_error hcheck
      exact absurd ⟨scheme, place, rest, hreads, hplace⟩ (hsound cause)
  rw [isLocal_of_split (split_of_sound hreads hok)]
  cases scheme with
  | none => exact absurd (.text hreads (by simp) hok) (hpath _)
  | some name =>
    have hfile : name.map Char.toLower ≠ "file".toList := fun heq => hpath _ (.url hreads heq hok)
    have hletter : name.length ≠ 1 := by
      intro hone
      exact hpath _ (.text hreads (by simpa using hone) hok)
    have hempty : name ≠ [] := by
      rintro rfl
      obtain ⟨tail, hscheme, -⟩ := hreads
      exact absurd hscheme.isScheme.1 (by decide)
    simpa [hletter, hempty] using hfile

/-- A local text writes a path. -/
theorem exists_writes {s : String} (h : isLocal s = .ok true) : ∃ p, Writes s p := by
  apply Classical.byContradiction
  intro hno
  have hother := isLocal_of_other (s := s)
    (fun cause hcause => by rw [isLocal_of_malformed hcause] at h; cases h) fun p hp => hno ⟨p, hp⟩
  rw [h] at hother
  cases hother

/-- Why the home directory of a user is not found: the name cannot be asked for, or it can and the
    user is not known. -/
def Homes.Misses (homes : Homes) (user : List Char) : HomeError → Prop
  | .illFormed => ∃ c ∈ user, c.toNat = 0
  | .unknown => (∀ c ∈ user, c.toNat ≠ 0) ∧ homes.other? (String.ofList user) = none

/-- A path that starts in the home directory of another user, which is not found. -/
def Path.Homeless (p : Path) (homes : Homes) (e : HomeError) : Prop :=
  p.anchor = .relative ∧ ∃ user rest, p.parts = String.ofList ('~' :: user) :: rest ∧ user ≠ [] ∧
    homes.Misses user e

theorem Homes.find_eq_error_iff {homes : Homes} {user : List Char} {e : HomeError} :
    homes.find user = .error e ↔ homes.Misses user e := by
  unfold Homes.find
  by_cases hnul : ∃ c ∈ user, c.toNat = 0
  · obtain ⟨c, hc, hzero⟩ := hnul
    rw [if_pos (List.any_eq_true.2 ⟨c, hc, decide_eq_true hzero⟩)]
    cases e with
    | illFormed => exact ⟨fun _ => ⟨c, hc, hzero⟩, fun _ => rfl⟩
    | unknown => exact ⟨nofun, fun h => absurd hzero (h.1 c hc)⟩
  · have hsound : ∀ c ∈ user, c.toNat ≠ 0 := fun c hc hzero => hnul ⟨c, hc, hzero⟩
    rw [if_neg (by simpa using hsound)]
    cases e with
    | illFormed =>
      refine iff_of_false (fun h => ?_) hnul
      split at h <;> cases h
    | unknown =>
      cases hother : homes.other? (String.ofList user) with
      | some home => exact iff_of_false nofun fun h => nomatch hother.symm.trans h.2
      | none => exact iff_of_true rfl ⟨hsound, hother⟩

/-- Any path is made out that does not start in a home directory that is not found. -/
theorem Path.expandUser_eq_error_iff {p : Path} {homes : Homes} {e : HomeError} :
    p.expandUser homes = .error e ↔ p.Homeless homes e := by
  obtain ⟨anchor, parts⟩ := p
  unfold expandUser Homeless
  split
  next hanchor hparts =>
    obtain rfl : parts = _ := hparts
    refine iff_of_false nofun ?_
    rintro ⟨-, user, rest, hfirst, huser, -⟩
    have htilde : "~".toList = '~' :: user :=
      (congrArg String.toList (List.cons.inj hfirst).1).trans String.toList_ofList
    rw [show "~".toList = ['~'] by decide] at htilde
    exact huser (List.cons.inj htilde).2.symm
  next first rest hhome hanchor hparts =>
    obtain rfl : parts = _ := hparts
    obtain rfl : anchor = _ := hanchor
    split
    next user htilde =>
      have hfirst : first = String.ofList ('~' :: user) := by
        rw [← htilde, String.ofList_toList]
      have huser : user ≠ [] := by
        rintro rfl
        exact hhome hfirst
      have hfind : (homes.find user).map (fun home => (⟨home.anchor, home.parts ++ rest⟩ : Path)) =
          .error e ↔ homes.find user = .error e := by
        cases homes.find user <;> simp [Except.map]
      rw [hfind, Homes.find_eq_error_iff]
      constructor
      · exact fun h => ⟨rfl, user, rest, by rw [hfirst], huser, h⟩
      · rintro ⟨-, user', rest', hparts', -, h⟩
        have hsame := congrArg String.toList (List.cons.inj hparts').1
        rw [htilde, String.toList_ofList] at hsame
        rwa [(List.cons.inj hsame).2]
    next htilde =>
      refine iff_of_false nofun ?_
      rintro ⟨-, user, rest', hparts', -⟩
      refine htilde user ?_
      rw [(List.cons.inj hparts').1, String.toList_ofList]
  next hhome hother =>
    refine iff_of_false nofun ?_
    rintro ⟨rfl, user, rest, rfl, -⟩
    exact hother _ _ rfl rfl

/-- **Pages.**  What may be fetched is an absolute address on the web, with a host. -/
theorem isFetchable_iff {s : String} : isFetchable s = true ↔ WebAddress s := by
  constructor
  · intro h
    obtain ⟨scheme, netloc, rest, hreads⟩ := Url.exists_reads s
    cases hcheck : Url.checkNetloc (netloc.getD []) with
    | error cause =>
      rw [isFetchable, Url.split_of_reads hreads, hcheck] at h
      cases h
    | ok =>
      rw [isFetchable, split_of_sound hreads hcheck] at h
      simp only [Bool.and_eq_true, Bool.or_eq_true, beq_iff_eq, Bool.not_eq_true',
        List.isEmpty_eq_false_iff] at h
      obtain ⟨hweb, hhost⟩ := h
      cases netloc with
      | none => exact absurd rfl hhost
      | some place =>
        cases scheme with
        | none => exact absurd hweb (by decide)
        | some name => exact ⟨name, place, rest, hreads, hweb, hcheck, hhost⟩
  · rintro ⟨scheme, netloc, rest, hreads, hweb, hcheck, hhost⟩
    rw [isFetchable, split_of_sound hreads hcheck]
    simpa [hhost] using hweb

end LuaAudit.Location
