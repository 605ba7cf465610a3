import LuaAudit.Files.Glob
import LuaAudit.Proofs.Files.Tree
import LuaAudit.Proofs.Order

/-!
# What a pattern finds

* `Wildcard.isMatch_anything` and `Wildcard.isMatch_exactly`: the names that fit a star and a text;
* `Reached`: the directories that a walk comes to, `Obstructed`: what breaks it off, and
  `mem_walk_of_reached` and `obstructed_of_walk`: so it is;
* `exists_of_mem_select`: what a pattern finds stands some components below where it starts, and
  `nodup_select`: it is found once;
* `exists_of_glob`: what a pattern finds below a directory, each once and in the order of
  components;
* `mem_select_anyDirs`: a wildcard in any directory finds what is listed under a fitting name.
-/

namespace LuaAudit

open Location (IsName Path)

/-! ### Wildcards -/

namespace Wildcard

/-- Only the text itself fits a text. -/
theorem isMatch_exactly (cs name : List Char) :
    isMatch (cs.map .exactly) name = true ↔ name = cs := by
  induction cs generalizing name with
  | nil => simp [isMatch]
  | cons c cs ih =>
    cases name with
    | nil => simp [isMatch]
    | cons d name => simp [isMatch, takes, ih]

/-- A star fits any front of a name. -/
theorem isMatch_anything (items : List Wildcard) (name : List Char) :
    isMatch (.anything :: items) name = true ↔
      ∃ tail, tail <:+ name ∧ isMatch items tail = true := by
  induction name with
  | nil => simp [isMatch]
  | cons c name ih =>
    rw [isMatch, Bool.or_eq_true, ih]
    constructor
    · rintro (hall | ⟨tail, htail, hmatch⟩)
      · exact ⟨c :: name, List.suffix_rfl, hall⟩
      · exact ⟨tail, htail.trans (List.suffix_cons c name), hmatch⟩
    · rintro ⟨tail, htail, hmatch⟩
      rcases List.suffix_cons_iff.1 htail with rfl | htail
      · exact .inl hmatch
      · exact .inr ⟨tail, htail, hmatch⟩

end Wildcard

/-! ### Patterns -/

namespace Glob

theorem isName_of_mem_parts {s name : String} (h : name ∈ (Path.parse s).parts) : IsName name := by
  obtain ⟨hcut, hkeep⟩ := List.mem_filter.1 h
  obtain ⟨piece, hpiece, rfl⟩ := List.mem_map.1 hcut
  obtain ⟨hempty, hdot⟩ := of_decide_eq_true hkeep
  refine ⟨hempty, hdot, ?_⟩
  rw [String.toList_ofList]
  exact Text.notMem_of_mem_splitOn hpiece

theorem exists_of_mem_mapM {parts : List String} {found : List GlobPart}
    (h : parts.mapM parsePart = .ok found) {part : GlobPart} (hpart : part ∈ found) :
    ∃ text ∈ parts, parsePart text = .ok part := by
  induction parts generalizing found with
  | nil =>
    obtain rfl : [] = found := Except.ok.inj h
    cases hpart
  | cons text parts ih =>
    rw [List.mapM_cons] at h
    cases hfirst : parsePart text with
    | error e =>
      rw [hfirst] at h
      cases h
    | ok first =>
      cases hrest : parts.mapM parsePart with
      | error e =>
        rw [hfirst, hrest] at h
        cases h
      | ok rest =>
        rw [hfirst, hrest] at h
        obtain rfl : first :: rest = found := Except.ok.inj h
        rcases List.mem_cons.1 hpart with rfl | hpart
        · exact ⟨text, List.mem_cons_self, hfirst⟩
        · obtain ⟨text', htext', hparse⟩ := ih hrest hpart
          exact ⟨text', List.mem_cons_of_mem _ htext', hparse⟩

/-- What is wrong with a pattern, and otherwise its components. -/
theorem parse_eq (s : String) : parse s =
    if s = "" then .error .empty
    else if (Path.parse s).isAbsolute then .error .absolute
    else if (Path.parse s).parts.isEmpty then .error .noParts
    else ((Path.parse s).parts.mapM parsePart).map fun parts =>
      if s.toList.getLast? = some '/' then parts ++ [.endSlash] else parts := by
  unfold parse
  split
  · rfl
  · dsimp only
    split
    · rfl
    · split
      · rfl
      · cases (Path.parse s).parts.mapM parsePart <;> rfl

/-- A name in a pattern is the name of a file or directory, or leads upward. -/
theorem isName_of_parse {s : String} {parts : List GlobPart} (h : parse s = .ok parts)
    {name : String} (hname : .exact name ∈ parts) : IsName name := by
  have hmapped : ∃ found, (Path.parse s).parts.mapM parsePart = .ok found ∧
      (parts = found ∨ parts = found ++ [.endSlash]) := by
    rw [parse_eq] at h
    split at h
    · cases h
    · split at h
      · cases h
      · split at h
        · cases h
        · cases hfound : (Path.parse s).parts.mapM parsePart with
          | error e =>
            rw [hfound] at h
            cases h
          | ok found =>
            rw [hfound] at h
            refine ⟨found, rfl, ?_⟩
            obtain rfl := Except.ok.inj h
            split
            · exact .inr rfl
            · exact .inl rfl
  obtain ⟨found, hfound, hparts⟩ := hmapped
  have hmem : .exact name ∈ found := by
    rcases hparts with rfl | rfl
    · exact hname
    · simpa using hname
  obtain ⟨text, htext, hpart⟩ := exists_of_mem_mapM hfound hmem
  unfold parsePart at hpart
  split at hpart
  · cases hpart
  · split at hpart
    · cases hpart
    · split at hpart
      · cases hpart
      · obtain rfl := GlobPart.exact.inj (Except.ok.inj hpart)
        exact isName_of_mem_parts htext

end Glob

/-! ### Walks -/

namespace Files

variable {fs : Files} {p : Path}

/-- Directories that can be come to from a path, by components: each is listed in the one before. -/
def Reached (fs : Files) : Path → List String → Prop
  | _, [] => True
  | p, name :: rel =>
    (∃ entries, fs.list p = .ok entries ∧ (name, Node.directory) ∈ entries) ∧
      fs.Reached (p.child name) rel

/-- What breaks off a walk from a path: a directory that is nested too deep, or one that cannot be
    listed for another reason than that it is refused. -/
inductive Obstructed (fs : Files) (p : Path) (levels : Nat) : GlobError → Prop
  | deep {rel : List String} (reached : fs.Reached p rel) (below : levels ≤ rel.length) :
      Obstructed fs p levels .tooDeep
  | unlisted {rel : List String} {cause : FileError} (reached : fs.Reached p rel)
      (failed : fs.list (p.below rel) = .error cause) (other : cause.fault ≠ .denied) :
      Obstructed fs p levels (.file cause)

/-- A path under which something is listed leads to a directory. -/
theorem isDir_of_list {entries : List (String × Node)} (h : fs.list p = .ok entries) :
    fs.isDir p = .ok true := by
  obtain ⟨place, hplace, hnode, -, -⟩ := list_eq_ok_iff.1 h
  exact isDir_eq_true_iff.2 ⟨place, hplace, hnode⟩

/-- Where a directory that can be come to is listed, so is every directory on the way. -/
theorem Reached.listed {rel : List String} (h : fs.Reached p rel)
    (hlist : ∃ entries, fs.list (p.below rel) = .ok entries) {front : List String}
    (hfront : front <+: rel) : ∃ entries, fs.list (p.below front) = .ok entries := by
  induction front generalizing p rel with
  | nil =>
    cases rel with
    | nil => exact hlist
    | cons name rel =>
      obtain ⟨⟨entries, hentries, -⟩, -⟩ := h
      exact ⟨entries, by rwa [Path.below_nil]⟩
  | cons name front ih =>
    obtain ⟨rest, rfl⟩ := hfront
    rw [← Path.child_below]
    apply ih h.2
    · rwa [Path.child_below]
    · exact List.prefix_append front rest

theorem Reached.cons {name : String} {rel : List String} {entries : List (String × Node)}
    (hlist : fs.list p = .ok entries) (hname : (name, Node.directory) ∈ entries)
    (hrel : fs.Reached (p.child name) rel) : fs.Reached p (name :: rel) :=
  ⟨⟨entries, hlist, hname⟩, hrel⟩

/-- What is listed in a directory stands in the tree. -/
theorem mem_keys_of_list {entries : List (String × Node)} (h : fs.list p = .ok entries)
    {name : String} {node : Node} (hmem : (name, node) ∈ entries) :
    ∃ place ∈ fs.nodes.keys, name ∈ place := by
  obtain ⟨place, -, -, -, rfl⟩ := list_eq_ok_iff.1 h
  exact ⟨place ++ [name], (OrderedMap.mem_keys_iff _ _).2 ⟨node, mem_listing.1 hmem⟩, by simp⟩

theorem Reached.mem_keys {rel : List String} (h : fs.Reached p rel) :
    ∀ name ∈ rel, ∃ place ∈ fs.nodes.keys, name ∈ place := by
  induction rel generalizing p with
  | nil => simp
  | cons name rel ih =>
    obtain ⟨⟨entries, hlist, hmem⟩, hrel⟩ := h
    rw [List.forall_mem_cons]
    exact ⟨mem_keys_of_list hlist hmem, ih hrel⟩

/-- An answer is kept, and a refusal counts as an empty one. -/
theorem tolerant_eq_ok_iff {α : Type} {empty found : α} {x : Except FileError α} :
    tolerant empty x = .ok found ↔
      x = .ok found ∨ ∃ cause, x = .error cause ∧ cause.fault = .denied ∧ found = empty := by
  cases x with
  | ok a => simp [tolerant]
  | error cause =>
    by_cases h : cause.fault = .denied
    · simp [tolerant, h, eq_comm]
    · simp [tolerant, h]

theorem tolerant_eq_error_iff {α : Type} {empty : α} {x : Except FileError α} {e : GlobError} :
    tolerant empty x = .error e ↔
      ∃ cause, x = .error cause ∧ cause.fault ≠ .denied ∧ e = .file cause := by
  cases x with
  | ok a => simp [tolerant]
  | error cause =>
    by_cases h : cause.fault = .denied
    · simp [tolerant, h]
    · rw [eq_comm]
      simp [tolerant, h]

section Each

variable {α : Type} {walk : α → List Path × Option GlobError} {as : List α}

theorem walkEach_cons (walk : α → List Path × Option GlobError) (a : α) (as : List α) :
    walkEach walk (a :: as) =
      match (walk a).2 with
      | some e => ((walk a).1, some e)
      | none => ((walk a).1 ++ (walkEach walk as).1, (walkEach walk as).2) := by
  rw [walkEach]
  rcases walk a with ⟨found, _ | e⟩ <;> rfl

theorem exists_of_mem_walkEach {d : Path} (h : d ∈ (walkEach walk as).1) :
    ∃ a ∈ as, d ∈ (walk a).1 := by
  induction as with
  | nil => cases h
  | cons a as ih =>
    rw [walkEach_cons] at h
    cases hstop : (walk a).2 with
    | some e =>
      rw [hstop] at h
      exact ⟨a, List.mem_cons_self, h⟩
    | none =>
      rw [hstop] at h
      rcases List.mem_append.1 h with hfirst | hrest
      · exact ⟨a, List.mem_cons_self, hfirst⟩
      · obtain ⟨b, hb, hd⟩ := ih hrest
        exact ⟨b, List.mem_cons_of_mem a hb, hd⟩

theorem exists_of_walkEach_eq_some {e : GlobError} (h : (walkEach walk as).2 = some e) :
    ∃ a ∈ as, (walk a).2 = some e := by
  induction as with
  | nil => cases h
  | cons a as ih =>
    rw [walkEach_cons] at h
    cases hstop : (walk a).2 with
    | some e' =>
      rw [hstop] at h
      exact ⟨a, List.mem_cons_self, hstop.trans h⟩
    | none =>
      rw [hstop] at h
      obtain ⟨b, hb, he⟩ := ih h
      exact ⟨b, List.mem_cons_of_mem a hb, he⟩

theorem subset_of_walkEach_eq_none (h : (walkEach walk as).2 = none) {a : α} (ha : a ∈ as) :
    (walk a).2 = none ∧ (walk a).1 ⊆ (walkEach walk as).1 := by
  induction as with
  | nil => cases ha
  | cons b as ih =>
    rw [walkEach_cons] at h ⊢
    cases hstop : (walk b).2 with
    | some e =>
      rw [hstop] at h
      cases h
    | none =>
      rw [hstop] at h
      rcases List.mem_cons.1 ha with rfl | ha
      · exact ⟨hstop, List.subset_append_left _ _⟩
      · exact ⟨(ih h ha).1, List.subset_append_of_subset_right _ (ih h ha).2⟩

end Each

/-- The directories in a listing. -/
def innerDirs (entries : List (String × Node)) : List String :=
  (entries.filter fun e => e.2 = .directory).map Prod.fst

theorem mem_innerDirs {entries : List (String × Node)} {name : String} :
    name ∈ innerDirs entries ↔ (name, Node.directory) ∈ entries := by
  simp [innerDirs]

/-- One step of a walk: the directory, and then what is in those it holds. -/
theorem walk_succ (fs : Files) (levels : Nat) (p : Path) :
    fs.walk (levels + 1) p =
      match tolerant [] (fs.list p) with
      | .error e => ([p], some e)
      | .ok entries =>
        (p :: (walkEach (fun name => fs.walk levels (p.child name)) (innerDirs entries)).1,
          (walkEach (fun name => fs.walk levels (p.child name)) (innerDirs entries)).2) := by
  rw [walk]
  rfl

/-- A walk comes to nothing but directories that can be come to. -/
theorem reached_of_mem_walk {levels : Nat} {d : Path} (h : d ∈ (fs.walk levels p).1) :
    ∃ rel, d = p.below rel ∧ fs.Reached p rel := by
  induction levels generalizing p with
  | zero => cases h
  | succ levels ih =>
    rw [walk_succ] at h
    cases hlist : tolerant [] (fs.list p) with
    | error e =>
      rw [hlist] at h
      exact ⟨[], (List.mem_singleton.1 h).trans p.below_nil.symm, trivial⟩
    | ok entries =>
      rw [hlist] at h
      rcases List.mem_cons.1 h with rfl | h
      · exact ⟨[], d.below_nil.symm, trivial⟩
      · obtain ⟨name, hname, hd⟩ := exists_of_mem_walkEach h
        obtain ⟨rel, rfl, hrel⟩ := ih hd
        refine ⟨name :: rel, p.child_below name rel, ⟨entries, ?_, mem_innerDirs.1 hname⟩, hrel⟩
        rcases tolerant_eq_ok_iff.1 hlist with hlist | ⟨cause, -, -, rfl⟩
        · exact hlist
        · cases hname

/-- A walk that does not break off comes to every directory that can be come to. -/
theorem mem_walk_of_reached {levels : Nat} {rel : List String} (h : (fs.walk levels p).2 = none)
    (hrel : fs.Reached p rel) : p.below rel ∈ (fs.walk levels p).1 ∧ rel.length < levels ∧
      ∀ cause, fs.list (p.below rel) = .error cause → cause.fault = .denied := by
  induction levels generalizing p rel with
  | zero => cases h
  | succ levels ih =>
    rw [walk_succ] at h ⊢
    cases hlist : tolerant [] (fs.list p) with
    | error e =>
      rw [hlist] at h
      cases h
    | ok entries =>
      rw [hlist] at h
      cases rel with
      | nil =>
        rw [Path.below_nil]
        refine ⟨List.mem_cons_self, Nat.succ_pos levels, fun cause hcause => ?_⟩
        rcases tolerant_eq_ok_iff.1 hlist with hok | ⟨cause', hcause', hdenied, -⟩
        · cases hok.symm.trans hcause
        · obtain rfl := Except.error.inj (hcause.symm.trans hcause')
          exact hdenied
      | cons name rel =>
        obtain ⟨⟨entries', hlist', hname⟩, hrel⟩ := hrel
        rw [hlist'] at hlist
        obtain rfl := Except.ok.inj hlist
        obtain ⟨hstop, hsubset⟩ := subset_of_walkEach_eq_none h (mem_innerDirs.2 hname)
        obtain ⟨hmem, hlength, hfailed⟩ := ih hstop hrel
        rw [Path.child_below] at hmem hfailed
        exact ⟨List.mem_cons_of_mem p (hsubset hmem), Nat.succ_lt_succ hlength, hfailed⟩

/-- What stands in the way further down stands in the way. -/
theorem Obstructed.cons {levels : Nat} {name : String} {entries : List (String × Node)}
    (hlist : fs.list p = .ok entries) (hname : (name, Node.directory) ∈ entries) {e : GlobError}
    (h : fs.Obstructed (p.child name) levels e) : fs.Obstructed p (levels + 1) e := by
  cases h with
  | deep hrel hlevels =>
    exact .deep (.cons hlist hname hrel) (Nat.succ_le_succ hlevels)
  | unlisted hrel hfailed hother =>
    rw [Path.child_below] at hfailed
    exact .unlisted (.cons hlist hname hrel) hfailed hother

/-- **A walk breaks off** only when something stands in the way. -/
theorem obstructed_of_walk {levels : Nat} {e : GlobError} (h : (fs.walk levels p).2 = some e) :
    fs.Obstructed p levels e := by
  have hstart : ∀ p, fs.Reached p [] := fun _ => trivial
  induction levels generalizing p with
  | zero =>
    obtain rfl := Option.some.inj h
    exact .deep (hstart p) (Nat.zero_le _)
  | succ levels ih =>
    rw [walk_succ] at h
    cases hlist : tolerant [] (fs.list p) with
    | error e' =>
      rw [hlist] at h
      obtain rfl : e' = e := Option.some.inj h
      obtain ⟨cause, hfailed, hother, rfl⟩ := tolerant_eq_error_iff.1 hlist
      exact .unlisted (hstart p) (by rwa [Path.below_nil]) hother
    | ok entries =>
      rw [hlist] at h
      obtain ⟨name, hname, hstop⟩ := exists_of_walkEach_eq_some h
      rcases tolerant_eq_ok_iff.1 hlist with hlist | ⟨cause, -, -, rfl⟩
      · exact (ih hstop).cons hlist (mem_innerDirs.1 hname)
      · cases hname

/-! ### What is found -/

section SelectEach

variable {select : Path → Except GlobError (List Path)} {ps found : List Path}

theorem selectEach_cons (select : Path → Except GlobError (List Path)) (p : Path) (ps : List Path) :
    selectEach select (p :: ps) =
      (select p).bind fun first => (selectEach select ps).map (first ++ ·) := by
  rw [selectEach]
  cases select p with
  | error e => rfl
  | ok first => cases selectEach select ps <;> rfl

theorem selectEach_cons_eq_ok_iff : selectEach select (p :: ps) = .ok found ↔
    ∃ first rest, select p = .ok first ∧ selectEach select ps = .ok rest ∧
      found = first ++ rest := by
  rw [selectEach_cons]
  cases select p with
  | error e => simp [Except.bind]
  | ok first => cases selectEach select ps <;> simp [Except.bind, Except.map, eq_comm]

theorem mem_selectEach {q : Path} (h : selectEach select ps = .ok found) :
    q ∈ found ↔ ∃ p ∈ ps, ∃ part, select p = .ok part ∧ q ∈ part := by
  induction ps generalizing found with
  | nil =>
    obtain rfl : [] = found := Except.ok.inj h
    simp
  | cons p ps ih =>
    obtain ⟨first, rest, hfirst, hrest, rfl⟩ := selectEach_cons_eq_ok_iff.1 h
    simp [ih hrest, hfirst]

/-- What is found from several paths on is found once, if it is from each and no two find the
    same. -/
theorem nodup_selectEach (h : selectEach select ps = .ok found)
    (hnodup : ∀ p part, select p = .ok part → part.Nodup)
    (hapart : ps.Pairwise fun p p' => ∀ part part' q, select p = .ok part → select p' = .ok part' →
      q ∈ part → q ∉ part') : found.Nodup := by
  induction ps generalizing found with
  | nil =>
    obtain rfl : [] = found := Except.ok.inj h
    exact List.nodup_nil
  | cons p ps ih =>
    obtain ⟨first, rest, hfirst, hrest, rfl⟩ := selectEach_cons_eq_ok_iff.1 h
    rw [List.pairwise_cons] at hapart
    refine List.nodup_append.2 ⟨hnodup p first hfirst, ih hrest hapart.2, ?_⟩
    rintro q hq _ hq' rfl
    obtain ⟨p', hp', part, hpart, hmem⟩ := (mem_selectEach hrest).1 hq'
    exact hapart.1 p' hp' first part q hfirst hpart hq hmem

theorem exists_of_selectEach_eq_error {e : GlobError} (h : selectEach select ps = .error e) :
    ∃ p ∈ ps, select p = .error e := by
  induction ps with
  | nil => cases h
  | cons p ps ih =>
    rw [selectEach_cons] at h
    cases hfirst : select p with
    | error e' =>
      rw [hfirst] at h
      obtain rfl : e' = e := Except.error.inj h
      exact ⟨p, List.mem_cons_self, hfirst⟩
    | ok first =>
      rw [hfirst] at h
      cases hrest : selectEach select ps with
      | error e' =>
        rw [hrest] at h
        obtain rfl : e' = e := Except.error.inj h
        obtain ⟨q, hq, he⟩ := ih hrest
        exact ⟨q, List.mem_cons_of_mem p hq, he⟩
      | ok rest =>
        rw [hrest] at h
        cases h

end SelectEach

/-- A name in a pattern leads on, or to nothing. -/
theorem select_exact {name : String} {parts : List GlobPart} {found : List Path}
    (h : fs.select (.exact name :: parts) p = .ok found) :
    found = [] ∨ fs.select parts (p.child name) = .ok found := by
  rw [select] at h
  cases hasked : tolerant false (if parts.isEmpty then fs.pathExists (p.child name)
      else fs.isDir (p.child name)) with
  | error e =>
    rw [hasked] at h
    cases h
  | ok there =>
    rw [hasked] at h
    cases there with
    | false => exact .inl (Except.ok.inj h).symm
    | true => exact .inr h

/-- What fits a wildcard in a listing. -/
def fitting (rest : List GlobPart) (items : List Wildcard) (entries : List (String × Node)) :
    List (String × Node) :=
  entries.filter fun e => (rest.isEmpty || e.2 = .directory) && Wildcard.isMatch items e.1.toList

/-- A wildcard leads on from what fits in the listing, if there is one. -/
theorem select_wild (fs : Files) (items : List Wildcard) (rest : List GlobPart) (p : Path) :
    fs.select (.wild items :: rest) p = (tolerant [] (fs.list p)).bind fun entries =>
      selectEach (fs.select rest) ((fitting rest items entries).map fun e => p.child e.1) := by
  rw [select]
  cases tolerant [] (fs.list p) <;> rfl

/-- Any number of directories leads on from each of them, unless the walk breaks off. -/
theorem select_anyDirs (fs : Files) (rest : List GlobPart) (p : Path) :
    fs.select (.anyDirs :: rest) p =
      (selectEach (fs.select rest) (fs.walk fs.levels p).1).bind fun found =>
        match (fs.walk fs.levels p).2 with
        | some e => .error e
        | none => .ok found.eraseDups := by
  rw [select]
  rcases fs.walk fs.levels p with ⟨dirs, stop⟩
  dsimp only
  cases selectEach (fs.select rest) dirs with
  | error e => rfl
  | ok found => cases stop <;> rfl

theorem select_anyDirs_eq_ok_iff {rest : List GlobPart} {found : List Path} :
    fs.select (.anyDirs :: rest) p = .ok found ↔
      (fs.walk fs.levels p).2 = none ∧
        ∃ all, selectEach (fs.select rest) (fs.walk fs.levels p).1 = .ok all ∧
          found = all.eraseDups := by
  rw [select_anyDirs]
  cases selectEach (fs.select rest) (fs.walk fs.levels p).1 with
  | error e => simp [Except.bind]
  | ok all => cases (fs.walk fs.levels p).2 <;> simp [Except.bind, eq_comm]

/-- What a wildcard leads on from, where the directory is listed. -/
theorem select_wild_eq_ok_iff {items : List Wildcard} {rest : List GlobPart} {found : List Path} :
    fs.select (.wild items :: rest) p = .ok found ↔
      (∃ entries, fs.list p = .ok entries ∧ selectEach (fs.select rest)
        ((fitting rest items entries).map fun e => p.child e.1) = .ok found) ∨
      ∃ cause, fs.list p = .error cause ∧ cause.fault = .denied ∧ found = [] := by
  rw [select_wild]
  cases hlist : fs.list p with
  | ok entries => simp [tolerant, Except.bind]
  | error cause =>
    by_cases h : cause.fault = .denied
    · simp [tolerant, h, Except.bind, fitting, selectEach, eq_comm]
    · simp [tolerant, h, Except.bind]

/-- What a pattern finds stands some components below where it starts, each of them a name of the
    pattern or of the tree. -/
theorem exists_of_mem_select {parts : List GlobPart} {found : List Path}
    (h : fs.select parts p = .ok found) {q : Path} (hq : q ∈ found) :
    ∃ rel, q = p.below rel ∧
      ∀ name ∈ rel, .exact name ∈ parts ∨ ∃ place ∈ fs.nodes.keys, name ∈ place := by
  induction parts generalizing p found with
  | nil =>
    rw [select] at h
    obtain rfl := Except.ok.inj h
    exact ⟨[], (List.mem_singleton.1 hq).trans p.below_nil.symm, by simp⟩
  | cons part parts ih =>
    have hfurther : ∀ {d found} (rel), (∀ name ∈ rel, ∃ place ∈ fs.nodes.keys, name ∈ place) →
        d = p.below rel → fs.select parts d = .ok found → q ∈ found → ∃ rel, q = p.below rel ∧
          ∀ name ∈ rel, .exact name ∈ part :: parts ∨ ∃ place ∈ fs.nodes.keys, name ∈ place := by
      rintro d found rel hrel rfl hfound hmem
      obtain ⟨rel', rfl, hrel'⟩ := ih hfound hmem
      refine ⟨rel ++ rel', by simp [Path.below], fun name hname => ?_⟩
      rcases List.mem_append.1 hname with hname | hname
      · exact .inr (hrel name hname)
      · exact (hrel' name hname).imp_left (List.mem_cons_of_mem part)
    cases part with
    | endSlash =>
      rw [select] at h
      obtain rfl := Except.ok.inj h
      exact ⟨[], (List.mem_singleton.1 hq).trans p.below_nil.symm, by simp⟩
    | exact name =>
      rcases select_exact h with rfl | hselect
      · cases hq
      · obtain ⟨rel, rfl, hrel⟩ := ih hselect hq
        refine ⟨name :: rel, p.child_below name rel, ?_⟩
        rw [List.forall_mem_cons]
        exact ⟨.inl List.mem_cons_self, fun other hother =>
          (hrel other hother).imp_left (List.mem_cons_of_mem _)⟩
    | wild items =>
      rcases select_wild_eq_ok_iff.1 h with ⟨entries, hlist, heach⟩ | ⟨cause, -, -, rfl⟩
      · obtain ⟨d, hd, part, hpart, hmem⟩ := (mem_selectEach heach).1 hq
        obtain ⟨e, he, rfl⟩ := List.mem_map.1 hd
        refine hfurther [e.1] ?_ rfl hpart hmem
        rw [List.forall_mem_singleton]
        exact mem_keys_of_list hlist (List.mem_filter.1 he).1
      · cases hq
    | anyDirs =>
      obtain ⟨-, all, heach, rfl⟩ := select_anyDirs_eq_ok_iff.1 h
      rw [List.mem_eraseDups] at hq
      obtain ⟨d, hd, part, hpart, hmem⟩ := (mem_selectEach heach).1 hq
      obtain ⟨rel, rfl, hrel⟩ := reached_of_mem_walk hd
      exact hfurther rel hrel.mem_keys rfl hpart hmem

/-- First occurrences are different. -/
theorem nodup_eraseDups {α : Type} [DecidableEq α] (as : List α) : as.eraseDups.Nodup := by
  induction as using List.reverseRecOn with
  | nil => simp
  | append_singleton as a ih =>
    rw [OrderedMap.eraseDups_concat]
    split
    · exact ih
    next hnew =>
      refine List.nodup_append.2 ⟨ih, List.nodup_singleton a, ?_⟩
      rintro b hb _ hlast rfl
      rw [List.mem_singleton.1 hlast] at hb
      exact hnew (List.mem_eraseDups.1 hb)

/-- **A pattern finds nothing twice.** -/
theorem nodup_select {parts : List GlobPart} {found : List Path}
    (h : fs.select parts p = .ok found) : found.Nodup := by
  induction parts generalizing p found with
  | nil =>
    rw [select] at h
    obtain rfl := Except.ok.inj h
    exact List.nodup_singleton p
  | cons part parts ih =>
    cases part with
    | endSlash =>
      rw [select] at h
      obtain rfl := Except.ok.inj h
      exact List.nodup_singleton p
    | exact name =>
      rcases select_exact h with rfl | hselect
      · exact List.nodup_nil
      · exact ih hselect
    | wild items =>
      rcases select_wild_eq_ok_iff.1 h with ⟨entries, hlist, heach⟩ | ⟨cause, -, -, rfl⟩
      · obtain ⟨place, -, -, -, rfl⟩ := list_eq_ok_iff.1 hlist
        have hnames : ((fitting parts items (fs.listing place)).map Prod.fst).Nodup :=
          (List.filter_sublist.map Prod.fst).nodup (fs.nodup_listing place)
        refine nodup_selectEach heach (fun d part => ih) (List.pairwise_map.2 ?_)
        refine (List.pairwise_map.1 hnames).imp ?_
        -- what is found below two names differs in the component after the path
        intro e e' hne part part' q hpart hpart' hq hq'
        obtain ⟨rel, rfl, -⟩ := exists_of_mem_select hpart hq
        obtain ⟨rel', heq, -⟩ := exists_of_mem_select hpart' hq'
        rw [Path.child_below, Path.child_below, Path.below_inj] at heq
        exact hne (List.cons.inj heq).1
      · exact List.nodup_nil
    | anyDirs =>
      obtain ⟨-, all, -, rfl⟩ := select_anyDirs_eq_ok_iff.1 h
      exact nodup_eraseDups all

/-! ### The order -/

theorem pathLe_iff (p q : Path) : pathLe p q = true ↔ ¬ q.parts < p.parts :=
  Order.listLe_iff Order.textLe_iff p.parts q.parts

theorem relativeParts_below (root : Path) (rel : List String) :
    relativeParts root (root.below rel) = rel :=
  List.drop_left

/-- Different paths below a directory, once they are sorted, are in the order of their
    components. -/
theorem pairwise_relativeParts {root : Path} {paths : List Path} (hnodup : paths.Nodup)
    (hbelow : ∀ p ∈ paths, ∃ rel, p = root.below rel) :
    ((paths.mergeSort pathLe).map (relativeParts root)).Pairwise (· < ·) := by
  have hsorted : (paths.mergeSort pathLe).Pairwise fun p q => pathLe p q = true := by
    refine List.pairwise_mergeSort (fun p q r hpq hqr => ?_) (fun p q => ?_) paths
    · rw [pathLe_iff] at hpq hqr ⊢
      exact fun hlt => hpq (lt_of_le_of_lt (not_lt.1 hqr) hlt)
    · rw [Bool.or_eq_true, pathLe_iff, pathLe_iff, ← not_and_or]
      exact fun h => lt_asymm h.1 h.2
  have hdistinct := (List.mergeSort_perm paths pathLe).nodup_iff.2 hnodup
  rw [List.pairwise_map]
  refine (hsorted.and hdistinct).imp_of_mem ?_
  rintro p q hp hq ⟨hle, hne⟩
  obtain ⟨rel, rfl⟩ := hbelow p (List.mem_mergeSort.1 hp)
  obtain ⟨rel', rfl⟩ := hbelow q (List.mem_mergeSort.1 hq)
  rw [relativeParts_below, relativeParts_below]
  rw [pathLe_iff] at hle
  rcases lt_trichotomy rel rel' with hlt | rfl | hgt
  · exact hlt
  · exact absurd rfl hne
  · exact absurd (List.append_left_lt hgt) hle

/-! ### Below a directory -/

theorem glob_eq_ok_iff {root : Path} {pattern : String} {paths : List Path} :
    fs.glob root pattern = .ok paths ↔ ∃ parts, Glob.parse pattern = .ok parts ∧
      ((fs.isDir root = .ok true ∧ ∃ found, fs.select parts root = .ok found ∧
        paths = found.mergeSort pathLe) ∨ fs.isDir root = .ok false ∧ paths = []) := by
  unfold glob
  cases Glob.parse pattern with
  | error e => simp [bind, Except.bind]
  | ok parts =>
    cases fs.isDir root with
    | error e => simp [bind, Except.bind, throw, throwThe, MonadExceptOf.throw]
    | ok there =>
      cases there with
      | false => simp [bind, Except.bind, pure, Except.pure, eq_comm]
      | true =>
        cases hselect : fs.select parts root with
        | error e => simp [bind, Except.bind, hselect]
        | ok found => simp [bind, Except.bind, pure, Except.pure, hselect, eq_comm]

theorem glob_eq_error_iff {root : Path} {pattern : String} {e : GlobError} :
    fs.glob root pattern = .error e ↔ Glob.parse pattern = .error e ∨
      ∃ parts, Glob.parse pattern = .ok parts ∧
        ((∃ cause, fs.isDir root = .error cause ∧ e = .file cause) ∨
          fs.isDir root = .ok true ∧ fs.select parts root = .error e) := by
  unfold glob
  cases Glob.parse pattern with
  | error e => simp [bind, Except.bind]
  | ok parts =>
    cases fs.isDir root with
    | error cause => simp [bind, Except.bind, throw, throwThe, MonadExceptOf.throw, eq_comm]
    | ok there =>
      cases there with
      | false => simp [bind, Except.bind, pure, Except.pure]
      | true =>
        cases hselect : fs.select parts root with
        | error e => simp [bind, Except.bind, hselect]
        | ok found => simp [bind, Except.bind, pure, Except.pure, hselect]

/-- **What a pattern finds** below a directory of a tree: each path once, in the order of
    components, and each component is a name or leads upward. -/
theorem exists_of_glob (hnamed : ∀ place ∈ fs.nodes.keys, ∀ name ∈ place, IsName name) {root : Path}
    {pattern : String} {paths : List Path} (h : fs.glob root pattern = .ok paths) :
    ∃ rels : List (List String), paths = rels.map root.below ∧ rels.Pairwise (· < ·) ∧
      ∀ rel ∈ rels, ∀ name ∈ rel, IsName name := by
  obtain ⟨parts, hparse, ⟨-, found, hfound, rfl⟩ | ⟨-, rfl⟩⟩ := glob_eq_ok_iff.1 h
  · have hbelow : ∀ p ∈ found, ∃ rel, p = root.below rel ∧ ∀ name ∈ rel, IsName name := by
      intro p hp
      obtain ⟨rel, rfl, hrel⟩ := exists_of_mem_select hfound hp
      refine ⟨rel, rfl, fun name hname => ?_⟩
      rcases hrel name hname with hexact | ⟨place, hplace, hmem⟩
      · exact Glob.isName_of_parse hparse hexact
      · exact hnamed place hplace name hmem
    refine ⟨(found.mergeSort pathLe).map (relativeParts root), ?_, ?_, ?_⟩
    · rw [List.map_map]
      refine (List.map_id' _).symm.trans (List.map_congr_left fun p hp => ?_)
      obtain ⟨rel, rfl, -⟩ := hbelow p (List.mem_mergeSort.1 hp)
      rw [Function.comp_apply, relativeParts_below]
    · refine pairwise_relativeParts (nodup_select hfound) fun p hp => ?_
      obtain ⟨rel, hp, -⟩ := hbelow p hp
      exact ⟨rel, hp⟩
    · rw [List.forall_mem_map]
      intro p hp
      obtain ⟨rel, rfl, hrel⟩ := hbelow p (List.mem_mergeSort.1 hp)
      rwa [relativeParts_below]
  · exact ⟨[], rfl, .nil, by simp⟩

/-! ### A wildcard in any directory -/

/-- What is found with nothing after the wildcard is what fits. -/
theorem selectEach_nil (fs : Files) (ps : List Path) : selectEach (fs.select []) ps = .ok ps := by
  induction ps with
  | nil => rfl
  | cons p ps ih => exact selectEach_cons_eq_ok_iff.2 ⟨[p], ps, rfl, ih, rfl⟩

theorem mem_select_wild {found : List Path} {q : Path} {items : List Wildcard}
    (h : fs.select [.wild items] p = .ok found) :
    q ∈ found ↔ ∃ entries name node, fs.list p = .ok entries ∧ (name, node) ∈ entries ∧
      Wildcard.isMatch items name.toList = true ∧ q = p.child name := by
  rcases select_wild_eq_ok_iff.1 h with ⟨entries, hlist, heach⟩ | ⟨cause, hlist, -, rfl⟩
  · rw [selectEach_nil] at heach
    obtain rfl := Except.ok.inj heach
    rw [List.mem_map]
    constructor
    · rintro ⟨e, he, rfl⟩
      obtain ⟨hmem, hfits⟩ := List.mem_filter.1 he
      exact ⟨entries, e.1, e.2, hlist, hmem, (Bool.and_eq_true_iff.1 hfits).2, rfl⟩
    · rintro ⟨entries', name, node, hlist', hmem, hmatch, rfl⟩
      obtain rfl := Except.ok.inj (hlist.symm.trans hlist')
      exact ⟨(name, node), List.mem_filter.2 ⟨hmem, Bool.and_eq_true_iff.2 ⟨rfl, hmatch⟩⟩, rfl⟩
  · rw [hlist]
    simp

/-- **A wildcard in any directory** finds what is listed under a name that fits in a directory that
    can be come to. -/
theorem mem_select_anyDirs {root q : Path} {items : List Wildcard} {found : List Path}
    (h : fs.select [.anyDirs, .wild items] root = .ok found) :
    q ∈ found ↔ ∃ rel entries name node, fs.Reached root rel ∧
      fs.list (root.below rel) = .ok entries ∧ (name, node) ∈ entries ∧
      Wildcard.isMatch items name.toList = true ∧ q = root.below (rel ++ [name]) := by
  obtain ⟨hstop, all, heach, rfl⟩ := select_anyDirs_eq_ok_iff.1 h
  rw [List.mem_eraseDups, mem_selectEach heach]
  have hchild : ∀ rel name, (root.below rel).child name = root.below (rel ++ [name]) := by
    intro rel name
    simp [Path.child, Path.below]
  constructor
  · rintro ⟨d, hd, part, hpart, hmem⟩
    obtain ⟨rel, rfl, hrel⟩ := reached_of_mem_walk hd
    obtain ⟨entries, name, node, hlist, hname, hmatch, rfl⟩ := (mem_select_wild hpart).1 hmem
    exact ⟨rel, entries, name, node, hrel, hlist, hname, hmatch, hchild rel name⟩
  · rintro ⟨rel, entries, name, node, hrel, hlist, hname, hmatch, rfl⟩
    have hpart : ∃ part, fs.select [.wild items] (root.below rel) = .ok part :=
      ⟨_, select_wild_eq_ok_iff.2 (.inl ⟨entries, hlist, selectEach_nil fs _⟩)⟩
    obtain ⟨part, hpart⟩ := hpart
    refine ⟨root.below rel, (mem_walk_of_reached hstop hrel).1, part, hpart, ?_⟩
    exact (mem_select_wild hpart).2
      ⟨entries, name, node, hlist, hname, hmatch, (hchild rel name).symm⟩

/-- It does when nothing stands in the way. -/
theorem not_obstructed_of_select {root : Path} {rest : List GlobPart} {found : List Path}
    (h : fs.select (.anyDirs :: rest) root = .ok found) (e : GlobError) :
    ¬ fs.Obstructed root fs.levels e := by
  have hstop := (select_anyDirs_eq_ok_iff.1 h).1
  rintro (⟨hrel, hlevels⟩ | ⟨hrel, hfailed, hother⟩)
  · have hlength := (mem_walk_of_reached hstop hrel).2.1
    omega
  · exact hother ((mem_walk_of_reached hstop hrel).2.2 _ hfailed)

/-- **It fails** only when something stands in the way. -/
theorem obstructed_of_select {root : Path} {items : List Wildcard} {e : GlobError}
    (h : fs.select [.anyDirs, .wild items] root = .error e) : fs.Obstructed root fs.levels e := by
  rw [select_anyDirs] at h
  cases heach : selectEach (fs.select [.wild items]) (fs.walk fs.levels root).1 with
  | error e' =>
    rw [heach] at h
    obtain rfl : e' = e := Except.error.inj h
    obtain ⟨d, hd, hfailed⟩ := exists_of_selectEach_eq_error heach
    obtain ⟨rel, rfl, hrel⟩ := reached_of_mem_walk hd
    rw [select_wild] at hfailed
    cases hlist : tolerant [] (fs.list (root.below rel)) with
    | ok entries =>
      rw [hlist] at hfailed
      cases (selectEach_nil fs _).symm.trans hfailed
    | error e =>
      rw [hlist] at hfailed
      obtain rfl : e = e' := Except.error.inj hfailed
      obtain ⟨cause, hcause, hother, rfl⟩ := tolerant_eq_error_iff.1 hlist
      exact .unlisted hrel hcause hother
  | ok all =>
    rw [heach] at h
    cases hstop : (fs.walk fs.levels root).2 with
    | none =>
      rw [show (Except.ok all).bind _ = _ from rfl, hstop] at h
      cases h
    | some e' =>
      rw [show (Except.ok all).bind _ = _ from rfl, hstop] at h
      obtain rfl : e' = e := Except.error.inj h
      exact obstructed_of_walk hstop

end Files

end LuaAudit
