import LuaAudit.Proofs.Lua.Mask

/-!
# Where the reader of a text stands

The reader goes through a text in steps of one or more characters, and between two steps it stands
at an offset, in a region.  What it does before an offset can depend on what comes after it: `-` may
be the first half of `--`, and `[` the start of a long bracket.  It does not depend on anything that
comes after a text which no bracket can run through.

* `Region.next` is one step, and `maskFrom_next` says that `maskFrom` takes these steps;
* `regionAt t n` is the region in which the reader of `t` stands at offset `n`, if it ever does;
* `Decisive o`: no long bracket runs through `o`, so that nothing after `o` is looked at before it;
* `next_append` and `exists_masked_before`: what is read before a decisive text does not depend on
  what follows it.
-/

namespace LuaAudit.Lua

open Bracket (opener closer ofLevel)

/-! ### Steps -/

/-- One step of the reader at `c` before `cs`: the region it goes on in, and the characters it
    passes. -/
def Region.next : Region → (c : Char) → (cs : List Char) → Region × Nat
  | .lineComment, c, _ => (if c = '\n' then .code else .lineComment, 1)
  | .long n, c, cs =>
    if Bracket.closeLevel? (c :: cs) = some n then (.code, Bracket.length n) else (.long n, 1)
  | .quoted q, c, cs =>
    if c = '\\' ∧ cs ≠ [] then (.quoted q, 2) else (if c = q then .code else .quoted q, 1)
  | .code, c, cs =>
    if ['-', '-'] <+: c :: cs then
      match Bracket.openLevel? (cs.drop 1) with
      | some n => (.long n, 2 + Bracket.length n)
      | none => (.lineComment, 2)
    else
      match Bracket.openLevel? (c :: cs) with
      | some n => (.long n, Bracket.length n)
      | none => (if c = '\'' ∨ c = '"' then .quoted c else .code, 1)

/-- What the reader leaves of the characters of a step: a step from code to code keeps them. -/
def Region.left (r : Region) (c : Char) (cs : List Char) : List Char :=
  let passed := (c :: cs).take (r.next c cs).2
  if r = .code ∧ (r.next c cs).1 = .code then passed else passed.map blankOut

theorem Region.next_pos (r : Region) (c : Char) (cs : List Char) : 0 < (r.next c cs).2 := by
  unfold next
  repeat' split
  all_goals simp only [Bracket.length]
  all_goals omega

theorem take_ofLevel (bracket : Char) (n : Nat) (rest : List Char) :
    (ofLevel bracket n ++ rest).take (Bracket.length n) = ofLevel bracket n :=
  List.take_left' (by simp)

theorem drop_ofLevel (bracket : Char) (n : Nat) (rest : List Char) :
    (ofLevel bracket n ++ rest).drop (Bracket.length n) = rest :=
  List.drop_left' (by simp)

/-! In code there are four kinds of steps. -/

theorem Region.next_code_block (n : Nat) (rest : List Char) :
    Region.code.next '-' ('-' :: (opener n ++ rest)) = (.long n, 2 + Bracket.length n) := by
  have hopen : Bracket.openLevel? (opener n ++ rest) = some n :=
    (Bracket.openLevel?_eq_some_iff n _).2 (List.prefix_append _ _)
  simp [next, hopen]

theorem Region.next_code_line {rest : List Char} (h : ∀ n, ¬ opener n <+: rest) :
    Region.code.next '-' ('-' :: rest) = (.lineComment, 2) := by
  simp [next, (Bracket.openLevel?_eq_none_iff rest).2 h]

theorem Region.next_code_long {n : Nat} {c : Char} {cs rest : List Char}
    (h : c :: cs = opener n ++ rest) : Region.code.next c cs = (.long n, Bracket.length n) := by
  have hopen : Bracket.openLevel? (c :: cs) = some n :=
    (Bracket.openLevel?_eq_some_iff n _).2 ⟨rest, h.symm⟩
  have hc : c = '[' := (List.cons.inj h).1
  have hdash : ¬ ['-', '-'] <+: c :: cs := by simp [hc]
  simp only [next, if_neg hdash, hopen]

theorem Region.next_code_cons {c : Char} {cs : List Char} (hdash : ¬ ['-', '-'] <+: c :: cs)
    (hopen : ∀ n, ¬ opener n <+: c :: cs) :
    Region.code.next c cs = (if c = '\'' ∨ c = '"' then .quoted c else .code, 1) := by
  simp only [next, if_neg hdash, (Bracket.openLevel?_eq_none_iff _).2 hopen]

/-- One step in code. -/
theorem maskFrom_code_next (c : Char) (cs : List Char) :
    maskFrom .code (c :: cs) = Region.code.left c cs ++
      maskFrom (Region.code.next c cs).1 ((c :: cs).drop (Region.code.next c cs).2) := by
  by_cases hdash : ['-', '-'] <+: c :: cs
  · obtain ⟨rest, hrest⟩ := hdash
    obtain ⟨rfl, rfl⟩ : '-' = c ∧ '-' :: rest = cs := List.cons.inj hrest
    by_cases hblock : ∃ n, opener n <+: rest
    · obtain ⟨n, tail, rfl⟩ := hblock
      rw [maskFrom_code_block, Region.left, Region.next_code_block, Nat.add_comm 2]
      simp only [List.take_succ_cons, List.drop_succ_cons]
      rw [opener, take_ofLevel, drop_ofLevel, ← opener]
      simp [blankOut]
    · have hline : ∀ n, ¬ opener n <+: rest := fun n hn => hblock ⟨n, hn⟩
      rw [maskFrom_code_line hline, Region.left, Region.next_code_line hline]
      simp [blankOut]
  · by_cases hlong : ∃ n, opener n <+: c :: cs
    · obtain ⟨n, tail, htail⟩ := hlong
      rw [Region.left, Region.next_code_long htail.symm, ← htail, maskFrom_code_long]
      rw [opener, take_ofLevel, drop_ofLevel, ← opener]
      simp
    · have hopen : ∀ n, ¬ opener n <+: c :: cs := fun n hn => hlong ⟨n, hn⟩
      rw [maskFrom_code_cons hdash hopen, Region.left, Region.next_code_cons hdash hopen]
      split
      next hquote =>
        have hblank : blankOut c = ' ' := by rcases hquote with rfl | rfl <;> decide
        simp [hblank]
      next hquote => simp

/-- **One step.**  Masking leaves what the step leaves, and goes on where the step ends. -/
theorem maskFrom_next (r : Region) (c : Char) (cs : List Char) :
    maskFrom r (c :: cs) =
      r.left c cs ++ maskFrom (r.next c cs).1 ((c :: cs).drop (r.next c cs).2) := by
  cases r with
  | code => exact maskFrom_code_next c cs
  | lineComment =>
    by_cases hc : c = '\n'
    · rw [maskFrom, if_pos (by simpa using hc)]
      simp [Region.left, Region.next, hc, blankOut]
    · rw [maskFrom_lineComment_cons hc]
      simp [Region.left, Region.next, hc]
  | long n =>
    by_cases hclose : Bracket.closeLevel? (c :: cs) = some n
    · obtain ⟨rest, hrest⟩ := (Bracket.closeLevel?_eq_some_iff n _).1 hclose
      simp only [Region.left, Region.next, if_pos hclose]
      rw [← hrest, maskFrom_long_closer, closer, take_ofLevel, drop_ofLevel, ← closer]
      simp
    · rw [maskFrom_long_cons (mt (Bracket.closeLevel?_eq_some_iff n _).2 hclose)]
      simp [Region.left, Region.next, if_neg hclose]
  | quoted q =>
    by_cases hescape : c = '\\' ∧ cs ≠ []
    · obtain ⟨rfl, hcs⟩ := hescape
      obtain ⟨e, cs, rfl⟩ := List.exists_cons_of_ne_nil hcs
      rw [maskFrom_quoted_escape]
      simp [Region.left, Region.next, blankOut]
    · have hlone : c = '\\' → cs = [] := fun hc =>
        Classical.byContradiction fun hcs => hescape ⟨hc, hcs⟩
      rw [maskFrom_quoted_cons hlone]
      simp [Region.left, Region.next, if_neg hescape]

/-! ### Offsets -/

/-- The region in which a reader that starts in `r` stands at an offset of a text; none when a step
    passes over the offset, or the text ends before it. -/
def regionFrom (r : Region) (t : List Char) (offset : Nat) : Option Region :=
  if offset = 0 then some r
  else match t with
    | [] => none
    | c :: cs =>
      if (r.next c cs).2 ≤ offset then
        regionFrom (r.next c cs).1 ((c :: cs).drop (r.next c cs).2) (offset - (r.next c cs).2)
      else none
  termination_by offset
  decreasing_by
    have := r.next_pos c cs
    omega

/-- The region in which the reader of a text stands at an offset. -/
def regionAt (t : List Char) (offset : Nat) : Option Region := regionFrom .code t offset

/-! ### What is decided before a text -/

/-- No long bracket of this kind runs through `o`: a bracket is made of its two ends and equals
    signs between them, and `o` holds something else, or both ends. -/
def Stops (bracket : Char) (o : List Char) : Prop :=
  (∃ c ∈ o, c ≠ bracket ∧ c ≠ '=') ∨ 2 ≤ o.count bracket

/-- No long bracket, opening or closing, runs through `o`. -/
structure Decisive (o : List Char) : Prop where
  opening : Stops '[' o
  closing : Stops ']' o

theorem Stops.ne_nil {bracket : Char} {o : List Char} (h : Stops bracket o) : o ≠ [] := by
  rintro rfl
  rcases h with ⟨c, hc, -⟩ | h
  · cases hc
  · simp at h

/-- A bracket that starts before `o` ends before or in `o`. -/
theorem Stops.ofLevel_prefix_iff {bracket : Char} {o : List Char} (h : Stops bracket o)
    (hb : bracket ≠ '=') (n : Nat) (v x : List Char) :
    ofLevel bracket n <+: v ++ o ++ x ↔ ofLevel bracket n <+: v ++ o := by
  refine ⟨fun hlong => Classical.byContradiction fun hnot => ?_, fun hshort =>
    hshort.trans (List.prefix_append _ _)⟩
  -- Otherwise the bracket is longer, so that `o` lies before its last character.
  have hshorter : (v ++ o).length < (ofLevel bracket n).length := by
    refine Nat.lt_of_not_le fun hle => hnot ?_
    exact List.prefix_of_prefix_length_le hlong (List.prefix_append _ _) hle
  have hinner : v ++ o <+: bracket :: List.replicate n '=' := by
    have hwhole : v ++ o <+: ofLevel bracket n :=
      List.prefix_of_prefix_length_le (List.prefix_append _ _) hlong (Nat.le_of_lt hshorter)
    have hinit : bracket :: List.replicate n '=' <+: ofLevel bracket n := ⟨[bracket], rfl⟩
    refine List.prefix_of_prefix_length_le hwhole hinit ?_
    simp only [Bracket.length_ofLevel, Bracket.length] at hshorter
    simp only [List.length_cons, List.length_replicate]
    omega
  rcases h with ⟨c, hc, hne, hsign⟩ | hcount
  · have hmem : c ∈ bracket :: List.replicate n '=' :=
      hinner.subset (List.mem_append_right v hc)
    rcases List.mem_cons.1 hmem with h | h
    · exact hne h
    · exact hsign (List.eq_of_mem_replicate h)
  · have hle : (v ++ o).count bracket ≤ (bracket :: List.replicate n '=').count bracket :=
      hinner.sublist.count_le bracket
    have hone : (bracket :: List.replicate n '=').count bracket = 1 := by
      simp [List.count_replicate, Ne.symm hb]
    rw [List.count_append] at hle
    omega

section Decisive

variable {o : List Char} (ho : Decisive o) (v x : List Char)

include ho

theorem Decisive.openLevel?_eq :
    Bracket.openLevel? (v ++ o ++ x) = Bracket.openLevel? (v ++ o) := by
  apply Option.ext
  intro n
  rw [Bracket.openLevel?_eq_some_iff, Bracket.openLevel?_eq_some_iff]
  exact ho.opening.ofLevel_prefix_iff (by decide) n v x

theorem Decisive.closeLevel?_eq :
    Bracket.closeLevel? (v ++ o ++ x) = Bracket.closeLevel? (v ++ o) := by
  apply Option.ext
  intro n
  rw [Bracket.closeLevel?_eq_some_iff, Bracket.closeLevel?_eq_some_iff]
  exact ho.closing.ofLevel_prefix_iff (by decide) n v x

theorem Decisive.dashes_iff (c : Char) :
    ['-', '-'] <+: c :: (v ++ o ++ x) ↔ ['-', '-'] <+: c :: (v ++ o) := by
  have hne : v ++ o ≠ [] := by simp [ho.opening.ne_nil]
  obtain ⟨d, w, hw⟩ := List.exists_cons_of_ne_nil hne
  simp [hw]

end Decisive

/-- **Stability of a step.**  A step that ends before a decisive text is the same whatever follows
    that text. -/
theorem Region.next_append {r : Region} {c : Char} {v o : List Char} (ho : Decisive o)
    (hends : (r.next c (v ++ o)).2 ≤ v.length + 1) (x : List Char) :
    r.next c (v ++ o ++ x) = r.next c (v ++ o) := by
  cases r with
  | lineComment => rfl
  | long n =>
    have hclose := ho.closeLevel?_eq (c :: v) x
    simp only [List.cons_append] at hclose
    simp only [next, hclose]
  | quoted q =>
    -- A character follows `c` in both texts, so that a backslash is an escape in both.
    simp [next, ho.opening.ne_nil]
  | code =>
    by_cases hdash : ['-', '-'] <+: c :: (v ++ o)
    · have hdash' := (ho.dashes_iff v x c).2 hdash
      simp only [next, if_pos hdash] at hends
      simp only [next, if_pos hdash, if_pos hdash']
      -- The step passes two dashes or more, so the second one stands before `o`.
      cases v with
      | nil =>
        exfalso
        split at hends <;> simp only [Bracket.length, List.length_nil] at hends <;> omega
      | cons d v =>
        simp only [List.cons_append, List.drop_succ_cons, List.drop_zero, ho.openLevel?_eq v x]
    · have hdash' := mt (ho.dashes_iff v x c).1 hdash
      have hopen := ho.openLevel?_eq (c :: v) x
      simp only [List.cons_append] at hopen
      simp only [next, if_neg hdash, if_neg hdash', hopen]

theorem Region.left_append {r : Region} {c : Char} {v o : List Char} (ho : Decisive o)
    (hends : (r.next c (v ++ o)).2 ≤ v.length + 1) (x : List Char) :
    r.left c (v ++ o ++ x) = r.left c (v ++ o) := by
  have hpassed : (c :: (v ++ o ++ x)).take (r.next c (v ++ o)).2 =
      (c :: (v ++ o)).take (r.next c (v ++ o)).2 := by
    rw [← List.cons_append, List.take_append_of_le_length]
    simp only [List.length_cons, List.length_append]
    omega
  rw [left, left, next_append ho hends x, hpassed]

/-- **Stability of a run.**  What is masked before a decisive text, at whose start the reader
    stands, is the same whatever follows that text. -/
theorem exists_masked_before {o : List Char} (ho : Decisive o) {r r' : Region} {a : List Char}
    (h : regionFrom r (a ++ o) a.length = some r') :
    ∃ masked, ∀ x, maskFrom r (a ++ o ++ x) = masked ++ maskFrom r' (o ++ x) := by
  -- A step passes one character or more, so the induction is on the length of `a`.
  induction hn : a.length using Nat.strongRecOn generalizing r a with
  | ind n ih =>
    cases a with
    | nil =>
      rw [regionFrom.eq_def, if_pos List.length_nil] at h
      obtain rfl := Option.some.inj h
      exact ⟨[], fun x => rfl⟩
    | cons c v =>
      rw [regionFrom.eq_def, if_neg (by simp)] at h
      simp only [List.cons_append] at h
      split at h
      next hends =>
        rw [List.length_cons] at hends
        have hpos := r.next_pos c (v ++ o)
        have hdrop : ∀ x, (c :: (v ++ o ++ x)).drop (r.next c (v ++ o)).2 =
            (c :: v).drop (r.next c (v ++ o)).2 ++ o ++ x := by
          intro x
          rw [List.append_assoc v, ← List.cons_append, List.append_assoc,
            List.drop_append_of_le_length (by simpa using hends)]
        have hrest := hdrop []
        rw [List.append_nil, List.append_nil] at hrest
        rw [hrest, ← List.length_drop] at h
        obtain ⟨masked, hmasked⟩ :=
          ih ((c :: v).drop (r.next c (v ++ o)).2).length (by simp at hn ⊢; omega) h rfl
        refine ⟨r.left c (v ++ o) ++ masked, fun x => ?_⟩
        rw [List.cons_append, List.cons_append, maskFrom_next, Region.left_append ho hends,
          Region.next_append ho hends, hdrop, hmasked, List.append_assoc]
      next => cases h

end LuaAudit.Lua
