import LuaAudit.Json.Reader
import LuaAudit.Proofs.OrderedMap
import Mathlib.Algebra.Ring.Nat

/-!
# Values as they are read

What a reader makes of a text: numbers in the range of their formats, and objects that have each key
once, at every depth.  Each token holds such a value, unless it is a ragged text, and the reader
builds such values from them.

* `Token.scan`: the tokens of a text, `Reader.takeAll`: what a reader makes of tokens, and
  `read_eq_ok_iff`: what is read is what is made of the tokens;
* `Real.Rounded` and `Json.Storable` are the numbers and values in question;
* `Json.Within n` are the values whose lists and objects are nested at most `n` deep, and
  `Json.StorableWithin n` those among them that are storable;
* `Reader.Builds.step`: what holds of the values of tokens and is kept by lists and objects, holds
  of the values in a reader after one token more, and `builds_of_read`: of the value of a text;
* `storable_of_read`: so it is storable, if no token is ragged, and `within_of_read`: nested no
  deeper than the limit.
-/

namespace LuaAudit.Number

/-- A number that was rounded to the format, an infinity, or no number. -/
inductive Real.Rounded : Real → Prop where
  | ofDecimal (negative : Bool) (digits : Nat) (exponent : Int) :
    Rounded (.ofDecimal negative digits exponent)
  | infinite (negative : Bool) : Rounded (.infinite negative)
  | nan : Rounded .nan

end LuaAudit.Number

namespace LuaAudit.Json

/-! ### Tokens one after the other -/

/-- The tokens of a text. -/
def Token.scan (cs : List Char) : Option (List Token) :=
  match cs with
  | [] => some []
  | c :: rest =>
    if isSpace c then Token.scan rest
    else match h : Token.read? (c :: rest) with
      | none => none
      | some (token, tail) =>
        have : tail.length < rest.length + 1 := Token.read?_length h
        (Token.scan tail).map (token :: ·)
  termination_by cs.length

/-- What a reader makes of some tokens. -/
def Reader.takeAll (limit : Nat) : Reader → List Token → Except ReadFault (Option Reader)
  | r, [] => .ok (some r)
  | r, t :: ts =>
    match r.take limit t with
    | .ok (some next) => next.takeAll limit ts
    | .ok none => .ok none
    | .error fault => .error fault

section Tokens

variable {limit : Nat} {r r' : Reader} {t : Token} {ts : List Token} {cs : List Char} {v : Json}

theorem Reader.takeAll_cons_eq_ok_iff : r.takeAll limit (t :: ts) = .ok (some r') ↔
    ∃ next, r.take limit t = .ok (some next) ∧ next.takeAll limit ts = .ok (some r') := by
  rw [takeAll]
  rcases r.take limit t with _ | _ | next <;> simp

theorem Reader.takeAll_append {us : List Token} (h : r.takeAll limit ts = .ok (some r')) :
    r.takeAll limit (ts ++ us) = r'.takeAll limit us := by
  induction ts generalizing r with
  | nil =>
    obtain rfl := Option.some.inj (Except.ok.inj h)
    rfl
  | cons t ts ih =>
    obtain ⟨next, hnext, hrest⟩ := takeAll_cons_eq_ok_iff.1 h
    rw [List.cons_append, takeAll, hnext]
    exact ih hrest

/-- A token is taken if the reader takes it and no more frames are open than may be. -/
theorem Reader.take_eq_ok_iff : r.take limit t = .ok (some r') ↔
    r.step t = some r' ∧ r'.stack.length ≤ limit := by
  unfold take
  split
  next hstep => simp [hstep]
  next next hstep =>
    rw [hstep, Option.some.injEq]
    split
    next hlimit =>
      rw [Except.ok.injEq, Option.some.injEq]
      exact ⟨fun h => ⟨h, h ▸ hlimit⟩, fun h => h.1⟩
    next hlimit => exact ⟨nofun, fun h => absurd (h.1 ▸ h.2) hlimit⟩

theorem Token.scan_space {c : Char} (h : isSpace c) (rest : List Char) :
    Token.scan (c :: rest) = Token.scan rest := by
  rw [Token.scan, if_pos h]

theorem Token.scan_of_read? {c : Char} {rest tail : List Char} (hspace : isSpace c = false)
    (h : Token.read? (c :: rest) = some (t, tail)) :
    Token.scan (c :: rest) = (Token.scan tail).map (t :: ·) := by
  rw [Token.scan, if_neg (by rw [hspace]; exact Bool.false_ne_true)]
  split
  next hnone => cases h.symm.trans hnone
  next token tail' hsome =>
    obtain ⟨rfl, rfl⟩ := Prod.mk.inj (Option.some.inj (h.symm.trans hsome))
    rfl

/-- A text that is cut into tokens gives what is made of them. -/
theorem Reader.run_of_scan (h : Token.scan cs = some ts) :
    r.run limit cs = (r.takeAll limit ts).map fun r' => r'.bind Reader.value? := by
  fun_induction Token.scan cs generalizing r ts with
  | case1 =>
    obtain rfl := Option.some.inj h
    rw [Reader.run]
    rfl
  | case2 c rest hspace ih =>
    rw [Reader.run, if_pos hspace]
    exact ih h
  | case3 => cases h
  | case4 c rest hspace token tail hread _ ih =>
    obtain ⟨us, hus, rfl⟩ := Option.map_eq_some_iff.1 h
    rw [Reader.run, if_neg hspace, takeAll]
    split
    next hnone => cases hread.symm.trans hnone
    next token' tail' hsome =>
      obtain ⟨rfl, rfl⟩ := Prod.mk.inj (Option.some.inj (hread.symm.trans hsome))
      rcases r.take limit token with fault | _ | next
      · rfl
      · rfl
      · exact ih hus

/-- A text that is read is cut into tokens. -/
theorem Reader.exists_scan (h : r.run limit cs = .ok (some v)) : ∃ ts, Token.scan cs = some ts := by
  fun_induction Token.scan cs generalizing r with
  | case1 => exact ⟨[], rfl⟩
  | case2 c rest hspace ih =>
    rw [Reader.run, if_pos hspace] at h
    exact ih h
  | case3 c rest hspace hread =>
    rw [Reader.run, if_neg hspace] at h
    split at h
    next =>
      unfold Reader.refuse at h
      split at h <;> cases h
    next hsome => cases hread.symm.trans hsome
  | case4 c rest hspace token tail hread _ ih =>
    rw [Reader.run, if_neg hspace] at h
    split at h
    next hnone => cases hread.symm.trans hnone
    next token' tail' hsome =>
      obtain ⟨rfl, rfl⟩ := Prod.mk.inj (Option.some.inj (hread.symm.trans hsome))
      dsimp only at h
      split at h
      next next _ =>
        obtain ⟨ts, hts⟩ := ih h
        exact ⟨token :: ts, by rw [hts]; rfl⟩
      · cases h
      · cases h

/-- **What is read** is what a reader makes of the tokens. -/
theorem Reader.run_eq_ok_iff : r.run limit cs = .ok (some v) ↔
    ∃ ts r', Token.scan cs = some ts ∧ r.takeAll limit ts = .ok (some r') ∧ r'.value? = some v := by
  constructor
  · intro h
    obtain ⟨ts, hts⟩ := exists_scan h
    rw [run_of_scan hts] at h
    rcases htake : r.takeAll limit ts with fault | _ | r'
    · rw [htake] at h
      cases h
    · rw [htake] at h
      cases h
    · rw [htake] at h
      exact ⟨ts, r', hts, htake, Except.ok.inj h⟩
  · rintro ⟨ts, r', hts, htake, hvalue⟩
    rw [run_of_scan hts, htake]
    exact congrArg Except.ok hvalue

theorem read_eq_ok_iff {limit : Depth} {s : String} : read limit s = .ok (some v) ↔
    ∃ ts r', Token.scan s.toList = some ts ∧
      Reader.takeAll limit.levels ⟨[], .value⟩ ts = .ok (some r') ∧ r'.value? = some v :=
  Reader.run_eq_ok_iff

theorem Reader.take_mono {limit' : Nat} {t : Token} {result : Option Reader} (hle : limit ≤ limit')
    (h : r.take limit t = .ok result) : r.take limit' t = .ok result := by
  unfold Reader.take at h ⊢
  split at h
  · exact h
  · split at h
    next hfits =>
      rw [if_pos (Nat.le_trans hfits hle)]
      exact h
    · cases h

/-- What a text gives within a limit, it gives within a higher one. -/
theorem Reader.run_mono {limit' : Nat} {result : Option Json} (hle : limit ≤ limit')
    (h : r.run limit cs = .ok result) : r.run limit' cs = .ok result := by
  fun_induction Reader.run limit r cs with
  | case1 => rwa [Reader.run]
  | case2 r c rest hspace ih =>
    rw [Reader.run, if_pos hspace]
    exact ih h
  | case3 r c rest hspace hread =>
    rw [Reader.run, if_neg hspace]
    split
    · exact h
    next hsome => cases hread.symm.trans hsome
  | case4 r c rest hspace token tail hread _ next htake ih =>
    rw [Reader.run, if_neg hspace]
    split
    next hnone => cases hread.symm.trans hnone
    next hsome =>
      obtain ⟨rfl, rfl⟩ := Prod.mk.inj (Option.some.inj (hread.symm.trans hsome))
      rw [take_mono hle htake]
      exact ih h
  | case5 r c rest hspace token tail hread _ htake =>
    rw [Reader.run, if_neg hspace]
    split
    next hnone => cases hread.symm.trans hnone
    next hsome =>
      obtain ⟨rfl, rfl⟩ := Prod.mk.inj (Option.some.inj (hread.symm.trans hsome))
      rw [take_mono hle htake]
      exact h
  | case6 => cases h

theorem read_mono {limit limit' : Depth} {s : String} {result : Option Json}
    (hle : limit.levels ≤ limit'.levels) (h : read limit s = .ok result) :
    read limit' s = .ok result :=
  Reader.run_mono hle h

end Tokens

/-! ### What is read -/

/-- The values that a reader gives of texts that are not ragged: whole numbers are not too long,
    other numbers are rounded, and no object has a key twice. -/
inductive Storable : Json → Prop where
  | null : Storable .null
  | bool (b : Bool) : Storable (.bool b)
  | int {n : Int} (hdigits : Number.digitCount n.natAbs ≤ Number.maxDigits) : Storable (.int n)
  | real {x : Number.Real} (hrounded : x.Rounded) : Storable (.real x)
  | str (s : String) : Storable (.str s)
  | arr {items : List Json} (h : ∀ v ∈ items, Storable v) : Storable (.arr items)
  | obj {fields : List (String × Json)} (hkeys : (fields.map Prod.fst).Nodup)
      (h : ∀ f ∈ fields, Storable f.2) : Storable (.obj fields)

theorem storable_arr_iff {items : List Json} : Storable (.arr items) ↔ ∀ v ∈ items, Storable v := by
  constructor
  · rintro (_ | _)
    assumption
  · exact .arr

theorem storable_obj_iff {fields : List (String × Json)} :
    Storable (.obj fields) ↔ (fields.map Prod.fst).Nodup ∧ ∀ f ∈ fields, Storable f.2 := by
  constructor
  · rintro ⟨⟩
    exact ⟨‹_›, ‹_›⟩
  · exact fun h => .obj h.1 h.2

/-- A value whose lists and objects are nested at most so deep. -/
inductive Within : Nat → Json → Prop where
  | leaf {n : Nat} {v : Json} (harr : ∀ items, v ≠ .arr items) (hobj : ∀ fields, v ≠ .obj fields) :
    Within n v
  | arr {n : Nat} {items : List Json} (h : ∀ v ∈ items, Within n v) : Within (n + 1) (.arr items)
  | obj {n : Nat} {fields : List (String × Json)} (h : ∀ f ∈ fields, Within n f.2) :
    Within (n + 1) (.obj fields)

theorem Within.mono {m n : Nat} {v : Json} (h : Within m v) (hmn : m ≤ n) : Within n v := by
  induction h generalizing n with
  | leaf harr hobj => exact .leaf harr hobj
  | @arr m items _ ih =>
    obtain ⟨k, rfl⟩ : ∃ k, n = k + 1 := ⟨n - 1, by omega⟩
    exact .arr fun v hv => ih v hv (by omega)
  | @obj m fields _ ih =>
    obtain ⟨k, rfl⟩ : ∃ k, n = k + 1 := ⟨n - 1, by omega⟩
    exact .obj fun f hf => ih f hf (by omega)

/-- A value that can be stored and is nested at most so deep. -/
structure StorableWithin (n : Nat) (v : Json) : Prop where
  storable : Storable v
  within : Within n v

namespace StorableWithin

theorem null (n : Nat) : StorableWithin n .null := ⟨.null, .leaf nofun nofun⟩

theorem bool (n : Nat) (b : Bool) : StorableWithin n (.bool b) := ⟨.bool b, .leaf nofun nofun⟩

theorem str (n : Nat) (s : String) : StorableWithin n (.str s) := ⟨.str s, .leaf nofun nofun⟩

theorem arr_iff {n : Nat} {items : List Json} :
    StorableWithin (n + 1) (.arr items) ↔ ∀ v ∈ items, StorableWithin n v := by
  constructor
  · intro ⟨hstorable, hwithin⟩ v hv
    cases hwithin with
    | leaf harr => exact absurd rfl (harr items)
    | arr hitems => exact ⟨storable_arr_iff.1 hstorable v hv, hitems v hv⟩
  · intro h
    exact ⟨.arr fun v hv => (h v hv).storable, .arr fun v hv => (h v hv).within⟩

theorem obj_iff {n : Nat} {fields : List (String × Json)} : StorableWithin (n + 1) (.obj fields) ↔
    (fields.map Prod.fst).Nodup ∧ ∀ f ∈ fields, StorableWithin n f.2 := by
  constructor
  · intro ⟨hstorable, hwithin⟩
    have hfields := storable_obj_iff.1 hstorable
    cases hwithin with
    | leaf _ hobj => exact absurd rfl (hobj fields)
    | obj hwithin => exact ⟨hfields.1, fun f hf => ⟨hfields.2 f hf, hwithin f hf⟩⟩
  · intro ⟨hkeys, h⟩
    exact ⟨.obj hkeys fun f hf => (h f hf).storable, .obj fun f hf => (h f hf).within⟩

theorem mono {m n : Nat} {v : Json} (h : StorableWithin m v) (hmn : m ≤ n) : StorableWithin n v :=
  ⟨h.storable, h.within.mono hmn⟩

end StorableWithin

/-! ### Numbers -/

/-- Digits write a number below the power of ten that they allow. -/
theorem digitsValue_lt {ds : List Char} (h : ∀ c ∈ ds, c.isDigit) :
    digitsValue ds < 10 ^ ds.length := by
  have hfold : ∀ n, ds.foldl (fun n d => 10 * n + (d.toNat - 48)) n < (n + 1) * 10 ^ ds.length := by
    induction ds with
    | nil => simp
    | cons d ds ih =>
      intro n
      have hdigit : d.toNat ≤ 57 :=
        of_decide_eq_true (Bool.and_eq_true_iff.1 (h d List.mem_cons_self)).2
      have hrest := ih (fun c hc => h c (List.mem_cons_of_mem d hc)) (10 * n + (d.toNat - 48))
      calc (d :: ds).foldl (fun n d => 10 * n + (d.toNat - 48)) n
          < (10 * n + (d.toNat - 48) + 1) * 10 ^ ds.length := hrest
        _ ≤ ((n + 1) * 10) * 10 ^ ds.length := Nat.mul_le_mul_right _ (by omega)
        _ = (n + 1) * 10 ^ (d :: ds).length := by
          rw [List.length_cons, Nat.pow_succ', Nat.mul_assoc]
  have := hfold 0
  rwa [Nat.zero_add, Nat.one_mul] at this

theorem isDigit_of_readWhole? {cs whole rest : List Char} (h : readWhole? cs = some (whole, rest)) :
    whole ≠ [] ∧ ∀ c ∈ whole, c.isDigit := by
  unfold readWhole? at h
  split at h
  · obtain ⟨rfl, -⟩ := Prod.mk.inj (Option.some.inj h)
    simp
  next c tail _ =>
    split at h
    next hdigit =>
      obtain ⟨rfl, -⟩ := Prod.mk.inj (Option.some.inj h)
      refine ⟨List.cons_ne_nil _ _, ?_⟩
      simp only [List.mem_cons, forall_eq_or_imp]
      exact ⟨hdigit, fun d hd => List.all_eq_true.1 List.all_takeWhile d hd⟩
    · cases h
  · cases h

theorem storable_of_readMagnitude? {negative : Bool} {cs rest : List Char} {v : Json}
    (h : readMagnitude? negative cs = some (v, rest)) : Storable v := by
  unfold readMagnitude? at h
  split at h
  · cases h
  next whole tail hwhole =>
    obtain ⟨hne, hdigits⟩ := isDigit_of_readWhole? hwhole
    dsimp only at h
    split at h
    next =>
      -- a whole number, which has at most as many digits as were read
      split at h
      · cases h
      next hlength =>
        obtain ⟨rfl, -⟩ := Prod.mk.inj (Option.some.inj h)
        refine .int (Nat.le_trans ?_ (Nat.le_of_not_lt hlength))
        have hpos : 0 < whole.length := List.length_pos_iff.2 hne
        refine (Nat.length_toDigits_le_iff (by decide) hpos).2 ?_
        have hvalue := digitsValue_lt hdigits
        cases negative <;> simpa using hvalue
    next =>
      obtain ⟨rfl, -⟩ := Prod.mk.inj (Option.some.inj h)
      exact .real (.ofDecimal _ _ _)
    next =>
      obtain ⟨rfl, -⟩ := Prod.mk.inj (Option.some.inj h)
      exact .real (.ofDecimal _ _ _)

theorem storable_of_mem_words {w : String × Json} (h : w ∈ words) : Storable w.2 := by
  simp only [words, List.mem_cons, List.not_mem_nil, or_false] at h
  rcases h with rfl | rfl | rfl | rfl | rfl | rfl
  · exact .null
  · exact .bool true
  · exact .bool false
  · exact .real .nan
  · exact .real (.infinite false)
  · exact .real (.infinite true)

/-- What is read is a word or a number. -/
theorem exists_of_readScalar? {cs rest : List Char} {v : Json}
    (h : readScalar? cs = some (v, rest)) :
    (∃ w ∈ words, w.2 = v) ∨
      ∃ negative digits, readMagnitude? negative digits = some (v, rest) := by
  unfold readScalar? at h
  split at h
  next found hfound =>
    obtain ⟨w, hmem, hw⟩ := List.exists_of_findSome?_eq_some hfound
    obtain ⟨tail, -, rfl⟩ := Option.map_eq_some_iff.1 hw
    exact .inl ⟨w, hmem, (Prod.mk.inj (Option.some.inj h)).1⟩
  next =>
    split at h
    · exact .inr ⟨_, _, h⟩
    · exact .inr ⟨_, _, h⟩

theorem storable_of_readScalar? {cs rest : List Char} {v : Json}
    (h : readScalar? cs = some (v, rest)) : Storable v := by
  rcases exists_of_readScalar? h with ⟨w, hmem, rfl⟩ | ⟨negative, digits, hread⟩
  · exact storable_of_mem_words hmem
  · exact storable_of_readMagnitude? hread

theorem leaf_of_mem_words {w : String × Json} (h : w ∈ words) :
    (∀ items, w.2 ≠ .arr items) ∧ ∀ fields, w.2 ≠ .obj fields := by
  simp only [words, List.mem_cons, List.not_mem_nil, or_false] at h
  rcases h with rfl | rfl | rfl | rfl | rfl | rfl <;> exact ⟨nofun, nofun⟩

theorem leaf_of_readMagnitude? {negative : Bool} {cs rest : List Char} {v : Json}
    (h : readMagnitude? negative cs = some (v, rest)) :
    (∀ items, v ≠ .arr items) ∧ ∀ fields, v ≠ .obj fields := by
  unfold readMagnitude? at h
  grind

theorem leaf_of_readScalar? {cs rest : List Char} {v : Json} (h : readScalar? cs = some (v, rest)) :
    (∀ items, v ≠ .arr items) ∧ ∀ fields, v ≠ .obj fields := by
  rcases exists_of_readScalar? h with ⟨w, hmem, rfl⟩ | ⟨negative, digits, hread⟩
  · exact leaf_of_mem_words hmem
  · exact leaf_of_readMagnitude? hread

/-! ### Tokens -/

/-- A token whose value, if it has one, has a property. -/
def Token.Holds (P : Json → Prop) (t : Token) : Prop := ∀ v, t = .atom v → P v

/-- A token that is no ragged text. -/
def Token.Paired (t : Token) : Prop := ∀ points, t ≠ .atom (.ragged points)

theorem ne_atom_of_punctuation? {c : Char} {t : Token} {v : Json} (h : punctuation? c = some t) :
    t ≠ .atom v := by
  rintro rfl
  unfold punctuation? at h
  split at h <;> cases h

/-- A value that is a token is a text, a word or a number. -/
theorem Token.exists_of_read? {cs tail : List Char} {v : Json}
    (h : Token.read? cs = some (.atom v, tail)) :
    (∃ points, v = .ofPoints points) ∨ ∃ rest, readScalar? cs = some (v, rest) := by
  unfold Token.read? at h
  split at h
  · cases h
  next c rest =>
    split at h
    next token htoken =>
      exact absurd (Prod.mk.inj (Option.some.inj h)).1 (ne_atom_of_punctuation? htoken)
    next =>
      split at h
      · obtain ⟨⟨points, rest'⟩, -, heq⟩ := Option.map_eq_some_iff.1 h
        exact .inl ⟨points, (Token.atom.inj (Prod.mk.inj heq).1).symm⟩
      · split at h
        next w rest' hread =>
          split at h
          · obtain ⟨heq, -⟩ := Prod.mk.inj (Option.some.inj h)
            exact .inr ⟨rest', Token.atom.inj heq ▸ hread⟩
          · cases h
        · cases h

/-- A token holds what can be stored, if it is no ragged text. -/
theorem Token.storable_of_read? {cs tail : List Char} {t : Token}
    (h : Token.read? cs = some (t, tail)) (hwhole : t.Paired) : t.Holds Storable := by
  rintro v rfl
  rcases exists_of_read? h with ⟨points, rfl⟩ | ⟨rest, hread⟩
  · unfold ofPoints at hwhole ⊢
    split
    · exact .str _
    next hragged => exact absurd (by rw [if_neg hragged]) (hwhole points)
  · exact storable_of_readScalar? hread

/-- A property that each token has, the tokens of a text have. -/
theorem Token.forall_of_scan {P : Token → Prop} {cs : List Char} {ts : List Token}
    (hP : ∀ cs t tail, Token.read? cs = some (t, tail) → P t) (h : Token.scan cs = some ts) :
    ∀ t ∈ ts, P t := by
  fun_induction Token.scan cs generalizing ts with
  | case1 =>
    obtain rfl := Option.some.inj h
    exact fun t ht => absurd ht List.not_mem_nil
  | case2 c rest _ ih => exact ih h
  | case3 => cases h
  | case4 c rest _ token tail hread _ ih =>
    obtain ⟨us, hus, rfl⟩ := Option.map_eq_some_iff.1 h
    exact List.forall_mem_cons.2 ⟨hP _ _ _ hread, ih hus⟩

/-! ### Objects -/

theorem mem_putEntry {k : String} {v : Json} {es : List (String × Json)} {e : String × Json}
    (h : e ∈ putEntry k v es) : e = (k, v) ∨ e ∈ es := by
  induction es with
  | nil => exact .inl (List.mem_singleton.1 h)
  | cons f es ih =>
    obtain ⟨k', v'⟩ := f
    rw [putEntry] at h
    split at h
    · rcases List.mem_cons.1 h with h | h
      · exact .inl h
      · exact .inr (List.mem_cons_of_mem _ h)
    · rcases List.mem_cons.1 h with h | h
      · exact .inr (h ▸ List.mem_cons_self)
      · exact (ih h).imp_right (List.mem_cons_of_mem _)

/-- A property of values, in some lists and objects that are open, that a list or an object has if
    its members have it in one more. -/
structure Kept (limit : Nat) (P : Nat → Json → Prop) : Prop where
  arr : ∀ k < limit, ∀ items : List Json, (∀ v ∈ items, P (k + 1) v) → P k (.arr items)
  object : ∀ k < limit, ∀ fields : List (String × Json), (∀ f ∈ fields, P (k + 1) f.2) →
    P k (object fields)

theorem nodup_keys_object (fields : List (String × Json)) {built : List (String × Json)}
    (h : object fields = .obj built) : (built.map Prod.fst).Nodup := by
  obtain rfl := Json.obj.inj h
  have hfold : ∀ es : List (String × Json), (es.map Prod.fst).Nodup →
      ((fields.foldl (fun es e => putEntry e.1 e.2 es) es).map Prod.fst).Nodup := by
    clear h
    induction fields with
    | nil => exact fun es hes => hes
    | cons f fields ih => exact fun es hes => ih _ (nodup_keys_putEntry f.1 f.2 es hes)
  exact hfold [] List.nodup_nil

theorem forall_mem_object {P : Json → Prop} {fields : List (String × Json)}
    (h : ∀ f ∈ fields, P f.2) {built : List (String × Json)} (hbuilt : object fields = .obj built) :
    ∀ f ∈ built, P f.2 := by
  obtain rfl := Json.obj.inj hbuilt
  have hfold : ∀ es : List (String × Json), (∀ f ∈ es, P f.2) →
      ∀ f ∈ fields.foldl (fun es e => putEntry e.1 e.2 es) es, P f.2 := by
    clear hbuilt
    induction fields with
    | nil => exact fun es hes => hes
    | cons f fields ih =>
      intro es hes
      refine ih (fun g hg => h g (List.mem_cons_of_mem f hg)) _ fun g hg => ?_
      rcases mem_putEntry hg with rfl | hg
      · exact h f List.mem_cons_self
      · exact hes g hg
  exact hfold [] fun f hf => absurd hf List.not_mem_nil

theorem kept_storable (limit : Nat) : Kept limit fun _ => Storable where
  arr _ _ _ h := .arr h
  object _ _ fields h := .obj (nodup_keys_object fields rfl) (forall_mem_object h rfl)

/-- A value that has each key once, if it is an object. -/
def Distinct (v : Json) : Prop := ∀ fields, v = .obj fields → (fields.map Prod.fst).Nodup

theorem kept_distinct (limit : Nat) : Kept limit fun _ => Distinct where
  arr _ _ _ _ := nofun
  object _ _ fields _ _ h := nodup_keys_object fields h

theorem kept_within (limit : Nat) : Kept limit fun k => Within (limit - k) where
  arr k hk items h := by
    obtain ⟨n, hn⟩ : ∃ n, limit - k = n + 1 := ⟨limit - (k + 1), by omega⟩
    rw [hn]
    exact .arr fun v hv => (h v hv).mono (by omega)
  object k hk fields h := by
    obtain ⟨n, hn⟩ : ∃ n, limit - k = n + 1 := ⟨limit - (k + 1), by omega⟩
    rw [hn]
    exact .obj fun f hf => (forall_mem_object h rfl f hf).mono (by omega)

/-! ### The reader -/

/-- A frame that has collected values with a property. -/
def Frame.Builds (P : Json → Prop) : Frame → Prop
  | .list done => ∀ v ∈ done, P v
  | .fields done => ∀ f ∈ done, P f.2
  | .keyed done _ => ∀ f ∈ done, P f.2

/-- Open frames that have collected values with a property, each for the number of frames around. -/
def Stacked (P : Nat → Json → Prop) : List Frame → Prop
  | [] => True
  | f :: rest => f.Builds (P (rest.length + 1)) ∧ Stacked P rest

/-- A reader all of whose frames hold values with a property, and its value when it has finished. -/
structure Reader.Builds (P : Nat → Json → Prop) (r : Reader) : Prop where
  stack : Stacked P r.stack
  value : ∀ v, r.expect = .finished v → P 0 v

section Step

variable {P : Nat → Json → Prop} {limit : Nat} {stack : List Frame} {t : Token} {r r' : Reader}
    {v : Json}

theorem Reader.builds_of_give (hv : P stack.length v) (hstack : Stacked P stack)
    (h : Reader.give v stack = some r') : r'.Builds P := by
  unfold Reader.give at h
  split at h
  · obtain rfl := Option.some.inj h
    exact ⟨hstack, fun w hw => by obtain rfl := Expect.finished.inj hw; exact hv⟩
  next done rest =>
    obtain rfl := Option.some.inj h
    exact ⟨⟨List.forall_mem_cons.2 ⟨hv, hstack.1⟩, hstack.2⟩, nofun⟩
  next done key rest =>
    obtain rfl := Option.some.inj h
    exact ⟨⟨List.forall_mem_cons.2 ⟨hv, hstack.1⟩, hstack.2⟩, nofun⟩
  · cases h

theorem Reader.builds_of_start (ht : t.Holds (P stack.length)) (hstack : Stacked P stack)
    (h : Reader.start stack t = some r') : r'.Builds P := by
  unfold Reader.start at h
  split at h
  next v => exact Reader.builds_of_give (ht v rfl) hstack h
  · obtain rfl := Option.some.inj h
    exact ⟨⟨fun v hv => absurd hv List.not_mem_nil, hstack⟩, nofun⟩
  · obtain rfl := Option.some.inj h
    exact ⟨⟨fun f hf => absurd hf List.not_mem_nil, hstack⟩, nofun⟩
  · cases h

theorem Reader.builds_of_takeKey (hstack : Stacked P stack)
    (h : Reader.takeKey stack t = some r') : r'.Builds P := by
  unfold Reader.takeKey at h
  split at h
  · obtain rfl := Option.some.inj h
    exact ⟨⟨hstack.1, hstack.2⟩, nofun⟩
  · cases h

theorem Reader.builds_of_close (hP : Kept limit P) (hlimit : stack.length ≤ limit)
    (hstack : Stacked P stack) (h : Reader.close stack t = some r') : r'.Builds P := by
  unfold Reader.close at h
  split at h
  · refine Reader.builds_of_give (hP.arr _ hlimit _ fun v hv => ?_) hstack.2 h
    exact hstack.1 v (List.mem_reverse.1 hv)
  · refine Reader.builds_of_give (hP.object _ hlimit _ fun f hf => ?_) hstack.2 h
    exact hstack.1 f (List.mem_reverse.1 hf)
  · cases h

/-- One token more. -/
theorem Reader.Builds.step (hP : Kept limit P) (hlimit : r.stack.length ≤ limit) (hr : r.Builds P)
    (ht : ∀ k, t.Holds (P k)) (h : r.step t = some r') : r'.Builds P := by
  unfold Reader.step at h
  split at h
  · exact Reader.builds_of_start (ht _) hr.stack h
  · exact Reader.builds_of_close hP hlimit hr.stack h
  · exact Reader.builds_of_start (ht _) hr.stack h
  · exact Reader.builds_of_takeKey hr.stack h
  · exact Reader.builds_of_close hP hlimit hr.stack h
  · exact Reader.builds_of_takeKey hr.stack h
  · obtain rfl := Option.some.inj h
    exact ⟨hr.stack, nofun⟩
  · split at h
    · obtain rfl := Option.some.inj h
      exact ⟨hr.stack, nofun⟩
    · obtain rfl := Option.some.inj h
      exact ⟨hr.stack, nofun⟩
    · cases h
  · exact Reader.builds_of_close hP hlimit hr.stack h
  · cases h

theorem Reader.Builds.takeAll {ts : List Token} (hP : Kept limit P)
    (hlimit : r.stack.length ≤ limit) (hr : r.Builds P) (hts : ∀ t ∈ ts, ∀ k, t.Holds (P k))
    (h : r.takeAll limit ts = .ok (some r')) : r'.Builds P := by
  induction ts generalizing r with
  | nil =>
    obtain rfl := Option.some.inj (Except.ok.inj h)
    exact hr
  | cons t ts ih =>
    obtain ⟨ht, hts⟩ := List.forall_mem_cons.1 hts
    obtain ⟨next, hnext, hrest⟩ := Reader.takeAll_cons_eq_ok_iff.1 h
    obtain ⟨hstep, hnext⟩ := Reader.take_eq_ok_iff.1 hnext
    exact ih hnext (hr.step hP hlimit ht hstep) hts hrest

end Step

section Read

variable {limit : Depth} {s : String} {v : Json}

/-- **What is read** has every property that its tokens have and that is kept. -/
theorem builds_of_read {P : Nat → Json → Prop} (hP : Kept limit.levels P)
    (htokens : ∀ ts, Token.scan s.toList = some ts → ∀ t ∈ ts, ∀ k, t.Holds (P k))
    (h : read limit s = .ok (some v)) : P 0 v := by
  obtain ⟨ts, r', hscan, htake, hvalue⟩ := read_eq_ok_iff.1 h
  have hstart : Reader.Builds P ⟨[], .value⟩ := ⟨trivial, nofun⟩
  refine (hstart.takeAll hP (Nat.zero_le _) (htokens ts hscan) htake).value v ?_
  unfold Reader.value? at hvalue
  split at hvalue
  next heq => rw [heq, Option.some.inj hvalue]
  · cases hvalue

/-- A text that spells no surrogate without its other half: none of its tokens is ragged. -/
def Paired (s : String) : Prop := ∀ ts, Token.scan s.toList = some ts → ∀ t ∈ ts, t.Paired

/-- **What is read can be stored**, if the text is paired. -/
theorem storable_of_read (hpaired : Paired s) (h : read limit s = .ok (some v)) : Storable v :=
  builds_of_read (kept_storable _) (fun ts hscan t ht _ =>
    Token.forall_of_scan (fun _ _ _ => Token.storable_of_read?) hscan t ht
      (hpaired ts hscan t ht)) h

/-- No token is a list or an object. -/
theorem Token.leaf_of_read? {cs tail : List Char} (h : Token.read? cs = some (.atom v, tail)) :
    (∀ items, v ≠ .arr items) ∧ ∀ fields, v ≠ .obj fields := by
  rcases Token.exists_of_read? h with ⟨points, rfl⟩ | ⟨rest, hscalar⟩
  · unfold ofPoints
    split <;> exact ⟨nofun, nofun⟩
  · exact leaf_of_readScalar? hscalar

/-- What is read is nested no deeper than the limit. -/
theorem within_of_read (h : read limit s = .ok (some v)) : Within limit.levels v := by
  refine builds_of_read (kept_within _) (fun ts hscan t ht k => ?_) h
  refine Token.forall_of_scan (fun cs t tail hread => ?_) hscan t ht
  rintro v rfl
  exact .leaf (Token.leaf_of_read? hread).1 (Token.leaf_of_read? hread).2

/-- An object that is read has each key once. -/
theorem nodup_keys_of_read {fields : List (String × Json)}
    (h : read limit s = .ok (some (.obj fields))) : (fields.map Prod.fst).Nodup := by
  refine builds_of_read (kept_distinct _) (fun ts hscan t ht _ => ?_) h fields rfl
  refine Token.forall_of_scan (fun cs t tail hread => ?_) hscan t ht
  rintro v rfl built rfl
  exact absurd rfl ((Token.leaf_of_read? hread).2 built)

end Read

end LuaAudit.Json
