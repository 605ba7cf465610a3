import LuaAudit.Json.Writer
import LuaAudit.Proofs.Json.Read
import LuaAudit.Proofs.Number.Shortest

/-!
# Numbers written and read back

A number is read back from what is written of it, as long as what follows does not continue it.

* `Ends` are the texts that may follow a number;
* `readWhole?_append`, `readFraction_append`, `readExponent?_append`: the parts of a number;
* `digitsValue_decimal`, `digitsValue_append_zeros`, `digitsValue_zeros_append`: what digits stand
  for;
* `Spells`: a text that is read as a given decimal, `spells_magnitude`: as a number is written;
* `readScalar?_toString`, `readScalar?_renderReal`: numbers are read back.
-/

namespace LuaAudit.Json

open Number (decimal zeros decimalValue positional scientific magnitude)

/-! ### Where numbers end -/

/-- A character that no number goes on with. -/
def endsNumber (c : Char) : Bool := !c.isDigit && c != '.' && c != 'e' && c != 'E'

/-- A text that does not continue a number before it. -/
def Ends (rest : List Char) : Prop := ∀ c ∈ rest.head?, endsNumber c

/-- A text that starts with no digit. -/
def NoDigit (rest : List Char) : Prop := ∀ c ∈ rest.head?, c.isDigit = false

theorem noDigit_cons {c : Char} (h : c.isDigit = false) (rest : List Char) :
    NoDigit (c :: rest) := by
  intro d hd
  obtain rfl := Option.some.inj hd
  exact h

theorem Ends.noDigit {rest : List Char} (h : Ends rest) : NoDigit rest := by
  intro c hc
  have := h c hc
  simp only [endsNumber, Bool.and_eq_true, Bool.not_eq_true'] at this
  exact this.1.1.1

section Digits

variable {ds rest : List Char}

theorem takeWhile_isDigit (hds : ∀ c ∈ ds, c.isDigit) (hrest : NoDigit rest) :
    (ds ++ rest).takeWhile Char.isDigit = ds := by
  rw [List.takeWhile_append_of_pos hds]
  cases rest with
  | nil => simp
  | cons c rest => rw [List.takeWhile_cons_of_neg (by simp [hrest c rfl]), List.append_nil]

theorem dropWhile_isDigit (hds : ∀ c ∈ ds, c.isDigit) (hrest : NoDigit rest) :
    (ds ++ rest).dropWhile Char.isDigit = rest := by
  rw [List.dropWhile_append_of_pos hds]
  cases rest with
  | nil => rfl
  | cons c rest => rw [List.dropWhile_cons_of_neg (by simp [hrest c rfl])]

/-! ### The parts of a number -/

/-- Digits of a whole number: there are some, and a zero stands alone or not at the start. -/
structure IsWhole (ds : List Char) : Prop where
  digits : ∀ c ∈ ds, c.isDigit
  lead : ds = ['0'] ∨ ∃ c tail, ds = c :: tail ∧ c ≠ '0'

theorem readWhole?_append (hds : IsWhole ds) (hrest : NoDigit rest) :
    readWhole? (ds ++ rest) = some (ds, rest) := by
  rcases hds.lead with rfl | ⟨c, tail, rfl, hc⟩
  · rfl
  · obtain ⟨hdigit, htail⟩ := List.forall_mem_cons.1 hds.digits
    rw [List.cons_append, readWhole?]
    · rw [if_pos hdigit, takeWhile_isDigit htail hrest, dropWhile_isDigit htail hrest]
    · exact fun h => absurd h hc

theorem readFraction_append (hds : ∀ c ∈ ds, c.isDigit) (hne : ds ≠ []) (hrest : NoDigit rest) :
    readFraction ('.' :: ds ++ rest) = (ds, rest) := by
  obtain ⟨c, tail, rfl⟩ := List.exists_cons_of_ne_nil hne
  obtain ⟨hdigit, htail⟩ := List.forall_mem_cons.1 hds
  rw [List.cons_append, List.cons_append, readFraction, if_pos hdigit,
    takeWhile_isDigit htail hrest, dropWhile_isDigit htail hrest]

/-- Without a point there is no fraction. -/
theorem readFraction_of_ne (h : ∀ c ∈ rest.head?, c ≠ '.') : readFraction rest = ([], rest) := by
  unfold readFraction
  split
  next => exact absurd rfl (h '.' rfl)
  next => rfl

theorem readDigits?_append (hds : ∀ c ∈ ds, c.isDigit) (hne : ds ≠ []) (hrest : NoDigit rest) :
    readDigits? (ds ++ rest) = some (digitsValue ds, rest) := by
  unfold readDigits?
  rw [takeWhile_isDigit hds hrest, dropWhile_isDigit hds hrest]
  split
  next => exact absurd rfl hne
  next => rfl

/-- An exponent with its sign. -/
theorem readExponent?_append (x : Int) (hds : ∀ c ∈ ds, c.isDigit) (hne : ds ≠ [])
    (hvalue : digitsValue ds = x.natAbs) (hrest : NoDigit rest) :
    readExponent? ('e' :: (if x < 0 then '-' else '+') :: ds ++ rest) = some (x, rest) := by
  have hdigits := readDigits?_append hds hne hrest
  unfold readExponent?
  by_cases hx : x < 0
  · simp [hx, hdigits, hvalue, abs_of_neg hx]
  · simp [hx, hdigits, hvalue, not_lt.1 hx]

/-- Without its mark there is no exponent. -/
theorem readExponent?_of_ends (h : Ends rest) : readExponent? rest = none := by
  cases rest with
  | nil => rfl
  | cons c rest =>
    have hc := h c rfl
    simp only [endsNumber, Bool.and_eq_true, bne_iff_ne] at hc
    unfold readExponent?
    simp [hc.1.2, hc.2]

end Digits

/-! ### What digits stand for -/

theorem digitsValue_eq (ds : List Char) : digitsValue ds = Nat.ofDigitChars 10 ds 0 := rfl

@[simp] theorem digitsValue_decimal (n : Nat) : digitsValue (decimal n) = n :=
  Nat.ofDigitChars_ten_toDigits

theorem digitsValue_append_zeros (ds : List Char) (k : Nat) :
    digitsValue (ds ++ zeros k) = digitsValue ds * 10 ^ k := by
  rw [digitsValue_eq, digitsValue_eq, Nat.ofDigitChars_append, zeros,
    Nat.ofDigitChars_replicate_zero, Nat.mul_comm]

theorem digitsValue_zeros_append (k : Nat) (ds : List Char) :
    digitsValue (zeros k ++ ds) = digitsValue ds := by
  rw [digitsValue_eq, digitsValue_eq, Nat.ofDigitChars_append, zeros,
    Nat.ofDigitChars_replicate_zero, Nat.mul_zero]

theorem isDigit_of_mem_decimal {n : Nat} {c : Char} (h : c ∈ decimal n) : c.isDigit :=
  Nat.isDigit_of_mem_toDigits (by decide) (by decide) h

theorem isDigit_of_mem_zeros {k : Nat} {c : Char} (h : c ∈ zeros k) : c.isDigit := by
  rw [List.eq_of_mem_replicate h]
  rfl

theorem decimal_ne_nil (n : Nat) : decimal n ≠ [] := Nat.toDigits_ne_nil

/-- The first digit of a number is no zero. -/
theorem exists_decimal_eq_cons {n : Nat} (hn : n ≠ 0) :
    ∃ c tail, decimal n = c :: tail ∧ c ≠ '0' := by
  induction n using Nat.strongRecOn with
  | _ n ih =>
    unfold decimal at ih ⊢
    rw [Nat.toDigits_eq_if (by decide)]
    split
    next hlt =>
      refine ⟨n.digitChar, [], rfl, ?_⟩
      have hdigit : ∀ n < 10, n ≠ 0 → n.digitChar ≠ '0' := by decide
      exact hdigit n hlt hn
    next hge =>
      obtain ⟨c, tail, hcons, hc⟩ := ih (n / 10) (by omega) (by omega)
      exact ⟨c, tail ++ [(n % 10).digitChar], by rw [hcons, List.cons_append], hc⟩

theorem isWhole_decimal (n : Nat) : IsWhole (decimal n) := by
  refine ⟨fun c => isDigit_of_mem_decimal, ?_⟩
  by_cases hn : n = 0
  · exact .inl (hn ▸ rfl)
  · exact .inr (exists_decimal_eq_cons hn)

/-! ### Numbers with a point or an exponent -/

/-- A text that is read as the decimal of a value, wherever a number may end. -/
def Spells (text : List Char) (value : ℚ) : Prop :=
  ∀ negative rest, Ends rest → ∃ digits exponent, decimalValue digits exponent = value ∧
    readMagnitude? negative (text ++ rest) =
      some (.real (.ofDecimal negative digits exponent), rest)

section Parts

variable {cs whole fraction rest tail : List Char} (negative : Bool)

/-- A fraction without an exponent. -/
theorem readMagnitude?_of_fraction (hwhole : readWhole? cs = some (whole, tail))
    (hfraction : readFraction tail = (fraction, rest)) (hne : fraction ≠ [])
    (hexponent : readExponent? rest = none) :
    readMagnitude? negative cs = some (.real (.ofDecimal negative (digitsValue (whole ++ fraction))
      (-fraction.length)), rest) := by
  obtain ⟨d, ds, rfl⟩ := List.exists_cons_of_ne_nil hne
  unfold readMagnitude?
  rw [hwhole]
  dsimp only
  rw [hfraction, hexponent]

/-- An exponent, after a fraction or not. -/
theorem readMagnitude?_of_exponent {last : List Char} {e : Int}
    (hwhole : readWhole? cs = some (whole, tail)) (hfraction : readFraction tail = (fraction, rest))
    (hexponent : readExponent? rest = some (e, last)) :
    readMagnitude? negative cs = some (.real (.ofDecimal negative (digitsValue (whole ++ fraction))
      (e - fraction.length)), last) := by
  unfold readMagnitude?
  rw [hwhole]
  dsimp only
  rw [hfraction, hexponent]
  cases fraction <;> rfl

/-- Neither of them. -/
theorem readMagnitude?_of_whole (hwhole : readWhole? cs = some (whole, tail))
    (hfraction : readFraction tail = ([], rest)) (hexponent : readExponent? rest = none)
    (hlength : whole.length ≤ Number.maxDigits) :
    readMagnitude? negative cs =
      some (.int (if negative then -(digitsValue whole : Int) else digitsValue whole), rest) := by
  unfold readMagnitude?
  rw [hwhole]
  dsimp only
  rw [hfraction, hexponent]
  dsimp only
  rw [if_neg (Nat.not_lt.2 hlength)]

end Parts

/-- Digits with a point between them. -/
theorem spells_point {whole fraction : List Char} {value : ℚ} (hwhole : IsWhole whole)
    (hfraction : ∀ c ∈ fraction, c.isDigit) (hne : fraction ≠ [])
    (hvalue : decimalValue (digitsValue (whole ++ fraction)) (-fraction.length) = value) :
    Spells (whole ++ '.' :: fraction) value := by
  intro negative rest hrest
  refine ⟨_, _, hvalue, ?_⟩
  rw [List.append_assoc]
  exact readMagnitude?_of_fraction negative (readWhole?_append hwhole (noDigit_cons rfl _))
    (readFraction_append hfraction hne hrest.noDigit) hne (readExponent?_of_ends hrest)

section Positional

variable {digits : Nat}

/-- All digits before the point, and zeros after them. -/
theorem spells_whole (hdigits : digits ≠ 0) (k : Nat) :
    Spells (decimal digits ++ zeros k ++ ['.', '0']) (decimalValue digits k) := by
  obtain ⟨c, tail, hcons, hc⟩ := exists_decimal_eq_cons hdigits
  have hwhole : IsWhole (decimal digits ++ zeros k) := by
    refine ⟨?_, .inr ⟨c, tail ++ zeros k, by rw [hcons, List.cons_append], hc⟩⟩
    exact List.forall_mem_append.2 ⟨fun d => isDigit_of_mem_decimal, fun d => isDigit_of_mem_zeros⟩
  refine spells_point hwhole (by simp) (by simp) ?_
  rw [List.append_assoc, show zeros k ++ ['0'] = zeros (k + 1) from List.replicate_succ'.symm,
    digitsValue_append_zeros, digitsValue_decimal]
  simp only [decimalValue, List.length_singleton]
  push_cast
  rw [zpow_neg_one, pow_succ, zpow_natCast]
  ring

/-- A point between the digits. -/
theorem spells_mixed (hdigits : digits ≠ 0) {k : Nat} (hk : 0 < k)
    (hplaces : k < (decimal digits).length) :
    Spells ((decimal digits).take ((decimal digits).length - k) ++
      '.' :: (decimal digits).drop ((decimal digits).length - k)) (decimalValue digits (-k)) := by
  obtain ⟨c, tail, hcons, hc⟩ := exists_decimal_eq_cons hdigits
  obtain ⟨n, hn⟩ : ∃ n, (decimal digits).length - k = n + 1 := ⟨_, (Nat.succ_pred (by omega)).symm⟩
  have hwhole : IsWhole ((decimal digits).take ((decimal digits).length - k)) := by
    refine ⟨fun d hd => isDigit_of_mem_decimal (List.mem_of_mem_take hd),
      .inr ⟨c, tail.take n, ?_, hc⟩⟩
    rw [hn, hcons, List.take_succ_cons]
  refine spells_point hwhole (fun d hd => isDigit_of_mem_decimal (List.mem_of_mem_drop hd)) ?_ ?_
  · rw [← List.length_pos_iff, List.length_drop]
    omega
  · rw [List.take_append_drop, digitsValue_decimal, List.length_drop]
    congr 2
    omega

/-- All digits behind the point, and zeros before them. -/
theorem spells_fraction {k : Nat} (hplaces : (decimal digits).length ≤ k) :
    Spells (['0', '.'] ++ zeros (k - (decimal digits).length) ++ decimal digits)
      (decimalValue digits (-k)) := by
  show Spells (['0'] ++ '.' :: (zeros (k - (decimal digits).length) ++ decimal digits)) _
  have hfraction : ∀ d ∈ zeros (k - (decimal digits).length) ++ decimal digits, d.isDigit :=
    List.forall_mem_append.2 ⟨fun d => isDigit_of_mem_zeros, fun d => isDigit_of_mem_decimal⟩
  refine spells_point ⟨by simp, .inl rfl⟩ hfraction (by simp [decimal_ne_nil]) ?_
  rw [← List.append_assoc, show ['0'] ++ zeros (k - (decimal digits).length) =
    zeros (k - (decimal digits).length + 1) from rfl, digitsValue_zeros_append, digitsValue_decimal]
  congr 2
  simp [zeros]
  omega

theorem spells_positional (hdigits : digits ≠ 0) (exponent : Int) :
    Spells (positional digits exponent) (decimalValue digits exponent) := by
  unfold positional
  dsimp only
  split
  next hexp =>
    obtain ⟨k, rfl⟩ := Int.eq_ofNat_of_zero_le hexp
    exact spells_whole hdigits k
  next hexp =>
    obtain ⟨k, hk⟩ := Int.eq_ofNat_of_zero_le (show 0 ≤ -exponent by omega)
    obtain rfl : exponent = -k := by omega
    rw [Int.neg_neg, Int.toNat_natCast]
    split
    next hplaces => exact spells_mixed hdigits (by omega) hplaces
    next hplaces => exact spells_fraction (by omega)

end Positional

theorem spells_scientific {digits : Nat} (hdigits : digits ≠ 0) (exponent : Int) :
    Spells (scientific digits exponent) (decimalValue digits exponent) := by
  obtain ⟨c, tail, hcons, hc⟩ := exists_decimal_eq_cons hdigits
  have hall : ∀ d ∈ decimal digits, d.isDigit := fun d => isDigit_of_mem_decimal
  have hvalue : digitsValue (c :: tail) = digits := by rw [← hcons, digitsValue_decimal]
  have htail : ∀ d ∈ tail, d.isDigit := fun d hd => hall d (hcons ▸ List.mem_cons_of_mem c hd)
  have hwhole : IsWhole [c] :=
    ⟨fun d hd => hall d (by rw [hcons, List.mem_singleton.1 hd]; exact List.mem_cons_self),
      .inr ⟨c, [], rfl, hc⟩⟩
  intro negative rest hrest
  unfold scientific
  rw [hcons]
  dsimp only
  generalize hx : exponent + ((c :: tail).length : Int) - 1 = x
  -- the exponent is padded to two digits
  have hpadded : ∀ d ∈ zeros (2 - (decimal x.natAbs).length) ++ decimal x.natAbs, d.isDigit :=
    List.forall_mem_append.2 ⟨fun d => isDigit_of_mem_zeros, fun d => isDigit_of_mem_decimal⟩
  have hexponent := readExponent?_append x hpadded (by simp [decimal_ne_nil])
    (by rw [digitsValue_zeros_append, digitsValue_decimal]) hrest.noDigit
  refine ⟨digits, x - tail.length, ?_, ?_⟩
  · congr 1
    simp only [List.length_cons] at hx
    push_cast at hx
    omega
  rw [← hvalue]
  cases tail with
  | nil =>
    have hnone : readFraction ('e' :: (if x < 0 then '-' else '+') ::
        (zeros (2 - (decimal x.natAbs).length) ++ decimal x.natAbs) ++ rest) = ([], _) :=
      readFraction_of_ne (by simp)
    simpa using readMagnitude?_of_exponent negative
      (readWhole?_append hwhole (noDigit_cons rfl _)) hnone hexponent
  | cons d ds =>
    have hfraction := readFraction_append htail (List.cons_ne_nil d ds)
      (noDigit_cons (c := 'e') rfl ((if x < 0 then '-' else '+') ::
        (zeros (2 - (decimal x.natAbs).length) ++ decimal x.natAbs) ++ rest))
    simpa using readMagnitude?_of_exponent negative
      (readWhole?_append hwhole (noDigit_cons rfl _)) hfraction hexponent

theorem spells_magnitude (digits : Nat) (exponent : Int) :
    Spells (magnitude digits exponent) (decimalValue digits exponent) := by
  unfold magnitude
  split
  next hzero =>
    show Spells (['0'] ++ '.' :: ['0']) _
    refine spells_point ⟨by simp, .inl rfl⟩ (by simp) (by simp) ?_
    simp [decimalValue, hzero, digitsValue]
  next hne =>
    dsimp only
    split
    · exact spells_positional hne exponent
    · exact spells_scientific hne exponent

/-! ### Signed numbers -/

/-- No word starts with a digit. -/
theorem readScalar?_of_isDigit {c : Char} (hc : c.isDigit) (cs : List Char) :
    readScalar? (c :: cs) = readMagnitude? false (c :: cs) ∧
      readScalar? ('-' :: c :: cs) = readMagnitude? true (c :: cs) := by
  have hall : ∀ n < 58, 48 ≤ n → Char.ofNat n ∈ "0123456789".toList := by decide
  have hlow : 48 ≤ c.toNat := of_decide_eq_true (Bool.and_eq_true_iff.1 hc).1
  have hhigh : c.toNat ≤ 57 := of_decide_eq_true (Bool.and_eq_true_iff.1 hc).2
  have hdigit := hall c.toNat (by omega) hlow
  rw [Char.ofNat_toNat] at hdigit
  have hlist : "0123456789".toList = ['0', '1', '2', '3', '4', '5', '6', '7', '8', '9'] := rfl
  simp only [hlist, List.mem_cons, List.not_mem_nil, or_false] at hdigit
  rcases hdigit with rfl | rfl | rfl | rfl | rfl | rfl | rfl | rfl | rfl | rfl <;> exact ⟨rfl, rfl⟩

/-- A sign before a number. -/
def sign (negative : Bool) : List Char := if negative then ['-'] else []

/-- A number starts with a digit. -/
theorem exists_of_readMagnitude? {negative : Bool} {cs : List Char} {found : Json × List Char}
    (h : readMagnitude? negative cs = some found) : ∃ c tail, cs = c :: tail ∧ c.isDigit := by
  unfold readMagnitude? readWhole? at h
  split at h
  next => cases h
  next whole rest hwhole =>
    split at hwhole
    next => exact ⟨_, _, rfl, rfl⟩
    next c tail _ =>
      split at hwhole
      next hc => exact ⟨c, tail, rfl, hc⟩
      next => cases hwhole
    next => cases hwhole

theorem readScalar?_sign_append {negative : Bool} {cs : List Char} {found : Json × List Char}
    (h : readMagnitude? negative cs = some found) :
    readScalar? (sign negative ++ cs) = some found := by
  obtain ⟨c, tail, rfl, hc⟩ := exists_of_readMagnitude? h
  obtain ⟨hplain, hsigned⟩ := readScalar?_of_isDigit hc tail
  cases negative with
  | false => exact hplain.trans h
  | true => exact hsigned.trans h

theorem toList_toString (n : Int) :
    (toString n).toList = sign (decide (n < 0)) ++ decimal n.natAbs := by
  cases n with
  | ofNat n => exact Nat.toList_repr
  | negSucc n =>
    show ("-" ++ (n + 1).repr).toList = _
    rw [String.toList_append, Nat.toList_repr, decide_eq_true (Int.negSucc_lt_zero n)]
    rfl

theorem toList_renderReal (negative : Bool) (digits : Nat) (exponent : Int) :
    (renderReal (.finite negative digits exponent)).toList =
      sign negative ++ magnitude digits exponent := by
  show ((if negative then "-" else "") ++ String.ofList (magnitude digits exponent)).toList = _
  rw [String.toList_append, String.toList_ofList]
  cases negative <;> rfl

/-- **A whole number is read back**, if it is not too long. -/
theorem readScalar?_toString {n : Int} (hn : Number.digitCount n.natAbs ≤ Number.maxDigits)
    {rest : List Char} (hrest : Ends rest) :
    readScalar? ((toString n).toList ++ rest) = some (.int n, rest) := by
  have hpoint : ∀ c ∈ rest.head?, c ≠ '.' := by
    rintro c hc rfl
    exact absurd (hrest '.' hc) (by decide)
  rw [toList_toString, List.append_assoc]
  refine readScalar?_sign_append ?_
  rw [readMagnitude?_of_whole _ (readWhole?_append (isWhole_decimal n.natAbs) hrest.noDigit)
    (readFraction_of_ne hpoint) (readExponent?_of_ends hrest) hn, digitsValue_decimal]
  by_cases hneg : n < 0
  · rw [if_pos (decide_eq_true hneg), show -(n.natAbs : Int) = n by omega]
  · rw [if_neg (by simpa using hneg), show (n.natAbs : Int) = n by omega]

/-- **A number with a fraction or exponent is read back**, and so are the infinities. -/
theorem readScalar?_renderReal {x : Number.Real} (hx : x.Rounded) {rest : List Char}
    (hrest : Ends rest) :
    readScalar? ((renderReal x).toList ++ rest) = some (.real x, rest) := by
  cases hx with
  | infinite negative => cases negative <;> rfl
  | nan => rfl
  | ofDecimal negative d ex =>
    generalize hx : Number.Real.ofDecimal negative d ex = x
    cases x with
    | infinite negative => cases negative <;> rfl
    | nan => rfl
    | finite negative digits exponent =>
      obtain ⟨digits', exponent', hvalue, hread⟩ :=
        spells_magnitude digits exponent negative rest hrest
      rw [Number.Real.ofDecimal_eq hx hvalue] at hread
      rw [toList_renderReal, List.append_assoc]
      exact readScalar?_sign_append hread

/-! ### Characters of numbers -/

/-- A character of a written number. -/
def inNumber (c : Char) : Bool :=
  c.isDigit || c == '.' || c == 'e' || c == '+' || c == '-'

theorem inNumber_of_isDigit {c : Char} (h : c.isDigit) : inNumber c := by
  simp [inNumber, h]

theorem inNumber_sign (negative : Bool) : ∀ c ∈ sign negative, inNumber c := by
  cases negative <;> exact List.all_eq_true.1 (by decide)

theorem inNumber_decimal (n : Nat) : ∀ c ∈ decimal n, inNumber c :=
  fun _ h => inNumber_of_isDigit (isDigit_of_mem_decimal h)

theorem inNumber_zeros (k : Nat) : ∀ c ∈ zeros k, inNumber c :=
  fun _ h => inNumber_of_isDigit (isDigit_of_mem_zeros h)

theorem inNumber_positional (digits : Nat) (exponent : Int) :
    ∀ c ∈ positional digits exponent, inNumber c := by
  have hdecimal := inNumber_decimal digits
  have hpoint : inNumber '.' := rfl
  unfold positional
  dsimp only
  split
  · exact List.forall_mem_append.2
      ⟨List.forall_mem_append.2 ⟨hdecimal, inNumber_zeros _⟩, List.all_eq_true.1 (by decide)⟩
  split
  · exact List.forall_mem_append.2 ⟨fun c hc => hdecimal c (List.mem_of_mem_take hc),
      List.forall_mem_cons.2 ⟨hpoint, fun c hc => hdecimal c (List.mem_of_mem_drop hc)⟩⟩
  · exact List.forall_mem_append.2 ⟨List.forall_mem_cons.2 ⟨rfl, List.forall_mem_cons.2
      ⟨hpoint, inNumber_zeros _⟩⟩, hdecimal⟩

theorem inNumber_scientific (digits : Nat) (exponent : Int) :
    ∀ c ∈ scientific digits exponent, inNumber c := by
  have hdecimal := inNumber_decimal digits
  have hpoint : inNumber '.' := rfl
  unfold scientific
  dsimp only
  generalize exponent + ((decimal digits).length : Int) - 1 = x
  refine List.forall_mem_append.2 ⟨List.forall_mem_append.2 ⟨?_, ?_⟩, inNumber_decimal _⟩
  · generalize decimal digits = ds at hdecimal
    split
    · exact nofun
    · exact hdecimal
    · obtain ⟨hd, hrest⟩ := List.forall_mem_cons.1 hdecimal
      exact List.forall_mem_cons.2 ⟨hd, List.forall_mem_cons.2 ⟨hpoint, hrest⟩⟩
  · refine List.forall_mem_cons.2 ⟨rfl, List.forall_mem_cons.2 ⟨?_, inNumber_zeros _⟩⟩
    split <;> rfl

theorem inNumber_magnitude (digits : Nat) (exponent : Int) :
    ∀ c ∈ magnitude digits exponent, inNumber c := by
  unfold magnitude
  dsimp only
  split
  · exact List.all_eq_true.1 (by decide)
  split
  · exact inNumber_positional digits exponent
  · exact inNumber_scientific digits exponent

theorem return_notMem_of_inNumber {cs : List Char} (h : ∀ c ∈ cs, inNumber c) : '\r' ∉ cs :=
  fun hmem => absurd (h _ hmem) (by decide)

theorem return_notMem_toString (n : Int) : '\r' ∉ (toString n).toList := by
  rw [toList_toString]
  exact return_notMem_of_inNumber
    (List.forall_mem_append.2 ⟨inNumber_sign _, inNumber_decimal n.natAbs⟩)

theorem return_notMem_renderReal (x : Number.Real) : '\r' ∉ (renderReal x).toList := by
  cases x with
  | infinite negative => cases negative <;> decide
  | nan => decide
  | finite negative digits exponent =>
    rw [toList_renderReal]
    exact return_notMem_of_inNumber
      (List.forall_mem_append.2 ⟨inNumber_sign negative, inNumber_magnitude digits exponent⟩)

end LuaAudit.Json
