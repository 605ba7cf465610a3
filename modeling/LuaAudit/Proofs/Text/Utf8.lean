import LuaAudit.Text.Utf8
import Mathlib.Data.List.Basic

/-!
# Bytes of a text read back

The first byte of a character announces how many follow, so the bytes of a text are read back as the
text.

* `lead?_two`, `lead?_three` and `lead?_four`: the first byte of a character of several bytes;
* `readChar_encodeChar`: one character is read back, whatever follows;
* `decode?_encode`: so is a text, and `decode?_eq_some_iff`: nothing else is read;
* `decode_eq_ok_iff`: bytes have a fault exactly when they are not the bytes of a text.
-/

namespace LuaAudit.Text.Utf8

/-! ### First bytes -/

theorem lead?_two {n : Nat} (hlow : 0x80 ≤ n) (hhigh : n < 0x800) :
    lead? (0xC0 + n / 0x40) = some ⟨1, 0x80, 0xBF, n / 0x40⟩ := by
  have hrange : 0xC2 ≤ 0xC0 + n / 0x40 ∧ 0xC0 + n / 0x40 ≤ 0xDF := by omega
  simp [lead?, hrange.1, hrange.2]

/-- The second byte lies in the bounds that the first one of three announces: short forms and
    surrogates are left out. -/
theorem lead?_three {n : Nat} (hlow : 0x800 ≤ n) (hhigh : n < 0x10000)
    (hvalid : n < 0xD800 ∨ 0xDFFF < n) :
    ∃ low high, lead? (0xE0 + n / 0x1000) = some ⟨2, low, high, n / 0x1000⟩ ∧
      low ≤ 0x80 + n / 0x40 % 0x40 ∧ 0x80 + n / 0x40 % 0x40 ≤ high := by
  have hq : n / 0x1000 ≤ 0xF := by omega
  rcases Nat.eq_zero_or_pos (n / 0x1000) with h0 | hpos
  · refine ⟨0xA0, 0xBF, ?_, by omega, by omega⟩
    rw [h0]
    rfl
  · -- after the first byte 0xED the second leaves out the surrogates
    by_cases hD : n / 0x1000 = 0xD
    · refine ⟨0x80, 0x9F, ?_, by omega, by omega⟩
      rw [hD]
      rfl
    · refine ⟨0x80, 0xBF, ?_, by omega, by omega⟩
      have hbounds : 0xE1 ≤ 0xE0 + n / 0x1000 ∧ 0xE0 + n / 0x1000 ≤ 0xEF := by omega
      rw [lead?, if_neg (by simp; omega), if_neg (by simp; omega), if_neg (by simp; omega),
        if_pos (by simpa using hbounds), Nat.add_sub_cancel_left]

theorem lead?_four {n : Nat} (hlow : 0x10000 ≤ n) (hhigh : n < 0x110000) :
    ∃ low high, lead? (0xF0 + n / 0x40000) = some ⟨3, low, high, n / 0x40000⟩ ∧
      low ≤ 0x80 + n / 0x1000 % 0x40 ∧ 0x80 + n / 0x1000 % 0x40 ≤ high := by
  have hq : n / 0x40000 ≤ 4 := by omega
  rcases Nat.eq_zero_or_pos (n / 0x40000) with h0 | hpos
  · refine ⟨0x90, 0xBF, ?_, by omega, by omega⟩
    rw [h0]
    rfl
  · by_cases h4 : n / 0x40000 = 4
    · refine ⟨0x80, 0x8F, ?_, by omega, by omega⟩
      rw [h4]
      rfl
    · refine ⟨0x80, 0xBF, ?_, by omega, by omega⟩
      have hbounds : 0xF1 ≤ 0xF0 + n / 0x40000 ∧ 0xF0 + n / 0x40000 ≤ 0xF3 := by omega
      rw [lead?, if_neg (by simp; omega), if_neg (by simp; omega), if_neg (by simp; omega),
        if_neg (by simp; omega), if_neg (by simp; omega), if_pos (by simpa using hbounds),
        Nat.add_sub_cancel_left]

/-! ### Characters and texts -/

theorem toNat_toUInt8 {n : Nat} (h : n < 256) : n.toUInt8.toNat = n := by
  simp [Nat.toUInt8, Nat.mod_eq_of_lt h]

/-- One byte that lies in its bounds. -/
theorem readTails_succ {tails low high bits taken n : Nat} (hn : n < 256) (hlow : low ≤ n)
    (hhigh : n ≤ high) (bs : List UInt8) :
    readTails (tails + 1) low high bits taken (n.toUInt8 :: bs) =
      readTails tails 0x80 0xBF (bits * 0x40 + (n - 0x80)) (taken + 1) bs := by
  rw [readTails, toNat_toUInt8 hn]
  simp [hlow, hhigh]

/-- A character of several bytes, from what its first byte announces. -/
theorem readChar_of_lead {n : Nat} {l : Lead} {bs : List UInt8} {code taken : Nat}
    (hn : 0x80 ≤ n) (hbyte : n < 256) (hlead : lead? n = some l)
    (htails : readTails l.tails l.low l.high l.bits 0 bs = (some code, taken)) :
    readChar n.toUInt8 bs = (some (Char.ofNat code), taken) := by
  rw [readChar, toNat_toUInt8 hbyte, if_neg (by omega), hlead]
  simp only [htails]

/-- A character is read back from its bytes, whatever follows them. -/
theorem readChar_encodeChar (c : Char) (rest : List UInt8) :
    ∃ b bs, encodeChar c = b :: bs ∧ readChar b (bs ++ rest) = (some c, bs.length) := by
  have hvalid : c.toNat < 0xD800 ∨ 0xDFFF < c.toNat ∧ c.toNat < 0x110000 := c.valid
  have hc : Char.ofNat c.toNat = c := Char.ofNat_toNat c
  generalize hn : c.toNat = n at hvalid hc
  unfold encodeChar
  simp only [hn]
  rw [← hc]
  split
  next h1 =>
    refine ⟨_, _, rfl, ?_⟩
    rw [readChar, toNat_toUInt8 (by omega), if_pos h1]
    rfl
  next h1 =>
    split
    next h2 =>
      have hcode : n / 0x40 * 0x40 + (0x80 + n % 0x40 - 0x80) = n := by omega
      refine ⟨_, _, rfl, readChar_of_lead (by omega) (by omega) (lead?_two (by omega) h2) ?_⟩
      dsimp only
      rw [List.singleton_append, readTails_succ (by omega) (by omega) (by omega), readTails, hcode]
      rfl
    next h2 =>
      split
      next h3 =>
        obtain ⟨low, high, hlead, hlow, hhigh⟩ := lead?_three (by omega) h3 (by omega)
        have hcode : (n / 0x1000 * 0x40 + (0x80 + n / 0x40 % 0x40 - 0x80)) * 0x40 +
            (0x80 + n % 0x40 - 0x80) = n := by omega
        refine ⟨_, _, rfl, readChar_of_lead (by omega) (by omega) hlead ?_⟩
        dsimp only
        rw [List.cons_append, List.singleton_append, readTails_succ (by omega) hlow hhigh,
          readTails_succ (by omega) (by omega) (by omega), readTails, hcode]
        rfl
      next h3 =>
        obtain ⟨low, high, hlead, hlow, hhigh⟩ := lead?_four (n := n) (by omega) (by omega)
        have hcode : ((n / 0x40000 * 0x40 + (0x80 + n / 0x1000 % 0x40 - 0x80)) * 0x40 +
            (0x80 + n / 0x40 % 0x40 - 0x80)) * 0x40 + (0x80 + n % 0x40 - 0x80) = n := by omega
        refine ⟨_, _, rfl, readChar_of_lead (by omega) (by omega) hlead ?_⟩
        dsimp only
        rw [List.cons_append, List.cons_append, List.singleton_append,
          readTails_succ (by omega) hlow hhigh, readTails_succ (by omega) (by omega) (by omega),
          readTails_succ (by omega) (by omega) (by omega), readTails, hcode]
        rfl

/-- Bytes that belong to a character are passed over. -/
theorem decodeFrom_append (bs rest : List UInt8) :
    decodeFrom bs.length (bs ++ rest) = decodeFrom 0 rest := by
  induction bs with
  | nil => rfl
  | cons b bs ih => simpa [decodeFrom] using ih

theorem decodeFrom_encode (cs : List Char) : decodeFrom 0 (encode cs) = cs.map some := by
  induction cs with
  | nil => rfl
  | cons c cs ih =>
    obtain ⟨b, bs, hbytes, hread⟩ := readChar_encodeChar c (encode cs)
    have hencode : encode (c :: cs) = b :: (bs ++ encode cs) := by
      rw [encode, List.flatMap_cons, hbytes, List.cons_append]
      rfl
    rw [hencode, decodeFrom, hread, decodeFrom_append, ih, List.map_cons]

/-- **A text is read back from its bytes.** -/
theorem decode?_encode (cs : List Char) : decode? (encode cs) = some cs := by
  rw [decode?, decodeFrom_encode]
  induction cs with
  | nil => rfl
  | cons c cs ih => simp [List.mapM_cons, ih]

theorem decodeLossy_encode (cs : List Char) : decodeLossy (encode cs) = cs := by
  rw [decodeLossy, decodeFrom_encode, List.map_map]
  exact List.map_id cs

/-! ### Well-formed bytes -/

/-- A byte that was taken lies in its bounds. -/
theorem exists_of_readTails {tails low high bits taken n last : Nat} {bs : List UInt8}
    (h : readTails (tails + 1) low high bits taken bs = (some n, last)) :
    ∃ b rest, bs = b :: rest ∧ low ≤ b.toNat ∧ b.toNat ≤ high ∧
      readTails tails 0x80 0xBF (bits * 0x40 + (b.toNat - 0x80)) (taken + 1) rest =
        (some n, last) := by
  cases bs with
  | nil => cases h
  | cons b rest =>
    rw [readTails] at h
    split at h
    next hbounds =>
      simp only [Bool.and_eq_true, decide_eq_true_eq] at hbounds
      exact ⟨b, rest, rfl, hbounds.1, hbounds.2, h⟩
    next => cases h

/-- What the first bytes of two, three and four announce. -/
theorem bounds_of_lead? {b : Nat} {l : Lead} (h : lead? b = some l) :
    (0xC2 ≤ b ∧ b ≤ 0xDF ∧ l = ⟨1, 0x80, 0xBF, b - 0xC0⟩) ∨
      (0xE0 ≤ b ∧ b ≤ 0xEF ∧ ∃ low high, l = ⟨2, low, high, b - 0xE0⟩ ∧ 0x80 ≤ low ∧ high ≤ 0xBF ∧
        (b = 0xE0 → 0xA0 ≤ low) ∧ (b = 0xED → high ≤ 0x9F)) ∨
      (0xF0 ≤ b ∧ b ≤ 0xF4 ∧ ∃ low high, l = ⟨3, low, high, b - 0xF0⟩ ∧ 0x80 ≤ low ∧ high ≤ 0xBF ∧
        (b = 0xF0 → 0x90 ≤ low) ∧ (b = 0xF4 → high ≤ 0x8F)) := by
  simp only [lead?, Bool.and_eq_true, decide_eq_true_eq, beq_iff_eq] at h
  split at h
  next hb => exact .inl ⟨hb.1, hb.2, (Option.some.inj h).symm⟩
  split at h
  next hb =>
    subst hb
    exact .inr (.inl ⟨by decide, by decide, _, _, (Option.some.inj h).symm, by decide, by decide,
      fun _ => by decide, nofun⟩)
  split at h
  next hb =>
    subst hb
    exact .inr (.inl ⟨by decide, by decide, _, _, (Option.some.inj h).symm, by decide, by decide,
      nofun, fun _ => by decide⟩)
  split at h
  next hb =>
    exact .inr (.inl ⟨by omega, hb.2, _, _, (Option.some.inj h).symm, by decide, by decide,
      fun _ => by omega, fun _ => by omega⟩)
  split at h
  next hb =>
    subst hb
    exact .inr (.inr ⟨by decide, by decide, _, _, (Option.some.inj h).symm, by decide, by decide,
      fun _ => by decide, nofun⟩)
  split at h
  next hb =>
    exact .inr (.inr ⟨by omega, by omega, _, _, (Option.some.inj h).symm, by decide, by decide,
      fun _ => by omega, fun _ => by omega⟩)
  split at h
  next hb =>
    subst hb
    exact .inr (.inr ⟨by decide, by decide, _, _, (Option.some.inj h).symm, by decide, by decide,
      nofun, fun _ => by decide⟩)
  next => cases h

theorem toNat_ofNat {n : Nat} (h : n < 0xD800 ∨ 0xDFFF < n ∧ n < 0x110000) :
    (Char.ofNat n).toNat = n := by
  unfold Char.ofNat
  rw [dif_pos h]
  rfl

theorem toUInt8_eq {n : Nat} (b : UInt8) (h : n = b.toNat) : n.toUInt8 = b := by
  rw [h]
  exact UInt8.ofNat_toNat

/-- The bytes that a code point of several bytes was read from are its own. -/
theorem encodeChar_of_readTails {b : UInt8} {l : Lead} {bs : List UInt8} {n taken : Nat}
    (hlead : lead? b.toNat = some l)
    (htails : readTails l.tails l.low l.high l.bits 0 bs = (some n, taken)) :
    ∃ tail rest, bs = tail ++ rest ∧ tail.length = taken ∧
      encodeChar (Char.ofNat n) = b :: tail := by
  rcases bounds_of_lead? hlead with ⟨hlow, hhigh, rfl⟩ |
    ⟨hlow, hhigh, low, high, rfl, hl, hh, hfirst, hlast⟩ |
    ⟨hlow, hhigh, low, high, rfl, hl, hh, hfirst, hlast⟩
  · obtain ⟨b1, rest, rfl, hl1, hh1, hcode⟩ := exists_of_readTails htails
    obtain ⟨hn, rfl⟩ := Prod.mk.inj hcode
    obtain rfl := Option.some.inj hn
    refine ⟨[b1], rest, rfl, rfl, ?_⟩
    dsimp only at hl1 hh1 ⊢
    unfold encodeChar
    rw [toNat_ofNat (by omega)]
    dsimp only
    rw [if_neg (by omega), if_pos (by omega), toUInt8_eq b (by omega), toUInt8_eq b1 (by omega)]
  · obtain ⟨b1, bs, rfl, hl1, hh1, hcode⟩ := exists_of_readTails htails
    obtain ⟨b2, rest, rfl, hl2, hh2, hcode⟩ := exists_of_readTails hcode
    obtain ⟨hn, rfl⟩ := Prod.mk.inj hcode
    obtain rfl := Option.some.inj hn
    refine ⟨[b1, b2], rest, rfl, rfl, ?_⟩
    dsimp only at hl1 hh1 ⊢
    unfold encodeChar
    rw [toNat_ofNat (by omega)]
    dsimp only
    rw [if_neg (by omega), if_neg (by omega), if_pos (by omega), toUInt8_eq b (by omega),
      toUInt8_eq b1 (by omega), toUInt8_eq b2 (by omega)]
  · obtain ⟨b1, bs, rfl, hl1, hh1, hcode⟩ := exists_of_readTails htails
    obtain ⟨b2, bs, rfl, hl2, hh2, hcode⟩ := exists_of_readTails hcode
    obtain ⟨b3, rest, rfl, hl3, hh3, hcode⟩ := exists_of_readTails hcode
    obtain ⟨hn, rfl⟩ := Prod.mk.inj hcode
    obtain rfl := Option.some.inj hn
    refine ⟨[b1, b2, b3], rest, rfl, rfl, ?_⟩
    dsimp only at hl1 hh1 ⊢
    unfold encodeChar
    rw [toNat_ofNat (by omega)]
    dsimp only
    rw [if_neg (by omega), if_neg (by omega), if_neg (by omega), toUInt8_eq b (by omega),
      toUInt8_eq b1 (by omega), toUInt8_eq b2 (by omega), toUInt8_eq b3 (by omega)]

/-- The bytes that a character was read from are its own. -/
theorem encodeChar_of_readChar {b : UInt8} {bs : List UInt8} {c : Char} {taken : Nat}
    (h : readChar b bs = (some c, taken)) :
    ∃ tail rest, bs = tail ++ rest ∧ tail.length = taken ∧ encodeChar c = b :: tail := by
  unfold readChar at h
  split at h
  next hascii =>
    obtain ⟨hc, rfl⟩ := Prod.mk.inj h
    obtain rfl := Option.some.inj hc
    refine ⟨[], bs, rfl, rfl, ?_⟩
    unfold encodeChar
    rw [toNat_ofNat (by omega)]
    dsimp only
    rw [if_pos hascii, toUInt8_eq b rfl]
  next hascii =>
    split at h
    next => cases h
    next l hlead =>
      split at h
      next n last htails =>
        obtain ⟨hc, rfl⟩ := Prod.mk.inj h
        obtain rfl := Option.some.inj hc
        exact encodeChar_of_readTails hlead htails
      next => cases h

theorem eq_encode_of_decodeFrom {bs : List UInt8} {cs : List Char}
    (h : decodeFrom 0 bs = cs.map some) : bs = encode cs := by
  induction cs generalizing bs with
  | nil =>
    cases bs with
    | nil => rfl
    | cons b bs => cases h
  | cons c cs ih =>
    cases bs with
    | nil => cases h
    | cons b bs =>
      rw [decodeFrom, List.map_cons] at h
      obtain ⟨hread, hrest⟩ := List.cons.inj h
      generalize htaken : (readChar b bs).2 = taken at hrest
      obtain ⟨tail, rest, rfl, rfl, hbytes⟩ := encodeChar_of_readChar (Prod.ext hread htaken)
      rw [decodeFrom_append] at hrest
      rw [ih hrest, encode, encode, List.flatMap_cons, hbytes, List.cons_append]

/-! ### Ill-formed bytes -/

theorem mapM_id_eq_some_iff {found : List (Option Char)} {cs : List Char} :
    found.mapM id = some cs ↔ found = cs.map some := by
  induction found generalizing cs with
  | nil => cases cs <;> simp
  | cons c found ih =>
    cases c with
    | none => cases cs <;> simp
    | some c => cases cs <;> simp [Option.bind_eq_some_iff, ih, and_comm]

/-- **Only the bytes of a text are read as that text.** -/
theorem decode?_eq_some_iff {bs : List UInt8} {cs : List Char} :
    decode? bs = some cs ↔ bs = encode cs := by
  constructor
  · intro h
    exact eq_encode_of_decodeFrom (mapM_id_eq_some_iff.1 h)
  · rintro rfl
    exact decode?_encode cs

/-- There is a fault exactly where a stretch is no character. -/
theorem faultFrom_eq_none_iff (skip offset : Nat) (bs : List UInt8) :
    faultFrom skip offset bs = none ↔ none ∉ decodeFrom skip bs := by
  induction bs generalizing skip offset with
  | nil => simp [faultFrom, decodeFrom]
  | cons b bs ih =>
    cases skip with
    | succ skip => exact ih skip (offset + 1)
    | zero =>
      rw [faultFrom, decodeFrom]
      cases readChar b bs with
      | mk c taken =>
        cases c with
        | none => simp
        | some c => simpa using ih taken (offset + 1)

/-- **Well-formed bytes.**  Bytes have no fault exactly when they are the bytes of a text. -/
theorem decode_eq_ok_iff {bs : List UInt8} {cs : List Char} :
    decode bs = .ok cs ↔ decode? bs = some cs := by
  have hfault := faultFrom_eq_none_iff 0 0 bs
  rw [decode?, mapM_id_eq_some_iff, decode, decodeLossy]
  generalize decodeFrom 0 bs = found at hfault ⊢
  cases hfirst : faultFrom 0 0 bs with
  | some fault =>
    rw [hfirst] at hfault
    constructor
    · intro h
      cases h
    · rintro rfl
      simp at hfault
  | none =>
    -- without a fault nothing is replaced
    have hkept : (found.map (·.getD replacement)).map some = found := by
      rw [List.map_map]
      refine (List.map_congr_left fun c hc => ?_).trans (List.map_id found)
      cases c with
      | none => exact absurd hc (hfault.1 hfirst)
      | some c => rfl
    rw [Except.ok.injEq]
    constructor
    · rintro rfl
      exact hkept.symm
    · rintro rfl
      simp [Function.comp_def]

end LuaAudit.Text.Utf8
