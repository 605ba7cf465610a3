import LuaAudit.Json.Value
import LuaAudit.Number.Literal
import LuaAudit.Text.Hex

/-!
# JSON tokens

The lexical level of JSON: punctuation, and values that hold no other value.  Besides the standard
tokens, `NaN`, `Infinity` and `-Infinity` are numbers.

* `readString` reads a string after its opening quote;
* `readScalar?` reads a word or a number;
* `Token.read?` reads the token at the start of a text;
* `overlong?` tells of a number that is refused for its digits.
-/

namespace LuaAudit.Json

/-- A token of a JSON text. -/
inductive Token where
  | openBrace
  | closeBrace
  | openBracket
  | closeBracket
  | colon
  | comma
  | atom (value : Json)

/-- White space between tokens. -/
def isSpace (c : Char) : Bool := c == ' ' || c == '\t' || c == '\n' || c == '\r'

/-- Four hexadecimal digits at the start of a text, and what follows them. -/
def readHex4? : List Char → Option (Nat × List Char)
  | a :: b :: c :: d :: rest => (Text.hexNumber? [a, b, c, d]).map fun n => (n, rest)
  | _ => none

/-- The character that a backslash and a letter stand for. -/
def escaped? (c : Char) : Option Char :=
  match c with
  | '"' => some '"'
  | '\\' => some '\\'
  | '/' => some '/'
  | 'b' => some (Char.ofNat 8)
  | 'f' => some (Char.ofNat 12)
  | 'n' => some '\n'
  | 'r' => some '\r'
  | 't' => some '\t'
  | _ => none

/-- The point of a code unit alone. -/
def unitPoint (n : Nat) : Point :=
  if 0xD800 ≤ n && n ≤ 0xDFFF then .half n else .char (Char.ofNat n)

/-- The second half of a surrogate pair written `\uXXXX` at the start of a text. -/
def lowSurrogate? : List Char → Option (Nat × List Char)
  | '\\' :: 'u' :: rest =>
    match readHex4? rest with
    | some (n, tail) => if 0xDC00 ≤ n && n ≤ 0xDFFF then some (n, tail) else none
    | none => none
  | _ => none

/-- The point written after `\u`, by one code unit or by a surrogate pair, and what follows. -/
def readUnicode? (cs : List Char) : Option (Point × List Char) :=
  match readHex4? cs with
  | none => none
  | some (n, rest) =>
    if 0xD800 ≤ n && n ≤ 0xDBFF then
      match lowSurrogate? rest with
      | some (m, tail) =>
        some (.char (Char.ofNat (0x10000 + (n - 0xD800) * 0x400 + (m - 0xDC00))), tail)
      | none => some (unitPoint n, rest)
    else some (unitPoint n, rest)

theorem readHex4?_length {cs rest : List Char} {n : Nat} (h : readHex4? cs = some (n, rest)) :
    rest.length < cs.length := by
  match cs, h with
  | a :: b :: c :: d :: tail, h =>
    simp only [readHex4?, Option.map_eq_some_iff] at h
    obtain ⟨m, -, hm⟩ := h
    have : tail = rest := (Prod.mk.inj hm).2
    subst this
    simp only [List.length_cons]
    omega

theorem readUnicode?_length {cs rest : List Char} {p : Point}
    (h : readUnicode? cs = some (p, rest)) : rest.length < cs.length := by
  unfold readUnicode? at h
  split at h
  · cases h
  next n mid hmid =>
    have hm := readHex4?_length hmid
    split at h
    · split at h
      next m tail htail =>
        have ht : tail = rest := (Prod.mk.inj (Option.some.inj h)).2
        subst ht
        unfold lowSurrogate? at htail
        split at htail
        next inner =>
          split at htail
          next k tl hk =>
            split at htail
            · have := readHex4?_length hk
              have e : tl = tail := (Prod.mk.inj (Option.some.inj htail)).2
              subst e
              simp only [List.length_cons] at hm
              omega
            · cases htail
          · cases htail
        · cases htail
      · have e : mid = rest := (Prod.mk.inj (Option.some.inj h)).2
        subst e; exact hm
    · have e : mid = rest := (Prod.mk.inj (Option.some.inj h)).2
      subst e; exact hm

/-- A string after its opening quote, and what follows its closing quote.  A control character
    inside, an unknown escape or a missing quote refuses it. -/
def readString (cs : List Char) : Option (List Point × List Char) :=
  match cs with
  | [] => none
  | '"' :: rest => some ([], rest)
  | '\\' :: 'u' :: rest =>
    match h : readUnicode? rest with
    | some (p, tail) =>
      have : tail.length < rest.length := readUnicode?_length h
      (readString tail).map fun (s, r) => (p :: s, r)
    | none => none
  | '\\' :: e :: rest =>
    match escaped? e with
    | some c => (readString rest).map fun (s, r) => (.char c :: s, r)
    | none => none
  | c :: rest =>
    if c.toNat < 0x20 || c == '\\' then none
    else (readString rest).map fun (s, r) => (.char c :: s, r)
  termination_by cs.length
  decreasing_by all_goals simp_wf; all_goals omega

theorem readString_length {cs rest : List Char} {s : List Point}
    (h : readString cs = some (s, rest)) :
    rest.length < cs.length := by
  fun_induction readString cs generalizing s rest with
  | case1 => cases h
  | case2 tail =>
    have e : tail = rest := (Prod.mk.inj (Option.some.inj h)).2
    subst e; simp
  | case3 tail c mid hmid hlt ih =>
    obtain ⟨⟨s', r'⟩, hr, he⟩ := Option.map_eq_some_iff.1 h
    have e : r' = rest := (Prod.mk.inj he).2
    subst e
    have := ih hr
    simp only [List.length_cons]; omega
  | case4 => cases h
  | case5 e tail _ c _ ih =>
    obtain ⟨⟨s', r'⟩, hr, he⟩ := Option.map_eq_some_iff.1 h
    have e : r' = rest := (Prod.mk.inj he).2
    subst e
    have := ih hr
    simp only [List.length_cons]; omega
  | case6 => cases h
  | case7 => cases h
  | case8 c tail _ _ _ _ ih =>
    obtain ⟨⟨s', r'⟩, hr, he⟩ := Option.map_eq_some_iff.1 h
    have e : r' = rest := (Prod.mk.inj he).2
    subst e
    have := ih hr
    simp only [List.length_cons]; omega

/-- The whole number that ASCII digits write. -/
def digitsValue (ds : List Char) : Nat := ds.foldl (fun n d => 10 * n + (d.toNat - 48)) 0

/-- The digits of a whole number without superfluous leading zero, and what follows them. -/
def readWhole? : List Char → Option (List Char × List Char)
  | '0' :: rest => some (['0'], rest)
  | c :: rest =>
    if c.isDigit then some (c :: rest.takeWhile Char.isDigit, rest.dropWhile Char.isDigit) else none
  | [] => none

/-- The digits after a decimal point, and what follows them; none when there is no fraction. -/
def readFraction : List Char → List Char × List Char
  | '.' :: d :: rest =>
    if d.isDigit then (d :: rest.takeWhile Char.isDigit, rest.dropWhile Char.isDigit)
    else ([], '.' :: d :: rest)
  | cs => ([], cs)

/-- A decimal exponent after its mark and sign. -/
def readDigits? (cs : List Char) : Option (Nat × List Char) :=
  match cs.takeWhile Char.isDigit with
  | [] => none
  | ds => some (digitsValue ds, cs.dropWhile Char.isDigit)

/-- An exponent at the start of a text, and what follows it. -/
def readExponent? : List Char → Option (Int × List Char)
  | c :: rest =>
    if c == 'e' || c == 'E' then
      match rest with
      | '-' :: tail => (readDigits? tail).map fun (n, r) => (-(n : Int), r)
      | '+' :: tail => (readDigits? tail).map fun (n, r) => ((n : Int), r)
      | tail => (readDigits? tail).map fun (n, r) => ((n : Int), r)
    else none
  | [] => none

/-- A number without its sign, and what follows it: whole when it has neither fraction nor
    exponent, and then refused when it has too many digits. -/
def readMagnitude? (negative : Bool) (cs : List Char) : Option (Json × List Char) :=
  match readWhole? cs with
  | none => none
  | some (whole, rest) =>
    let (fraction, tail) := readFraction rest
    match fraction, readExponent? tail with
    | [], none =>
      let n : Int := digitsValue whole
      if Number.maxDigits < whole.length then none
      else some (.int (if negative then -n else n), tail)
    | _, none =>
      some (.real (.ofDecimal negative (digitsValue (whole ++ fraction)) (-fraction.length)), tail)
    | _, some (e, r) =>
      some (.real (.ofDecimal negative (digitsValue (whole ++ fraction)) (e - fraction.length)), r)

/-- The values that are written as words. -/
def words : List (String × Json) := [
  ("null", .null), ("true", .bool true), ("false", .bool false), ("NaN", .real .nan),
  ("Infinity", .real (.infinite false)), ("-Infinity", .real (.infinite true))]

/-- What follows a given start of a text. -/
def afterWord? (word cs : List Char) : Option (List Char) :=
  if word.isPrefixOf cs then some (cs.drop word.length) else none

/-- A word or number at the start of a text, and what follows it. -/
def readScalar? (cs : List Char) : Option (Json × List Char) :=
  match words.findSome? fun w => (afterWord? w.1.toList cs).map fun rest => (w.2, rest) with
  | some found => some found
  | none =>
    match cs with
    | '-' :: rest => readMagnitude? true rest
    | _ => readMagnitude? false cs

/-- The punctuation tokens. -/
def punctuation? (c : Char) : Option Token :=
  match c with
  | '\x7b' => some .openBrace
  | '\x7d' => some .closeBrace
  | '[' => some .openBracket
  | ']' => some .closeBracket
  | ':' => some .colon
  | ',' => some .comma
  | _ => none

/-- The token at the start of a text without blanks in front, and what follows it.  A token takes at
    least one character. -/
def Token.read? (cs : List Char) : Option (Token × List Char) :=
  match cs with
  | [] => none
  | c :: rest =>
    match punctuation? c with
    | some token => some (token, rest)
    | none =>
      if c == '"' then
        (readString rest).map fun (s, tail) => (.atom (.ofPoints s), tail)
      else match readScalar? (c :: rest) with
        | some (v, tail) => if tail.length < (c :: rest).length then some (.atom v, tail) else none
        | none => none

theorem Token.read?_length {cs tail : List Char} {t : Token} (h : Token.read? cs = some (t, tail)) :
    tail.length < cs.length := by
  unfold Token.read? at h
  split at h
  · cases h
  next c rest =>
    split at h
    · obtain ⟨-, rfl⟩ := Prod.mk.inj (Option.some.inj h)
      exact Nat.lt_succ_self _
    · split at h
      · obtain ⟨⟨s, tail'⟩, hread, heq⟩ := Option.map_eq_some_iff.1 h
        obtain ⟨-, rfl⟩ := Prod.mk.inj heq
        exact Nat.lt_succ_of_lt (readString_length hread)
      · split at h
        · split at h
          next hlt =>
            obtain ⟨-, rfl⟩ := Prod.mk.inj (Option.some.inj h)
            exact hlt
          next => cases h
        · cases h

/-- How many digits the whole number at the start of a text has, when they are too many. -/
def overlong? (cs : List Char) : Option Nat :=
  match readWhole? (match cs with | '-' :: rest => rest | _ => cs) with
  | none => none
  | some (whole, rest) =>
    let (fraction, tail) := readFraction rest
    if fraction.isEmpty && (readExponent? tail).isNone && Number.maxDigits < whole.length then
      some whole.length
    else none

end LuaAudit.Json
