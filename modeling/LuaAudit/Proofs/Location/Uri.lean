import LuaAudit.Proofs.Json.Written
import LuaAudit.Proofs.Location.Url
import LuaAudit.Proofs.Text.Read
import LuaAudit.Proofs.Text.Utf8

/-!
# Files and their URLs

The URL of a file says which file it is: the escapes in it are read back as the bytes of the path,
and the path as written is read back as its components.

* `Percent.decode_encode`: an escaped text is read back, since the bytes that it writes are those of
  the text;
* `Path.IsPlain`: absolute paths with names for components;
* `Path.IsPlain.parse_text`: such a path is read back from the way it is written, so
  `Path.joinWith_inj`: its components are told apart;
* `Path.IsPlain.writes_fileUri`: the URL of a file writes the path of the file, so
  `Path.IsPlain.eq_of_fileUri`: two paths with the same URL are the same.
-/

namespace LuaAudit.Location

/-! ### Escapes -/

namespace Percent

/-- A digit of an escape keeps its value in upper case. -/
theorem hexValue?_toUpper_hexDigit {n : Nat} (h : n < 16) :
    Text.hexValue? (Text.hexDigit n).toUpper = some n := by
  decide +revert

/-- An escape is read as the byte it was written for. -/
theorem bytesOf_escapeByte (b : UInt8) (cs : List Char) :
    bytesOf (escapeByte b ++ cs) = b :: bytesOf cs := by
  have hlt := b.toNat_lt
  have hhigh := hexValue?_toUpper_hexDigit (show b.toNat / 16 % 16 < 16 by omega)
  have hlow := hexValue?_toUpper_hexDigit (show b.toNat % 16 < 16 by omega)
  have hbyte : 16 * (b.toNat / 16 % 16) + b.toNat % 16 = b.toNat := by omega
  show bytesOf ('%' :: (Text.hexDigit (b.toNat / 16 % 16)).toUpper ::
    (Text.hexDigit (b.toNat % 16)).toUpper :: cs) = _
  rw [bytesOf, hhigh, hlow]
  dsimp only
  rw [hbyte, Nat.toUInt8_eq, UInt8.ofNat_toNat]

theorem bytesOf_escapes (bs : List UInt8) (cs : List Char) :
    bytesOf (bs.flatMap escapeByte ++ cs) = bs ++ bytesOf cs := by
  induction bs with
  | nil => rfl
  | cons b bs ih =>
    rw [List.flatMap_cons, List.append_assoc, bytesOf_escapeByte, ih]
    rfl

/-- A safe character has one byte. -/
theorem toNat_lt_of_isPathSafe {c : Char} (h : isPathSafe c = true) : c.toNat < 0x80 := by
  unfold isPathSafe at h
  rw [Bool.or_eq_true, List.contains_iff_mem] at h
  rcases h with halnum | hmark
  · exact Text.toNat_lt_of_isAlphanum halnum
  · simp only [List.mem_cons, List.not_mem_nil, or_false] at hmark
    rcases hmark with rfl | rfl | rfl | rfl | rfl <;> decide

theorem encodeChar_of_lt {c : Char} (h : c.toNat < 0x80) :
    Text.Utf8.encodeChar c = [c.toNat.toUInt8] := by
  simp [Text.Utf8.encodeChar, h]

theorem bytesOf_cons {c : Char} (h : c ≠ '%') (cs : List Char) :
    bytesOf (c :: cs) = c.toNat.toUInt8 :: bytesOf cs := by
  rw [bytesOf]
  rintro a b rest rfl
  exact absurd rfl h

/-- **Escapes are read back**: they write the bytes of the text. -/
theorem bytesOf_encode (cs : List Char) :
    bytesOf (encode isPathSafe cs) = Text.Utf8.encode cs := by
  induction cs with
  | nil => simp [encode, bytesOf, Text.Utf8.encode]
  | cons c cs ih =>
    show bytesOf (encodeChar isPathSafe c ++ encode isPathSafe cs) =
      Text.Utf8.encodeChar c ++ Text.Utf8.encode cs
    unfold encodeChar
    split
    next hsafe =>
      have hpercent : c ≠ '%' := by
        rintro rfl
        exact absurd hsafe (by decide)
      rw [encodeChar_of_lt (toNat_lt_of_isPathSafe hsafe), ← ih]
      exact bytesOf_cons hpercent _
    next => rw [bytesOf_escapes, ih]

/-- What an escaped text is made of. -/
theorem safe_or_percent_of_mem_encode {cs : List Char} {c : Char}
    (h : c ∈ encode isPathSafe cs) : isPathSafe c = true ∨ c = '%' := by
  obtain ⟨d, -, hc⟩ := List.mem_flatMap.1 h
  unfold encodeChar at hc
  split at hc
  next hsafe =>
    obtain rfl := List.mem_singleton.1 hc
    exact .inl hsafe
  next =>
    obtain ⟨b, -, hc⟩ := List.mem_flatMap.1 hc
    rcases List.mem_cons.1 hc with rfl | hc
    · exact .inr rfl
    · -- The two digits of an escape are letters and digits.
      have hdigit : ∀ n < 16, isPathSafe (Text.hexDigit n).toUpper = true := by decide
      have hdigits : (Text.hexDigits 2 b.toNat).map Char.toUpper =
          [(Text.hexDigit (b.toNat / 16 % 16)).toUpper,
            (Text.hexDigit (b.toNat % 16)).toUpper] := rfl
      simp only [hdigits, List.mem_cons, List.not_mem_nil, or_false] at hc
      rcases hc with rfl | rfl
      · exact .inl (hdigit _ (Nat.mod_lt _ (by decide)))
      · exact .inl (hdigit _ (Nat.mod_lt _ (by decide)))

theorem ne_of_mem_encode {cs : List Char} {c d : Char} (h : c ∈ encode isPathSafe cs)
    (hd : isPathSafe d = false) (hpercent : d ≠ '%') : c ≠ d := by
  rintro rfl
  rcases safe_or_percent_of_mem_encode h with hsafe | rfl
  · rw [hd] at hsafe
    cases hsafe
  · exact hpercent rfl

/-- ASCII characters are read as one run. -/
theorem decodeFrom_of_ascii {cs : List Char} (h : ∀ c ∈ cs, c.toNat < 128) (run : List Char) :
    decodeFrom run cs = Text.Utf8.decodeLossy (bytesOf (run.reverse ++ cs)) := by
  induction cs generalizing run with
  | nil => rw [decodeFrom, List.append_nil]
  | cons c cs ih =>
    rw [List.forall_mem_cons] at h
    rw [decodeFrom, if_pos h.1, ih h.2, List.reverse_cons, List.append_assoc, List.singleton_append]

/-- **An escaped text is read back.** -/
theorem decode_encode (cs : List Char) : decode (encode isPathSafe cs) = cs := by
  have hascii : ∀ c ∈ encode isPathSafe cs, c.toNat < 128 := by
    intro c hc
    rcases safe_or_percent_of_mem_encode hc with hsafe | rfl
    · exact toNat_lt_of_isPathSafe hsafe
    · decide
  rw [decode, decodeFrom_of_ascii hascii, List.reverse_nil, List.nil_append, bytesOf_encode,
    Text.Utf8.decodeLossy_encode]

end Percent

/-! ### Written paths -/

/-- A name that a file or directory may have. -/
structure IsName (name : String) : Prop where
  ne_empty : name ≠ ""
  ne_dot : name ≠ "."
  slash : '/' ∉ name.toList

instance (name : String) : Decidable (IsName name) :=
  decidable_of_iff (name ≠ "" ∧ name ≠ "." ∧ '/' ∉ name.toList)
    ⟨fun h => ⟨h.1, h.2.1, h.2.2⟩, fun h => ⟨h.ne_empty, h.ne_dot, h.slash⟩⟩

/-- An absolute path whose components are names. -/
structure Path.IsPlain (p : Path) : Prop where
  absolute : p.isAbsolute = true
  names : ∀ name ∈ p.parts, IsName name

instance (p : Path) : Decidable p.IsPlain :=
  decidable_of_iff (p.isAbsolute = true ∧ ∀ name ∈ p.parts, IsName name)
    ⟨fun h => ⟨h.1, h.2⟩, fun h => ⟨h.absolute, h.names⟩⟩

namespace Path

theorem toList_text (parts : List String) :
    (Path.mk .root parts).text.toList = '/' :: ['/'].intercalate (parts.map String.toList) := by
  simp [text, Anchor.text, Text.joinWith, String.toList_intercalate]

theorem toList_text_doubleRoot (parts : List String) :
    (Path.mk .doubleRoot parts).text.toList =
      '/' :: '/' :: ['/'].intercalate (parts.map String.toList) := by
  simp [text, Anchor.text, Text.joinWith, String.toList_intercalate]

/-- A slash at the start of a path leads to no component. -/
theorem partsOf_slash (cs : List Char) : partsOf ('/' :: cs) = partsOf cs := by
  unfold partsOf
  rw [Text.splitOn, if_pos (by decide), List.map_cons, List.filter_cons_of_neg (by decide)]

/-- The components between the slashes. -/
theorem partsOf_intercalate {parts : List String} (h : ∀ name ∈ parts, IsName name) :
    partsOf (['/'].intercalate (parts.map String.toList)) = parts := by
  have hkeep : parts.filter (fun p => decide (p ≠ "" ∧ p ≠ ".")) = parts := by
    rw [List.filter_eq_self]
    intro name hname
    exact decide_eq_true ⟨(h name hname).ne_empty, (h name hname).ne_dot⟩
  unfold partsOf
  rw [Text.splitOn_eq]
  cases hparts : parts with
  | nil => rfl
  | cons first rest =>
    have hslash : ∀ cs ∈ parts.map String.toList, '/' ∉ cs := by
      rw [List.forall_mem_map]
      exact fun name hname => (h name hname).slash
    rw [← hparts, List.splitOn_intercalate '/' hslash (by simp [hparts]), List.map_map]
    simp only [Function.comp_def, String.ofList_toList, List.map_id']
    exact hkeep

/-- Components between slashes do not start with a slash. -/
theorem intercalate_ne_slash {parts : List String} (h : ∀ name ∈ parts, IsName name)
    (cs : List Char) : ['/'].intercalate (parts.map String.toList) ≠ '/' :: cs := by
  cases parts with
  | nil => simp
  | cons first rest =>
    have hfirst := h first List.mem_cons_self
    obtain ⟨c, tail, htail⟩ : ∃ c tail, first.toList = c :: tail :=
      List.exists_cons_of_ne_nil fun hnil => hfirst.ne_empty (String.toList_eq_nil_iff.1 hnil)
    have hc : c ≠ '/' := by
      rintro rfl
      exact hfirst.slash (htail ▸ List.mem_cons_self)
    have hhead : ∃ more, ['/'].intercalate ((first :: rest).map String.toList) = c :: more := by
      rw [List.map_cons, htail]
      cases rest with
      | nil => exact ⟨tail, by simp⟩
      | cons second rest => exact ⟨_, by rw [List.map_cons, List.intercalate_cons_cons]; rfl⟩
    obtain ⟨more, hmore⟩ := hhead
    rw [hmore]
    exact fun heq => hc (List.cons.inj heq).1

/-- **A path is read back** from the way it is written. -/
theorem IsPlain.parse_text {p : Path} (h : p.IsPlain) : Path.parse p.text = p := by
  obtain ⟨anchor, parts⟩ := p
  have hnames : ∀ name ∈ parts, IsName name := h.names
  have hslash := intercalate_ne_slash hnames
  cases anchor with
  | relative => exact absurd h.absolute (by simp [isAbsolute])
  | root =>
    rw [parse, toList_text, partsOf_slash, partsOf_intercalate hnames, anchorOf]
    · exact fun cs => hslash _
    · exact fun cs => hslash _
  | doubleRoot =>
    rw [parse, toList_text_doubleRoot, partsOf_slash, partsOf_slash, partsOf_intercalate hnames,
      anchorOf]
    exact fun cs => hslash _

theorem parse_text {parts : List String} (h : ∀ name ∈ parts, IsName name) :
    Path.parse (Path.mk .root parts).text = ⟨.root, parts⟩ :=
  IsPlain.parse_text ⟨rfl, h⟩

/-- Names that are joined by slashes are told apart. -/
theorem joinWith_inj {parts parts' : List String} (h : ∀ name ∈ parts, IsName name)
    (h' : ∀ name ∈ parts', IsName name) (heq : Text.joinWith "/" parts = Text.joinWith "/" parts') :
    parts = parts' := by
  have htext : (Path.mk .root parts).text = (Path.mk .root parts').text := by
    simp [text, heq]
  have hparsed := parse_text h
  rw [htext, parse_text h'] at hparsed
  exact (Path.mk.inj hparsed).2.symm

end Path

/-! ### File URLs -/

section FileUri

variable {p : Path}

/-- An absolute path is written with a slash first. -/
theorem Path.exists_text_eq (h : p.isAbsolute = true) : ∃ cs, p.text.toList = '/' :: cs := by
  obtain ⟨anchor, parts⟩ := p
  cases anchor with
  | relative => exact absurd h (by simp [isAbsolute])
  | root => exact ⟨_, toList_text parts⟩
  | doubleRoot => exact ⟨_, toList_text_doubleRoot parts⟩

/-- The URL of a file reads as a file URL, and its rest is the escaped path. -/
theorem reads_fileUri (h : p.isAbsolute = true) :
    Url.Reads (fileUri p) (some "file".toList) (some [])
      (Percent.encode Percent.isPathSafe p.text.toList) := by
  have hchars : (fileUri p).toList =
      ['f', 'i', 'l', 'e'] ++ ':' :: '/' :: '/' ::
        Percent.encode Percent.isPathSafe p.text.toList := by
    simp [fileUri]
  -- No character of the scheme, and no escaped one, is a tab or a line end.
  have hkept : ∀ c ∈ Percent.encode Percent.isPathSafe p.text.toList,
      (c != '\t' && c != '\r' && c != '\n') = true := by
    intro c hc
    have hne : ∀ d, Percent.isPathSafe d = false → d ≠ '%' → c ≠ d :=
      fun d => Percent.ne_of_mem_encode hc
    simp [hne '\t' (by decide) (by decide), hne '\r' (by decide) (by decide),
      hne '\n' (by decide) (by decide)]
  have hclean : Url.clean (fileUri p) = (fileUri p).toList := by
    unfold Url.clean
    rw [hchars, List.cons_append, List.dropWhile_cons_of_neg (by decide)]
    refine List.filter_eq_self.2 ?_
    simpa using hkept
  refine ⟨_, ?_, .given (by simp) fun c hc => ?_⟩
  · rw [hclean, hchars]
    exact .named ⟨by decide, by decide⟩
  · obtain ⟨cs, hcs⟩ := Path.exists_text_eq h
    rw [hcs] at hc
    obtain rfl : '/' = c := Option.some.inj hc
    rfl

/-- An escaped path holds no query and no fragment. -/
theorem pathOf_encode (cs : List Char) :
    Url.pathOf (Percent.encode Percent.isPathSafe cs) = Percent.encode Percent.isPathSafe cs := by
  refine List.takeWhile_eq_self_iff.2 fun c hc => ?_
  simp [Percent.ne_of_mem_encode (d := '?') hc (by decide) (by decide),
    Percent.ne_of_mem_encode (d := '#') hc (by decide) (by decide)]

/-- **The URL of a file writes its path.** -/
theorem Path.IsPlain.writes_fileUri (h : p.IsPlain) : Writes (fileUri p) p := by
  have hwrites : Writes (fileUri p) _ := .url (reads_fileUri h.absolute) (by decide) rfl
  rwa [pathOf_encode, Percent.decode_encode, String.ofList_toList, h.parse_text] at hwrites

/-- An absolute path needs no home directory. -/
theorem expandUser_of_isAbsolute (h : p.isAbsolute = true) (homes : Homes) :
    p.expandUser homes = .ok p := by
  unfold Path.expandUser
  split
  next hanchor _ => exact absurd h (by simp [Path.isAbsolute, hanchor])
  next hanchor _ => exact absurd h (by simp [Path.isAbsolute, hanchor])
  next => rfl

theorem Path.IsPlain.localPath_fileUri (h : p.IsPlain) (homes : Homes) :
    isLocal (fileUri p) = .ok true ∧ localPath homes (fileUri p) = .ok p := by
  obtain ⟨hlocal, hpath⟩ := h.writes_fileUri.isLocal_eq
  rw [hpath homes, expand, expandUser_of_isAbsolute h.absolute homes]
  exact ⟨hlocal, rfl⟩

/-- **The URL of a file** says which file it is. -/
theorem Path.IsPlain.eq_of_fileUri {q : Path} (hp : p.IsPlain) (hq : q.IsPlain)
    (heq : fileUri p = fileUri q) : p = q := by
  have hpath := (hp.localPath_fileUri { own := ⟨.root, []⟩ }).2
  rw [heq, (hq.localPath_fileUri { own := ⟨.root, []⟩ }).2] at hpath
  exact (Except.ok.inj hpath).symm

end FileUri

theorem fileUri_inj {parts parts' : List String} (h : ∀ name ∈ parts, IsName name)
    (h' : ∀ name ∈ parts', IsName name) (heq : fileUri ⟨.root, parts⟩ = fileUri ⟨.root, parts'⟩) :
    parts = parts' :=
  (Path.mk.inj (Path.IsPlain.eq_of_fileUri ⟨rfl, h⟩ ⟨rfl, h'⟩ heq)).2

end LuaAudit.Location
