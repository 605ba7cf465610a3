import LuaAudit.Json.Reader
import LuaAudit.Json.Writer
import LuaAudit.Proofs.Json.Number
import LuaAudit.Proofs.OrderedMap
import Mathlib.Algebra.Ring.Nat

/-!
# JSON written and read back

A value that can be stored is read back from what is written of it, in every layout that leaves
the characters as they are.  The proof goes through the tokens: the written text is cut into the
tokens of the value, and they lead the reader to the value.

* `Scans s ts`: a text that is cut into tokens, whatever follows it, and holds no carriage return;
  `ScansApart s ts`: one that is, unless a number goes on after it;
* `scans_renderText`: a quoted text, with its escapes, is one token;
* `scansApart_renderAt`: the text of a value is cut into its `tokens`;
* `delivered_of_within`: the tokens of a value hand it to the innermost frame;
* `read_render`: the value is read back;
* `encodingFault?_of_storable`: its text can be encoded.
-/

namespace LuaAudit.Text

theorem hexValue?_hexDigit {n : Nat} (h : n < 16) : hexValue? (hexDigit n) = some n := by
  decide +revert

theorem hexNumber?_hexDigits (width n : Nat) :
    hexNumber? (hexDigits width n) = some (n % 16 ^ width) := by
  induction width generalizing n with
  | zero => simp [hexDigits, hexNumber?, Nat.mod_one]
  | succ width ih =>
    have hlast := hexValue?_hexDigit (Nat.mod_lt n (show 0 < 16 by decide))
    have hsplit : n % 16 ^ (width + 1) = 16 * (n / 16 % 16 ^ width) + n % 16 := by
      rw [Nat.pow_succ', Nat.mod_mul, Nat.add_comm]
    unfold hexNumber? at ih ⊢
    rw [hexDigits, List.foldlM_append, ih, hsplit]
    simp [hlast]

end LuaAudit.Text

namespace LuaAudit.Json

/-! ### Strings -/

theorem readHex4?_hexDigits {n : Nat} (h : n < 0x10000) (rest : List Char) :
    readHex4? (Text.hexDigits 4 n ++ rest) = some (n, rest) := by
  have hvalue := Text.hexNumber?_hexDigits 4 n
  rw [Nat.mod_eq_of_lt (show n < 16 ^ 4 from h)] at hvalue
  simp only [Text.hexDigits, List.nil_append, List.cons_append] at hvalue ⊢
  rw [readHex4?, hvalue]
  rfl

/-- A character of a string is read back from its escape, whatever follows. -/
theorem readString_escapeChar (c : Char) (rest : List Char) :
    readString (escapeChar false c ++ rest) =
      (readString rest).map fun p => (.char c :: p.1, p.2) := by
  unfold escapeChar
  split
  case h_6 hquote hslash hfeed hreturn htab =>
    dsimp only
    split
    next hcode =>
      obtain rfl : c = Char.ofNat 8 := by rw [← hcode, Char.ofNat_toNat]
      simp [readString, escaped?]
    split
    next hcode =>
      obtain rfl : c = Char.ofNat 12 := by rw [← hcode, Char.ofNat_toNat]
      simp [readString, escaped?]
    split
    next hcode =>
      -- another control character: its four digits name a code unit that is no surrogate
      have hunit : readUnicode? (Text.hexDigits 4 c.toNat ++ rest) = some (.char c, rest) := by
        rw [readUnicode?, readHex4?_hexDigits (by omega)]
        simp only [unitPoint]
        rw [if_neg (by simp; omega), if_neg (by simp; omega), Char.ofNat_toNat]
      rw [unitEscape, List.cons_append, List.cons_append, readString]
      split
      next d tail hread =>
        rw [hunit] at hread
        cases hread
        rfl
      next hread =>
        rw [hunit] at hread
        cases hread
    next hcode =>
      rw [Bool.false_and, if_neg Bool.false_ne_true, List.singleton_append, readString]
      · rw [if_neg (by simpa using ⟨by omega, hslash⟩)]
      · exact hquote
      · exact fun _ h => absurd h hslash
      · exact fun _ _ h => absurd h hslash
  all_goals simp [readString, escaped?]

theorem readString_escaped (cs rest : List Char) :
    readString (cs.flatMap (escapeChar false) ++ '"' :: rest) = some (cs.map .char, rest) := by
  induction cs with
  | nil => simp [readString]
  | cons c cs ih =>
    rw [List.flatMap_cons, List.append_assoc, readString_escapeChar, ih]
    rfl

/-- Characters make a plain text. -/
theorem ofPoints_map_char (cs : List Char) : ofPoints (cs.map .char) = .str (String.ofList cs) := by
  have hall : (cs.map Point.char).all (·.char?.isSome) := by
    rw [List.all_map, List.all_eq_true]
    exact fun _ _ => rfl
  have hchars : (cs.map Point.char).filterMap Point.char? = cs := by
    rw [List.filterMap_map]
    exact List.filterMap_some
  rw [ofPoints, if_pos hall, hchars]

theorem return_notMem_escapeChar (c : Char) : '\r' ∉ escapeChar false c := by
  unfold escapeChar
  split
  case h_6 hquote hslash hfeed hreturn htab =>
    dsimp only
    split
    · decide
    split
    · decide
    split
    next hcode =>
      generalize c.toNat = n at hcode
      decide +revert
    · simpa [eq_comm] using hreturn
  all_goals decide

theorem return_notMem_append {s t : String} (hs : '\r' ∉ s.toList) (ht : '\r' ∉ t.toList) :
    '\r' ∉ (s ++ t).toList := by
  rw [String.toList_append, List.mem_append, not_or]
  exact ⟨hs, ht⟩

/-! ### Texts cut into tokens -/

/-- A text without carriage returns that is cut into some tokens, whatever follows it. -/
structure Scans (s : String) (ts : List Token) : Prop where
  scan : ∀ rest, Token.scan (s.toList ++ rest) = (Token.scan rest).map (ts ++ ·)
  plain : '\r' ∉ s.toList

theorem Scans.empty : Scans "" [] where
  scan rest := by simp
  plain := by simp

theorem Scans.append {s t : String} {ts us : List Token} (hs : Scans s ts) (ht : Scans t us) :
    Scans (s ++ t) (ts ++ us) where
  scan rest := by
    rw [String.toList_append, List.append_assoc, hs.scan, ht.scan, Option.map_map]
    simp [Function.comp_def]
  plain := return_notMem_append hs.plain ht.plain

/-- A text that is cut into some tokens, unless what follows continues a number at its end. -/
structure ScansApart (s : String) (ts : List Token) : Prop where
  scan : ∀ rest, Ends rest → Token.scan (s.toList ++ rest) = (Token.scan rest).map (ts ++ ·)
  plain : '\r' ∉ s.toList

theorem Scans.apart {s : String} {ts : List Token} (h : Scans s ts) : ScansApart s ts where
  scan rest _ := h.scan rest
  plain := h.plain

/-- A text that ends every number. -/
def Breaks (s : String) : Prop := ∃ c cs, s.toList = c :: cs ∧ endsNumber c

theorem Breaks.ends {s : String} (h : Breaks s) (rest : List Char) : Ends (s.toList ++ rest) := by
  obtain ⟨c, cs, hs, hc⟩ := h
  rw [hs]
  intro d hd
  obtain rfl := Option.some.inj hd
  exact hc

theorem Breaks.append {s : String} (h : Breaks s) (t : String) : Breaks (s ++ t) := by
  obtain ⟨c, cs, hs, hc⟩ := h
  exact ⟨c, cs ++ t.toList, by rw [String.toList_append, hs, List.cons_append], hc⟩

/-- A text that ends every number may follow. -/
theorem ScansApart.append {s t : String} {ts us : List Token} (hs : ScansApart s ts)
    (ht : Scans t us) (hbreak : Breaks t) : Scans (s ++ t) (ts ++ us) where
  scan rest := by
    rw [String.toList_append, List.append_assoc, hs.scan _ (hbreak.ends rest), ht.scan,
      Option.map_map]
    simp [Function.comp_def]
  plain := return_notMem_append hs.plain ht.plain

theorem Scans.append_apart {s t : String} {ts us : List Token} (hs : Scans s ts)
    (ht : ScansApart t us) : ScansApart (s ++ t) (ts ++ us) where
  scan rest hrest := by
    rw [String.toList_append, List.append_assoc, hs.scan, ht.scan rest hrest, Option.map_map]
    simp [Function.comp_def]
  plain := return_notMem_append hs.plain ht.plain

/-- A mark is one token. -/
theorem scans_mark {s : String} {c : Char} {t : Token} (hs : s.toList = [c])
    (hspace : isSpace c = false) (hmark : punctuation? c = some t) : Scans s [t] where
  scan rest := by
    have hread : Token.read? (c :: rest) = some (t, rest) := by
      rw [Token.read?, hmark]
    rw [hs, List.singleton_append, Token.scan_of_read? hspace hread]
    rfl
  plain := by
    rw [hs, List.mem_singleton]
    rintro rfl
    cases hspace

/-- Blanks and line feeds are no token. -/
theorem scans_blank {s : String} (h : ∀ c ∈ s.toList, c = ' ' ∨ c = '\n') : Scans s [] where
  scan rest := by
    generalize s.toList = cs at h
    induction cs with
    | nil => simp
    | cons c cs ih =>
      have hspace : isSpace c := by
        rcases h c List.mem_cons_self with rfl | rfl <;> rfl
      rw [List.cons_append, Token.scan_space hspace]
      exact ih fun d hd => h d (List.mem_cons_of_mem c hd)
  plain := fun hmem => by
    rcases h _ hmem with h | h <;> cases h

theorem scans_lineBreak (style : Style) (depth : Nat) : Scans (style.lineBreak depth) [] := by
  apply scans_blank
  unfold Style.lineBreak
  split <;> simp +contextual

theorem scans_separator (style : Style) (depth : Nat) :
    Scans (style.separator depth) [.comma] := by
  unfold Style.separator
  split
  · exact (scans_mark rfl rfl rfl).append (scans_lineBreak style depth)
  · exact (scans_mark (s := ",") (t := .comma) rfl rfl rfl).append
      (scans_blank (s := " ") (by simp))

theorem breaks_separator (style : Style) (depth : Nat) : Breaks (style.separator depth) := by
  unfold Style.separator
  split
  · exact Breaks.append ⟨',', [], rfl, rfl⟩ _
  · exact ⟨',', [' '], rfl, rfl⟩

/-- After the last member comes a line feed, or the bracket at once. -/
theorem breaks_lineBreak_append (style : Style) (depth : Nat) {right : String} (h : Breaks right) :
    Breaks (style.lineBreak depth ++ right) := by
  unfold Style.lineBreak
  split
  · exact Breaks.append (Breaks.append ⟨'\n', [], rfl, rfl⟩ _) _
  · rwa [String.empty_append]

section Members

variable {α : Type} {write : α → String} {cut : α → List Token}

/-- Members between separators. -/
theorem ScansApart.join {sep : String} (hsep : Scans sep [.comma]) (hbreak : Breaks sep)
    {members : List α} (h : ∀ a ∈ members, ScansApart (write a) (cut a)) :
    ScansApart (Text.joinWith sep (members.map write))
      ([Token.comma].intercalate (members.map cut)) := by
  unfold Text.joinWith
  induction members with
  | nil => exact Scans.empty.apart
  | cons a members ih =>
    have hfirst := h a List.mem_cons_self
    have hrest := ih fun b hb => h b (List.mem_cons_of_mem a hb)
    cases members with
    | nil => simpa using hfirst
    | cons b members =>
      rw [List.map_cons, List.map_cons, List.map_cons, List.map_cons,
        String.intercalate_cons_cons, List.intercalate_cons_cons]
      exact (hfirst.append hsep hbreak).append_apart hrest

/-- Members between brackets. -/
theorem ScansApart.surround (style : Style) (depth : Nat) {left right : String}
    {opening closing : Token} (hleft : Scans left [opening]) (hright : Scans right [closing])
    (hbreak : Breaks right) {members : List α} (h : ∀ a ∈ members, ScansApart (write a) (cut a)) :
    Scans (style.surround depth left right (members.map write))
      (opening :: [Token.comma].intercalate (members.map cut) ++ [closing]) := by
  unfold Style.surround
  split
  next hempty =>
    obtain rfl : members = [] := by simpa using hempty
    exact hleft.append hright
  · have hlines := scans_lineBreak style
    have hmembers := ScansApart.join (scans_separator style (depth + 1))
      (breaks_separator style (depth + 1)) h
    have hinner := (hleft.append (hlines (depth + 1))).append_apart hmembers
    have hall := hinner.append ((hlines depth).append hright)
      (breaks_lineBreak_append style depth hbreak)
    rw [← String.append_assoc] at hall
    simpa using hall

end Members

/-! ### Values -/

/-- No word or number starts with white space, a mark or a quote. -/
theorem lead_of_readScalar? {c : Char} {cs : List Char} {found : Json × List Char}
    (h : readScalar? (c :: cs) = some found) :
    isSpace c = false ∧ punctuation? c = none ∧ c ≠ '"' := by
  refine ⟨?_, ?_, ?_⟩
  · rw [Bool.eq_false_iff]
    intro hspace
    simp only [isSpace, Bool.or_eq_true, beq_iff_eq] at hspace
    rcases hspace with ((rfl | rfl) | rfl) | rfl <;> cases h
  · unfold punctuation?
    split
    case h_7 => rfl
    all_goals cases h
  · rintro rfl
    cases h

/-- A word or number is one token. -/
theorem scansApart_scalar {s : String} {v : Json}
    (hread : ∀ rest, Ends rest → readScalar? (s.toList ++ rest) = some (v, rest))
    (hplain : '\r' ∉ s.toList) : ScansApart s [.atom v] where
  scan rest hrest := by
    have hscalar := hread rest hrest
    obtain ⟨c, cs, hs⟩ : ∃ c cs, s.toList = c :: cs := by
      refine List.exists_cons_of_ne_nil fun hnil => ?_
      have := hread [] (by simp [Ends])
      rw [hnil] at this
      cases this
    rw [hs, List.cons_append] at hscalar ⊢
    obtain ⟨hspace, hmark, hquote⟩ := lead_of_readScalar? hscalar
    have hlength : rest.length < (c :: (cs ++ rest)).length := by
      rw [List.length_cons, List.length_append]
      omega
    have htoken : Token.read? (c :: (cs ++ rest)) = some (.atom v, rest) := by
      simp only [Token.read?, hmark, beq_eq_false_iff_ne.2 hquote, Bool.false_eq_true, if_false,
        hscalar, hlength, if_true]
    rw [Token.scan_of_read? hspace htoken]
    rfl
  plain := hplain

theorem scans_renderText (s : String) : Scans (renderText false s) [.atom (.str s)] where
  scan rest := by
    have htoken : Token.read? ('"' :: (s.toList.flatMap (escapeChar false) ++ '"' :: rest)) =
        some (.atom (.str s), rest) := by
      rw [Token.read?, show punctuation? '"' = none from rfl]
      simp only [beq_self_eq_true, if_true]
      rw [readString_escaped, Option.map_some, ofPoints_map_char, String.ofList_toList]
    rw [renderText, String.toList_ofList, List.cons_append, List.cons_append, List.append_assoc,
      List.singleton_append, Token.scan_of_read? (by decide) htoken]
    rfl
  plain := by
    simp [renderText, return_notMem_escapeChar]

mutual

/-- The tokens that write a value. -/
def tokens : Json → List Token
  | .arr items => .openBracket :: [Token.comma].intercalate (itemTokens items) ++ [.closeBracket]
  | .obj fields => .openBrace :: [Token.comma].intercalate (fieldTokens fields) ++ [.closeBrace]
  | v => [.atom v]

/-- The tokens of each member of a list. -/
def itemTokens : List Json → List (List Token)
  | [] => []
  | v :: vs => tokens v :: itemTokens vs

/-- The tokens of each member of an object. -/
def fieldTokens : List (String × Json) → List (List Token)
  | [] => []
  | (k, v) :: rest => (.atom (.str k) :: .colon :: tokens v) :: fieldTokens rest

end

theorem itemTokens_eq_map (items : List Json) : itemTokens items = items.map tokens := by
  induction items with
  | nil => rfl
  | cons v vs ih => rw [itemTokens, ih, List.map_cons]

theorem fieldTokens_eq_map (fields : List (String × Json)) :
    fieldTokens fields = fields.map fun f => .atom (.str f.1) :: .colon :: tokens f.2 := by
  induction fields with
  | nil => rfl
  | cons f rest ih => rw [fieldTokens, ih, List.map_cons]

theorem renderItems_eq_map (style : Style) (depth : Nat) (items : List Json) :
    renderItems style depth items = items.map (renderAt style depth) := by
  induction items with
  | nil => rfl
  | cons v vs ih => rw [renderItems, ih, List.map_cons]

theorem renderFields_eq_map (style : Style) (depth : Nat) (fields : List (String × Json)) :
    renderFields style depth fields =
      fields.map fun f => renderText style.ascii f.1 ++ ": " ++ renderAt style depth f.2 := by
  induction fields with
  | nil => rfl
  | cons f rest ih => rw [renderFields, ih, List.map_cons]

/-- The text of a value is cut into its tokens. -/
theorem scansApart_renderAt {style : Style} (hstyle : style.ascii = false) {v : Json}
    (hv : Storable v) (depth : Nat) : ScansApart (renderAt style depth v) (tokens v) := by
  -- members are written one level deeper, so the depth is free in the induction
  induction hv generalizing depth with
  | null =>
    rw [renderAt]
    exact scansApart_scalar (fun _ _ => rfl) (by decide)
  | bool b =>
    cases b with
    | false =>
      rw [renderAt]
      exact scansApart_scalar (fun _ _ => rfl) (by decide)
    | true =>
      rw [renderAt]
      exact scansApart_scalar (fun _ _ => rfl) (by decide)
  | int hdigits =>
    rw [renderAt]
    exact scansApart_scalar (fun _ => readScalar?_toString hdigits) (return_notMem_toString _)
  | real hrounded =>
    rw [renderAt]
    exact scansApart_scalar (fun _ => readScalar?_renderReal hrounded) (return_notMem_renderReal _)
  | str s =>
    rw [renderAt, hstyle]
    exact (scans_renderText s).apart
  | arr _ ih =>
    rw [renderAt, tokens, itemTokens_eq_map, renderItems_eq_map]
    exact (ScansApart.surround style depth (scans_mark rfl rfl rfl) (scans_mark rfl rfl rfl)
      ⟨']', [], rfl, rfl⟩ fun v hv => ih v hv (depth + 1)).apart
  | obj _ _ ih =>
    rw [renderAt, tokens, fieldTokens_eq_map, renderFields_eq_map, hstyle]
    refine (ScansApart.surround style depth (scans_mark rfl rfl rfl) (scans_mark rfl rfl rfl)
      ⟨'\x7d', [], rfl, rfl⟩ fun f hf => ?_).apart
    have hcolon : Scans ": " [.colon] :=
      (scans_mark (s := ":") rfl rfl rfl).append (scans_blank (s := " ") (by simp))
    exact ((scans_renderText f.1).append hcolon).append_apart (ih f hf (depth + 1))

/-! ### Tokens read -/

/-- Reading the tokens of a value hands it to the innermost frame, as long as no more frames are
    open than may be. -/
def Delivered (limit n : Nat) (v : Json) : Prop :=
  ∀ stack r', stack.length + n ≤ limit → Reader.give v stack = some r' →
    Reader.takeAll limit ⟨stack, .value⟩ (tokens v) = .ok (some r')

section Deliver

variable {limit : Nat} {stack : List Frame} {r r' : Reader} {t : Token} {ts : List Token}

/-- One token that is taken, and the rest. -/
theorem Reader.takeAll_of_step (hstep : r.step t = some r') (hlimit : r'.stack.length ≤ limit) :
    r.takeAll limit (t :: ts) = r'.takeAll limit ts := by
  rw [takeAll, take_eq_ok_iff.2 ⟨hstep, hlimit⟩]

theorem Reader.length_give {v : Json} (h : Reader.give v stack = some r') :
    r'.stack.length = stack.length := by
  unfold Reader.give at h
  split at h
  · obtain rfl := Option.some.inj h
    rfl
  · obtain rfl := Option.some.inj h
    rfl
  · obtain rfl := Option.some.inj h
    rfl
  · cases h

/-- No value starts with a closing bracket. -/
theorem takeAll_valueOrClose (v : Json) :
    Reader.takeAll limit ⟨stack, .valueOrClose⟩ (tokens v) =
      Reader.takeAll limit ⟨stack, .value⟩ (tokens v) := by
  cases v <;> rfl

/-- The members of a list are collected in reverse. -/
theorem takeAll_items {done : List Json} {expect : Expect} {n : Nat} {v : Json} {items : List Json}
    (hlimit : stack.length + (n + 1) ≤ limit)
    (hfirst : Reader.takeAll limit ⟨.list done :: stack, expect⟩ (tokens v) =
      .ok (some ⟨.list (v :: done) :: stack, .commaOrClose⟩))
    (h : ∀ w ∈ items, Delivered limit n w) :
    Reader.takeAll limit ⟨.list done :: stack, expect⟩
        ([Token.comma].intercalate ((v :: items).map tokens)) =
      .ok (some ⟨.list ((v :: items).reverse ++ done) :: stack, .commaOrClose⟩) := by
  -- only the first member may be read where a closing bracket could stand
  induction items generalizing v done expect with
  | nil => simpa using hfirst
  | cons w items ih =>
    have hsecond := h w List.mem_cons_self (.list (v :: done) :: stack) _
      (by rw [List.length_cons]; omega) rfl
    have hrest := ih hsecond fun u hu => h u (List.mem_cons_of_mem w hu)
    rw [List.map_cons, List.map_cons, List.intercalate_cons_cons, ← List.map_cons,
      List.append_assoc, Reader.takeAll_append hfirst, List.singleton_append,
      Reader.takeAll_of_step rfl (by rw [List.length_cons]; omega), hrest]
    simp

/-- So are the members of an object, each with its key. -/
theorem takeAll_fields (done : List (String × Json)) {expect : Expect} {n : Nat}
    {f : String × Json} {fields : List (String × Json)} (hlimit : stack.length + (n + 1) ≤ limit)
    (hexpect : expect = .key ∨ expect = .keyOrClose)
    (h : ∀ g ∈ f :: fields, Delivered limit n g.2) :
    Reader.takeAll limit ⟨.fields done :: stack, expect⟩ ([Token.comma].intercalate
        ((f :: fields).map fun g => .atom (.str g.1) :: .colon :: tokens g.2)) =
      .ok (some ⟨.fields ((f :: fields).reverse ++ done) :: stack, .commaOrClose⟩) := by
  have hlength : ∀ frame : Frame, (frame :: stack).length ≤ limit := fun frame => by
    rw [List.length_cons]
    omega
  have hone : ∀ done expect (g : String × Json), expect = .key ∨ expect = .keyOrClose →
      Delivered limit n g.2 → Reader.takeAll limit ⟨.fields done :: stack, expect⟩
        (.atom (.str g.1) :: .colon :: tokens g.2) =
      .ok (some ⟨.fields (g :: done) :: stack, .commaOrClose⟩) := by
    intro done expect g hexpect hg
    have hkey : Reader.step ⟨.fields done :: stack, expect⟩ (.atom (.str g.1)) =
        some ⟨.keyed done g.1 :: stack, .colon⟩ := by
      rcases hexpect with rfl | rfl <;> rfl
    rw [Reader.takeAll_of_step hkey (hlength _), Reader.takeAll_of_step rfl (hlength _)]
    exact hg (.keyed done g.1 :: stack) _ (by rw [List.length_cons]; omega) rfl
  induction fields generalizing f done expect with
  | nil => simpa using hone done expect f hexpect (h f List.mem_cons_self)
  | cons g fields ih =>
    have hfirst := hone done expect f hexpect (h f List.mem_cons_self)
    have hrest := ih (f :: done) (.inl rfl) fun u hu => h u (List.mem_cons_of_mem f hu)
    rw [List.map_cons] at hrest
    rw [List.map_cons, List.map_cons, List.intercalate_cons_cons, List.append_assoc,
      Reader.takeAll_append hfirst, List.singleton_append, Reader.takeAll_of_step rfl (hlength _),
      hrest]
    simp

/-- **The tokens of a value are read as the value.** -/
theorem delivered_of_within {n : Nat} {v : Json} (hv : Storable v) (hn : Within n v) :
    Delivered limit n v := by
  induction hn with
  | @leaf n v harr hobj =>
    intro stack r' hlimit hgive
    have htokens : tokens v = [.atom v] := by
      cases v <;> first | rfl | exact absurd rfl (harr _) | exact absurd rfl (hobj _)
    have hstep : Reader.step ⟨stack, .value⟩ (.atom v) = some r' := hgive
    rw [htokens, Reader.takeAll_of_step hstep (by rw [Reader.length_give hgive]; omega)]
    rfl
  | @arr n items _ ih =>
    intro stack r' hlimit hgive
    have hitems := fun w hw => ih w hw (storable_arr_iff.1 hv w hw)
    have hlength : (Frame.list [] :: stack).length ≤ limit := by
      rw [List.length_cons]
      omega
    rw [tokens, itemTokens_eq_map, List.cons_append, Reader.takeAll_of_step rfl hlength]
    have hclose : ∀ expect, expect = .valueOrClose ∨ expect = .commaOrClose →
        Reader.takeAll limit ⟨.list items.reverse :: stack, expect⟩ [.closeBracket] =
          .ok (some r') := by
      intro expect hexpect
      have hstep : Reader.step ⟨.list items.reverse :: stack, expect⟩ .closeBracket = some r' := by
        rcases hexpect with rfl | rfl <;> simp [Reader.step, Reader.close, hgive]
      rw [Reader.takeAll_of_step hstep (by rw [Reader.length_give hgive]; omega)]
      rfl
    cases items with
    | nil => exact hclose .valueOrClose (.inl rfl)
    | cons v items =>
      have hfirst := hitems v List.mem_cons_self (.list [] :: stack) _
        (by rw [List.length_cons]; omega) rfl
      rw [← takeAll_valueOrClose] at hfirst
      have hall := takeAll_items hlimit hfirst fun w hw => hitems w (List.mem_cons_of_mem v hw)
      rw [Reader.takeAll_append hall, List.append_nil]
      exact hclose .commaOrClose (.inr rfl)
  | @obj n fields _ ih =>
    intro stack r' hlimit hgive
    obtain ⟨hkeys, hvalues⟩ := storable_obj_iff.1 hv
    have hfields := fun f hf => ih f hf (hvalues f hf)
    have hlength : (Frame.fields [] :: stack).length ≤ limit := by
      rw [List.length_cons]
      omega
    -- no key occurs twice, so that no field replaces another
    have hobject : object fields = .obj fields := by
      rw [object, OrderedMap.foldl_putEntry hkeys, List.nil_append]
    rw [tokens, fieldTokens_eq_map, List.cons_append, Reader.takeAll_of_step rfl hlength]
    have hclose : ∀ expect, expect = .keyOrClose ∨ expect = .commaOrClose →
        Reader.takeAll limit ⟨.fields fields.reverse :: stack, expect⟩ [.closeBrace] =
          .ok (some r') := by
      intro expect hexpect
      have hstep : Reader.step ⟨.fields fields.reverse :: stack, expect⟩ .closeBrace = some r' := by
        rcases hexpect with rfl | rfl <;> simp [Reader.step, Reader.close, hobject, hgive]
      rw [Reader.takeAll_of_step hstep (by rw [Reader.length_give hgive]; omega)]
      rfl
    cases fields with
    | nil => exact hclose .keyOrClose (.inl rfl)
    | cons f fields =>
      have hall := takeAll_fields [] hlimit (.inr rfl) hfields
      rw [Reader.takeAll_append hall, List.append_nil]
      exact hclose .commaOrClose (.inr rfl)

end Deliver

/-! ### Values read back -/

theorem mem_of_mem_intercalate {α : Type} {sep : List α} {pieces : List (List α)} {a : α}
    (h : a ∈ sep.intercalate pieces) : a ∈ sep ∨ ∃ piece ∈ pieces, a ∈ piece := by
  induction pieces with
  | nil => cases h
  | cons piece pieces ih =>
    by_cases hlast : pieces = []
    · subst hlast
      rw [List.intercalate_singleton] at h
      exact .inr ⟨piece, List.mem_cons_self, h⟩
    · rw [List.intercalate_cons_of_ne_nil hlast, List.mem_append, List.mem_append] at h
      rcases h with (hpiece | hsep) | hrest
      · exact .inr ⟨piece, List.mem_cons_self, hpiece⟩
      · exact .inl hsep
      · exact (ih hrest).imp_right fun ⟨p, hp, ha⟩ => ⟨p, List.mem_cons_of_mem _ hp, ha⟩

/-- Between two brackets, no token is ragged if none of the members is. -/
theorem paired_of_mem_enclosed {left right : Token} {pieces : List (List Token)}
    (hleft : left.Paired) (hright : right.Paired)
    (hpieces : ∀ piece ∈ pieces, ∀ t ∈ piece, t.Paired) :
    ∀ t ∈ left :: [Token.comma].intercalate pieces ++ [right], t.Paired := by
  intro t ht
  rw [List.mem_append, List.mem_cons, List.mem_singleton] at ht
  rcases ht with (rfl | hmember) | rfl
  · exact hleft
  · rcases mem_of_mem_intercalate hmember with hcomma | ⟨piece, hpiece, ht⟩
    · obtain rfl := List.mem_singleton.1 hcomma
      exact nofun
    · exact hpieces piece hpiece t ht
  · exact hright

/-- No token of a value that can be stored is ragged. -/
theorem paired_of_mem_tokens {v : Json} (hv : Storable v) : ∀ t ∈ tokens v, t.Paired := by
  induction hv with
  | null | bool | int | real | str => exact List.forall_mem_singleton.2 nofun
  | arr _ ih =>
    rw [tokens, itemTokens_eq_map]
    exact paired_of_mem_enclosed nofun nofun (List.forall_mem_map.2 ih)
  | obj _ _ ih =>
    rw [tokens, fieldTokens_eq_map]
    refine paired_of_mem_enclosed nofun nofun (List.forall_mem_map.2 fun f hf => ?_)
    exact List.forall_mem_cons.2 ⟨nofun, List.forall_mem_cons.2 ⟨nofun, ih f hf⟩⟩

theorem scan_render {style : Style} (hstyle : style.ascii = false) {v : Json} (hv : Storable v) :
    Token.scan (render style v).toList = some (tokens v) := by
  have hscan := (scansApart_renderAt hstyle hv 0).scan [] (by simp [Ends])
  rw [List.append_nil] at hscan
  rw [render, hscan]
  simp [Token.scan]

/-- What is written of such a value is paired. -/
theorem paired_render {style : Style} (hstyle : style.ascii = false) {v : Json} (hv : Storable v) :
    Paired (render style v) := by
  intro ts hscan
  rw [scan_render hstyle hv] at hscan
  obtain rfl := Option.some.inj hscan
  exact paired_of_mem_tokens hv

/-- **Read back.**  A value is read back from its text, in every layout that leaves the characters
    as they are, unless it is nested too deep. -/
theorem read_render {style : Style} (hstyle : style.ascii = false) {limit : Depth} {v : Json}
    (hv : Storable v) (hdepth : Within limit.levels v) :
    read limit (render style v) = .ok (some v) := by
  have htake := delivered_of_within hv hdepth [] ⟨[], .finished v⟩ (Nat.zero_add _).le rfl
  exact read_eq_ok_iff.2 ⟨tokens v, _, scan_render hstyle hv, htake, rfl⟩

theorem itemHalves_eq_flatMap (items : List Json) : itemHalves items = items.flatMap halves := by
  induction items with
  | nil => rfl
  | cons v vs ih => rw [itemHalves, ih, List.flatMap_cons]

theorem fieldHalves_eq_flatMap (fields : List (String × Json)) :
    fieldHalves fields = fields.flatMap fun f => halves f.2 := by
  induction fields with
  | nil => rfl
  | cons f rest ih => rw [fieldHalves, ih, List.flatMap_cons]

/-- What can be stored can be encoded. -/
theorem encodingFault?_of_storable (style : Style) {v : Json} (hv : Storable v) :
    encodingFault? style v = none := by
  have hhalves : halves v = [] := by
    induction hv with
    | null | bool | int | real | str => rfl
    | arr _ ih => rw [halves, itemHalves_eq_flatMap, List.flatMap_eq_nil_iff.2 ih]
    | obj _ _ ih => rw [halves, fieldHalves_eq_flatMap, List.flatMap_eq_nil_iff.2 ih]
  rw [encodingFault?, hhalves]

theorem return_notMem_render {style : Style} (hstyle : style.ascii = false) {v : Json}
    (hv : Storable v) : '\r' ∉ (render style v).toList :=
  (scansApart_renderAt hstyle hv 0).plain

end LuaAudit.Json
