import LuaAudit.Proofs.Json.Written
import Mathlib.Data.List.Forall2

/-!
# Where a text shows in written JSON

Writing a value puts quotes around its texts and escapes some of their characters.  A text that
needs no escape and starts with a character of no other use, such as a tag, therefore stands in what
is written exactly when it stands in a text of the value.

* `Json.texts`: the texts of a value, keys included;
* `Bare needle`: a text that starts with `<` and needs no escape;
* `Shows needle s ts`: in `s`, whatever follows it, the needle stands where it stands in one of
  `ts`;
* `shows_renderText`, `shows_renderAt`: quoted texts and written values show their texts;
* `infix_render_iff`: so a needle is found in what is written of a value, or is not.
-/

namespace LuaAudit.Text

/-- What a text starts with reaches no character that it does not hold. -/
theorem prefix_of_notMem {needle : List Char} {c : Char} (hc : c ∉ needle) {a rest : List Char}
    (hin : needle <+: a ++ c :: rest) : needle <+: a := by
  by_contra hnot
  have hlong : a.length < needle.length := by
    by_contra hshort
    exact hnot (List.prefix_of_prefix_length_le hin (List.prefix_append a _) (by omega))
  have hover : a ++ [c] <+: needle := by
    refine List.prefix_of_prefix_length_le ?_ hin (by simpa using Nat.succ_le_of_lt hlong)
    rw [List.append_cons a c rest]
    exact List.prefix_append _ _
  exact hc (hover.subset (by simp))

end LuaAudit.Text

namespace LuaAudit.Json

/-! ### The texts of a value -/

mutual

/-- The texts of a value: strings and keys. -/
def texts : Json → List String
  | .str s => [s]
  | .ragged points => [String.ofList (points.map Point.toChar)]
  | .arr items => itemTexts items
  | .obj fields => fieldTexts fields
  | _ => []

/-- The texts of the members of a list. -/
def itemTexts : List Json → List String
  | [] => []
  | v :: vs => texts v ++ itemTexts vs

/-- The texts of the members of an object. -/
def fieldTexts : List (String × Json) → List String
  | [] => []
  | (k, v) :: rest => k :: texts v ++ fieldTexts rest

end

theorem itemTexts_eq_flatten (items : List Json) : itemTexts items = (items.map texts).flatten := by
  induction items with
  | nil => rfl
  | cons v vs ih => rw [itemTexts, ih, List.map_cons, List.flatten_cons]

theorem fieldTexts_eq_flatten (fields : List (String × Json)) :
    fieldTexts fields = (fields.map fun f => f.1 :: texts f.2).flatten := by
  induction fields with
  | nil => rfl
  | cons f rest ih => rw [fieldTexts, ih, List.map_cons, List.flatten_cons]

/-! ### Needles -/

/-- A text that starts with `<` and is written in a string as it is. -/
structure Bare (needle : List Char) : Prop where
  lead : needle.head? = some '<'
  unescaped : ∀ ascii, ∀ c ∈ needle, escapeChar ascii c = [c]

namespace Bare

variable {needle : List Char} (h : Bare needle)
include h

/-- No place before a `<` is a place of the needle. -/
theorem infix_append_iff {a : List Char} (ha : '<' ∉ a) (rest : List Char) :
    needle <:+: a ++ rest ↔ needle <:+: rest := by
  obtain ⟨tail, rfl⟩ := List.head?_eq_some_iff.1 h.lead
  induction a with
  | nil => rfl
  | cons c a ih =>
    rw [List.mem_cons, not_or] at ha
    rw [List.cons_append, List.infix_cons_iff, ih ha.2, or_iff_right]
    intro hlead
    exact ha.1 (List.cons_prefix_cons.1 hlead).1

theorem ne_nil : needle ≠ [] := by
  rintro rfl
  cases h.lead

/-- A character that is escaped is none of the needle's. -/
theorem notMem (ascii : Bool) {c : Char} (hc : escapeChar ascii c ≠ [c]) : c ∉ needle :=
  fun hmem => hc (h.unescaped ascii c hmem)

/-- Around a character that is none of the needle's, the needle stands on one side. -/
theorem infix_append_cons_iff {c : Char} (hc : c ∉ needle) (a rest : List Char) :
    needle <:+: a ++ c :: rest ↔ needle <:+: a ∨ needle <:+: rest := by
  constructor
  · intro hin
    induction a with
    | nil =>
      rcases List.infix_cons_iff.1 hin with hlead | hin
      · exact absurd (List.prefix_nil.1 (Text.prefix_of_notMem (a := []) hc hlead)) h.ne_nil
      · exact .inr hin
    | cons d a ih =>
      rw [List.cons_append] at hin
      rcases List.infix_cons_iff.1 hin with hlead | hin
      · exact .inl (Text.prefix_of_notMem (a := d :: a) hc hlead).isInfix
      · exact (ih hin).imp_left List.infix_cons
  · rintro (hin | hin)
    · exact hin.trans (List.prefix_append a _).isInfix
    · exact hin.trans ((List.suffix_cons c rest).trans (List.suffix_append a _)).isInfix

end Bare

/-! ### Escapes -/

theorem lt_notMem_hexDigits (width n : Nat) : '<' ∉ Text.hexDigits width n := by
  have hdigit : ∀ n < 16, Text.hexDigit n ≠ '<' := by decide
  induction width generalizing n with
  | zero => simp [Text.hexDigits]
  | succ width ih =>
    rw [Text.hexDigits, List.mem_append, List.mem_singleton, not_or]
    exact ⟨ih _, Ne.symm (hdigit _ (Nat.mod_lt n (by decide)))⟩

theorem lt_notMem_unitEscape (n : Nat) : '<' ∉ unitEscape n := by
  simp [unitEscape, lt_notMem_hexDigits]

/-- A character that is not written as it is has a backslash, and no `<` behind it. -/
theorem head?_escapeChar {ascii : Bool} {c : Char} (h : escapeChar ascii c ≠ [c]) :
    (escapeChar ascii c).head? = some '\\' ∧ '<' ∉ escapeChar ascii c := by
  revert h
  unfold escapeChar
  split
  case h_6 =>
    dsimp only
    split_ifs
    · exact fun _ => ⟨rfl, by decide⟩
    · exact fun _ => ⟨rfl, by decide⟩
    · exact fun _ => ⟨rfl, lt_notMem_unitEscape _⟩
    · exact fun _ => ⟨rfl, lt_notMem_unitEscape _⟩
    · exact fun _ => ⟨rfl, by simp [lt_notMem_unitEscape]⟩
    · exact absurd rfl
  all_goals
    intro _
    decide

/-- Signs that are written as the character they show, or else show none of the needle's and start
    with none of them, nor have a `<` behind it. -/
def Spelled {α : Type} (needle : List Char) (write : α → List Char) (shown : α → Char) : Prop :=
  ∀ a, write a = [shown a] ∨
    shown a ∉ needle ∧ '<' ∉ write a ∧ ∃ c rest, write a = c :: rest ∧ c ∉ needle

/-- A text starts with the needle where what is written of it does. -/
theorem Spelled.prefix_iff {α : Type} {needle : List Char} {write : α → List Char}
    {shown : α → Char} (hw : Spelled needle write shown) {part : List Char} (hpart : part ⊆ needle)
    (s : List α) :
    part <+: s.flatMap write ↔ part <+: s.map shown := by
  induction s generalizing part with
  | nil => simp
  | cons a s ih =>
    cases part with
    | nil => simp
    | cons d part =>
      obtain ⟨hd, hpart⟩ := List.cons_subset.1 hpart
      rw [List.flatMap_cons, List.map_cons, List.cons_prefix_cons]
      rcases hw a with ha | ⟨hshown, -, c, rest, ha, hc⟩
      · rw [ha, List.singleton_append, List.cons_prefix_cons, ih hpart]
      · -- The first character written would be the needle's, and so would the character shown.
        rw [ha, List.cons_append, List.cons_prefix_cons]
        refine iff_of_false ?_ ?_
        · rintro ⟨rfl, -⟩
          exact hc hd
        · rintro ⟨rfl, -⟩
          exact hshown hd

namespace Bare

variable {needle : List Char} (h : Bare needle)
include h

/-- Characters are spelled by their escapes. -/
theorem spelled_escapeChar (ascii : Bool) : Spelled needle (escapeChar ascii) id := by
  intro c
  by_cases hc : escapeChar ascii c = [c]
  · exact .inl hc
  · obtain ⟨hhead, hlt⟩ := head?_escapeChar hc
    obtain ⟨rest, hrest⟩ := List.head?_eq_some_iff.1 hhead
    exact .inr ⟨h.notMem ascii hc, hlt, '\\', rest, hrest, h.notMem ascii (by simp [escapeChar])⟩

theorem spelled_escapePoint {style : Style} (hstand : style.stand ∉ needle) :
    Spelled needle (escapePoint style) Point.toChar
  | .char c => h.spelled_escapeChar style.ascii c
  | .half unit => by
    have hshown : Char.ofNat 0xFFFD ∉ needle := h.notMem true (by decide)
    have hslash : '\\' ∉ needle := h.notMem true (by simp [escapeChar])
    refine .inr ⟨hshown, ?_⟩
    rw [escapePoint]
    split
    · exact ⟨lt_notMem_unitEscape unit, _, _, rfl, hslash⟩
    · refine ⟨?_, _, _, rfl, hstand⟩
      rw [List.mem_singleton]
      intro hlt
      exact hstand (hlt ▸ List.mem_of_mem_head? h.lead)

/-- Writing a text neither hides the needle nor makes one. -/
theorem infix_written_iff {α : Type} {write : α → List Char} {shown : α → Char}
    (hw : Spelled needle write shown) (s : List α) :
    needle <:+: s.flatMap write ↔ needle <:+: s.map shown := by
  induction s with
  | nil => rfl
  | cons a s ih =>
    rw [List.map_cons, List.infix_cons_iff, ← ih, ← List.map_cons,
      ← hw.prefix_iff (List.Subset.refl _) (a :: s), List.flatMap_cons]
    rcases hw a with ha | ⟨-, hlt, -⟩
    · rw [ha, List.singleton_append, List.infix_cons_iff]
    · have hskip := h.infix_append_iff hlt (s.flatMap write)
      rw [hskip, iff_or_self]
      intro hlead
      exact hskip.1 hlead.isInfix

end Bare

/-! ### Numbers -/

theorem lt_notMem_decimal (n : Nat) : '<' ∉ Number.decimal n := fun h =>
  absurd (Nat.isDigit_of_mem_toDigits (by decide) (by decide) h) (by decide)

theorem lt_notMem_int (n : Int) : '<' ∉ (toString n).toList := by
  cases n with
  | ofNat m =>
    show '<' ∉ m.repr.toList
    rw [Nat.toList_repr]
    exact lt_notMem_decimal m
  | negSucc m =>
    show '<' ∉ ("-" ++ (m + 1).repr).toList
    rw [String.toList_append, Nat.toList_repr, List.mem_append, not_or]
    exact ⟨by decide, lt_notMem_decimal (m + 1)⟩

theorem lt_notMem_positional (digits : Nat) (exponent : Int) :
    '<' ∉ Number.positional digits exponent := by
  have hdigits := lt_notMem_decimal digits
  have htake := fun k => mt (List.mem_of_mem_take (i := k)) hdigits
  have hdrop := fun k => mt (List.mem_of_mem_drop (i := k)) hdigits
  unfold Number.positional Number.zeros
  dsimp only
  split_ifs
  · simp [hdigits]
  · simp [htake, hdrop]
  · simp [hdigits]

theorem lt_notMem_scientific (digits : Nat) (exponent : Int) :
    '<' ∉ Number.scientific digits exponent := by
  have hdigits := lt_notMem_decimal digits
  unfold Number.scientific Number.zeros
  dsimp only
  -- The point stands behind the first of several digits.
  generalize Number.decimal digits = ds at hdigits ⊢
  match ds with
  | [] => split_ifs <;> simp [lt_notMem_decimal]
  | [d] => split_ifs <;> simpa [lt_notMem_decimal] using hdigits
  | d :: e :: rest => split_ifs <;> simpa [lt_notMem_decimal] using hdigits

theorem lt_notMem_renderReal (x : Number.Real) : '<' ∉ (renderReal x).toList := by
  cases x with
  | finite negative digits exponent =>
    have hmagnitude : '<' ∉ Number.magnitude digits exponent := by
      unfold Number.magnitude
      dsimp only
      split_ifs
      · decide
      · exact lt_notMem_positional digits exponent
      · exact lt_notMem_scientific digits exponent
    cases negative <;> simp [renderReal, Number.Real.text, hmagnitude]
  | infinite negative => cases negative <;> decide
  | nan => decide

/-! ### Written values -/

/-- In a text, whatever follows it, the needle stands where it stands in one of some texts. -/
def Shows (needle : List Char) (s : String) (ts : List String) : Prop :=
  ∀ rest, needle <:+: s.toList ++ rest ↔ (∃ t ∈ ts, needle <:+: t.toList) ∨ needle <:+: rest

section Shows

variable {needle : List Char}

theorem Shows.append {s t : String} {ts us : List String} (hs : Shows needle s ts)
    (ht : Shows needle t us) : Shows needle (s ++ t) (ts ++ us) := by
  intro rest
  rw [String.toList_append, List.append_assoc, hs, ht, ← or_assoc]
  simp only [List.mem_append, or_and_right, exists_or]

variable (h : Bare needle)
include h

/-- A text without `<` shows nothing. -/
theorem shows_plain {s : String} (hs : '<' ∉ s.toList) : Shows needle s [] := by
  intro rest
  rw [h.infix_append_iff hs]
  simp

/-- Signs in quotes show what they say. -/
theorem shows_quoted {α : Type} {write : α → List Char} {shown : α → Char}
    (hw : Spelled needle write shown) (signs : List α) :
    Shows needle (String.ofList ('"' :: signs.flatMap write ++ ['"']))
      [String.ofList (signs.map shown)] := by
  intro rest
  have hquote : '"' ∉ needle := h.notMem true (by simp [escapeChar])
  have hwritten : (String.ofList ('"' :: signs.flatMap write ++ ['"'])).toList ++ rest =
      ['"'] ++ (signs.flatMap write ++ '"' :: rest) := by
    simp
  rw [hwritten, h.infix_append_iff (by decide), h.infix_append_cons_iff hquote,
    h.infix_written_iff hw]
  simp

theorem shows_renderText (ascii : Bool) (s : String) : Shows needle (renderText ascii s) [s] := by
  have hquoted := shows_quoted h (h.spelled_escapeChar ascii) s.toList
  rwa [List.map_id, String.ofList_toList] at hquoted

theorem shows_lineBreak (style : Style) (depth : Nat) :
    Shows needle (style.lineBreak depth) [] := by
  apply shows_plain h
  unfold Style.lineBreak
  split <;> simp

theorem shows_separator (style : Style) (depth : Nat) :
    Shows needle (style.separator depth) [] := by
  unfold Style.separator
  split
  · exact (shows_plain h (by decide)).append (shows_lineBreak h style depth)
  · exact shows_plain h (by decide)

/-- Members between separators that show nothing. -/
theorem Shows.join {sep : String} (hsep : Shows needle sep []) {members : List String}
    {ts : List (List String)} (hmembers : List.Forall₂ (Shows needle) members ts) :
    Shows needle (Text.joinWith sep members) ts.flatten := by
  unfold Text.joinWith
  induction hmembers with
  | nil => exact shows_plain h (by simp)
  | @cons s t members ts hfirst hrest ih =>
    cases hrest with
    | nil => simpa using hfirst
    | cons hsecond hrest =>
      rw [String.intercalate_cons_cons, List.flatten_cons]
      have hall := (hfirst.append hsep).append ih
      rwa [List.append_nil] at hall

/-- Members between brackets that show nothing. -/
theorem Shows.surround (style : Style) (depth : Nat) {left right : String}
    (hleft : Shows needle left []) (hright : Shows needle right []) {members : List String}
    {ts : List (List String)} (hmembers : List.Forall₂ (Shows needle) members ts) :
    Shows needle (style.surround depth left right members) ts.flatten := by
  unfold Style.surround
  split
  next hempty =>
    obtain rfl : members = [] := by simpa using hempty
    cases hmembers
    exact hleft.append hright
  · have hbreak := shows_lineBreak h style
    have hjoined := Shows.join h (shows_separator h style (depth + 1)) hmembers
    simpa using (((hleft.append (hbreak (depth + 1))).append hjoined).append (hbreak depth)).append
      hright

end Shows

variable {needle : List Char}

mutual

/-- What is written of a value shows its texts. -/
theorem shows_renderAt (h : Bare needle) {style : Style} (hstand : style.stand ∉ needle)
    (depth : Nat) :
    (v : Json) → Shows needle (renderAt style depth v) v.texts
  | .null => shows_plain h (by rw [renderAt]; decide)
  | .bool true => shows_plain h (by rw [renderAt]; decide)
  | .bool false => shows_plain h (by rw [renderAt]; decide)
  | .int n => shows_plain h (lt_notMem_int n)
  | .real x => shows_plain h (lt_notMem_renderReal x)
  | .str s => shows_renderText h style.ascii s
  | .ragged points => shows_quoted h (h.spelled_escapePoint hstand) points
  | .arr items => by
    rw [renderAt, texts, itemTexts_eq_flatten]
    exact Shows.surround h style depth (shows_plain h (by decide)) (shows_plain h (by decide))
      (shows_renderItems h hstand (depth + 1) items)
  | .obj fields => by
    rw [renderAt, texts, fieldTexts_eq_flatten]
    exact Shows.surround h style depth (shows_plain h (by decide)) (shows_plain h (by decide))
      (shows_renderFields h hstand (depth + 1) fields)

theorem shows_renderItems (h : Bare needle) {style : Style} (hstand : style.stand ∉ needle)
    (depth : Nat) :
    (items : List Json) →
    List.Forall₂ (Shows needle) (renderItems style depth items) (items.map texts)
  | [] => .nil
  | v :: vs => .cons (shows_renderAt h hstand depth v) (shows_renderItems h hstand depth vs)

theorem shows_renderFields (h : Bare needle) {style : Style} (hstand : style.stand ∉ needle)
    (depth : Nat) :
    (fields : List (String × Json)) →
    List.Forall₂ (Shows needle) (renderFields style depth fields)
      (fields.map fun f => f.1 :: texts f.2)
  | [] => .nil
  | (k, v) :: rest => by
    have hcolon : Shows needle ": " [] := shows_plain h (by decide)
    exact .cons (((shows_renderText h style.ascii k).append hcolon).append
      (shows_renderAt h hstand depth v)) (shows_renderFields h hstand depth rest)

end

/-- **A bare text shows.**  It stands in what is written of a value exactly when it stands in a text
    of the value, in every layout. -/
theorem infix_render_iff (h : Bare needle) {style : Style} (hstand : style.stand ∉ needle)
    (v : Json) :
    needle <:+: (v.render style).toList ↔ ∃ t ∈ v.texts, needle <:+: t.toList := by
  have hshown := shows_renderAt h hstand 0 v []
  rwa [List.append_nil, List.infix_nil, or_iff_left h.ne_nil] at hshown

end LuaAudit.Json
