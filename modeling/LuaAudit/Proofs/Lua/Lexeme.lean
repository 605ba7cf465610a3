import LuaAudit.Proofs.Lua.Bracket

/-!
# Lexemes

A Lua text falls into lexemes: comments, strings, and single characters of code.  This module says
which lexeme stands at the start of a text without scanning it, by fixed texts and first
occurrences.

* `Lexeme.Leads l rest`: `l` is the lexeme at the start of its own characters followed by `rest`;
* `Lexes t ls`: the lexemes `ls`, one after the other, make up the text `t`;
* `exists_lexes` and `lexes_unique`: every text falls into lexemes in exactly one way;
* `Lexes.decidable`: lexemes can be checked against a text.
-/

namespace LuaAudit.Lua

open Bracket (opener closer)

/-! ### The grammar -/

/-- What a short string is made of: single characters, and backslashes with the character after
    them. -/
inductive Item where
  | plain (c : Char)
  | escape (c : Char)
  deriving DecidableEq, Repr

/-- The characters of an item. -/
def Item.chars : Item → List Char
  | .plain c => [c]
  | .escape c => ['\\', c]

/-- A comment, a string or a character of code.  A comment or string that has no end of its own may
    run to the end of the text; it is then not `closed`. -/
inductive Lexeme where
  | code (c : Char)
  | lineComment (body : List Char)
  | blockComment (level : Nat) (body : List Char) (closed : Bool)
  | longString (level : Nat) (body : List Char) (closed : Bool)
  | shortString (quote : Char) (items : List Item) (closed : Bool)
  deriving DecidableEq, Repr

/-- The closing text of a region, which is there when the region is closed. -/
def ending (close : List Char) (closed : Bool) : List Char := if closed then close else []

@[simp] theorem ending_true (close : List Char) : ending close true = close := rfl

@[simp] theorem ending_false (close : List Char) : ending close false = [] := rfl

/-- The characters of the items of a short string. -/
def itemChars (items : List Item) : List Char := items.flatMap Item.chars

/-- The characters of a lexeme. -/
def Lexeme.chars : Lexeme → List Char
  | .code c => [c]
  | .lineComment body => '-' :: '-' :: body
  | .blockComment n body closed => '-' :: '-' :: (opener n ++ body ++ ending (closer n) closed)
  | .longString n body closed => opener n ++ body ++ ending (closer n) closed
  | .shortString q items closed => q :: (itemChars items ++ ending [q] closed)

/-- A region with this body ends here: at the first place where `close` stands, or at the end of the
    text when it stands nowhere. -/
def EndsFirst (close body : List Char) (closed : Bool) (rest : List Char) : Prop :=
  (closed = false → rest = []) ∧
    ∀ i < body.length, ¬ close <+: (body ++ ending close closed ++ rest).drop i

/-- Items of a string with quote `q` before the text `after`: no item is the quote itself, and a
    backslash stands alone only where no character follows it. -/
def ItemsLead (q : Char) : List Item → (after : List Char) → Prop
  | [], _ => True
  | .plain c :: items, after =>
    c ≠ q ∧ (c = '\\' → itemChars items ++ after = []) ∧ ItemsLead q items after
  | .escape _ :: items, after => ItemsLead q items after

/-- A lexeme is the one at the start of the text that it makes with `rest`.  A block comment goes
    before a line comment, and a character is code only where nothing else starts. -/
def Lexeme.Leads : Lexeme → (rest : List Char) → Prop
  | .blockComment n body closed, rest => EndsFirst (closer n) body closed rest
  | .lineComment body, rest =>
    (∀ n, ¬ opener n <+: body ++ rest) ∧ '\n' ∉ body ∧ (rest = [] ∨ ['\n'] <+: rest)
  | .longString n body closed, rest => EndsFirst (closer n) body closed rest
  | .shortString q items closed, rest =>
    (q = '\'' ∨ q = '"') ∧ (closed = false → rest = []) ∧
      ItemsLead q items (ending [q] closed ++ rest)
  | .code c, rest =>
    ¬ (c = '\'' ∨ c = '"') ∧ ¬ ['-', '-'] <+: c :: rest ∧ ∀ n, ¬ opener n <+: c :: rest

/-- A text read from left to right as a list of lexemes. -/
inductive Lexes : List Char → List Lexeme → Prop where
  | nil : Lexes [] []
  | cons {l : Lexeme} {rest : List Char} {ls : List Lexeme} (lead : l.Leads rest)
      (more : Lexes rest ls) : Lexes (l.chars ++ rest) (l :: ls)

/-! ### Every text has a first lexeme -/

/-- A region ends somewhere. -/
theorem exists_endsFirst (close s : List Char) :
    ∃ body closed rest, s = body ++ ending close closed ++ rest ∧
      EndsFirst close body closed rest := by
  induction s with
  | nil => exact ⟨[], false, [], rfl, fun _ => rfl, by simp⟩
  | cons c s ih =>
    by_cases hc : close <+: c :: s
    · obtain ⟨rest, hrest⟩ := hc
      exact ⟨[], true, rest, hrest.symm, by simp, by simp⟩
    · obtain ⟨body, closed, rest, hs, hrest, hfirst⟩ := ih
      refine ⟨c :: body, closed, rest, by rw [hs]; rfl, hrest, fun i hi => ?_⟩
      -- The closer does not stand at `c`, and in the rest it stands first where `ih` says.
      cases i with
      | zero => simpa [hs] using hc
      | succ i => exact hfirst i (by simpa using hi)

/-- A short string ends somewhere. -/
theorem exists_itemsLead (q : Char) (s : List Char) :
    ∃ items closed rest, s = itemChars items ++ ending [q] closed ++ rest ∧
      (closed = false → rest = []) ∧ ItemsLead q items (ending [q] closed ++ rest) := by
  -- An escape takes two characters, so the induction is on the length.
  induction h : s.length using Nat.strongRecOn generalizing s with
  | ind n ih =>
    match s with
    | [] => exact ⟨[], false, [], rfl, fun _ => rfl, trivial⟩
    | c :: s =>
      by_cases hq : c = q
      · exact ⟨[], true, s, by simp [itemChars, hq], by simp, trivial⟩
      · by_cases hb : c = '\\' ∧ s ≠ []
        · obtain ⟨rfl, hs⟩ := hb
          obtain ⟨e, s, rfl⟩ := List.exists_cons_of_ne_nil hs
          obtain ⟨items, closed, rest, hs, hrest, hitems⟩ :=
            ih s.length (by simp at h; omega) s rfl
          exact ⟨.escape e :: items, closed, rest, by rw [hs]; rfl, hrest, hitems⟩
        · obtain ⟨items, closed, rest, hs, hrest, hitems⟩ :=
            ih s.length (by simp at h; omega) s rfl
          refine ⟨.plain c :: items, closed, rest, by rw [hs]; rfl, hrest, hq, ?_, hitems⟩
          intro hc
          -- A backslash got here only because no character follows it.
          rw [← List.append_assoc, ← hs]
          exact Classical.byContradiction fun hne => hb ⟨hc, hne⟩

/-- A line comment ends somewhere. -/
theorem exists_lineEnd (s : List Char) :
    ∃ body rest, s = body ++ rest ∧ '\n' ∉ body ∧ (rest = [] ∨ ['\n'] <+: rest) := by
  induction s with
  | nil => exact ⟨[], [], rfl, by simp, .inl rfl⟩
  | cons c s ih =>
    by_cases hc : c = '\n'
    · exact ⟨[], c :: s, rfl, by simp, .inr ⟨s, by rw [hc]; rfl⟩⟩
    · obtain ⟨body, rest, rfl, hbody, hrest⟩ := ih
      exact ⟨c :: body, rest, rfl, by simpa [eq_comm] using ⟨hc, hbody⟩, hrest⟩

/-- **A lexeme at every place.**  A text that is not empty starts with a lexeme. -/
theorem exists_leads {s : List Char} (hs : s ≠ []) :
    ∃ (l : Lexeme) (rest : List Char), s = l.chars ++ rest ∧ l.Leads rest := by
  -- The kinds are tried in the order in which they go before one another.
  by_cases hcomment : ['-', '-'] <+: s
  · obtain ⟨t, rfl⟩ := hcomment
    by_cases hblock : ∃ n, opener n <+: t
    · obtain ⟨n, t, rfl⟩ := hblock
      obtain ⟨body, closed, rest, rfl, hends⟩ := exists_endsFirst (closer n) t
      exact ⟨.blockComment n body closed, rest, by simp [Lexeme.chars], hends⟩
    · obtain ⟨body, rest, rfl, hbody, hrest⟩ := exists_lineEnd t
      exact ⟨.lineComment body, rest, rfl, fun n hn => hblock ⟨n, hn⟩, hbody, hrest⟩
  · by_cases hlong : ∃ n, opener n <+: s
    · obtain ⟨n, t, rfl⟩ := hlong
      obtain ⟨body, closed, rest, rfl, hends⟩ := exists_endsFirst (closer n) t
      exact ⟨.longString n body closed, rest, by simp [Lexeme.chars], hends⟩
    · obtain ⟨c, t, rfl⟩ := List.exists_cons_of_ne_nil hs
      by_cases hq : c = '\'' ∨ c = '"'
      · obtain ⟨items, closed, rest, rfl, hrest, hitems⟩ := exists_itemsLead c t
        exact ⟨.shortString c items closed, rest, by simp [Lexeme.chars], hq, hrest, hitems⟩
      · exact ⟨.code c, t, rfl, hq, hcomment, fun n hn => hlong ⟨n, hn⟩⟩

/-! ### The first lexeme is determined by the text -/

/-- Whether a region is closed can be seen from what follows its body. -/
theorem closed_eq_of_ending_append {close rest rest' : List Char} {closed closed' : Bool}
    (hclose : close ≠ []) (hr : closed = false → rest = []) (hr' : closed' = false → rest' = [])
    (e : ending close closed ++ rest = ending close closed' ++ rest') : closed = closed' := by
  cases closed <;> cases closed'
  · rfl
  · rw [hr rfl] at e
    exact absurd (List.append_eq_nil_iff.1 e.symm).1 hclose
  · rw [hr' rfl] at e
    exact absurd (List.append_eq_nil_iff.1 e).1 hclose
  · rfl

/-- A region that ends first is no longer than another one of the same text. -/
theorem EndsFirst.length_le {close body body' rest rest' : List Char} {closed closed' : Bool}
    (h : EndsFirst close body closed rest) (h' : EndsFirst close body' closed' rest')
    (e : body ++ ending close closed ++ rest = body' ++ ending close closed' ++ rest') :
    body'.length ≤ body.length := by
  apply Nat.le_of_not_lt
  intro hlt
  cases closed with
  | true =>
    -- The closer of the shorter body stands inside the longer one.
    apply h'.2 body.length hlt
    rw [← e, List.append_assoc, List.drop_left]
    exact List.prefix_append close rest
  | false =>
    -- A body without an end takes the whole text, and none is longer.
    have hlen := congrArg List.length e
    simp only [h.1 rfl, ending_false, List.append_nil, List.length_append] at hlen
    omega

/-- A region of a text has one body. -/
theorem EndsFirst.unique {close body body' rest rest' : List Char} {closed closed' : Bool}
    (hclose : close ≠ []) (h : EndsFirst close body closed rest)
    (h' : EndsFirst close body' closed' rest')
    (e : body ++ ending close closed ++ rest = body' ++ ending close closed' ++ rest') :
    body = body' ∧ closed = closed' := by
  have hlen : body.length = body'.length :=
    Nat.le_antisymm (h'.length_le h e.symm) (h.length_le h' e)
  rw [List.append_assoc, List.append_assoc] at e
  obtain ⟨hbody, htail⟩ := List.append_inj e hlen
  exact ⟨hbody, closed_eq_of_ending_append hclose h.1 h'.1 htail⟩

/-- The text after the items of a string is empty or starts with the quote. -/
theorem ending_quote_append {q : Char} {rest : List Char} {closed : Bool}
    (hr : closed = false → rest = []) :
    ending [q] closed ++ rest = [] ∨ ∃ r, ending [q] closed ++ rest = q :: r := by
  cases closed with
  | true => exact .inr ⟨rest, rfl⟩
  | false => exact .inl (by rw [hr rfl]; rfl)

/-- Items do not start where the string ends. -/
theorem ItemsLead.eq_nil {q : Char} {items : List Item} {after s : List Char} (hq : q ≠ '\\')
    (h : ItemsLead q items after) (hs : s = [] ∨ ∃ r, s = q :: r)
    (e : itemChars items ++ after = s) : items = [] := by
  match items with
  | [] => rfl
  | .plain c :: items =>
    rcases hs with rfl | ⟨r, rfl⟩
    · simp [itemChars, Item.chars] at e
    · exact absurd (List.cons.inj e).1 h.1
  | .escape c :: items =>
    rcases hs with rfl | ⟨r, rfl⟩
    · simp [itemChars, Item.chars] at e
    · exact absurd (List.cons.inj e).1.symm hq

/-- The items of a string of a text are determined. -/
theorem ItemsLead.unique {q : Char} (hq : q ≠ '\\') {items items' : List Item}
    {after after' : List Char} (h : ItemsLead q items after) (h' : ItemsLead q items' after')
    (ha : after = [] ∨ ∃ r, after = q :: r) (ha' : after' = [] ∨ ∃ r, after' = q :: r)
    (e : itemChars items ++ after = itemChars items' ++ after') : items = items' := by
  induction items generalizing items' with
  | nil => exact (ItemsLead.eq_nil hq h' ha e.symm).symm
  | cons i items ih =>
    cases items' with
    | nil => exact ItemsLead.eq_nil hq h ha' e
    | cons i' items' =>
      cases i with
      | plain c =>
        cases i' with
        | plain c' =>
          obtain ⟨hc, htail⟩ := List.cons.inj e
          rw [hc, ih h.2.2 h'.2.2 htail]
        | escape c' =>
          -- A plain backslash has nothing after it, an escape has.
          obtain ⟨hc, htail⟩ := List.cons.inj e
          exact absurd ((h.2.1 hc).symm.trans htail) (by simp)
      | escape c =>
        cases i' with
        | plain c' =>
          obtain ⟨hc, htail⟩ := List.cons.inj e
          exact absurd (htail.trans (h'.2.1 hc.symm)) (by simp)
        | escape c' =>
          obtain ⟨hc, htail⟩ := List.cons.inj (List.cons.inj e).2
          have hitems' : ItemsLead q items' after' := h'
          rw [hc, ih h hitems' htail]

/-- The body of a line comment is all of the text before the line feed. -/
theorem takeWhile_lineEnd {body rest : List Char} (hbody : '\n' ∉ body)
    (hrest : rest = [] ∨ ['\n'] <+: rest) : (body ++ rest).takeWhile (· ≠ '\n') = body := by
  have hall : ∀ c ∈ body, decide (c ≠ '\n') = true := fun c hc =>
    decide_eq_true fun e => hbody (e ▸ hc)
  rw [List.takeWhile_append_of_pos hall]
  rcases hrest with rfl | ⟨r, rfl⟩ <;> simp

/-- Where `--` and an opener stand, the lexeme is a block comment of that level. -/
theorem Lexeme.Leads.eq_blockComment {l : Lexeme} {n : Nat} {rest s : List Char}
    (h : l.Leads rest) (e : l.chars ++ rest = '-' :: '-' :: (opener n ++ s)) :
    ∃ body closed, l = .blockComment n body closed ∧
      body ++ ending (closer n) closed ++ rest = s := by
  cases l with
  | code c => exact absurd ⟨opener n ++ s, e.symm⟩ h.2.1
  | lineComment body =>
    have htail : body ++ rest = opener n ++ s := by simpa [chars] using e
    exact absurd ⟨s, htail.symm⟩ (h.1 n)
  | blockComment m body closed =>
    have htail : opener m ++ (body ++ ending (closer m) closed ++ rest) = opener n ++ s := by
      simpa [chars] using e
    obtain ⟨rfl, hs⟩ := Bracket.opener_append_inj htail
    exact ⟨body, closed, rfl, hs⟩
  | longString m body closed => simp [chars, opener, Bracket.ofLevel] at e
  | shortString q items closed =>
    rcases h.1 with rfl | rfl <;> simp [chars] at e

/-- Where `--` and no opener stand, the lexeme is a line comment. -/
theorem Lexeme.Leads.eq_lineComment {l : Lexeme} {rest s : List Char} (h : l.Leads rest)
    (hs : ∀ n, ¬ opener n <+: s) (e : l.chars ++ rest = '-' :: '-' :: s) :
    ∃ body, l = .lineComment body ∧ body ++ rest = s := by
  cases l with
  | code c => exact absurd ⟨s, e.symm⟩ h.2.1
  | lineComment body => exact ⟨body, rfl, by simpa [chars] using e⟩
  | blockComment m body closed =>
    have htail : opener m ++ (body ++ ending (closer m) closed ++ rest) = s := by
      simpa [chars] using e
    exact absurd ⟨_, htail⟩ (hs m)
  | longString m body closed => simp [chars, opener, Bracket.ofLevel] at e
  | shortString q items closed =>
    rcases h.1 with rfl | rfl <;> simp [chars] at e

/-- Where an opener stands, the lexeme is a long string of that level. -/
theorem Lexeme.Leads.eq_longString {l : Lexeme} {n : Nat} {rest s : List Char} (h : l.Leads rest)
    (e : l.chars ++ rest = opener n ++ s) :
    ∃ body closed, l = .longString n body closed ∧
      body ++ ending (closer n) closed ++ rest = s := by
  cases l with
  | code c => exact absurd ⟨s, e.symm⟩ (h.2.2 n)
  | lineComment body => simp [chars, opener, Bracket.ofLevel] at e
  | blockComment m body closed => simp [chars, opener, Bracket.ofLevel] at e
  | longString m body closed =>
    have htail : opener m ++ (body ++ ending (closer m) closed ++ rest) = opener n ++ s := by
      simpa [chars] using e
    obtain ⟨rfl, hs⟩ := Bracket.opener_append_inj htail
    exact ⟨body, closed, rfl, hs⟩
  | shortString q items closed =>
    rcases h.1 with rfl | rfl <;> simp [chars, opener, Bracket.ofLevel] at e

/-- Where a quote stands, the lexeme is a short string. -/
theorem Lexeme.Leads.eq_shortString {l : Lexeme} {q : Char} {rest s : List Char}
    (h : l.Leads rest) (hq : q = '\'' ∨ q = '"') (e : l.chars ++ rest = q :: s) :
    ∃ items closed, l = .shortString q items closed ∧
      itemChars items ++ (ending [q] closed ++ rest) = s := by
  cases l with
  | code c => exact absurd ((List.cons.inj e).1 ▸ hq) h.1
  | lineComment body => rcases hq with rfl | rfl <;> simp [chars] at e
  | blockComment m body closed => rcases hq with rfl | rfl <;> simp [chars] at e
  | longString m body closed =>
    rcases hq with rfl | rfl <;> simp [chars, opener, Bracket.ofLevel] at e
  | shortString q' items closed =>
    obtain ⟨rfl, hs⟩ := List.cons.inj e
    exact ⟨items, closed, rfl, by rw [← hs]; exact (List.append_assoc _ _ _).symm⟩

/-- Where nothing else starts, the lexeme is a character of code. -/
theorem Lexeme.Leads.eq_code {l : Lexeme} {c : Char} {rest s : List Char} (h : l.Leads rest)
    (hc : (Lexeme.code c).Leads s) (e : l.chars ++ rest = c :: s) : l = .code c := by
  obtain ⟨hquote, hdash, hopen⟩ := hc
  cases l with
  | code c' => rw [(List.cons.inj e).1]
  | lineComment body => exact absurd ⟨body ++ rest, e⟩ hdash
  | blockComment m body closed => exact absurd ⟨_, e⟩ hdash
  | longString m body closed =>
    refine absurd ⟨body ++ ending (closer m) closed ++ rest, ?_⟩ (hopen m)
    rw [← e]; simp [chars]
  | shortString q items closed => exact absurd ((List.cons.inj e).1 ▸ h.1) hquote

/-- **One lexeme at every place.**  A text starts with at most one lexeme. -/
theorem Lexeme.Leads.unique {l l' : Lexeme} {rest rest' : List Char} (h : l.Leads rest)
    (h' : l'.Leads rest') (e : l.chars ++ rest = l'.chars ++ rest') : l = l' := by
  -- How the text starts fixes the kind of the other lexeme; where it ends is fixed by its kind.
  cases l with
  | code c => exact (h'.eq_code h e.symm).symm
  | lineComment body =>
    obtain ⟨body', rfl, hs⟩ := h'.eq_lineComment h.1 e.symm
    rw [← takeWhile_lineEnd h.2.1 h.2.2, ← hs, takeWhile_lineEnd h'.2.1 h'.2.2]
  | blockComment n body closed =>
    obtain ⟨body', closed', rfl, hs⟩ := h'.eq_blockComment (n := n)
      (s := body ++ ending (closer n) closed ++ rest) (by rw [← e]; simp [chars])
    obtain ⟨rfl, rfl⟩ := EndsFirst.unique (by simp [closer, Bracket.ofLevel]) h h' hs.symm
    rfl
  | longString n body closed =>
    obtain ⟨body', closed', rfl, hs⟩ := h'.eq_longString (n := n)
      (s := body ++ ending (closer n) closed ++ rest) (by rw [← e]; simp [chars])
    obtain ⟨rfl, rfl⟩ := EndsFirst.unique (by simp [closer, Bracket.ofLevel]) h h' hs.symm
    rfl
  | shortString q items closed =>
    obtain ⟨items', closed', rfl, hs⟩ := h'.eq_shortString h.1
      (s := itemChars items ++ (ending [q] closed ++ rest)) (by rw [← e]; simp [chars])
    have hq : q ≠ '\\' := by rcases h.1 with rfl | rfl <;> decide
    obtain rfl := ItemsLead.unique hq h.2.2 h'.2.2 (ending_quote_append h.2.1)
      (ending_quote_append h'.2.1) hs.symm
    rw [closed_eq_of_ending_append (by simp) h.2.1 h'.2.1 (List.append_cancel_left hs.symm)]

/-! ### Every text falls into lexemes in one way -/

/-- A lexeme has at least one character. -/
theorem Lexeme.chars_ne_nil (l : Lexeme) : l.chars ≠ [] := by
  cases l <;> simp [chars, opener, Bracket.ofLevel]

/-- Every text falls into lexemes. -/
theorem exists_lexes (t : List Char) : ∃ ls, Lexes t ls := by
  -- A lexeme takes one character or more, so the induction is on the length of the text.
  induction h : t.length using Nat.strongRecOn generalizing t with
  | ind n ih =>
    by_cases ht : t = []
    · exact ⟨[], ht ▸ .nil⟩
    · obtain ⟨l, rest, rfl, hlead⟩ := exists_leads ht
      have hpos := List.length_pos_iff.2 l.chars_ne_nil
      rw [List.length_append] at h
      obtain ⟨ls, hls⟩ := ih rest.length (by omega) rest rfl
      exact ⟨l :: ls, .cons hlead hls⟩

/-- A text falls into lexemes in at most one way. -/
theorem lexes_unique {t : List Char} {ls ls' : List Lexeme} (h : Lexes t ls) (h' : Lexes t ls') :
    ls = ls' := by
  induction h generalizing ls' with
  | nil =>
    -- The text is an index of `Lexes`: with a name for it the other decomposition can be opened.
    generalize ht : ([] : List Char) = t at h'
    cases h' with
    | nil => rfl
    | cons lead more => exact absurd (List.append_eq_nil_iff.1 ht.symm).1 (Lexeme.chars_ne_nil _)
  | @cons l rest ls lead more ih =>
    generalize ht : l.chars ++ rest = t at h'
    cases h' with
    | nil => exact absurd (List.append_eq_nil_iff.1 ht).1 l.chars_ne_nil
    | cons lead' more' =>
      obtain rfl := lead.unique lead' ht
      obtain rfl := List.append_cancel_left ht
      rw [ih more']

/-! ### Checking a reading -/

/-- Whether an opener of any level stands somewhere shows in what is read there. -/
instance (s : List Char) : Decidable (∀ n, ¬ opener n <+: s) :=
  decidable_of_iff _ (Bracket.openLevel?_eq_none_iff s)

instance (close body : List Char) (closed : Bool) (rest : List Char) :
    Decidable (EndsFirst close body closed rest) :=
  inferInstanceAs (Decidable (_ ∧ _))

instance ItemsLead.decidable (q : Char) : (items : List Item) → (after : List Char) →
    Decidable (ItemsLead q items after)
  | [], _ => .isTrue trivial
  | .plain c :: items, after =>
    have := ItemsLead.decidable q items after
    inferInstanceAs (Decidable (c ≠ q ∧ (c = '\\' → itemChars items ++ after = []) ∧
      ItemsLead q items after))
  | .escape _ :: items, after => ItemsLead.decidable q items after

instance (l : Lexeme) (rest : List Char) : Decidable (l.Leads rest) :=
  match l with
  | .blockComment _ _ _ => inferInstanceAs (Decidable (EndsFirst _ _ _ _))
  | .lineComment body => inferInstanceAs (Decidable ((∀ n, ¬ opener n <+: body ++ rest) ∧ _ ∧ _))
  | .longString _ _ _ => inferInstanceAs (Decidable (EndsFirst _ _ _ _))
  | .shortString _ _ _ => inferInstanceAs (Decidable (_ ∧ _ ∧ ItemsLead _ _ _))
  | .code _ => inferInstanceAs (Decidable (¬ _ ∧ _ ∧ ∀ n, ¬ opener n <+: _ :: rest))

theorem lexes_cons_iff {t : List Char} {l : Lexeme} {ls : List Lexeme} :
    Lexes t (l :: ls) ↔ l.chars <+: t ∧ l.Leads (t.drop l.chars.length) ∧
      Lexes (t.drop l.chars.length) ls := by
  constructor
  · intro h
    cases h with
    | cons lead more =>
      rw [List.drop_left]
      exact ⟨List.prefix_append _ _, lead, more⟩
  · rintro ⟨⟨rest, rfl⟩, lead, more⟩
    rw [List.drop_left] at lead more
    exact .cons lead more

/-- A list of lexemes can be checked against a text. -/
instance Lexes.decidable : (ls : List Lexeme) → (t : List Char) → Decidable (Lexes t ls)
  | [], t => decidable_of_iff (t = [])
      ⟨fun e => e ▸ .nil, fun h => by cases h; rfl⟩
  | l :: ls, t =>
    have := Lexes.decidable ls (t.drop l.chars.length)
    decidable_of_iff _ lexes_cons_iff.symm

end LuaAudit.Lua
