import LuaAudit.Proofs.Lint.Find
import LuaAudit.Proofs.Lua.Reworded
import LuaAudit.Proofs.Text.Blank

/-!
# How far the event rules read

The event rules read written lines, so what they look for could reach from code into a comment or
a string.  It does not get far: a comment starts with a dash, which nothing but an event name may
hold, and an event name that starts in code is inside a string.

* `Text.StopsAtDash` and `Text.Takes`: a reader reads nothing behind a dash, and passes characters
  with some property only;
* `mask_plain_append` and `exists_maskFrom_quoted_append`: what is masked of a call;
* `Guarded`: both facts for a recogniser of the event rules, as `guarded_eventCall`,
  `guarded_handlerWord` and `guarded_crowdedSource` have them;
* `Single`: a recogniser whose finds cannot overlap.
-/

namespace LuaAudit.Lua

open Text (isBlank isQuoteMark isWord)

/-! ### A quoted name is masked -/

/-- Characters of a class that holds no dash, bracket or quote are plain. -/
theorem isPlain_of_class {p : Char → Bool} (hp : ['-', '[', '\'', '"'].any p = false)
    {c : Char} (h : p c = true) : isPlain c = true := by
  have hne : ∀ d ∈ ['-', '[', '\'', '"'], c ≠ d := by
    rintro d hd rfl
    rw [List.any_eq_true.2 ⟨c, hd, h⟩] at hp
    cases hp
  simp only [List.forall_mem_cons] at hne
  simp [isPlain, isQuoteMark, hne]

theorem isPlain_of_isBlank {c : Char} (h : isBlank c = true) : isPlain c = true :=
  isPlain_of_class (by decide) h

theorem isPlain_of_isWord {c : Char} (h : isWord c = true) : isPlain c = true :=
  isPlain_of_class (by decide) h

/-- Plain characters in code are code. -/
theorem mask_plain_append {u : List Char} (hu : ∀ c ∈ u, isPlain c = true) (s : List Char) :
    mask (u ++ s) = u ++ mask s := by
  induction u with
  | nil => rfl
  | cons c u ih =>
    rw [List.forall_mem_cons] at hu
    obtain ⟨hc, hu⟩ := hu
    have hdash : ¬ ['-', '-'] <+: c :: (u ++ s) := by
      rintro ⟨r, hr⟩
      obtain ⟨rfl, -⟩ := List.cons.inj hr
      cases hc
    have hopen : c ≠ '[' := by
      rintro rfl
      cases hc
    have hquote : ¬ (c = '\'' ∨ c = '"') := by
      rintro (rfl | rfl) <;> cases hc
    rw [List.cons_append, mask,
      maskFrom_code_cons hdash (Bracket.not_ofLevel_prefix_cons hopen · _), if_neg hquote]
    exact congrArg (c :: ·) (ih hu)

/-- In a short string everything before its next quote is blanked. -/
theorem exists_maskFrom_quoted_append {q : Char} : ∀ {name : List Char}, q ∉ name →
    ∀ rest, ∃ z, maskFrom (.quoted q) (name ++ rest) = name.map blankOut ++ z
  | [], _, rest => ⟨_, rfl⟩
  | [c], h, rest => by
    by_cases hescape : c = '\\' ∧ rest ≠ []
    · -- The backslash takes the character after the name along.
      obtain ⟨rfl, hrest⟩ := hescape
      obtain ⟨e, rest, rfl⟩ := List.exists_cons_of_ne_nil hrest
      exact ⟨_, maskFrom_quoted_escape q e rest⟩
    · have hc : c ≠ q := fun e => h (by simp [e])
      have hlast : c = '\\' → rest = [] := by
        intro e
        by_contra hrest
        exact hescape ⟨e, hrest⟩
      exact ⟨_, maskFrom_quoted_cons hlast⟩
  | c :: d :: name, h, rest => by
    simp only [List.mem_cons, not_or] at h
    by_cases hescape : c = '\\'
    · obtain ⟨z, hz⟩ := exists_maskFrom_quoted_append h.2.2 rest
      refine ⟨z, ?_⟩
      rw [hescape, List.cons_append, List.cons_append, maskFrom_quoted_escape, hz]
      rfl
    · have hname : q ∉ d :: name := by simp [h.2.1, h.2.2]
      obtain ⟨z, hz⟩ := exists_maskFrom_quoted_append hname rest
      refine ⟨z, ?_⟩
      rw [List.cons_append, maskFrom_quoted_cons (fun e => absurd e hescape),
        if_neg (Ne.symm h.1), hz]
      rfl

end LuaAudit.Lua

namespace LuaAudit.Text

open Lua (Balanced isPlain)

/-! ### Readers stop at a dash -/

/-- What a reader gives on a text with a dash in it does not depend on what stands behind the dash:
    it fails, or goes on at some place before the dash. -/
def StopsAtDash (read : List Char → Option (List Char)) : Prop :=
  ∀ w, (∀ r, read (w ++ '-' :: r) = none) ∨
    ∃ w', ∀ r, read (w ++ '-' :: r) = some (w' ++ '-' :: r)

theorem StopsAtDash.bind {read read' : List Char → Option (List Char)} (h : StopsAtDash read)
    (h' : StopsAtDash read') : StopsAtDash fun cs => (read cs).bind read' := by
  intro w
  rcases h w with hnone | ⟨w', hsome⟩
  · exact .inl fun r => by simp [hnone r]
  · rcases h' w' with hnone' | ⟨w'', hsome'⟩
    · exact .inl fun r => by simp [hsome r, hnone' r]
    · exact .inr ⟨w'', fun r => by simp [hsome r, hsome' r]⟩

theorem stopsAtDash_after? {lead : List Char} (hlead : '-' ∉ lead) : StopsAtDash (after? lead) := by
  induction lead with
  | nil => exact fun w => .inr ⟨w, fun r => rfl⟩
  | cons l lead ih =>
    rw [List.mem_cons, not_or] at hlead
    intro w
    cases w with
    | nil =>
      -- The dash comes before the lead is read to its end, and is no character of it.
      exact .inl fun r => by simp [after?, Ne.symm hlead.1]
    | cons c w =>
      by_cases hc : l = c
      · simpa [after?, hc] using ih hlead.2 w
      · exact .inl fun r => by simp [after?, hc]

theorem dropWhile_isBlank_dash (w r : List Char) :
    (w ++ '-' :: r).dropWhile isBlank = w.dropWhile isBlank ++ '-' :: r := by
  induction w with
  | nil => exact List.dropWhile_cons_of_neg (by decide)
  | cons c w ih => by_cases hc : isBlank c = true <;> simp [hc, ih]

theorem stopsAtDash_afterWord? {word : List Char} (hword : '-' ∉ word) :
    StopsAtDash (afterWord? word) := by
  intro w
  simp only [afterWord?, dropWhile_isBlank_dash]
  exact stopsAtDash_after? hword (w.dropWhile isBlank)

theorem stopsAtDash_afterMark? {mark : Char} (hmark : '-' ≠ mark) :
    StopsAtDash (afterMark? mark) := by
  rw [afterMark?_eq]
  exact stopsAtDash_afterWord? (by simpa using hmark)

/-- A quoted text before a dash is read up to its second quote, which stands before the dash. -/
theorem quoted?_dash {w : List Char} (hw : Balanced w) :
    (∀ r, quoted? (w ++ '-' :: r) = none) ∨
      ∃ name w', ∀ r, quoted? (w ++ '-' :: r) = some (name, w' ++ '-' :: r) := by
  have hblank : ∀ c ∈ w.takeWhile isBlank, isBlank c = true := fun c hc => List.mem_takeWhile_imp hc
  have hsplit := List.takeWhile_append_dropWhile (p := isBlank) (l := w)
  cases hdrop : w.dropWhile isBlank with
  | nil => exact .inl fun r => by simp [quoted?, dropWhile_isBlank_dash, hdrop, isQuoteMark]
  | cons q v =>
    rw [hdrop] at hsplit
    cases hq : isQuoteMark q with
    | false => exact .inl fun r => by simp [quoted?, dropWhile_isBlank_dash, hdrop, hq]
    | true =>
      have hplain : ∀ c ∈ w.takeWhile isBlank, isPlain c = true := fun c hc =>
        Lua.isPlain_of_isBlank (hblank c hc)
      -- The balance gives a second quote before the dash, and the name ends at the first such.
      obtain ⟨name, q', v', rfl, hname, hq'⟩ := exists_first_quote (hw _ q v hsplit.symm hplain hq)
      have hread : ∀ r, quoted? (w ++ '-' :: r) =
          if name = [] then none else some (name, v' ++ '-' :: r) := by
        intro r
        rw [← hsplit, ← quoted?_eq hblank hq hname hq']
        simp
      by_cases hne : name = []
      · exact .inl fun r => by rw [hread r, if_pos hne]
      · exact .inr ⟨name, v', fun r => by rw [hread r, if_neg hne]⟩

/-! ### What readers take -/

/-- Every character that a reader passes has a property. -/
def Takes (p : Char → Prop) (read : List Char → Option (List Char)) : Prop :=
  ∀ cs rest, read cs = some rest → ∃ u, cs = u ++ rest ∧ ∀ c ∈ u, p c

theorem Takes.bind {p : Char → Prop} {read read' : List Char → Option (List Char)}
    (h : Takes p read) (h' : Takes p read') : Takes p fun cs => (read cs).bind read' := by
  intro cs rest hread
  obtain ⟨mid, hmid, hrest⟩ := Option.bind_eq_some_iff.1 hread
  obtain ⟨u, rfl, hu⟩ := h cs mid hmid
  obtain ⟨u', rfl, hu'⟩ := h' mid rest hrest
  exact ⟨u ++ u', by simp, fun c hc => (List.mem_append.1 hc).elim (hu c) (hu' c)⟩

theorem takes_after? {p : Char → Prop} {lead : List Char} (h : ∀ c ∈ lead, p c) :
    Takes p (after? lead) :=
  fun _ _ hread => ⟨lead, eq_append_of_after? hread, h⟩

theorem takes_afterWord? {p : Char → Prop} (hblank : ∀ c, isBlank c = true → p c)
    {word : List Char} (h : ∀ c ∈ word, p c) : Takes p (afterWord? word) := by
  intro cs rest hread
  refine ⟨cs.takeWhile isBlank ++ word, ?_, fun c hc => (List.mem_append.1 hc).elim
    (fun hc => hblank c (List.mem_takeWhile_imp hc)) (h c)⟩
  rw [List.append_assoc, ← eq_append_of_after? hread, List.takeWhile_append_dropWhile]

theorem takes_afterMark? {p : Char → Prop} (hblank : ∀ c, isBlank c = true → p c)
    {mark : Char} (h : p mark) : Takes p (afterMark? mark) := by
  rw [afterMark?_eq]
  exact takes_afterWord? hblank (by simpa using h)

end LuaAudit.Text

namespace LuaAudit.Lint

open Lua (Balanced isPlain mask blankOut)
open Text (Recogniser StopsAtDash Takes after? afterMark? afterWord? quoted?)
open Text (isBlank isQuoteMark isWord)

/-! ### What the event rules look for -/

/-- A recogniser for something that starts with the letter `x`.  It reads nothing behind a dash
    before which every quoted text is closed, and passes another `x` only inside a string. -/
structure Guarded {α : Type} (find : Recogniser α) (x : Char) : Prop where
  solid : isBlank x = false
  head : ∀ before cs found, find before cs = some found → cs.head? = some x
  dash : ∀ before w, Balanced w →
    ∀ r r', find before (w ++ '-' :: r) = find before (w ++ '-' :: r')
  inside : ∀ before cs value length, find before cs = some (value, length) →
    ∀ d, 0 < d → d < length → cs[d]? = some x → ∀ rest, (mask (cs ++ rest))[d]? ≠ some x

/-- What follows a callee and the parenthesis behind it. -/
def callHead? (callee cs : List Char) : Option (List Char) :=
  (after? callee cs).bind (afterMark? '(')

/-- What follows a call after its event name; `closed` asks for the closing parenthesis. -/
def callEnd? (closed : Bool) (rest : List Char) : Option (List Char) :=
  if closed then afterMark? ')' rest else some rest

theorem eventCall_eq (callee : List Char) (closed : Bool) (before : Option Char) (cs : List Char) :
    eventCall callee closed before cs = (callHead? callee cs).bind fun arg =>
      (quoted? arg).bind fun (name, rest) => (callEnd? closed rest).bind fun rest =>
        some (name, cs.length - rest.length) := by
  simp only [eventCall, callHead?, callEnd?, Option.bind_eq_bind, Option.bind_assoc,
    Option.pure_def]
  cases closed <;> rfl

section Call

variable {x : Char} {name : List Char} (hword : ∀ c ∈ x :: name, isWord c = true)
include hword

theorem takes_callHead? : Takes (isPlain · = true) (callHead? (x :: name)) :=
  (Text.takes_after? fun c hc => Lua.isPlain_of_isWord (hword c hc)).bind
    (Text.takes_afterMark? (fun _ => Lua.isPlain_of_isBlank) (by decide))

theorem stopsAtDash_callHead? : StopsAtDash (callHead? (x :: name)) := by
  have hdash : '-' ∉ x :: name := fun hmem => absurd (hword _ hmem) (by decide)
  exact (Text.stopsAtDash_after? hdash).bind (Text.stopsAtDash_afterMark? (by decide))

theorem eventCall_dash (closed : Bool) (before : Option Char) {w : List Char} (hw : Balanced w)
    (r r' : List Char) : eventCall (x :: name) closed before (w ++ '-' :: r) =
      eventCall (x :: name) closed before (w ++ '-' :: r') := by
  simp only [eventCall_eq]
  rcases stopsAtDash_callHead? hword w with hnone | ⟨w₁, hhead⟩
  · rw [hnone r, hnone r']
    rfl
  -- The rest of the text up to the dash is balanced too, since only plain characters were passed.
  obtain ⟨u, hu, hplain⟩ := takes_callHead? hword _ _ (hhead r)
  obtain rfl : w = u ++ w₁ := List.append_cancel_right (by simpa using hu)
  have hw₁ : Balanced w₁ := by
    intro u' q v e hu' hq
    refine hw (u ++ u') q v (by rw [e, List.append_assoc]) (fun c hc => ?_) hq
    exact (List.mem_append.1 hc).elim (hplain c) (hu' c)
  rw [hhead r, hhead r']
  rcases Text.quoted?_dash hw₁ with hnone | ⟨event, w₂, hquoted⟩
  · simp [hnone r, hnone r']
  · have hend : StopsAtDash (callEnd? closed) := by
      cases closed with
      | true => exact Text.stopsAtDash_afterMark? (by decide)
      | false => exact fun w => .inr ⟨w, fun r => rfl⟩
    rcases hend w₂ with hnone | ⟨w₃, hrest⟩
    · simp [hquoted r, hquoted r', hnone r, hnone r']
    · simp only [hquoted r, hquoted r', hrest r, hrest r', Option.bind_some, List.length_append,
        List.length_cons, Option.some.injEq, Prod.mk.injEq, true_and]
      omega

omit hword in
/-- What stands where a call was recognised. -/
theorem eq_append_of_eventCall {closed : Bool} {before : Option Char} {cs event : List Char}
    {length : Nat} (h : eventCall (x :: name) closed before cs = some (event, length)) :
    ∃ lead q trail rest, cs = x :: (name ++ lead) ++ q :: (event ++ (trail ++ rest)) ∧
      length = (x :: (name ++ lead)).length + 1 + event.length + trail.length ∧
      (∀ c ∈ lead, isPlain c = true ∧ isWord c = false) ∧ isQuoteMark q = true ∧
      (∀ c ∈ event, isQuoteMark c = false) ∧ ∀ c ∈ trail, isWord c = false := by
  have hblank : ∀ c, isBlank c = true → isWord c = false := fun c hc => by
    by_contra hne
    rw [Text.isBlank_eq_false_of_isWord (by simpa using hne)] at hc
    cases hc
  have hquote : ∀ c, isQuoteMark c = true → isWord c = false := fun c hc => by
    rcases (Lua.isQuoteMark_iff c).1 hc with rfl | rfl <;> decide
  have hend : Takes (isWord · = false) (callEnd? closed) := by
    cases closed with
    | true => exact Text.takes_afterMark? hblank (by decide)
    | false => exact fun cs rest hread => ⟨[], Option.some.inj hread, by simp⟩
  rw [eventCall_eq, Option.bind_eq_some_iff] at h
  obtain ⟨arg, hhead, h⟩ := h
  obtain ⟨args, hcallee, hopen⟩ := Option.bind_eq_some_iff.1 hhead
  obtain ⟨⟨event', tail⟩, hquoted, h⟩ := Option.bind_eq_some_iff.1 h
  obtain ⟨rest, hrest, h⟩ := Option.bind_eq_some_iff.1 h
  obtain ⟨rfl, hlength⟩ : event' = event ∧ cs.length - rest.length = length := by simpa using h
  -- Each reader passed the part of the text that it is for.
  obtain rfl := Text.eq_append_of_after? hcallee
  have hblank' : ∀ c, isBlank c = true → isPlain c = true ∧ isWord c = false := fun c hc =>
    ⟨Lua.isPlain_of_isBlank hc, hblank c hc⟩
  obtain ⟨u, rfl, hu⟩ := Text.takes_afterMark? hblank' (by decide) args arg hopen
  obtain ⟨blanks, q, q', rfl, hblanks, hq, hevent, hq'⟩ := Text.eq_append_of_quoted? hquoted
  obtain ⟨v, rfl, hv⟩ := hend tail rest hrest
  refine ⟨u ++ blanks, q, q' :: v, rest, by simp, ?_, ?_, hq, hevent, ?_⟩
  · simp only [List.length_append, List.length_cons] at hlength ⊢
    omega
  · exact List.forall_mem_append.2 ⟨hu, fun c hc => hblank' c (hblanks c hc)⟩
  · exact List.forall_mem_cons.2 ⟨hquote q' hq', hv⟩

/-- The first letter of a call occurs in the rest of it only inside the event name, which is
    masked. -/
theorem eventCall_inside (honce : x ∉ name) {closed : Bool} {before : Option Char}
    {cs event : List Char} {length : Nat}
    (h : eventCall (x :: name) closed before cs = some (event, length)) {d : Nat} (hpos : 0 < d)
    (hd : d < length) (hx : cs[d]? = some x) (rest : List Char) :
    (mask (cs ++ rest))[d]? ≠ some x := by
  obtain ⟨lead, q, trail, tail, rfl, rfl, hlead, hq, hevent, htrail⟩ := eq_append_of_eventCall h
  have hxword : isWord x = true := hword x List.mem_cons_self
  have hne : ∀ c, isWord c = false → c ≠ x := by
    rintro c hc rfl
    rw [hxword] at hc
    cases hc
  -- The call is masked from its opening quote on, up to the end of the name at least.
  have hplain : ∀ c ∈ x :: (name ++ lead), isPlain c = true := by
    rw [← List.cons_append]
    exact List.forall_mem_append.2
      ⟨fun c hc => Lua.isPlain_of_isWord (hword c hc), fun c hc => (hlead c hc).1⟩
  have hquote := (Lua.isQuoteMark_iff q).1 hq
  have hqname : q ∉ event := fun hmem => by
    rw [hevent q hmem] at hq
    cases hq
  obtain ⟨z, hz⟩ := Lua.exists_maskFrom_quoted_append hqname (trail ++ (tail ++ rest))
  have hmask : mask (x :: (name ++ lead) ++ q :: (event ++ (trail ++ tail)) ++ rest) =
      x :: (name ++ lead) ++ ' ' :: (event.map blankOut ++ z) := by
    rw [← hz, ← Lua.maskFrom_code_quote hquote, ← mask, ← Lua.mask_plain_append hplain]
    simp
  rw [hmask]
  by_cases hu : d < (x :: (name ++ lead)).length
  · -- In the callee and before the quote the letter does not occur again.
    obtain ⟨d, rfl⟩ := Nat.exists_eq_succ_of_ne_zero (Nat.ne_of_gt hpos)
    rw [List.getElem?_append_left hu, List.getElem?_cons_succ] at hx
    rcases List.mem_append.1 (List.mem_of_getElem? hx) with hmem | hmem
    · exact absurd hmem honce
    · exact absurd rfl (hne x (hlead x hmem).2)
  · obtain ⟨e, rfl⟩ := Nat.exists_eq_add_of_le (Nat.le_of_not_lt hu)
    rw [List.getElem?_append_right (by omega), Nat.add_sub_cancel_left] at hx ⊢
    cases e with
    | zero => exact fun e => hne ' ' (by decide) (Option.some.inj e)
    | succ e =>
      rw [List.getElem?_cons_succ] at hx ⊢
      by_cases he : e < event.length
      · rw [List.getElem?_append_left (by simpa using he), List.getElem?_map]
        intro hblank
        obtain ⟨c, -, rfl⟩ := Option.map_eq_some_iff.1 hblank
        have hsolid := Text.isBlank_eq_false_of_isWord hxword
        rw [Lua.isBlank_blankOut c] at hsolid
        cases hsolid
      · rw [List.getElem?_append_right (by omega), List.getElem?_append_left (by omega)] at hx
        exact absurd rfl (hne x (htrail x (List.mem_of_getElem? hx)))

theorem guarded_eventCall (honce : x ∉ name) (closed : Bool) :
    Guarded (eventCall (x :: name) closed) x where
  solid := Text.isBlank_eq_false_of_isWord (hword x List.mem_cons_self)
  head before cs found h := by
    obtain ⟨event, length⟩ := found
    obtain ⟨lead, q, trail, rest, rfl, -⟩ := eq_append_of_eventCall h
    rfl
  dash before w hw r r' := eventCall_dash hword closed before hw r r'
  inside before cs event length h d hpos hd hx rest :=
    eventCall_inside hword honce h hpos hd hx rest

end Call

/-- The calls that the event rules look for. -/
def eventCalls : List (Recogniser (List Char)) := [serverRegistration, netRegistration, handlerCall]

theorem exists_guarded_of_mem_eventCalls {call : Recogniser (List Char)} (h : call ∈ eventCalls) :
    ∃ x, Guarded call x := by
  simp only [eventCalls, List.mem_cons, List.not_mem_nil, or_false] at h
  rcases h with rfl | rfl | rfl
  · refine ⟨'R', ?_⟩
    show Guarded (eventCall ('R' :: "egisterServerEvent".toList) true) 'R'
    exact guarded_eventCall (List.all_eq_true.1 (by decide)) (by decide) true
  · refine ⟨'R', ?_⟩
    show Guarded (eventCall ('R' :: "egisterNetEvent".toList) true) 'R'
    exact guarded_eventCall (List.all_eq_true.1 (by decide)) (by decide) true
  · refine ⟨'A', ?_⟩
    show Guarded (eventCall ('A' :: "ddEventHandler".toList) false) 'A'
    exact guarded_eventCall (List.all_eq_true.1 (by decide)) (by decide) false

/-! ### What stands alone -/

/-- A recogniser that passes its first letter only once, so that no find of it starts inside
    another. -/
def Single {α : Type} (find : Recogniser α) (x : Char) : Prop :=
  ∀ before cs value length, find before cs = some (value, length) →
    ∃ u rest, cs = x :: (u ++ rest) ∧ length = u.length + 1 ∧ x ∉ u

/-- Behind its start the letter does not occur in what is recognised. -/
theorem Single.getElem?_ne {α : Type} {find : Recogniser α} {x : Char} (hfind : Single find x)
    {before : Option Char} {cs : List Char} {value : α} {length : Nat}
    (h : find before cs = some (value, length)) {d : Nat} (hpos : 0 < d) (hd : d < length) :
    cs[d]? ≠ some x := by
  obtain ⟨u, rest, rfl, rfl, hx⟩ := hfind before cs value length h
  obtain ⟨d, rfl⟩ := Nat.exists_eq_succ_of_ne_zero (Nat.ne_of_gt hpos)
  rw [List.getElem?_cons_succ, List.getElem?_append_left (by omega)]
  exact fun hmem => hx (List.mem_of_getElem? hmem)

theorem Single.guarded {α : Type} {find : Recogniser α} {x : Char} (hfind : Single find x)
    (hx : isBlank x = false)
    (hdash : ∀ before w r r', find before (w ++ '-' :: r) = find before (w ++ '-' :: r')) :
    Guarded find x where
  solid := hx
  head before cs found h := by
    obtain ⟨u, rest, rfl, -⟩ := hfind before cs found.1 found.2 h
    rfl
  dash before w _ := hdash before w
  inside before cs value length h d hpos hd hmem := absurd hmem (hfind.getElem?_ne h hpos hd)

theorem single_handlerWord : Single handlerWord 'A' := by
  intro before cs value length h
  unfold handlerWord at h
  split at h
  · cases h
  split at h
  next rest hafter =>
    split at h
    · cases h
    have hlength : 15 = length := (Prod.mk.inj (Option.some.inj h)).2
    exact ⟨"ddEventHandler".toList, rest, Text.eq_append_of_after? hafter, hlength.symm, by decide⟩
  · cases h

theorem guarded_handlerWord : Guarded handlerWord 'A' := by
  refine single_handlerWord.guarded (by decide) fun before w r r' => ?_
  have hstops : StopsAtDash (after? "AddEventHandler".toList) := Text.stopsAtDash_after? (by decide)
  unfold handlerWord
  rcases hstops w with hnone | ⟨w', hsome⟩
  · rw [hnone r, hnone r']
  · -- The character behind the word is one before the dash, or the dash.
    rw [hsome r, hsome r']
    cases w' <;> rfl

/-- What follows `source` and a comma at the start of a parameter list. -/
def afterSource? (cs : List Char) : Option (List Char) :=
  ((afterMark? '(' cs).bind (afterWord? "source".toList)).bind (afterMark? ',')

theorem crowdedSource_eq (before : Option Char) (cs : List Char) :
    crowdedSource before cs = ((after? "function".toList cs).bind afterSource?).bind fun rest =>
      if rest.head?.any isBlank then none else some ((), cs.length - rest.length) := by
  simp only [crowdedSource, afterSource?, Option.bind_eq_bind, Option.bind_assoc]

theorem single_crowdedSource : Single crowdedSource 'f' := by
  have hblank : ∀ c, isBlank c = true → c ≠ 'f' := by
    rintro c hc rfl
    cases hc
  -- Behind `function` no reader passes the letter again.
  have hsource : Takes (· ≠ 'f') afterSource? :=
    ((Text.takes_afterMark? hblank (by decide)).bind
      (Text.takes_afterWord? hblank (by simp))).bind (Text.takes_afterMark? hblank (by decide))
  intro before cs value length h
  rw [crowdedSource_eq, Option.bind_eq_some_iff] at h
  obtain ⟨rest, hread, h⟩ := h
  obtain ⟨list, hfunction, hlist⟩ := Option.bind_eq_some_iff.1 hread
  obtain ⟨u, rfl, hu⟩ := hsource list rest hlist
  obtain rfl := Text.eq_append_of_after? hfunction
  split at h
  · cases h
  · have hlength := (Prod.mk.inj (Option.some.inj h)).2
    refine ⟨"unction".toList ++ u, rest, by simp, ?_, ?_⟩
    · simp only [List.length_append] at hlength ⊢
      have hfunction : "function".toList.length = "unction".toList.length + 1 := by decide
      omega
    · exact fun hmem => (List.mem_append.1 hmem).elim (by decide) fun hmem => hu _ hmem rfl

theorem guarded_crowdedSource : Guarded crowdedSource 'f' := by
  refine single_crowdedSource.guarded (by decide) fun before w r r' => ?_
  have hsource : StopsAtDash afterSource? :=
    ((Text.stopsAtDash_afterMark? (by decide)).bind (Text.stopsAtDash_afterWord? (by decide))).bind
      (Text.stopsAtDash_afterMark? (by decide))
  have hstops : StopsAtDash fun cs => (after? "function".toList cs).bind afterSource? :=
    (Text.stopsAtDash_after? (by decide)).bind hsource
  simp only [crowdedSource_eq]
  rcases hstops w with hnone | ⟨w', hsome⟩
  · simp only [hnone, Option.bind_none]
  · have hhead : (w' ++ '-' :: r).head? = (w' ++ '-' :: r').head? := by cases w' <;> rfl
    have hlength : (w ++ '-' :: r).length - (w' ++ '-' :: r).length =
        (w ++ '-' :: r').length - (w' ++ '-' :: r').length := by
      simp only [List.length_append, List.length_cons]
      omega
    simp only [hsome, Option.bind_some, hhead, hlength]

end LuaAudit.Lint
