import LuaAudit.Proofs.Lint.Pattern
import LuaAudit.Proofs.Lint.WellFormed
import LuaAudit.Proofs.OrderedMap

/-!
# Which calls are reported as early

A call of a plain name and the declaration of a local function are said of the text alone.  A search
for calls misses none of them: a call that starts inside another would have its name cut short.  A
search for declarations asks for the first one, so a line declares its leftmost function only.

* `Lua.Calls`: a call at the start of a text, and `Calls.isNameChar_iff` on the characters it takes;
* `CallAt` and `LocalFunctionAt`: what stands at a column of a line;
* `apart_bareCall`: no call is recognised inside another;
* `FirstDeclares` and `declarations_leftmost`: what is known of the declarations of a script;
* `early_calls_reported`: the reports.
-/

namespace LuaAudit.Lua

open Text (Parted Spaced)

/-! ### Calls -/

/-- A text starts with a name and an opening parenthesis, maybe with blanks between them, and goes
    on with `tail`. -/
def Calls (cs name tail : List Char) : Prop :=
  ∃ rest, NameLeads cs name rest ∧ Spaced rest ('(' :: tail)

namespace Calls

variable {cs name tail : List Char}

theorem length_lt (h : Calls cs name tail) : tail.length < cs.length := by
  obtain ⟨rest, hlead, blanks, -, rfl⟩ := h
  rw [hlead.append]
  simp only [List.length_append, List.length_cons]
  omega

/-- Up to the parenthesis, the characters that a name can have are those of the called name. -/
theorem isNameChar_iff (h : Calls cs name tail) {m : Nat} {c : Char} (hc : cs[m]? = some c)
    (hm : m < cs.length - tail.length) : isNameChar c = true ↔ m < name.length := by
  obtain ⟨rest, hlead, blanks, hblanks, rfl⟩ := h
  rw [hlead.append] at hc hm
  by_cases hin : m < name.length
  · rw [List.getElem?_append_left hin] at hc
    exact ⟨fun _ => hin, fun _ => hlead.chars c (List.mem_of_getElem? hc)⟩
  · refine ⟨fun hname => ?_, fun hlt => absurd hlt hin⟩
    have hbehind : c ∈ blanks ++ ['('] := by
      rw [List.getElem?_append_right (by omega), List.append_cons] at hc
      rw [List.getElem?_append_left (by simp at hm ⊢; omega)] at hc
      exact List.mem_of_getElem? hc
    rcases List.mem_append.1 hbehind with hblank | hopen
    · have hc := List.all_eq_true.1 hblanks c hblank
      rw [isBlank_eq_false_of_isNameChar hname] at hc
      cases hc
    · obtain rfl := List.mem_singleton.1 hopen
      exact absurd hname (by decide)

end Calls

/-- A text starts with `local function`, a name and an opening parenthesis, and goes on with
    `tail`. -/
def DeclaresFunction (cs name tail : List Char) : Prop :=
  ∃ a b c, cs = "local".toList ++ a ∧ Parted a ("function".toList ++ b) ∧ Parted b c ∧
    Calls c name tail

theorem DeclaresFunction.length_lt {cs name tail : List Char} (h : DeclaresFunction cs name tail) :
    tail.length < cs.length := by
  obtain ⟨a, b, c, rfl, ⟨blanks, -, -, rfl⟩, ⟨blanks', -, -, rfl⟩, hcalls⟩ := h
  have hlt := hcalls.length_lt
  simp only [List.length_append]
  omega

end LuaAudit.Lua

namespace LuaAudit.Lint

open Lua (Calls DeclaresFunction)
open Text (Parted indicesOf indicesOf_concat_of_not isGreatest_length_indicesOf isWord)

/-- The name of a call is not the end of a longer word, nor the name of a field or a method. -/
def Unattached (before : Option Char) : Prop :=
  ∀ c ∈ before, isWord c = false ∧ c ≠ '.' ∧ c ≠ ':'

theorem bareCall_eq_some_iff (before : Option Char) (cs name : List Char) (n : Nat) :
    bareCall before cs = some (name, n) ↔
      Unattached before ∧ ∃ tail, Calls cs name tail ∧ n = cs.length - tail.length := by
  have hfree : (before.any fun c => isWord c || c == '.' || c == ':') = false ↔
      Unattached before := by
    cases before <;> simp [Unattached, and_assoc]
  unfold bareCall
  split
  next hjoined =>
    rw [← hfree, hjoined]
    simp
  next hjoined =>
    rw [Bool.not_eq_true, hfree] at hjoined
    simp only [Option.bind_eq_bind, Option.bind_eq_some_iff]
    constructor
    · rintro ⟨⟨word, rest⟩, hname, h⟩
      split at h
      next tail hopen =>
        obtain ⟨rfl, rfl⟩ := Prod.mk.inj (Option.some.inj h)
        refine ⟨hjoined, tail, ⟨rest, (Lua.name?_eq_some_iff _ _ _).1 hname, ?_⟩, rfl⟩
        exact (Text.dropWhile_eq_cons_iff (by decide) _ _).1 hopen
      · cases h
    · rintro ⟨-, tail, ⟨rest, hlead, hopen⟩, rfl⟩
      refine ⟨(name, rest), (Lua.name?_eq_some_iff _ _ _).2 hlead, ?_⟩
      simp only [(Text.dropWhile_eq_cons_iff (by decide) _ _).2 hopen]

theorem localFunction_eq_some_iff (before : Option Char) (cs name : List Char) (n : Nat) :
    localFunction before cs = some (name, n) ↔
      ∃ tail, DeclaresFunction cs name tail ∧ n = cs.length - tail.length := by
  have hfunction : ∀ a b, Text.afterBlanks? a = some ("function".toList ++ b) ↔
      Parted a ("function".toList ++ b) := fun a b =>
    Text.afterBlanks?_eq_some_iff (by decide) a _
  simp only [localFunction, Option.bind_eq_bind, Option.bind_eq_some_iff]
  constructor
  · rintro ⟨a, ha, a', ha', b, hb, c, hc, ⟨word, rest⟩, hname, h⟩
    split at h
    next tail hopen =>
      obtain ⟨rfl, rfl⟩ := Prod.mk.inj (Option.some.inj h)
      have hlead := (Lua.name?_eq_some_iff _ _ _).1 hname
      refine ⟨tail, ⟨a, b, c, Text.eq_append_of_after? ha, ?_, ?_, rest, hlead, ?_⟩, rfl⟩
      · rw [← hfunction, ha', Text.eq_append_of_after? hb]
      · obtain ⟨d, more, rfl, hd⟩ := hlead.exists_cons
        exact (Text.afterBlanks?_eq_some_iff hd _ _).1 hc
      · exact (Text.dropWhile_eq_cons_iff (by decide) _ _).1 hopen
    · cases h
  · rintro ⟨tail, ⟨a, b, c, rfl, ha, hb, rest, hlead, hopen⟩, rfl⟩
    refine ⟨a, Text.after?_append _ _, _, (hfunction a b).2 ha, b, Text.after?_append _ _, c, ?_,
      (name, rest), (Lua.name?_eq_some_iff _ _ _).2 hlead, ?_⟩
    · obtain ⟨d, more, rfl, hd⟩ := hlead.exists_cons
      exact (Text.afterBlanks?_eq_some_iff hd _ _).2 hb
    · simp only [(Text.dropWhile_eq_cons_iff (by decide) _ _).2 hopen]

theorem fits_bareCall : bareCall.Fits := by
  intro before cs name n h
  obtain ⟨-, tail, hcalls, rfl⟩ := (bareCall_eq_some_iff _ _ _ _).1 h
  have hlt := hcalls.length_lt
  omega

theorem fits_localFunction : localFunction.Fits := by
  intro before cs name n h
  obtain ⟨tail, hdeclares, rfl⟩ := (localFunction_eq_some_iff _ _ _ _).1 h
  have hlt := hdeclares.length_lt
  omega

/-- **No call inside another.**  A name that starts inside a call would be part of the called name,
    and then a character of that name stands right before it. -/
theorem apart_bareCall : bareCall.Apart := by
  intro cs j name n hat k hjk hk
  obtain ⟨-, tail, hcalls, rfl⟩ := (bareCall_eq_some_iff _ _ _ _).1 hat
  by_contra hsome
  obtain ⟨⟨other, m⟩, hat'⟩ := Option.ne_none_iff_exists'.1 hsome
  obtain ⟨hfree, tail', ⟨rest, hlead, -⟩, -⟩ := (bareCall_eq_some_iff _ _ _ _).1 hat'
  obtain ⟨p, rfl⟩ : ∃ p, k = j + p + 1 := Nat.exists_eq_add_of_lt hjk
  -- The character at the inner place is one of a name, so it is one of the outer name.
  obtain ⟨c, more, rfl, -⟩ := hlead.start
  have hhere : (cs.drop j)[p + 1]? = some c := by
    have hzero : (cs.drop (j + p + 1))[0]? = some c := by
      rw [hlead.append]
      rfl
    rw [List.getElem?_drop] at hzero ⊢
    exact hzero
  have hinside := (hcalls.isNameChar_iff hhere (by omega)).1 (hlead.chars c (.head _))
  -- So is the one before it, and there a word goes on.
  have hlt : p < (cs.drop j).length := by
    have := (List.getElem?_eq_some_iff.1 hhere).1
    omega
  have hbefore := List.getElem?_eq_getElem hlt
  have hword := (hcalls.isNameChar_iff hbefore (by omega)).2 (by omega)
  rw [List.length_drop] at hlt
  rw [List.getElem?_drop, ← Text.getLast?_take_succ (by omega)] at hbefore
  have hend := (hfree _ hbefore).1
  rw [Lua.isWord_of_isNameChar hword] at hend
  cases hend

/-! ### What stands at a column -/

/-- At column `k` of a line a local function is declared. -/
def LocalFunctionAt (line : List Char) (k : Nat) (name : List Char) : Prop :=
  ∃ tail, DeclaresFunction (line.drop k) name tail

/-- At column `k` of a line a plain name is called. -/
def CallAt (line : List Char) (k : Nat) (name : List Char) : Prop :=
  Unattached (line.take k).getLast? ∧ ∃ tail, Calls (line.drop k) name tail

theorem exists_localFunction_at_iff (line : List Char) (k : Nat) (name : List Char) :
    (∃ n, localFunction.at line k = some (name, n)) ↔ LocalFunctionAt line k name := by
  simp only [Text.Recogniser.at, localFunction_eq_some_iff]
  constructor
  · rintro ⟨n, tail, h, -⟩
    exact ⟨tail, h⟩
  · rintro ⟨tail, h⟩
    exact ⟨_, tail, h, rfl⟩

theorem localFunction_at_eq_none_iff (line : List Char) (k : Nat) :
    localFunction.at line k = none ↔ ∀ name, ¬ LocalFunctionAt line k name := by
  rw [Option.eq_none_iff_forall_ne_some]
  simp only [← exists_localFunction_at_iff, not_exists, Prod.forall, ne_eq]

theorem exists_mem_bareCalls_iff (line : List Char) (k : Nat) (name : List Char) :
    (∃ stop, ⟨k, stop, name⟩ ∈ Text.occurrences bareCall line) ↔ CallAt line k name := by
  simp only [apart_bareCall.mem_occurrences_iff fits_bareCall, Text.Recogniser.at,
    bareCall_eq_some_iff]
  constructor
  · rintro ⟨-, n, ⟨hfree, tail, h, -⟩, -⟩
    exact ⟨hfree, tail, h⟩
  · rintro ⟨hfree, tail, h⟩
    exact ⟨_, _, ⟨hfree, tail, h, rfl⟩, rfl⟩

/-! ### Declarations -/

/-- The leftmost local function that a line declares. -/
def FirstDeclares (line name : List Char) : Prop :=
  ∃ k, LocalFunctionAt line k name ∧ ∀ j < k, ∀ other, ¬ LocalFunctionAt line j other

theorem exists_first?_iff (line name : List Char) :
    (∃ o, Text.first? localFunction line = some o ∧ o.value = name) ↔ FirstDeclares line name := by
  simp only [first?_eq_some_iff fits_localFunction, localFunction_at_eq_none_iff]
  constructor
  · rintro ⟨o, ⟨⟨n, hat, -⟩, hleft⟩, rfl⟩
    exact ⟨o.start, (exists_localFunction_at_iff _ _ _).1 ⟨n, hat⟩, hleft⟩
  · rintro ⟨k, hdeclares, hleft⟩
    obtain ⟨n, hat⟩ := (exists_localFunction_at_iff _ _ _).2 hdeclares
    exact ⟨⟨k, k + n, name⟩, ⟨⟨n, hat, rfl⟩, hleft⟩, rfl⟩

theorem first?_localFunction_eq_none_iff (line : List Char) :
    Text.first? localFunction line = none ↔ ∀ k name, ¬ LocalFunctionAt line k name := by
  simp only [first?_eq_none_iff fits_localFunction, localFunction_at_eq_none_iff]

/-- **One line.**  A line writes its index under the function that it declares first, and leaves all
    else. -/
theorem get?_declarations_concat (lines : List (List Char)) (line name : List Char) :
    (FirstDeclares line name →
      (declarations (lines ++ [line])).get? name = some lines.length) ∧
    (¬ FirstDeclares line name →
      (declarations (lines ++ [line])).get? name = (declarations lines).get? name) := by
  rw [← exists_first?_iff, declarations, List.zipIdx_append, List.foldl_append]
  show (_ → OrderedMap.get? _ name = _) ∧ (_ → OrderedMap.get? _ name = _)
  simp only [List.zipIdx_singleton, List.foldl_cons, List.foldl_nil, Nat.zero_add]
  cases hfirst : Text.first? localFunction line with
  | none => simp [declarations]
  | some o =>
    constructor
    · rintro ⟨p, hp, rfl⟩
      obtain rfl := Option.some.inj hp
      exact OrderedMap.get?_insert_self _ _ _
    · intro hnot
      exact OrderedMap.get?_insert_of_ne _ _ fun heq => hnot ⟨o, rfl, heq.symm⟩

/-- What is known of a name is the last line that declares it first. -/
theorem get?_declarations_eq_some_iff (lines : List (List Char)) (name : List Char) (i : Nat) :
    (declarations lines).get? name = some i ↔
      IsGreatest (indicesOf (FirstDeclares · name) lines) i := by
  induction lines using List.reverseRecOn with
  | nil =>
    constructor
    · intro h
      cases h
    · rintro ⟨⟨line, hline, -⟩, -⟩
      cases hline
  | append_singleton lines line ih =>
    obtain ⟨hwrites, hleaves⟩ := get?_declarations_concat lines line name
    by_cases hline : FirstDeclares line name
    · have hlast := isGreatest_length_indicesOf (FirstDeclares · name) lines hline
      rw [hwrites hline, Option.some.injEq]
      constructor
      · rintro rfl
        exact hlast
      · intro h
        exact hlast.unique h
    · rw [hleaves hline, indicesOf_concat_of_not (FirstDeclares · name) lines hline]
      exact ih

theorem mem_keys_declarations_iff (lines : List (List Char)) (name : List Char) :
    name ∈ (declarations lines).keys ↔ ∃ line ∈ lines, FirstDeclares line name := by
  rw [OrderedMap.mem_keys_iff]
  induction lines using List.reverseRecOn with
  | nil =>
    constructor
    · rintro ⟨i, h⟩
      cases h
    · rintro ⟨line, hline, -⟩
      cases hline
  | append_singleton lines line ih =>
    obtain ⟨hwrites, hleaves⟩ := get?_declarations_concat lines line name
    by_cases hline : FirstDeclares line name
    · exact ⟨fun _ => ⟨line, by simp, hline⟩, fun _ => ⟨_, hwrites hline⟩⟩
    · rw [hleaves hline, ih]
      simp [hline]

/-- **What is known of the local functions.**  For all lines, a name is known exactly where it is
    the leftmost one that some line declares, and then with the last such line. -/
theorem declarations_leftmost (lines : List (List Char)) (name : List Char) :
    (name ∈ (declarations lines).keys ↔ ∃ line ∈ lines, FirstDeclares line name) ∧
    ∀ i, (declarations lines).get? name = some i ↔
      IsGreatest {i | ∃ line, lines[i]? = some line ∧ FirstDeclares line name} i :=
  ⟨mem_keys_declarations_iff lines name, get?_declarations_eq_some_iff lines name⟩

/-- A line that declares two functions: the second one is not known. -/
theorem second_declaration_unknown :
    ¬ ∀ (lines : List (List Char)) (name : List Char),
      name ∈ (declarations lines).keys ↔ ∃ line ∈ lines, ∃ k, LocalFunctionAt line k name := by
  intro h
  have hunknown : "b".toList ∉
      (declarations ["local function a() end local function b() end".toList]).keys := by
    decide +kernel
  refine hunknown ((h _ _).2 ⟨_, .head _, 23, ?_⟩)
  exact (exists_localFunction_at_iff _ _ _).1 ⟨17, by decide +kernel⟩

/-! ### Reports -/

/-- In column `k` of line `i`, which declares no local function, stands a call of one that is
    declared on a later line. -/
structure CalledEarly (lines : List (List Char)) (i k declared : Nat) (name : List Char) :
    Prop where
  calls : ∃ line, lines[i]? = some line ∧ Text.trim line ≠ [] ∧
    (∀ j other, ¬ LocalFunctionAt line j other) ∧ CallAt line k name
  known : (declarations lines).get? name = some declared
  early : i < declared

/-- A report stands on an earlier line than another, or before it on the same line. -/
def Diagnostic.Before (d e : Diagnostic) : Prop :=
  d.line < e.line ∨ d.line = e.line ∧ d.range.start.character < e.range.start.character

/-- A line with a call is not blank. -/
theorem CallAt.trim_ne_nil {line name : List Char} {k : Nat} (h : CallAt line k name) :
    Text.trim line ≠ [] := by
  obtain ⟨-, tail, rest, hlead, -⟩ := h
  obtain ⟨c, more, hdrop, hc⟩ := hlead.exists_cons
  apply Text.trim_ne_nil_of_mem hc
  have hmem : c ∈ line.drop k := by
    rw [hdrop]
    exact .head more
  exact List.mem_of_mem_drop hmem

section Line

variable (found : OrderedMap (List Char) Nat) (i : Nat) (line : List Char)

/-- What the calls on a line are picked by. -/
theorem mem_checkOrderOn_iff (d : Diagnostic) :
    d ∈ checkOrderOn found i line ↔
      (∀ j other, ¬ LocalFunctionAt line j other) ∧ ∃ k name declared, CallAt line k name ∧
        found.get? name = some declared ∧ i < declared ∧
        d = earlyCall i declared ⟨k, k + name.length, name⟩ := by
  rw [← first?_localFunction_eq_none_iff, checkOrderOn]
  split
  next hsome =>
    obtain ⟨o, ho⟩ := Option.isSome_iff_exists.1 hsome
    simp [ho]
  next hnone =>
    simp only [Option.not_isSome_iff_eq_none.1 hnone, true_and, List.mem_filterMap]
    constructor
    · rintro ⟨⟨k, stop, name⟩, ho, h⟩
      split at h
      next declared hknown =>
        split at h
        next hearly =>
          refine ⟨k, name, declared, (exists_mem_bareCalls_iff _ _ _).1 ⟨stop, ho⟩, hknown,
            hearly, ?_⟩
          exact (Option.some.inj h).symm
        · cases h
      · cases h
    · rintro ⟨k, name, declared, hcall, hknown, hearly, rfl⟩
      obtain ⟨stop, ho⟩ := (exists_mem_bareCalls_iff _ _ _).2 hcall
      refine ⟨_, ho, ?_⟩
      simp only [hknown, if_pos hearly]
      rfl

theorem line_of_mem_checkOrderOn {d : Diagnostic} (h : d ∈ checkOrderOn found i line) :
    d.line = i := by
  obtain ⟨-, k, name, declared, -, -, -, rfl⟩ := (mem_checkOrderOn_iff found i line d).1 h
  rfl

/-- The reports for a line come from left to right. -/
theorem pairwise_checkOrderOn : (checkOrderOn found i line).Pairwise Diagnostic.Before := by
  obtain ⟨pick, hpick, hcheck⟩ := exists_pick_checkOrderOn found i line
  rw [hcheck]
  refine (Text.pairwise_start_occurrences _ _).filterMap _ ?_
  intro o o' hlt d hd e he
  obtain ⟨declared, rfl⟩ := hpick o d hd
  obtain ⟨declared', rfl⟩ := hpick o' e he
  exact .inr ⟨rfl, hlt⟩

end Line

theorem pairwise_checkOrder (s : Script) : (checkOrder s).Pairwise Diagnostic.Before := by
  rw [checkOrder, List.pairwise_flatMap]
  constructor
  · rintro ⟨line, i⟩ -
    exact pairwise_checkOrderOn _ i line
  · refine (pairwise_zipIdx s.masked).imp ?_
    rintro ⟨line, i⟩ ⟨line', j⟩ hij d hd e he
    left
    rw [line_of_mem_checkOrderOn _ _ _ hd, line_of_mem_checkOrderOn _ _ _ he]
    exact hij

/-- **The calls that are reported.**  For every text, the rule reports exactly the calls of a plain
    name on a line that is not blank and declares no local function, where the name is known to be
    declared on a later line.  The report marks the name.  There is one report for each such call,
    line after line and from left to right. -/
theorem early_calls_reported (t : List Char) :
    (∀ d, d ∈ checkOrder (.ofText t) ↔
      ∃ i k declared name, CalledEarly (Script.ofText t).masked i k declared name ∧
        d = earlyCall i declared ⟨k, k + name.length, name⟩) ∧
    (checkOrder (.ofText t)).Pairwise Diagnostic.Before := by
  refine ⟨fun d => ?_, pairwise_checkOrder _⟩
  rw [checkOrder, List.mem_flatMap]
  constructor
  · rintro ⟨⟨line, i⟩, hmem, hd⟩
    obtain ⟨hnone, k, name, declared, hcall, hknown, hearly, rfl⟩ :=
      (mem_checkOrderOn_iff _ _ _ _).1 hd
    have hline := List.mk_mem_zipIdx_iff_getElem?.1 hmem
    exact ⟨i, k, declared, name,
      ⟨⟨line, hline, hcall.trim_ne_nil, hnone, hcall⟩, hknown, hearly⟩, rfl⟩
  · rintro ⟨i, k, declared, name, ⟨⟨line, hline, -, hnone, hcall⟩, hknown, hearly⟩, rfl⟩
    refine ⟨(line, i), List.mk_mem_zipIdx_iff_getElem?.2 hline, ?_⟩
    exact (mem_checkOrderOn_iff _ _ _ _).2 ⟨hnone, k, name, declared, hcall, hknown, hearly, rfl⟩

/-- Calls in the arguments of others, next to those of a field, a method and a longer word. -/
example :
    checkOrder (.ofText
      "f(g (x.f(x:g(éf(1)))))\nlocal function f() end\nlocal function g() end".toList) =
    [earlyCall 0 1 ⟨0, 1, "f".toList⟩, earlyCall 0 2 ⟨2, 3, "g".toList⟩] := by
  decide +kernel

end LuaAudit.Lint
