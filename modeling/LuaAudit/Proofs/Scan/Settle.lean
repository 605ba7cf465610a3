import LuaAudit.Proofs.Lint.Place
import LuaAudit.Proofs.Scan.Advance

/-!
# The last call wins

While the settings stay as they are, what is reported about a document is decided by the last call
about it alone, however scans at once, scans after a delay and scans of all waiting documents are
mixed.

* `lastCall? u trace` is the last deed of a run that schedules, scans or closes a document;
* `Agrees s x u wanted`: the document last asked for waits, or its reports are there;
* `Step.agrees` and `Run.agrees`: every deed keeps that, hence every run;
* `Run.last_call_wins`: once every deadline has passed, the reports are those of the last call.
-/

namespace LuaAudit.Scan

open Lint (Script Diagnostic runPasses)
open Scheduler (isLinted found?)

/-! ### The last call about a document -/

/-- Whether a deed is a call about a document: it schedules, scans or closes it. -/
def Deed.concerns (u : String) : Deed → Bool
  | .schedule d => d.uri = u
  | .scanNow d => d.uri = u
  | .close v => v = u
  | _ => false

/-- The document that a deed asks to be scanned, now or later. -/
def Deed.document? : Deed → Option Document
  | .schedule d => some d
  | .scanNow d => some d
  | _ => none

/-- The last call of a run about a document. -/
def lastCall? (u : String) (trace : List Entry) : Option Deed :=
  (trace.map Entry.deed).reverse.find? fun deed => deed.concerns u

/-- The document that the last call asks to be scanned; after closing it there is none. -/
def wanted? (u : String) (trace : List Entry) : Option Document :=
  (lastCall? u trace).bind Deed.document?

theorem wanted?_snoc (u : String) (trace : List Entry) (e : Entry) :
    wanted? u (trace ++ [e]) = if e.deed.concerns u then e.deed.document? else wanted? u trace := by
  unfold wanted? lastCall?
  by_cases h : e.deed.concerns u <;> simp [h]

/-- Deeds that are no calls about the document change nothing. -/
theorem wanted?_append {u : String} {trace trace' : List Entry}
    (h : ∀ e ∈ trace', e.deed.concerns u = false) :
    wanted? u (trace ++ trace') = wanted? u trace := by
  have hnone : (trace'.map Entry.deed).reverse.find? (fun deed => deed.concerns u) = none := by
    simpa using h
  rw [wanted?, lastCall?, List.map_append, List.reverse_append, List.find?_append, hnone,
    Option.none_or]
  rfl

/-- The document last asked for was asked for by a deed of the run. -/
theorem exists_of_wanted? {u : String} {trace : List Entry} {d : Document}
    (h : wanted? u trace = some d) : ∃ e ∈ trace, e.deed.document? = some d := by
  obtain ⟨deed, hlast, hd⟩ := Option.bind_eq_some_iff.1 h
  obtain ⟨e, he, rfl⟩ := List.mem_map.1 (List.mem_reverse.1 (List.mem_of_find?_eq_some hlast))
  exact ⟨e, he, hd⟩

theorem Deed.IsTick.concerns {deed : Deed} (h : deed.IsTick) (u : String) :
    deed.concerns u = false := by
  cases deed with
  | wait ms => rfl
  | ring a => rfl
  | _ => exact h.elim

/-! ### Runs under fixed settings -/

/-- Deeds on documents of a language that is linted, with their texts; no change of the settings and
    no stop of all timers. -/
def Deed.Plain (s : Settings) : Deed → Prop
  | .schedule d => isLinted s d ∧ d.text.isSome
  | .scanNow d => isLinted s d ∧ d.text.isSome
  | .dispose => False
  | .configure _ => False
  | _ => True

theorem Deed.Plain.lintable {s : Settings} {deed : Deed} {d : Document} (h : deed.Plain s)
    (hd : deed.document? = some d) : isLinted s d ∧ d.text.isSome := by
  cases deed with
  | schedule d' =>
    obtain rfl := Option.some.inj hd
    exact h
  | scanNow d' =>
    obtain rfl := Option.some.inj hd
    exact h
  | _ => cases hd

theorem Deed.IsTick.plain {deed : Deed} (h : deed.IsTick) (s : Settings) : deed.Plain s := by
  cases deed with
  | wait ms => trivial
  | ring a => trivial
  | _ => exact h.elim

theorem Step.settings_eq {x y : Session} {deed : Deed} {events : List Event}
    (step : Step x deed y events) (hplain : deed.Plain x.settings) : y.settings = x.settings := by
  cases step with
  | configure s => exact hplain.elim
  | _ => rfl

theorem Run.settings_eq {x y : Session} {trace : List Entry} (run : Run x trace y)
    (hplain : ∀ e ∈ trace, e.deed.Plain x.settings) : y.settings = x.settings := by
  induction run with
  | nil => rfl
  | snoc run step ih =>
    simp only [List.mem_append, List.mem_singleton] at hplain
    have hsame := ih fun e he => hplain e (.inl he)
    exact (step.settings_eq (hsame ▸ hplain _ (.inr rfl))).trans hsame

/-- A document that can be linted has reports: those of the passes on its text. -/
theorem Scheduler.found?_eq {s : Settings} {d : Document} (hlinted : isLinted s d)
    {text : String} (htext : d.text = some text) :
    ∃ found, runPasses s (Script.ofText text.toList) = .ok found ∧ found? s d = some found := by
  have hpasses := Lint.runPasses_eq s (Script.regular_ofText text.toList)
  refine ⟨_, hpasses, ?_⟩
  simp only [found?, hlinted, if_true, htext, Option.bind_some, Lint.lint, hpasses, Except.toOption]

theorem Scheduler.isSome_found? {s : Settings} {d : Document}
    (h : isLinted s d ∧ d.text.isSome) : (found? s d).isSome := by
  obtain ⟨text, htext⟩ := Option.isSome_iff_exists.1 h.2
  obtain ⟨found, -, hfound⟩ := Scheduler.found?_eq h.1 htext
  simp [hfound]

/-! ### What scans leave in the store -/

namespace Scheduler

/-- A scan of all waiting documents leaves the reports of a document that does not wait. -/
theorem Sound.get?_store_flush_of_none {x : Scheduler} (hs : x.Sound) (s : Settings) {u : String}
    (hfree : x.pending.get? u = none) : (x.flush s).1.store.get? u = x.store.get? u := by
  rw [hs.get?_store_flush, hfree, Option.bind_none, Option.none_or]

/-- A scan of all waiting documents scans each that waits. -/
theorem Sound.get?_store_flush_of_some {x : Scheduler} (hs : x.Sound) {s : Settings} {u : String}
    {d : Document} (hd : x.pending.get? u = some d) {found : List Diagnostic}
    (hfound : found? s d = some found) : (x.flush s).1.store.get? u = some found := by
  rw [hs.get?_store_flush, hd, Option.bind_some, hfound, Option.some_or]

end Scheduler

/-! ### The invariant of a run -/

/-- What a scheduler holds about a document agrees with the one last asked for: it waits, or nothing
    waits and its reports are there.  Where none is asked for there are no reports. -/
structure Agrees (s : Settings) (x : Scheduler) (u : String) (wanted : Option Document) : Prop where
  lintable : ∀ {d}, wanted = some d → (found? s d).isSome
  waiting : ∀ {d}, x.pending.get? u = some d → wanted = some d
  reported : x.pending.get? u = none → x.store.get? u = wanted.bind (found? s)

namespace Agrees

variable {s : Settings} {x y : Scheduler} {u : String} {wanted : Option Document}

theorem empty (s : Settings) (u : String) : Agrees s {} u none where
  lintable h := by cases h
  waiting h := by cases h
  reported _ := rfl

/-- Another document's affairs change nothing. -/
theorem congr (h : Agrees s x u wanted) (hpending : y.pending.get? u = x.pending.get? u)
    (hstore : y.store.get? u = x.store.get? u) : Agrees s y u wanted where
  lintable := h.lintable
  waiting hd := h.waiting (hpending ▸ hd)
  reported hfree := hstore.trans (h.reported (hpending ▸ hfree))

/-- A document that has just been put to wait. -/
theorem of_waiting {d : Document} (hfound : (found? s d).isSome)
    (hpending : x.pending.get? u = some d) : Agrees s x u (some d) where
  lintable h := Option.some.inj h ▸ hfound
  waiting h := hpending.symm.trans h
  reported h := by
    rw [hpending] at h
    cases h

/-- A document whose reports have just been put down. -/
theorem of_reported {d : Document} {found : List Diagnostic} (hfound : found? s d = some found)
    (hpending : x.pending.get? u = none) (hstore : x.store.get? u = some found) :
    Agrees s x u (some d) where
  lintable h := by
    rw [← Option.some.inj h, hfound]
    rfl
  waiting h := by
    rw [hpending] at h
    cases h
  reported _ := hstore.trans hfound.symm

/-- A document that has just been closed. -/
theorem of_closed (hpending : x.pending.get? u = none) (hstore : x.store.get? u = none) :
    Agrees s x u none where
  lintable h := by cases h
  waiting h := hpending.symm.trans h
  reported _ := hstore

/-- A scan that is due: the document that waited has its reports, and does not wait any longer. -/
theorem scanned (h : Agrees s x u wanted) {d : Document} (hd : x.pending.get? u = some d)
    (hpending : y.pending.get? u = none)
    (hstore : ∀ found, found? s d = some found → y.store.get? u = some found) :
    Agrees s y u wanted := by
  obtain rfl := h.waiting hd
  obtain ⟨found, hfound⟩ := Option.isSome_iff_exists.1 (h.lintable rfl)
  exact .of_reported hfound hpending (hstore found hfound)

end Agrees

/-- **One deed.**  What the scheduler holds about a document agrees with the deed, if it is a call
    about the document, and otherwise with what was asked for before. -/
theorem Step.agrees {x y : Session} {deed : Deed} {events : List Event}
    (step : Step x deed y events) (hs : x.scheduler.Sound) (hplain : deed.Plain x.settings)
    {u : String} {wanted : Option Document} (h : Agrees x.settings x.scheduler u wanted) :
    Agrees x.settings y.scheduler u (if deed.concerns u then deed.document? else wanted) := by
  cases step with
  | schedule d =>
    simp only [Scheduler.schedule, hplain.1, if_true, Deed.concerns, Deed.document?,
      decide_eq_true_eq]
    split
    next hu =>
      exact .of_waiting (Scheduler.isSome_found? hplain)
        (by simp [Scheduler.start, hu])
    next hu =>
      refine h.congr ?_ (by simp [Scheduler.start])
      simp only [Scheduler.start, Scheduler.cancel_pending]
      rw [OrderedMap.get?_insert_of_ne _ _ (Ne.symm hu), OrderedMap.get?_erase_of_ne _ (Ne.symm hu)]
  | scanNow d =>
    simp only [Scheduler.scanNow, Deed.concerns, Deed.document?, decide_eq_true_eq]
    split
    next hu =>
      obtain ⟨found, hfound⟩ := Option.isSome_iff_exists.1 (Scheduler.isSome_found? hplain)
      refine .of_reported hfound ?_ ?_
      · simp [hu]
      · simp [Scheduler.get?_store_scan, hu, hfound]
    next hu =>
      refine h.congr ?_ ?_
      · simp [OrderedMap.get?_erase_of_ne _ (Ne.symm hu)]
      · simp [Scheduler.get?_store_scan, Ne.symm hu]
  | close v =>
    simp only [Scheduler.close, Deed.concerns, Deed.document?, decide_eq_true_eq]
    split
    next hu => exact .of_closed (by simp [hu]) (by simp [hu])
    next hu =>
      refine h.congr ?_ ?_
      · simp [OrderedMap.get?_erase_of_ne _ (Ne.symm hu)]
      · simp [OrderedMap.get?_erase_of_ne _ (Ne.symm hu)]
  | flush =>
    -- No call about the document: if it waits it is the one last asked for, and is scanned now.
    have hpending := hs.pending_flush x.settings u
    cases hu : x.scheduler.pending.get? u with
    | none => exact h.congr (hpending.trans hu.symm) (hs.get?_store_flush_of_none _ hu)
    | some d => exact h.scanned hu hpending fun found => hs.get?_store_flush_of_some hu
  | dispose => exact hplain.elim
  | configure s => exact hplain.elim
  | wait ms early => exact h.congr rfl rfl
  | ring a live due =>
    obtain ⟨d, hd⟩ := hs.exists_pending live
    have huri := hs.named hd
    rw [Scheduler.ring_eq hd]
    -- As for `flush`, for the one document whose call is made.
    by_cases hu : u = a.uri
    · subst hu
      refine h.scanned hd (by simp [Scheduler.forget]) fun found hfound => ?_
      simp [Scheduler.get?_store_scan, huri, hfound]
    · refine h.congr ?_ ?_
      · simp [Scheduler.forget, OrderedMap.get?_erase_of_ne _ hu]
      · simp [Scheduler.get?_store_scan, huri, hu, Scheduler.forget]

/-- **A run.**  What the scheduler holds about a document agrees with the last call about it. -/
theorem Run.agrees {s : Settings} {trace : List Entry} {z : Session} (run : Run ⟨s, {}⟩ trace z)
    (hplain : ∀ e ∈ trace, e.deed.Plain s) (u : String) :
    Agrees s z.scheduler u (wanted? u trace) := by
  induction run with
  | nil => exact .empty s u
  | @snoc trace y z deed events run step ih =>
    simp only [List.mem_append, List.mem_singleton] at hplain
    have hbefore := fun e he => hplain e (.inl he)
    -- The settings of the step are those that the run began with.
    obtain rfl := run.settings_eq hbefore
    rw [wanted?_snoc]
    exact step.agrees (run.sound Scheduler.sound_empty) (hplain _ (.inr rfl)) (ih hbefore)

/-! ### Once every deadline has passed -/

/-- As time passes no call becomes live. -/
theorem Run.live_subset {x y : Session} {trace : List Entry} (run : Run x trace y)
    (hs : x.scheduler.Sound) (htick : ∀ e ∈ trace, e.deed.IsTick) :
    ∀ a ∈ y.scheduler.loop.live, a ∈ x.scheduler.loop.live := by
  induction run with
  | nil => exact fun a ha => ha
  | snoc run step ih =>
    simp only [List.mem_append, List.mem_singleton] at htick
    intro a ha
    have hy := run.sound hs
    obtain ⟨d, hd⟩ := (step.sound hy).exists_pending ha
    refine ih (fun e he => htick e (.inl he)) a ?_
    -- A live call was live before, or its document has just been scheduled, which no tick does.
    rcases step.waiting hy ha hd with ⟨hlive, -, -⟩ | ⟨rfl, -, -, -⟩
    · exact hlive
    · exact (htick _ (.inr rfl)).elim

/-- Where no call is live no document has a timer. -/
theorem Scheduler.Sound.timers_eq_none {x : Scheduler} (hs : x.Sound) (h : x.loop.live = [])
    (u : String) : x.timers.get? u = none := by
  rw [Option.eq_none_iff_forall_ne_some]
  intro handle hhandle
  obtain ⟨a, ha, -⟩ := hs.armed hhandle
  rw [h] at ha
  cases ha

section Settled

variable {s : Settings} {trace : List Entry} {z : Session} (run : Run ⟨s, {}⟩ trace z)
  (hplain : ∀ e ∈ trace, e.deed.Plain s) {ms : Nat}
  (hpast : ∀ a ∈ z.scheduler.loop.live, a.deadline ≤ z.scheduler.loop.now + ms)

include run hplain

/-- Letting time pass continues the run by deeds that are no calls. -/
theorem Run.exists_advance (ms : Nat) :
    ∃ trace', Run ⟨s, {}⟩ (trace ++ trace') ⟨s, (z.scheduler.advance s ms).1⟩ ∧
      Run z trace' ⟨s, (z.scheduler.advance s ms).1⟩ ∧ ∀ e ∈ trace', e.deed.IsTick := by
  obtain ⟨settings, scheduler⟩ := z
  obtain rfl : settings = s := run.settings_eq hplain
  obtain ⟨trace', run', htick, -⟩ :=
    Scheduler.advance_ticks (run.sound Scheduler.sound_empty) settings ms
  exact ⟨trace', run.append run', run', htick⟩

/-- Whatever waits after some time agrees with the last call, and so does the store. -/
theorem Run.agrees_advance (ms : Nat) (u : String) :
    Agrees s (z.scheduler.advance s ms).1 u (wanted? u trace) := by
  obtain ⟨trace', whole, -, htick⟩ := run.exists_advance hplain ms
  have hwhole : ∀ e ∈ trace ++ trace', e.deed.Plain s := fun e he =>
    (List.mem_append.1 he).elim (hplain e) fun he => (htick e he).plain s
  have hagrees := whole.agrees hwhole u
  rwa [wanted?_append fun e he => (htick e he).concerns u] at hagrees

include hpast

/-- Once every deadline has passed no call is live. -/
theorem Run.live_advance : (z.scheduler.advance s ms).1.loop.live = [] := by
  obtain ⟨trace', -, run', htick⟩ := run.exists_advance hplain ms
  have hs := run.sound Scheduler.sound_empty
  rw [List.eq_nil_iff_forall_not_mem]
  intro a ha
  have hbefore := hpast a (run'.live_subset hs htick a ha)
  have hafter := Scheduler.advance_live hs s ms a ha
  omega

/-- Once every deadline has passed no document has a timer, and none waits. -/
theorem Run.timers_advance (u : String) :
    (z.scheduler.advance s ms).1.timers.get? u = none ∧
      (z.scheduler.advance s ms).1.pending.get? u = none := by
  obtain ⟨trace', whole, -, -⟩ := run.exists_advance hplain ms
  have hs := whole.sound Scheduler.sound_empty
  have hnone := hs.timers_eq_none (run.live_advance hplain hpast) u
  exact ⟨hnone, hs.pending_eq_none hnone⟩

end Settled

/-- **The last call wins.**  After any run under fixed settings, on documents that can be linted,
    and once every deadline has passed, the reports on a document are those of the passes on the
    text of the document last scheduled or scanned under its name.  If the last call closed it, or
    there was no call, there are none.  And nothing waits. -/
theorem Run.last_call_wins {s : Settings} {trace : List Entry} {z : Session}
    (run : Run ⟨s, {}⟩ trace z) (hplain : ∀ e ∈ trace, e.deed.Plain s) (ms : Nat)
    (hpast : ∀ a ∈ z.scheduler.loop.live, a.deadline ≤ z.scheduler.loop.now + ms) :
    (∀ u, (∀ d, lastCall? u trace = some (.schedule d) ∨ lastCall? u trace = some (.scanNow d) →
        ∃ text found, d.text = some text ∧
          runPasses s (Script.ofText text.toList) = .ok found ∧
          (z.scheduler.advance s ms).1.store.get? u = some found) ∧
      (lastCall? u trace = some (.close u) ∨ lastCall? u trace = none →
        (z.scheduler.advance s ms).1.store.get? u = none)) ∧
    (∀ u, (z.scheduler.advance s ms).1.isPending u = false) ∧
    (z.scheduler.advance s ms).1.pending.keys = [] ∧
    (z.scheduler.advance s ms).1.loop.live = [] := by
  have hfree := run.timers_advance hplain hpast
  have hstore := fun u => (run.agrees_advance hplain ms u).reported (hfree u).2
  refine ⟨fun u => ⟨fun d hlast => ?_, fun hlast => ?_⟩, fun u => ?_, ?_,
    run.live_advance hplain hpast⟩
  · have hwanted : wanted? u trace = some d := by
      rcases hlast with h | h <;> rw [wanted?, h] <;> rfl
    obtain ⟨e, he, hasked⟩ := exists_of_wanted? hwanted
    obtain ⟨hlinted, hsome⟩ := (hplain e he).lintable hasked
    obtain ⟨text, htext⟩ := Option.isSome_iff_exists.1 hsome
    obtain ⟨found, hpasses, hfound⟩ := Scheduler.found?_eq hlinted htext
    refine ⟨text, found, htext, hpasses, ?_⟩
    rw [hstore, hwanted, Option.bind_some, hfound]
  · have hwanted : wanted? u trace = none := by
      rcases hlast with h | h <;> rw [wanted?, h] <;> rfl
    rw [hstore, hwanted, Option.bind_none]
  · rw [Scheduler.isPending, Bool.eq_false_iff, ne_eq, OrderedMap.contains_iff]
    rintro ⟨handle, hhandle⟩
    rw [(hfree u).1] at hhandle
    cases hhandle
  · rw [List.eq_nil_iff_forall_not_mem]
    intro u hu
    obtain ⟨d, hd⟩ := (OrderedMap.mem_keys_iff _ u).1 hu
    rw [(hfree u).2] at hd
    cases hd

/-- A document scheduled, left alone for 100 milliseconds and scheduled again is reported on with
    its newer text; one that is closed before its scan is not reported on. -/
theorem last_call_wins_rescheduled :
    ∃ (trace : List Entry) (z : Session), Run ⟨Settings.default, {}⟩ trace z ∧
      z.scheduler.loop.live ≠ [] ∧
      (∃ found, runPasses Settings.default (Script.ofText "x = 2".toList) = .ok found ∧
        (z.scheduler.advance Settings.default 350).1.store.get? "a.lua" = some found) ∧
      (z.scheduler.advance Settings.default 350).1.store.get? "b.lua" = none := by
  have first := Run.nil.snoc
    (Step.schedule (x := ⟨Settings.default, {}⟩) ⟨"a.lua", some "x = 1", "lua"⟩)
  have waited := first.snoc (Step.wait 100 (by decide))
  have second := waited.snoc (Step.schedule ⟨"a.lua", some "x = 2", "lua"⟩)
  have other := second.snoc (Step.schedule ⟨"b.lua", some "y = 1", "lua"⟩)
  have closed := other.snoc (Step.close "b.lua")
  have settled := closed.last_call_wins (by simp +decide [Session.record, Deed.Plain]) 350
    (by decide)
  obtain ⟨text, found, htext, hpasses, hstore⟩ :=
    (settled.1 "a.lua").1 ⟨"a.lua", some "x = 2", "lua"⟩ (.inl rfl)
  obtain rfl := Option.some.inj htext
  exact ⟨_, _, closed, by decide, ⟨found, hpasses, hstore⟩, (settled.1 "b.lua").2 (.inl rfl)⟩

end LuaAudit.Scan
