import LuaAudit.Proofs.Scan.Waiting

/-!
# Runs of the scheduler

A run is any sequence of deeds: operations in any order, changes of the settings, time that passes,
and calls of the event loop.  Time does not pass a deadline whose call is still to be made, and a
call may be made, in any order with the other deeds of that moment, once it is due.

* `Step` is one deed, `Run` a sequence of them with the record of what was done when;
* `Step.sound` and `Run.sound`: the invariant holds in every state of a run;
* `Step.waiting`: a document waits after a deed because it did before, or because the deed has just
  scheduled it; `Run.scheduled` follows it back to the deed that scheduled it;
* `Step.silent` and `Run.silent`: nothing is published about a document that neither waits nor is
  asked for.
-/

namespace LuaAudit.Scan

open Scheduler (isLinted delay publication)

/-! ### Deeds and runs -/

/-- What can happen: an operation, a change of the settings, time that passes, or a call of the
    event loop. -/
inductive Deed where
  | schedule (d : Document)
  | scanNow (d : Document)
  | close (uri : String)
  | flush
  | dispose
  | configure (s : Settings)
  | wait (ms : Nat)
  | ring (a : Alarm)

/-- A scheduler and the settings in force. -/
structure Session where
  settings : Settings
  scheduler : Scheduler := {}

/-- One deed, what it leads to and what it makes known. -/
inductive Step (x : Session) : Deed → Session → List Event → Prop where
  | schedule (d : Document) :
    Step x (.schedule d) { x with scheduler := x.scheduler.schedule x.settings d } []
  | scanNow (d : Document) :
    Step x (.scanNow d) { x with scheduler := (x.scheduler.scanNow x.settings d).1 }
      (x.scheduler.scanNow x.settings d).2.1
  | close (uri : String) :
    Step x (.close uri) { x with scheduler := (x.scheduler.close uri).1 }
      (x.scheduler.close uri).2
  | flush :
    Step x .flush { x with scheduler := (x.scheduler.flush x.settings).1 }
      (x.scheduler.flush x.settings).2.1
  | dispose : Step x .dispose { x with scheduler := x.scheduler.dispose } []
  | configure (s : Settings) : Step x (.configure s) { x with settings := s } []
  | wait (ms : Nat)
      (early : ∀ a ∈ x.scheduler.loop.live, x.scheduler.loop.now + ms ≤ a.deadline) :
    Step x (.wait ms)
      { x with scheduler := { x.scheduler with
          loop := x.scheduler.loop.waitUntil (x.scheduler.loop.now + ms) } } []
  | ring (a : Alarm) (live : a ∈ x.scheduler.loop.live)
      (due : a.deadline ≤ x.scheduler.loop.now) :
    Step x (.ring a) { x with scheduler := (x.scheduler.ring x.settings a).1 }
      (x.scheduler.ring x.settings a).2

/-- The record of a deed: when it was done, under which settings, and what it made known. -/
structure Entry where
  time : Nat
  settings : Settings
  deed : Deed
  events : List Event

/-- The record of a deed done in a session. -/
def Session.record (x : Session) (deed : Deed) (events : List Event) : Entry :=
  ⟨x.scheduler.loop.now, x.settings, deed, events⟩

/-- A sequence of deeds and its record. -/
inductive Run (x : Session) : List Entry → Session → Prop where
  | nil : Run x [] x
  | snoc {trace : List Entry} {y z : Session} {deed : Deed} {events : List Event}
      (run : Run x trace y) (step : Step y deed z events) :
    Run x (trace ++ [y.record deed events]) z

/-- A run may be cut after any deed. -/
theorem Run.split {x z : Session} {before after : List Entry} (run : Run x (before ++ after) z) :
    ∃ y, Run x before y ∧ Run y after z := by
  generalize h : before ++ after = trace at run
  induction run generalizing after with
  | nil =>
    obtain ⟨rfl, rfl⟩ := List.append_eq_nil_iff.1 h
    exact ⟨x, .nil, .nil⟩
  | @snoc trace y z deed events run step ih =>
    -- The run grows at its end: either the cut is there, or its last deed is the last one after it.
    rcases List.eq_nil_or_concat after with rfl | ⟨after, last, rfl⟩
    · rw [List.append_nil] at h
      subst h
      exact ⟨z, .snoc run step, .nil⟩
    · rw [List.concat_eq_append, ← List.append_assoc] at h
      rw [List.concat_eq_append]
      obtain ⟨rfl, hlast⟩ := List.append_inj' h rfl
      obtain rfl := List.singleton_inj.1 hlast
      obtain ⟨w, hbefore, hafter⟩ := ih rfl
      exact ⟨w, hbefore, .snoc hafter step⟩

/-- The deed behind a record. -/
theorem Run.split_cons {x z : Session} {before after : List Entry} {e : Entry}
    (run : Run x (before ++ e :: after) z) :
    ∃ y w, Run x before y ∧ Step y e.deed w e.events ∧ e.time = y.scheduler.loop.now ∧
      e.settings = y.settings ∧ Run w after z := by
  rw [List.append_cons] at run
  obtain ⟨w, hfirst, hafter⟩ := run.split
  generalize h : before ++ [e] = trace at hfirst
  cases hfirst with
  | nil => simp at h
  | snoc hbefore step =>
    obtain ⟨rfl, hlast⟩ := List.append_inj' h rfl
    obtain rfl := List.singleton_inj.1 hlast
    exact ⟨_, w, hbefore, step, rfl, rfl, hafter⟩

/-! ### The invariant along a run -/

/-- Every deed keeps the scheduler sound. -/
theorem Step.sound {x y : Session} {deed : Deed} {events : List Event}
    (step : Step x deed y events) (hs : x.scheduler.Sound) : y.scheduler.Sound := by
  cases step with
  | schedule d => exact hs.schedule x.settings d
  | scanNow d => exact (hs.cancel d.uri).scan x.settings d
  | close uri => exact (hs.cancel uri).withStore _
  | flush => exact hs.flush x.settings
  | dispose => exact hs.dispose
  | configure s => exact hs
  | wait ms early => exact hs.waitUntil early
  | ring a live due =>
    refine hs.ring live (fun b hb => ?_) x.settings
    rw [Nat.max_eq_left due]
    exact hs.punctual hb

theorem Run.sound {x y : Session} {trace : List Entry} (run : Run x trace y)
    (hs : x.scheduler.Sound) : y.scheduler.Sound := by
  induction run with
  | nil => exact hs
  | snoc _ step ih => exact step.sound ih

/-! ### Why a document waits -/

/-- Whether a recorded deed has to do with the timer of a document.  Scheduling a document of
    another language has not. -/
def Entry.Affects (e : Entry) (u : String) : Prop :=
  match e.deed with
  | .schedule d => isLinted e.settings d ∧ d.uri = u
  | .scanNow d => d.uri = u
  | .close v => v = u
  | .flush => True
  | .dispose => True
  | .configure _ => False
  | .wait _ => False
  | .ring a => a.uri = u

/-- The last recorded deed about a document scheduled it, with this deadline. -/
def Scheduled (trace : List Entry) (u : String) (d : Document) (deadline : Nat) : Prop :=
  ∃ before e after, trace = before ++ e :: after ∧ e.deed = .schedule d ∧ d.uri = u ∧
    isLinted e.settings d ∧ deadline = e.time + delay e.settings ∧ ∀ e' ∈ after, ¬ e'.Affects u

/-- A document stays scheduled until another deed affects it. -/
theorem Scheduled.snoc {trace : List Entry} {u : String} {d : Document} {deadline : Nat}
    (h : Scheduled trace u d deadline) {e : Entry} (he : ¬ e.Affects u) :
    Scheduled (trace ++ [e]) u d deadline := by
  obtain ⟨before, e₀, after, rfl, hdeed, huri, hlinted, hdeadline, hafter⟩ := h
  refine ⟨before, e₀, after ++ [e], by simp, hdeed, huri, hlinted, hdeadline, ?_⟩
  intro e' he'
  rcases List.mem_append.1 he' with he' | he'
  · exact hafter e' he'
  · rw [List.mem_singleton.1 he']
    exact he

/-- What waits after a timer was stopped waited before, and is another document. -/
theorem Scheduler.Sound.waiting_cancel {x : Scheduler} (hs : x.Sound) {u : String} {a : Alarm}
    {d : Document} (ha : a ∈ (x.cancel u).loop.live)
    (hd : (x.cancel u).pending.get? a.uri = some d) :
    a ∈ x.loop.live ∧ x.pending.get? a.uri = some d ∧ u ≠ a.uri := by
  obtain ⟨hlive, hne⟩ := hs.mem_live_cancel.1 ha
  rw [cancel_pending, OrderedMap.get?_erase_of_ne _ hne] at hd
  exact ⟨hlive, hd, Ne.symm hne⟩

/-- **Why a document waits.**  After a deed a document waits for a call because it did so before and
    the deed does not affect it, or because the deed schedules it. -/
theorem Step.waiting {x y : Session} {deed : Deed} {events : List Event}
    (step : Step x deed y events) (hs : x.scheduler.Sound) {a : Alarm}
    (ha : a ∈ y.scheduler.loop.live) {d : Document} (hd : y.scheduler.pending.get? a.uri = some d) :
    (a ∈ x.scheduler.loop.live ∧ x.scheduler.pending.get? a.uri = some d ∧
      ¬ (x.record deed events).Affects a.uri) ∨
    (deed = .schedule d ∧ d.uri = a.uri ∧ isLinted x.settings d ∧
      a.deadline = x.scheduler.loop.now + delay x.settings) := by
  cases step with
  | schedule d' =>
    by_cases hlinted : isLinted x.settings d'
    · simp only [Scheduler.schedule, hlinted, if_true] at ha hd
      simp only [Scheduler.start] at ha hd
      -- The call is an older one about another document, or the one just asked for.
      rcases Loop.mem_live_callLater.1 ha with ha | rfl
      · have hne : a.uri ≠ d'.uri := (hs.mem_live_cancel.1 ha).2
        rw [OrderedMap.get?_insert_of_ne _ _ hne] at hd
        obtain ⟨hlive, hd, -⟩ := hs.waiting_cancel ha hd
        exact .inl ⟨hlive, hd, fun h => hne h.2.symm⟩
      · rw [OrderedMap.get?_insert_self] at hd
        obtain rfl := Option.some.inj hd
        exact .inr ⟨rfl, rfl, hlinted, by simp⟩
    · simp only [Scheduler.schedule, hlinted] at ha hd
      exact .inl ⟨ha, hd, fun h => hlinted h.1⟩
  | scanNow d' =>
    simp only [Scheduler.scanNow, Scheduler.scan_loop, Scheduler.scan_pending] at ha hd
    exact .inl (hs.waiting_cancel ha hd)
  | close uri => exact .inl (hs.waiting_cancel ha hd)
  | flush =>
    rw [hs.pending_flush] at hd
    cases hd
  | dispose =>
    rw [hs.pending_dispose] at hd
    cases hd
  | configure s => exact .inl ⟨ha, hd, id⟩
  | wait ms early => exact .inl ⟨ha, hd, id⟩
  | ring b live due =>
    obtain ⟨d', hd'⟩ := hs.exists_pending live
    simp only [Scheduler.ring_eq hd', Scheduler.scan_loop, Scheduler.scan_pending,
      Scheduler.forget] at ha hd
    obtain ⟨hlive, hne⟩ := (Loop.mem_live_take hs.distinct).1 ha
    have huri : a.uri ≠ b.uri := fun h => hne (hs.eq_of_uri hlive live h)
    rw [OrderedMap.get?_erase_of_ne _ huri] at hd
    exact .inl ⟨hlive, hd, Ne.symm huri⟩

/-- A document that waits in a state of a run was scheduled by the last deed that affects it. -/
theorem Run.scheduled {s : Settings} {y : Session} {trace : List Entry}
    (run : Run ⟨s, {}⟩ trace y) {a : Alarm} (ha : a ∈ y.scheduler.loop.live) {d : Document}
    (hd : y.scheduler.pending.get? a.uri = some d) : Scheduled trace a.uri d a.deadline := by
  induction run with
  | nil => cases ha
  | @snoc trace y z deed events run step ih =>
    rcases step.waiting (run.sound Scheduler.sound_empty) ha hd with
      ⟨hlive, hpending, hnot⟩ | ⟨rfl, huri, hlinted, hdeadline⟩
    · exact (ih hlive hpending).snoc hnot
    · exact ⟨trace, _, [], rfl, rfl, huri, hlinted, hdeadline, by simp⟩

/-! ### When nothing is published -/

/-- Whether a deed asks for a scan of a document, now or later. -/
def Deed.AsksFor (deed : Deed) (u : String) : Prop :=
  match deed with
  | .schedule d => d.uri = u
  | .scanNow d => d.uri = u
  | _ => False

theorem Scheduler.not_publish_of_ne {s : Settings} {d : Document} {u : String} (h : d.uri ≠ u)
    (found : List Lint.Diagnostic) : Event.publish u found ∉ publication s d := by
  intro hmem
  obtain ⟨_, -, he⟩ := mem_publication hmem
  injection he with huri
  exact h huri.symm

/-- A document that does not wait is not published by a deed that does not ask for it, and still
    does not wait. -/
theorem Step.silent {x y : Session} {deed : Deed} {events : List Event}
    (step : Step x deed y events) (hs : x.scheduler.Sound) {u : String}
    (hfree : x.scheduler.pending.get? u = none) (hask : ¬ deed.AsksFor u) :
    y.scheduler.pending.get? u = none ∧ ∀ found, Event.publish u found ∉ events := by
  have herase : ∀ v, (x.scheduler.pending.erase v).get? u = none := by
    intro v
    rw [OrderedMap.get?_erase, hfree, ite_self]
  -- Whatever a deed scans because it waits is another document.
  have hother : ∀ {d}, d ∈ x.scheduler.pending.values → d.uri ≠ u := by
    rintro d hd rfl
    rw [hs.get?_uri hd] at hfree
    cases hfree
  cases step with
  | schedule d =>
    refine ⟨?_, fun _ => List.not_mem_nil⟩
    simp only [Scheduler.schedule]
    split
    · simp only [Scheduler.start, Scheduler.cancel_pending]
      rw [OrderedMap.get?_insert_of_ne _ _ (Ne.symm hask), herase]
    · exact hfree
  | scanNow d =>
    simp only [Scheduler.scanNow, Scheduler.scan_pending, Scheduler.scan_events,
      Scheduler.cancel_pending]
    exact ⟨herase d.uri, Scheduler.not_publish_of_ne hask⟩
  | close v =>
    simp only [Scheduler.close, Scheduler.cancel_pending]
    exact ⟨herase v, by simp⟩
  | flush =>
    refine ⟨hs.pending_flush x.settings u, fun found hmem => ?_⟩
    obtain ⟨d, hd, hpub⟩ := Scheduler.mem_events_scanAll hmem
    exact Scheduler.not_publish_of_ne (hother hd) found hpub
  | dispose => exact ⟨hs.pending_dispose u, fun _ => List.not_mem_nil⟩
  | configure s => exact ⟨hfree, fun _ => List.not_mem_nil⟩
  | wait ms early => exact ⟨hfree, fun _ => List.not_mem_nil⟩
  | ring a live due =>
    obtain ⟨d, hd⟩ := hs.exists_pending live
    simp only [Scheduler.ring_eq hd, Scheduler.scan_pending, Scheduler.scan_events,
      Scheduler.forget]
    have hwaits := (x.scheduler.pending.mem_values_iff d).2 ⟨a.uri, hd⟩
    exact ⟨herase a.uri, Scheduler.not_publish_of_ne (hother hwaits)⟩

/-- A document that does not wait still does not wait after a run that never asks for it. -/
theorem Run.silent {x y : Session} {trace : List Entry} (run : Run x trace y)
    (hs : x.scheduler.Sound) {u : String} (hfree : x.scheduler.pending.get? u = none)
    (hask : ∀ e ∈ trace, ¬ e.deed.AsksFor u) : y.scheduler.pending.get? u = none := by
  induction run with
  | nil => exact hfree
  | snoc run step ih =>
    simp only [List.mem_append, List.mem_singleton] at hask
    exact (step.silent (run.sound hs) (ih fun e he => hask e (.inl he)) (hask _ (.inr rfl))).1

/-- After closing a document, or stopping every timer, the document does not wait. -/
theorem Step.pending_eq_none {x y : Session} {deed : Deed} {events : List Event}
    (step : Step x deed y events) (hs : x.scheduler.Sound) {u : String}
    (hdeed : deed = .close u ∨ deed = .dispose) : y.scheduler.pending.get? u = none := by
  rcases hdeed with rfl | rfl
  · cases step
    simp [Scheduler.close]
  · cases step
    exact hs.pending_dispose u

/-! ### One call for each document that waits -/

/-- A document with a timer has one live call, and a document without one has none. -/
theorem Scheduler.Sound.length_live {x : Scheduler} (hs : x.Sound) (u : String) :
    (x.loop.live.filter (·.uri = u)).length = if u ∈ x.timers.keys then 1 else 0 := by
  have hmem : ∀ {a}, a ∈ x.loop.live.filter (·.uri = u) ↔ a ∈ x.loop.live ∧ a.uri = u := by
    simp [List.mem_filter]
  split
  next hu =>
    obtain ⟨handle, hhandle⟩ := (x.timers.mem_keys_iff u).1 hu
    obtain ⟨a, ha, -, hau⟩ := hs.armed hhandle
    -- All calls about the document are this one, and it does not stand there twice.
    have hall : ∀ b ∈ x.loop.live.filter (·.uri = u), b = a := fun b hb =>
      hs.eq_of_uri (hmem.1 hb).1 ha ((hmem.1 hb).2.trans hau.symm)
    have hnodup : (x.loop.live.filter (·.uri = u)).Nodup :=
      ((List.Nodup.of_map _ hs.distinct).filter _).filter _
    rw [List.eq_replicate_of_mem hall, List.nodup_replicate] at hnodup
    exact Nat.le_antisymm hnodup (List.length_pos_of_mem (hmem.2 ⟨ha, hau⟩))
  next hu =>
    rw [List.length_eq_zero_iff, List.eq_nil_iff_forall_not_mem]
    intro a ha
    obtain ⟨hlive, rfl⟩ := hmem.1 ha
    exact hu ((x.timers.mem_keys_iff _).2 ⟨a.handle, hs.tracked hlive⟩)

/-- **Faithful timers.**  In every state of every run the handles of the timers and the waiting
    documents have the same keys, a waiting document stands under its own name, and the event loop
    has exactly one live call for each of them and no other.  A call scans the document that the
    last deed about it scheduled, after exactly the delay in force then.  And once a document is
    closed, or every timer stopped, nothing is published about it until it is asked for again. -/
theorem Run.timers_faithful {s : Settings} {trace : List Entry} {z : Session}
    (run : Run ⟨s, {}⟩ trace z) :
    ((∀ u, u ∈ z.scheduler.timers.keys ↔ u ∈ z.scheduler.pending.keys) ∧
      (∀ u d, z.scheduler.pending.get? u = some d → d.uri = u) ∧
      ∀ u, (z.scheduler.loop.live.filter (·.uri = u)).length =
        if u ∈ z.scheduler.timers.keys then 1 else 0) ∧
    (∀ before e after a, trace = before ++ e :: after → e.deed = .ring a →
      ∃ d, Scheduled before a.uri d e.time ∧ e.events = publication e.settings d) ∧
    (∀ before e between e' after u found, trace = before ++ e :: (between ++ e' :: after) →
      e.deed = .close u ∨ e.deed = .dispose → Event.publish u found ∈ e'.events →
      ∃ e'' ∈ between ++ [e'], e''.deed.AsksFor u) := by
  refine ⟨?_, ?_, ?_⟩
  · have hs := run.sound Scheduler.sound_empty
    refine ⟨fun u => ?_, fun u d hd => hs.named hd, hs.length_live⟩
    rw [OrderedMap.mem_keys_iff, OrderedMap.mem_keys_iff, hs.paired]
  · rintro before e after a rfl hdeed
    obtain ⟨y, w, hbefore, step, htime, hsettings, -⟩ := run.split_cons
    have hs := hbefore.sound Scheduler.sound_empty
    rw [hdeed] at step
    generalize hevents : e.events = events at step
    cases step with
    | ring _ live due =>
      obtain ⟨d, hd⟩ := hs.exists_pending live
      -- A call is made once it is due, and by the invariant none is late.
      have hnow : a.deadline = e.time := by
        rw [htime]
        exact Nat.le_antisymm due (hs.punctual live)
      refine ⟨d, hnow ▸ hbefore.scheduled live hd, ?_⟩
      rw [Scheduler.ring_eq hd, Scheduler.scan_events, hsettings]
  · rintro before e between e' after u found rfl hdeed hpub
    obtain ⟨y, w, hbefore, step, -, -, hrest⟩ := run.split_cons
    have hy := hbefore.sound Scheduler.sound_empty
    have hw := step.sound hy
    obtain ⟨v, _, hbetween, step', -, -, -⟩ := hrest.split_cons
    -- If no deed asked for the document it never waited, and nothing was published.
    by_contra hnot
    have hnone : ∀ e'' ∈ between ++ [e'], ¬ e''.deed.AsksFor u := fun e'' he'' h =>
      hnot ⟨e'', he'', h⟩
    have hfree := hbetween.silent hw (step.pending_eq_none hy hdeed)
      fun e'' he'' => hnone e'' (List.mem_append_left _ he'')
    exact (step'.silent (hbetween.sound hw) hfree (hnone e' (by simp))).2 found hpub

/-- A document scheduled at the start is scanned when the delay of 350 milliseconds is over. -/
theorem timers_faithful_first_ring :
    ∃ (before : List Entry) (e : Entry) (z : Session),
      Run ⟨Settings.default, {}⟩ (before ++ [e]) z ∧ e.deed = .ring ⟨0, "a.lua", 350, false⟩ ∧
        e.time = 350 ∧
        ∃ d, Scheduled before "a.lua" d e.time ∧ e.events = publication e.settings d := by
  have scheduled := Run.nil.snoc
    (Step.schedule (x := ⟨Settings.default, {}⟩) ⟨"a.lua", some "x = 1", "lua"⟩)
  have waited := scheduled.snoc (Step.wait 350 (by decide))
  have rung := waited.snoc (Step.ring ⟨0, "a.lua", 350, false⟩ (by decide) (by decide))
  exact ⟨_, _, _, rung, rfl, rfl, rung.timers_faithful.2.1 _ _ [] _ rfl rfl⟩

end LuaAudit.Scan
