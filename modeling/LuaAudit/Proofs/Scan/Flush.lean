import LuaAudit.Proofs.Scan.Settle

/-!
# Scanning now is waiting

A scan of all waiting documents stops their timers and scans them in the order in which they were
scheduled; left alone, they are scanned by calls of the event loop in the order of their deadlines.
The reports are the same.

* `Scheduler.due? s x u`: the reports on a document once it no longer waits;
* `Step.due_eq` and `Run.due_eq`: waits and calls leave it as it is, while the reports come in;
* `Scheduler.Sound.get?_store_eq_due`: when nothing waits, it is what the store has;
* `Run.flush_is_waiting`: a scan of all waiting documents ends where waiting does.
-/

namespace LuaAudit.Scan

open Lint (Diagnostic)
open Scheduler (found?)

/-! ### The reports that are due -/

namespace Scheduler

/-- The reports on a document once it no longer waits: those of the document that waits, if it can
    be linted, and otherwise those that are there. -/
def due? (s : Settings) (x : Scheduler) (u : String) : Option (List Diagnostic) :=
  ((x.pending.get? u).bind (found? s)).or (x.store.get? u)

/-- A scan of all waiting documents leaves the reports that were due. -/
theorem Sound.get?_store_flush_eq_due {x : Scheduler} (hs : x.Sound) (s : Settings) (u : String) :
    (x.flush s).1.store.get? u = x.due? s u :=
  hs.get?_store_flush s u

/-- Where no call is to be made, the reports that are due are there. -/
theorem Sound.get?_store_eq_due {x : Scheduler} (hs : x.Sound) (hlive : x.loop.live = [])
    (s : Settings) (u : String) : x.store.get? u = x.due? s u := by
  have hfree : x.pending.get? u = none := hs.pending_eq_none (hs.timers_eq_none hlive u)
  rw [due?, hfree, Option.bind_none, Option.none_or]

/-- A call scans the document that waits for it, and leaves the others to wait. -/
theorem Sound.due?_ring {x : Scheduler} (hs : x.Sound) {a : Alarm} (ha : a ∈ x.loop.live)
    (s : Settings) (u : String) : (x.ring s a).1.due? s u = x.due? s u := by
  obtain ⟨d, hd⟩ := hs.exists_pending ha
  have huri : d.uri = a.uri := hs.named hd
  unfold due?
  rw [ring_eq hd, scan_pending, get?_store_scan, huri]
  simp only [forget]
  by_cases hu : u = a.uri
  · -- its reports come in, and it does not wait any longer
    rw [hu, OrderedMap.get?_erase_self, hd, if_pos rfl, Option.bind_none, Option.none_or,
      Option.bind_some]
  · rw [OrderedMap.get?_erase_of_ne _ hu, if_neg hu]

end Scheduler

/-- **One wait or call** leaves the reports that are due as they are. -/
theorem Step.due_eq {x y : Session} {deed : Deed} {events : List Event}
    (step : Step x deed y events) (hs : x.scheduler.Sound) (htick : deed.IsTick) (u : String) :
    y.settings = x.settings ∧
      y.scheduler.due? x.settings u = x.scheduler.due? x.settings u := by
  cases step with
  | wait ms early => exact ⟨rfl, rfl⟩
  | ring a live due => exact ⟨rfl, hs.due?_ring live x.settings u⟩
  | _ => exact htick.elim

/-- **As time passes** the reports that are due stay as they are. -/
theorem Run.due_eq {x y : Session} {trace : List Entry} (run : Run x trace y)
    (hs : x.scheduler.Sound) (htick : ∀ e ∈ trace, e.deed.IsTick) (u : String) :
    y.settings = x.settings ∧
      y.scheduler.due? x.settings u = x.scheduler.due? x.settings u := by
  induction run with
  | nil => exact ⟨rfl, rfl⟩
  | snoc run step ih =>
    simp only [List.mem_append, List.mem_singleton] at htick
    obtain ⟨hsettings, hdue⟩ := ih fun e he => htick e (.inl he)
    obtain ⟨hsame, hstep⟩ := step.due_eq (run.sound hs) (htick _ (.inr rfl)) u
    rw [hsettings] at hsame hstep
    exact ⟨hsame, hstep.trans hdue⟩

/-- Once time has passed every deadline no call is left to be made. -/
theorem Run.live_eq_nil {x y : Session} {trace : List Entry} (run : Run x trace y)
    (hs : x.scheduler.Sound) (htick : ∀ e ∈ trace, e.deed.IsTick)
    (hpast : ∀ a ∈ x.scheduler.loop.live, a.deadline < y.scheduler.loop.now) :
    y.scheduler.loop.live = [] := by
  rw [List.eq_nil_iff_forall_not_mem]
  intro a ha
  -- what is still live was live before, and time does not pass the deadline of a live call
  have hbefore := hpast a (run.live_subset hs htick a ha)
  have hpunctual := (run.sound hs).punctual ha
  omega

/-! ### After a scan of all waiting documents -/

namespace Scheduler

/-- As many documents wait as there are timers. -/
theorem Sound.size_timers {x : Scheduler} (hs : x.Sound) : x.timers.size = x.pending.size := by
  have hkeys : x.timers.keys.Perm x.pending.keys := by
    rw [List.perm_ext_iff_of_nodup x.timers.nodup_keys x.pending.nodup_keys]
    intro u
    rw [OrderedMap.mem_keys_iff, OrderedMap.mem_keys_iff, hs.paired]
  simpa [OrderedMap.keys, OrderedMap.size] using hkeys.length_eq

/-- After a scan of all waiting documents there is no timer, no document that waits and no call. -/
theorem Sound.idle_flush {x : Scheduler} (hs : x.Sound) (s : Settings) :
    (x.flush s).1.timers = .empty ∧ (x.flush s).1.pending = .empty ∧
      (x.flush s).1.loop.live = [] := by
  have hflushed := hs.flush s
  have hpending : (x.flush s).1.pending = .empty :=
    OrderedMap.eq_empty_of_get? (hs.pending_flush s)
  have htimers : ∀ u, (x.flush s).1.timers.get? u = none := by
    intro u
    rw [Option.eq_none_iff_forall_ne_some]
    intro handle hhandle
    obtain ⟨d, hd⟩ := (hflushed.paired u).1 ⟨handle, hhandle⟩
    rw [hpending] at hd
    cases hd
  refine ⟨OrderedMap.eq_empty_of_get? htimers, hpending, ?_⟩
  rw [List.eq_nil_iff_forall_not_mem]
  intro a ha
  have htracked := hflushed.tracked ha
  rw [htimers] at htracked
  cases htracked

/-- Where nothing waits a scan of all waiting documents does nothing. -/
theorem flush_of_pending_eq_empty {x : Scheduler} (h : x.pending = .empty) (s : Settings) :
    x.flush s = (x, [], 0) := by
  unfold flush
  rw [h]
  rfl

end Scheduler

/-- **Scanning now is waiting.**  In every state that a run can lead to, under the settings in
    force: a scan of all waiting documents leaves the same reports on every document as letting time
    pass every deadline does, in whatever order the calls of one moment are made.  It counts the
    documents that have a timer, and leaves none that has one, none that waits and no live call; a
    second one counts none, makes nothing known and changes nothing. -/
theorem Run.flush_is_waiting {s : Settings} {trace : List Entry} {z : Session}
    (run : Run ⟨s, {}⟩ trace z) :
    (∀ trace' y, Run z trace' y → (∀ e ∈ trace', e.deed.IsTick) →
      (∀ a ∈ z.scheduler.loop.live, a.deadline < y.scheduler.loop.now) →
      ∀ u, (z.scheduler.flush z.settings).1.store.get? u = y.scheduler.store.get? u) ∧
    (∀ ms, (∀ a ∈ z.scheduler.loop.live, a.deadline ≤ z.scheduler.loop.now + ms) →
      ∀ u, (z.scheduler.flush z.settings).1.store.get? u =
        (z.scheduler.advance z.settings ms).1.store.get? u) ∧
    (z.scheduler.flush z.settings).2.2 = z.scheduler.timers.size ∧
    (∀ u, (z.scheduler.flush z.settings).1.isPending u = false) ∧
    (z.scheduler.flush z.settings).1.pending.keys = [] ∧
    (z.scheduler.flush z.settings).1.loop.live = [] ∧
    (z.scheduler.flush z.settings).1.flush z.settings =
      ((z.scheduler.flush z.settings).1, [], 0) := by
  have hs := run.sound Scheduler.sound_empty
  obtain ⟨htimers, hpending, hlive⟩ := hs.idle_flush z.settings
  -- Both sides are the reports that are due: waits and calls do not change them.
  have hwaiting : ∀ trace' y, Run z trace' y → (∀ e ∈ trace', e.deed.IsTick) →
      y.scheduler.loop.live = [] →
      ∀ u, (z.scheduler.flush z.settings).1.store.get? u = y.scheduler.store.get? u := by
    intro trace' y run' htick hnone u
    rw [hs.get?_store_flush_eq_due, ← (run'.due_eq hs htick u).2,
      (run'.sound hs).get?_store_eq_due hnone z.settings u]
  refine ⟨?_, ?_, ?_, ?_, ?_, hlive, Scheduler.flush_of_pending_eq_empty hpending z.settings⟩
  · intro trace' y run' htick hpast
    exact hwaiting trace' y run' htick (run'.live_eq_nil hs htick hpast)
  · intro ms hpast
    obtain ⟨trace', run', htick, -⟩ := Scheduler.advance_ticks hs z.settings ms
    refine hwaiting trace' _ run' htick ?_
    rw [List.eq_nil_iff_forall_not_mem]
    intro a ha
    have hbefore := hpast a (run'.live_subset hs htick a ha)
    have hafter := Scheduler.advance_live hs z.settings ms a ha
    omega
  · rw [hs.size_timers]
    exact List.length_map Prod.snd
  · intro u
    rw [Scheduler.isPending, htimers]
    rfl
  · rw [hpending]
    rfl

/-- Of two documents with different deadlines the one scheduled first was scheduled again, so that
    the other one is called first; scanned now, both have the reports they have 350 milliseconds
    later. -/
theorem flush_is_waiting_rearmed :
    ∃ (trace : List Entry) (z : Session), Run ⟨Settings.default, {}⟩ trace z ∧
      z.scheduler.loop.live.map (fun a => (a.uri, a.deadline)) = [("b.lua", 400), ("a.lua", 450)] ∧
      (z.scheduler.flush z.settings).2.2 = 2 ∧
      (∀ u, (z.scheduler.flush z.settings).1.store.get? u =
        (z.scheduler.advance z.settings 350).1.store.get? u) ∧
      (z.scheduler.flush z.settings).1.loop.live = [] := by
  have first := Run.nil.snoc
    (Step.schedule (x := ⟨Settings.default, {}⟩) ⟨"a.lua", some "x = 1", "lua"⟩)
  have waited := first.snoc (Step.wait 50 (by decide))
  have second := waited.snoc (Step.schedule ⟨"b.lua", some "y = 1", "lua"⟩)
  have later := second.snoc (Step.wait 50 (by decide))
  have again := later.snoc (Step.schedule ⟨"a.lua", some "x = 2", "lua"⟩)
  obtain ⟨-, hwait, hcount, -, -, hlive, -⟩ := again.flush_is_waiting
  exact ⟨_, _, again, by decide, hcount.trans (by decide), hwait 350 (by decide), hlive⟩

end LuaAudit.Scan
