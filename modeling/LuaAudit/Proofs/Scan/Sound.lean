import LuaAudit.Proofs.OrderedMap
import LuaAudit.Scan.Schedule
import Mathlib.Data.List.Nodup

/-!
# Timers, waiting documents and calls agree

That a document waits is recorded three times: its timer's handle, the document itself, and a call
in the event loop.  `Sound` says that the three agree; every operation keeps it.

* `Loop` lemmas: which calls are live after `callLater`, `cancel` and `take`;
* `Scheduler.Sound`: the invariant;
* `Sound.cancel`, `Sound.start`, `Sound.release` and `Sound.scan`: the parts that the operations are
  made of keep it, and so do `Sound.schedule`, `Sound.scanAll` and `Sound.dispose`.
-/

namespace LuaAudit.Scan

/-! ### Live calls -/

namespace Loop

theorem mem_live_cancel {l : Loop} {handle : Nat} {a : Alarm} :
    a ∈ (l.cancel handle).live ↔ a ∈ l.live ∧ a.handle ≠ handle := by
  simp only [mem_live, cancel, List.mem_map]
  constructor
  · rintro ⟨⟨b, hb, rfl⟩, hlive⟩
    split at hlive
    · cases hlive
    next hne => simpa [hne] using ⟨hb, hlive⟩
  · rintro ⟨⟨ha, hlive⟩, hne⟩
    exact ⟨⟨a, ha, if_neg hne⟩, hlive⟩

theorem handles_cancel (l : Loop) (handle : Nat) :
    (l.cancel handle).alarms.map Alarm.handle = l.alarms.map Alarm.handle := by
  simp only [cancel, List.map_map]
  apply List.map_congr_left
  intro a _
  simp only [Function.comp_apply]
  split <;> rfl

theorem mem_live_callLater {l : Loop} {delay : Nat} {uri : String} {a : Alarm} :
    a ∈ (l.callLater delay uri).1.live ↔
      a ∈ l.live ∨ a = { handle := l.handles, uri, deadline := l.now + delay } := by
  simp only [mem_live, callLater, List.mem_append, List.mem_singleton]
  constructor
  · rintro ⟨h | rfl, hlive⟩
    · exact .inl ⟨h, hlive⟩
    · exact .inr rfl
  · rintro (⟨h, hlive⟩ | rfl)
    · exact ⟨.inl h, hlive⟩
    · exact ⟨.inr rfl, rfl⟩

theorem mem_live_take {l : Loop} (hdistinct : (l.alarms.map Alarm.handle).Nodup) {a b : Alarm} :
    b ∈ (l.take a).live ↔ b ∈ l.live ∧ b ≠ a := by
  simp only [mem_live, take, (List.Nodup.of_map _ hdistinct).mem_erase_iff]
  tauto

end Loop

/-! ### The invariant -/

namespace Scheduler

/-- The handles of the timers, the waiting documents and the live calls are three records of the
    same fact, and no call is overdue. -/
structure Sound (x : Scheduler) : Prop where
  named : ∀ {u d}, x.pending.get? u = some d → d.uri = u
  paired : ∀ u, (∃ handle, x.timers.get? u = some handle) ↔ ∃ d, x.pending.get? u = some d
  armed : ∀ {u handle}, x.timers.get? u = some handle →
    ∃ a ∈ x.loop.live, a.handle = handle ∧ a.uri = u
  tracked : ∀ {a}, a ∈ x.loop.live → x.timers.get? a.uri = some a.handle
  issued : ∀ {a}, a ∈ x.loop.alarms → a.handle < x.loop.handles
  distinct : (x.loop.alarms.map Alarm.handle).Nodup
  punctual : ∀ {a}, a ∈ x.loop.live → x.loop.now ≤ a.deadline

/-- A fresh scheduler is sound. -/
theorem sound_empty : ({} : Scheduler).Sound where
  named h := by cases h
  paired u := by simp
  armed h := by cases h
  tracked h := by cases h
  issued h := by cases h
  distinct := List.nodup_nil
  punctual h := by cases h

namespace Sound

variable {x : Scheduler} (hs : x.Sound)
include hs

/-- No two calls have one handle. -/
theorem eq_of_handle {a b : Alarm} (ha : a ∈ x.loop.alarms) (hb : b ∈ x.loop.alarms)
    (h : a.handle = b.handle) : a = b :=
  List.inj_on_of_nodup_map hs.distinct ha hb h

/-- No two live calls are about one document. -/
theorem eq_of_uri {a b : Alarm} (ha : a ∈ x.loop.live) (hb : b ∈ x.loop.live)
    (h : a.uri = b.uri) : a = b := by
  apply hs.eq_of_handle (Loop.mem_live.1 ha).1 (Loop.mem_live.1 hb).1
  apply Option.some.inj
  rw [← hs.tracked ha, ← hs.tracked hb, h]

/-- A document without a timer does not wait. -/
theorem pending_eq_none {u : String} (h : x.timers.get? u = none) : x.pending.get? u = none := by
  rw [Option.eq_none_iff_forall_ne_some]
  intro d hd
  obtain ⟨handle, hh⟩ := (hs.paired u).2 ⟨d, hd⟩
  rw [h] at hh
  cases hh

end Sound

/-! ### What `cancel` changes -/

@[simp] theorem cancel_timers (x : Scheduler) (u : String) :
    (x.cancel u).timers = x.timers.erase u := by
  unfold cancel
  split <;> rfl

@[simp] theorem cancel_pending (x : Scheduler) (u : String) :
    (x.cancel u).pending = x.pending.erase u := by
  unfold cancel
  split <;> rfl

@[simp] theorem cancel_store (x : Scheduler) (u : String) : (x.cancel u).store = x.store := by
  unfold cancel
  split <;> rfl

@[simp] theorem cancel_now (x : Scheduler) (u : String) : (x.cancel u).loop.now = x.loop.now := by
  unfold cancel
  split <;> rfl

@[simp] theorem cancel_handles (x : Scheduler) (u : String) :
    (x.cancel u).loop.handles = x.loop.handles := by
  unfold cancel
  split <;> rfl

theorem cancel_alarms (x : Scheduler) (u : String) :
    (x.cancel u).loop.alarms.map Alarm.handle = x.loop.alarms.map Alarm.handle := by
  unfold cancel
  split
  · exact Loop.handles_cancel ..
  · rfl

/-- Stopping the timer of a document cancels its call and no other. -/
theorem Sound.mem_live_cancel {x : Scheduler} (hs : x.Sound) {u : String} {a : Alarm} :
    a ∈ (x.cancel u).loop.live ↔ a ∈ x.loop.live ∧ a.uri ≠ u := by
  unfold Scheduler.cancel
  split
  next handle hhandle =>
    -- The cancelled call is found by its handle; that the handle is the document's is the
    -- invariant.
    refine Loop.mem_live_cancel.trans
      (and_congr_right fun ha => not_congr ⟨fun h => ?_, fun h => ?_⟩)
    · obtain ⟨b, hb, hbh, hbu⟩ := hs.armed hhandle
      rw [hs.eq_of_handle (Loop.mem_live.1 ha).1 (Loop.mem_live.1 hb).1 (h.trans hbh.symm), hbu]
    · have := hs.tracked ha
      rw [h, hhandle] at this
      exact (Option.some.inj this).symm
  next hnone =>
    refine ⟨fun ha => ⟨ha, fun h => ?_⟩, And.left⟩
    have := hs.tracked ha
    rw [h, hnone] at this
    cases this

/-! ### The invariant is kept -/

namespace Sound

variable {x : Scheduler} (hs : x.Sound)
include hs

theorem cancel (u : String) : (x.cancel u).Sound where
  named {v d} h := by
    rw [cancel_pending, OrderedMap.get?_erase] at h
    split at h
    · cases h
    · exact hs.named h
  paired v := by
    simp only [cancel_timers, cancel_pending, OrderedMap.get?_erase]
    split
    · simp
    · exact hs.paired v
  armed {v handle} h := by
    rw [cancel_timers, OrderedMap.get?_erase] at h
    split at h
    · cases h
    next hne =>
      obtain ⟨a, ha, hah, hau⟩ := hs.armed h
      exact ⟨a, hs.mem_live_cancel.2 ⟨ha, hau ▸ hne⟩, hah, hau⟩
  tracked {a} ha := by
    obtain ⟨hlive, hne⟩ := hs.mem_live_cancel.1 ha
    rw [cancel_timers, OrderedMap.get?_erase_of_ne _ hne, hs.tracked hlive]
  issued {a} ha := by
    -- A cancelled call is another value with the handle of the one before.
    have hmem : a.handle ∈ x.loop.alarms.map Alarm.handle :=
      x.cancel_alarms u ▸ List.mem_map_of_mem ha
    obtain ⟨b, hb, hbh⟩ := List.mem_map.1 hmem
    rw [cancel_handles, ← hbh]
    exact hs.issued hb
  distinct := by
    rw [cancel_alarms]
    exact hs.distinct
  punctual {a} ha := by
    rw [cancel_now]
    exact hs.punctual (hs.mem_live_cancel.1 ha).1

/-- Starting the timer of a document that has none. -/
theorem start {d : Document} (hfree : x.timers.get? d.uri = none) (delay : Nat) :
    (x.start delay d).Sound where
  named {v d'} h := by
    simp only [Scheduler.start, OrderedMap.get?_insert] at h
    split at h
    next hv => rw [hv, Option.some.inj h]
    · exact hs.named h
  paired v := by
    simp only [Scheduler.start, OrderedMap.get?_insert]
    split
    · simp
    · exact hs.paired v
  armed {v handle} h := by
    simp only [Scheduler.start, OrderedMap.get?_insert] at h
    split at h
    next hv => exact ⟨_, Loop.mem_live_callLater.2 (.inr rfl), Option.some.inj h, hv.symm⟩
    · obtain ⟨a, ha, hah, hau⟩ := hs.armed h
      exact ⟨a, Loop.mem_live_callLater.2 (.inl ha), hah, hau⟩
  tracked {a} ha := by
    simp only [Scheduler.start]
    rcases Loop.mem_live_callLater.1 ha with ha | rfl
    · -- No older call is about the document, as it had no timer.
      have htracked := hs.tracked ha
      have hne : a.uri ≠ d.uri := by
        intro h
        rw [h, hfree] at htracked
        cases htracked
      rw [OrderedMap.get?_insert_of_ne _ _ hne, htracked]
    · rw [OrderedMap.get?_insert_self]
      rfl
  issued {a} ha := by
    rcases List.mem_append.1 ha with ha | ha
    · exact Nat.lt_succ_of_lt (hs.issued ha)
    · rw [List.mem_singleton.1 ha]
      exact Nat.lt_succ_self _
  distinct := by
    simp only [Scheduler.start, Loop.callLater, List.map_append, List.map_cons, List.map_nil]
    refine List.nodup_append.2 ⟨hs.distinct, List.nodup_singleton _, ?_⟩
    -- The new handle is the number of those given out, and all older ones are below it.
    intro h hh _ hlast
    obtain ⟨b, hb, rfl⟩ := List.mem_map.1 hh
    rw [List.mem_singleton.1 hlast]
    exact Nat.ne_of_lt (hs.issued hb)
  punctual {a} ha := by
    rcases Loop.mem_live_callLater.1 ha with ha | rfl
    · exact hs.punctual ha
    · exact Nat.le_add_right _ _

/-- Taking a call out of the loop and forgetting its document, when no other call is late then. -/
theorem release {a : Alarm} (ha : a ∈ x.loop.live)
    (hearly : ∀ b ∈ x.loop.live, max x.loop.now a.deadline ≤ b.deadline) :
    ({ x with loop := x.loop.take a }.forget a.uri).Sound where
  named {v d} h := by
    simp only [forget, OrderedMap.get?_erase] at h
    split at h
    · cases h
    · exact hs.named h
  paired v := by
    simp only [forget, OrderedMap.get?_erase]
    split
    · simp
    · exact hs.paired v
  armed {v handle} h := by
    simp only [forget, OrderedMap.get?_erase] at h
    split at h
    · cases h
    next hne =>
      obtain ⟨b, hb, hbh, hbu⟩ := hs.armed h
      refine ⟨b, (Loop.mem_live_take hs.distinct).2 ⟨hb, ?_⟩, hbh, hbu⟩
      rintro rfl
      exact hne hbu.symm
  tracked {b} hb := by
    obtain ⟨hlive, hne⟩ := (Loop.mem_live_take hs.distinct).1 hb
    -- Another call that is live is about another document.
    have huri : b.uri ≠ a.uri := fun h => hne (hs.eq_of_uri hlive ha h)
    simp only [forget, OrderedMap.get?_erase_of_ne _ huri, hs.tracked hlive]
  issued {b} hb := hs.issued (List.mem_of_mem_erase hb)
  distinct := (List.erase_sublist.map Alarm.handle).nodup hs.distinct
  punctual {b} hb := hearly b ((Loop.mem_live_take hs.distinct).1 hb).1

/-- Letting time pass up to the first deadline. -/
theorem waitUntil {time : Nat} (htime : ∀ a ∈ x.loop.live, time ≤ a.deadline) :
    { x with loop := x.loop.waitUntil time }.Sound :=
  { hs with punctual := fun ha => htime _ ha }

theorem withStore (store : Store) : { x with store }.Sound := { hs with }

theorem scan (s : Settings) (d : Document) : (x.scan s d).1.Sound := by
  unfold Scheduler.scan
  split
  · exact hs.withStore _
  · exact hs

theorem schedule (s : Settings) (d : Document) : (x.schedule s d).Sound := by
  unfold Scheduler.schedule
  split
  · exact (hs.cancel d.uri).start (by simp) _
  · exact hs

omit hs in
theorem scanAll {x : Scheduler} (hs : x.Sound) (s : Settings) (ds : List Document) :
    (x.scanAll s ds).1.Sound := by
  induction ds generalizing x with
  | nil => exact hs
  | cons d ds ih => exact ih ((hs.cancel d.uri).scan s d)

omit hs in
theorem foldl_cancel {x : Scheduler} (hs : x.Sound) (us : List String) :
    (us.foldl Scheduler.cancel x).Sound := by
  induction us generalizing x with
  | nil => exact hs
  | cons u us ih => exact ih (hs.cancel u)

end Sound

end Scheduler

end LuaAudit.Scan
