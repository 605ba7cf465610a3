import LuaAudit.Proofs.Scan.Advance

/-!
# Documents do not interfere

Timers of all documents share one event loop, and `flush` and `dispose` go through all of them.
Still what becomes of one document depends on the operations about it alone, on those that are about
none, and on the time that passes.

* `Affairs` is all that a session holds about one document, with the settings and the clock;
* `Affairs.after` and `Affairs.advanced` say what a deed and the passing of time do to it, without
  any other document in sight;
* `Step.affairs`, `Scheduler.Sound.affairs_advance` and `affairs_perform`: that is what they do;
* `documents_apart`: operations about other documents can be left out of a run.
-/

namespace LuaAudit.Scan

open Lint (Diagnostic)
open Scheduler (isLinted delay found?)

/-! ### What a session holds about one document -/

/-- The deadline of the timer of a document. -/
def Scheduler.deadline? (x : Scheduler) (u : String) : Option Nat :=
  (x.timers.get? u).bind fun handle =>
    (x.loop.live.find? fun a => a.handle = handle).map Alarm.deadline

/-- All about one document: its reports, whether it has a timer, the document that waits and the
    deadline, with the settings in force and the clock. -/
@[ext]
structure Affairs where
  settings : Settings
  now : Nat
  reports : Option (List Diagnostic)
  isPending : Bool
  document : Option Document
  deadline : Option Nat

/-- What a session holds about a document. -/
def Session.affairs (x : Session) (u : String) : Affairs where
  settings := x.settings
  now := x.scheduler.loop.now
  reports := x.scheduler.store.get? u
  isPending := x.scheduler.isPending u
  document := x.scheduler.pending.get? u
  deadline := x.scheduler.deadline? u

namespace Scheduler

section Sound

variable {x y : Scheduler} (hx : x.Sound) (hy : y.Sound) {u : String}

include hx

/-- The deadline of a document is that of the live call about it. -/
theorem Sound.deadline?_eq_some_iff {time : Nat} :
    x.deadline? u = some time ↔ ∃ a ∈ x.loop.live, a.uri = u ∧ a.deadline = time := by
  unfold deadline?
  constructor
  · intro h
    obtain ⟨handle, hhandle, h⟩ := Option.bind_eq_some_iff.1 h
    obtain ⟨a, hfind, rfl⟩ := Option.map_eq_some_iff.1 h
    have ha := List.mem_of_find?_eq_some hfind
    have hah : a.handle = handle := by simpa using List.find?_some hfind
    -- The call with the handle is the one about the document.
    obtain ⟨b, hb, hbh, hbu⟩ := hx.armed hhandle
    obtain rfl := hx.eq_of_handle (Loop.mem_live.1 ha).1 (Loop.mem_live.1 hb).1 (hah.trans hbh.symm)
    exact ⟨a, ha, hbu, rfl⟩
  · rintro ⟨a, ha, rfl, rfl⟩
    rw [hx.tracked ha, Option.bind_some]
    obtain ⟨b, hfind⟩ : ∃ b, x.loop.live.find? (fun b => b.handle = a.handle) = some b := by
      rw [← Option.isSome_iff_exists, List.find?_isSome]
      exact ⟨a, ha, by simp⟩
    have hb := List.mem_of_find?_eq_some hfind
    have hbh : b.handle = a.handle := by simpa using List.find?_some hfind
    rw [hfind, hx.eq_of_handle (Loop.mem_live.1 hb).1 (Loop.mem_live.1 ha).1 hbh, Option.map_some]

/-- A document has a timer when it waits. -/
theorem Sound.isPending_eq (u : String) : x.isPending u = (x.pending.get? u).isSome := by
  rw [Bool.eq_iff_iff, isPending, OrderedMap.contains_iff, hx.paired, Option.isSome_iff_exists]

/-- A document that does not wait has neither timer nor deadline. -/
theorem Sound.affairs_of_free (hfree : x.pending.get? u = none) (s : Settings) :
    Session.affairs ⟨s, x⟩ u = ⟨s, x.loop.now, x.store.get? u, false, none, none⟩ := by
  have hdeadline : x.deadline? u = none := by
    rw [Option.eq_none_iff_forall_ne_some]
    intro time htime
    obtain ⟨a, ha, rfl, -⟩ := hx.deadline?_eq_some_iff.1 htime
    obtain ⟨d, hd⟩ := hx.exists_pending ha
    rw [hfree] at hd
    cases hd
  ext1
  · rfl
  · rfl
  · rfl
  · exact (hx.isPending_eq u).trans (by rw [hfree, Option.isSome_none])
  · exact hfree
  · exact hdeadline

include hy

/-- Two schedulers with the same clock, reports, waiting document and live calls hold the same about
    a document. -/
theorem Sound.affairs_congr (hnow : y.loop.now = x.loop.now)
    (hstore : y.store.get? u = x.store.get? u) (hpending : y.pending.get? u = x.pending.get? u)
    (hlive : ∀ a, a.uri = u → (a ∈ y.loop.live ↔ a ∈ x.loop.live)) (s : Settings) :
    Session.affairs ⟨s, y⟩ u = Session.affairs ⟨s, x⟩ u := by
  have hdeadline : y.deadline? u = x.deadline? u := by
    ext time
    rw [hy.deadline?_eq_some_iff, hx.deadline?_eq_some_iff]
    constructor
    · rintro ⟨a, ha, hau, htime⟩
      exact ⟨a, (hlive a hau).1 ha, hau, htime⟩
    · rintro ⟨a, ha, hau, htime⟩
      exact ⟨a, (hlive a hau).2 ha, hau, htime⟩
  ext1
  · rfl
  · exact hnow
  · exact hstore
  · show y.isPending u = x.isPending u
    rw [hx.isPending_eq, hy.isPending_eq, hpending]
  · exact hpending
  · exact hdeadline

end Sound

end Scheduler

/-! ### What happens to one document -/

namespace Affairs

/-- The document does not wait any longer. -/
def released (a : Affairs) : Affairs :=
  { a with isPending := false, document := none, deadline := none }

/-- A document is scanned under the name. -/
def scanned (a : Affairs) (d : Document) : Affairs :=
  { a with reports := (found? a.settings d).or a.reports }

/-- The document that waits, if any, is scanned. -/
def settled (a : Affairs) : Affairs :=
  { a.released with reports := (a.document.bind (found? a.settings)).or a.reports }

/-- A document waits from now on. -/
def awaiting (a : Affairs) (d : Document) : Affairs :=
  { a with
    isPending := true
    document := some d
    deadline := some (a.now + delay a.settings) }

/-- The same at another time. -/
def atTime (a : Affairs) (time : Nat) : Affairs := { a with now := time }

/-- What a deed does to the document of a name. -/
def after (u : String) (a : Affairs) : Deed → Affairs
  | .schedule d => if isLinted a.settings d ∧ d.uri = u then a.awaiting d else a
  | .scanNow d => if d.uri = u then a.released.scanned d else a
  | .close v => if v = u then { a.released with reports := none } else a
  | .flush => a.settled
  | .dispose => a.released
  | .configure s => { a with settings := s }
  | .wait ms => a.atTime (a.now + ms)
  | .ring b => if b.uri = u then a.settled else a

/-- What the passing of time does to a document: it is scanned if its deadline is reached. -/
def advanced (a : Affairs) (ms : Nat) : Affairs :=
  (if a.deadline.any (· ≤ a.now + ms) then a.settled else a).atTime (a.now + ms)

end Affairs

namespace Scheduler

variable {x : Scheduler} {u : String}

theorem Sound.affairs_cancel (hs : x.Sound) (s : Settings) (v u : String) :
    Session.affairs ⟨s, x.cancel v⟩ u =
      if v = u then (Session.affairs ⟨s, x⟩ u).released else Session.affairs ⟨s, x⟩ u := by
  split
  next hv =>
    subst hv
    rw [(hs.cancel v).affairs_of_free (by simp), cancel_now, cancel_store]
    rfl
  next hv =>
    refine hs.affairs_congr (hs.cancel v) (cancel_now x v) (by simp) ?_ ?_ s
    · rw [cancel_pending, OrderedMap.get?_erase_of_ne _ (Ne.symm hv)]
    · rintro a rfl
      rw [hs.mem_live_cancel]
      exact and_iff_left (Ne.symm hv)

/-- Starting the timer of a document that has none. -/
theorem Sound.affairs_start (hs : x.Sound) (s : Settings) {d : Document}
    (hfree : x.timers.get? d.uri = none) (u : String) :
    Session.affairs ⟨s, x.start (delay s) d⟩ u =
      if d.uri = u then (Session.affairs ⟨s, x⟩ u).awaiting d else Session.affairs ⟨s, x⟩ u := by
  have hy := hs.start hfree (delay s)
  split
  next hu =>
    subst hu
    have hpending : (x.start (delay s) d).pending.get? d.uri = some d :=
      OrderedMap.get?_insert_self ..
    have hdeadline : (x.start (delay s) d).deadline? d.uri = some (x.loop.now + delay s) :=
      hy.deadline?_eq_some_iff.2 ⟨_, Loop.mem_live_callLater.2 (.inr rfl), rfl, rfl⟩
    ext1
    · rfl
    · rfl
    · rfl
    · exact (hy.isPending_eq _).trans (by rw [hpending]; rfl)
    · exact hpending
    · exact hdeadline
  next hu =>
    refine hs.affairs_congr hy rfl rfl ?_ ?_ s
    · exact OrderedMap.get?_insert_of_ne _ _ (Ne.symm hu)
    · rintro a rfl
      refine Loop.mem_live_callLater.trans (or_iff_left ?_)
      rintro rfl
      exact hu rfl

/-- A scan changes the reports under its name only. -/
theorem affairs_scan (s : Settings) (x : Scheduler) (d : Document) (u : String) :
    Session.affairs ⟨s, (x.scan s d).1⟩ u =
      if d.uri = u then (Session.affairs ⟨s, x⟩ u).scanned d else Session.affairs ⟨s, x⟩ u := by
  have hreports := get?_store_scan s x d u
  unfold Session.affairs Affairs.scanned isPending deadline?
  split
  next hu =>
    rw [if_pos hu.symm] at hreports
    simp only [hreports, scan_loop, scan_timers, scan_pending]
  next hu =>
    rw [if_neg (Ne.symm hu)] at hreports
    simp only [hreports, scan_loop, scan_timers, scan_pending]

/-- The scan of the document that waits, once it does not wait any longer. -/
theorem settled_eq {s : Settings} {d : Document} (hd : x.pending.get? u = some d) :
    (Session.affairs ⟨s, x⟩ u).settled = (Session.affairs ⟨s, x⟩ u).released.scanned d := by
  simp only [Affairs.settled, Affairs.scanned, Affairs.released, Session.affairs, hd,
    Option.bind_some]

/-- A call scans the document that waits for it; then the clock stands at its deadline. -/
theorem Sound.affairs_ring (hs : x.Sound) (s : Settings) {a : Alarm} (ha : a ∈ x.loop.live)
    (hearly : ∀ b ∈ x.loop.live, max x.loop.now a.deadline ≤ b.deadline) (u : String) :
    Session.affairs ⟨s, (x.ring s a).1⟩ u =
      (if a.uri = u then (Session.affairs ⟨s, x⟩ u).settled else Session.affairs ⟨s, x⟩ u).atTime
        (max x.loop.now a.deadline) := by
  obtain ⟨d, hd⟩ := hs.exists_pending ha
  have hy := hs.release ha hearly
  rw [ring_eq hd, affairs_scan, hs.named hd]
  split
  next hu =>
    subst hu
    rw [settled_eq hd, hy.affairs_of_free (by simp [forget])]
    rfl
  next hu =>
    -- The clock is the only thing that changes, so compare with the scheduler at that time.
    have hx : { x with loop := x.loop.waitUntil (max x.loop.now a.deadline) }.Sound :=
      hs.waitUntil hearly
    refine hx.affairs_congr hy rfl rfl ?_ ?_ s
    · exact OrderedMap.get?_erase_of_ne _ (Ne.symm hu)
    · rintro b rfl
      refine (Loop.mem_live_take hs.distinct).trans (and_iff_left ?_)
      rintro rfl
      exact hu rfl

theorem store_foldl_cancel (x : Scheduler) (us : List String) :
    (us.foldl cancel x).store = x.store ∧ (us.foldl cancel x).loop.now = x.loop.now := by
  induction us generalizing x with
  | nil => exact ⟨rfl, rfl⟩
  | cons v us ih => simpa using ih (x.cancel v)

theorem scanAll_now (s : Settings) (x : Scheduler) (ds : List Document) :
    (x.scanAll s ds).1.loop.now = x.loop.now := by
  induction ds generalizing x with
  | nil => rfl
  | cons d ds ih => simp [scanAll, ih]

end Scheduler

/-- **One deed.**  What it does to a document depends on nothing but what is held about that
    document. -/
theorem Step.affairs {x y : Session} {deed : Deed} {events : List Event}
    (step : Step x deed y events) (hs : x.scheduler.Sound) (u : String) :
    y.affairs u = (x.affairs u).after u deed := by
  cases step with
  | schedule d =>
    by_cases hlinted : isLinted x.settings d
    · simp only [Scheduler.schedule, hlinted, if_true]
      rw [(hs.cancel d.uri).affairs_start x.settings (by simp) u, hs.affairs_cancel]
      by_cases hu : d.uri = u
      · rw [if_pos hu, if_pos hu]
        exact (if_pos ⟨hlinted, hu⟩).symm
      · rw [if_neg hu, if_neg hu]
        exact (if_neg fun h => hu h.2).symm
    · simp only [Scheduler.schedule, hlinted]
      exact (if_neg fun h => hlinted h.1).symm
  | scanNow d =>
    simp only [Scheduler.scanNow]
    rw [Scheduler.affairs_scan, hs.affairs_cancel]
    by_cases hu : d.uri = u
    · rw [if_pos hu, if_pos hu]
      exact (if_pos hu).symm
    · rw [if_neg hu, if_neg hu]
      exact (if_neg hu).symm
  | close v =>
    have hclosed : Session.affairs { x with scheduler := (x.scheduler.close v).1 } u =
        { Session.affairs ⟨x.settings, x.scheduler.cancel v⟩ u with
          reports := (x.scheduler.store.erase v).get? u } := by
      rw [← Scheduler.cancel_store x.scheduler v]
      rfl
    rw [hclosed, hs.affairs_cancel, OrderedMap.get?_erase]
    by_cases hu : v = u
    · rw [if_pos hu, if_pos hu.symm]
      exact (if_pos hu).symm
    · rw [if_neg hu, if_neg (Ne.symm hu)]
      exact (if_neg hu).symm
  | flush =>
    rw [(hs.flush x.settings).affairs_of_free (hs.pending_flush x.settings u) x.settings,
      hs.get?_store_flush, Scheduler.flush_fst, Scheduler.scanAll_now]
    rfl
  | dispose =>
    obtain ⟨hstore, hnow⟩ :=
      Scheduler.store_foldl_cancel x.scheduler x.scheduler.timers.keys
    rw [hs.dispose.affairs_of_free (hs.pending_dispose u) x.settings, Scheduler.dispose, hstore,
      hnow]
    rfl
  | configure s => rfl
  | wait ms early => rfl
  | ring a live due =>
    have hmax : max x.scheduler.loop.now a.deadline = x.scheduler.loop.now := Nat.max_eq_left due
    have hearly : ∀ b ∈ x.scheduler.loop.live,
        max x.scheduler.loop.now a.deadline ≤ b.deadline := fun b hb => by
      rw [hmax]
      exact hs.punctual hb
    rw [hs.affairs_ring x.settings live hearly u, hmax]
    show _ = if a.uri = u then (x.affairs u).settled else x.affairs u
    split <;> rfl

/-! ### Letting time pass -/

namespace Scheduler

variable {x : Scheduler}

/-- Making the calls that are due settles the documents whose deadline is reached, and no other. -/
theorem Sound.affairs_ringDue (hs : x.Sound) (s : Settings) (time : Nat) (u : String) :
    Session.affairs ⟨s, (x.ringDue s time).1⟩ u =
      (if (x.deadline? u).any (· ≤ time) then (Session.affairs ⟨s, x⟩ u).settled
        else Session.affairs ⟨s, x⟩ u).atTime (x.ringDue s time).1.loop.now := by
  fun_induction ringDue s time x with
  | case1 x a h more ih =>
    obtain ⟨ha, hdue⟩ := Loop.mem_of_next? h
    have hfirst := Loop.le_of_next? h
    have hearly : ∀ b ∈ x.loop.live, max x.loop.now a.deadline ≤ b.deadline := fun b hb =>
      Nat.max_le.2 ⟨hs.punctual hb, hfirst b hb⟩
    have hring := hs.affairs_ring s ha hearly u
    have hdeadline := congrArg Affairs.deadline hring
    rw [ih (hs.ring ha hearly s), hring]
    by_cases hu : a.uri = u
    · have hreached : x.deadline? u = some a.deadline :=
        hs.deadline?_eq_some_iff.2 ⟨a, ha, hu, rfl⟩
      rw [if_pos hu] at hdeadline ⊢
      -- The document does not wait any longer, so the calls that follow do not settle it again.
      have hfree : (x.ring s a).1.deadline? u = none := hdeadline
      simp only [hfree, hreached, Option.any_none, Option.any_some, hdue, decide_true, if_true]
      rfl
    · rw [if_neg hu] at hdeadline ⊢
      have hsame : (x.ring s a).1.deadline? u = x.deadline? u := hdeadline
      rw [hsame]
      split <;> rfl
  | case2 x h =>
    have hlate : (x.deadline? u).any (· ≤ time) = false := by
      cases hreached : x.deadline? u with
      | none => rfl
      | some deadline =>
        obtain ⟨a, ha, -, rfl⟩ := hs.deadline?_eq_some_iff.1 hreached
        have := Loop.lt_of_next?_eq_none h a ha
        simpa using this
    rw [hlate]
    rfl

/-- **Letting time pass.**  A document whose deadline is reached is settled; otherwise nothing
    happens to it. -/
theorem Sound.affairs_advance (hs : x.Sound) (s : Settings) (ms : Nat) (u : String) :
    Session.affairs ⟨s, (x.advance s ms).1⟩ u = (Session.affairs ⟨s, x⟩ u).advanced ms := by
  have hdue := hs.affairs_ringDue s (x.loop.now + ms) u
  have hwaited : Session.affairs ⟨s, (x.advance s ms).1⟩ u =
      (Session.affairs ⟨s, (x.ringDue s (x.loop.now + ms)).1⟩ u).atTime (x.loop.now + ms) := rfl
  rw [hwaited, hdue]
  rfl

/-- Letting time pass keeps a scheduler sound. -/
theorem Sound.advance (hs : x.Sound) (s : Settings) (ms : Nat) : (x.advance s ms).1.Sound := by
  obtain ⟨trace, run, -, -⟩ := advance_ticks hs s ms
  exact run.sound hs

end Scheduler

/-! ### Operations -/

/-- A call about one document. -/
inductive Call where
  | schedule (d : Document)
  | scanNow (d : Document)
  | close (uri : String)

/-- The document that a call is about. -/
def Call.uri : Call → String
  | .schedule d => d.uri
  | .scanNow d => d.uri
  | .close uri => uri

/-- What is done with a scheduler: calls about one document, what concerns all of them, a change of
    the settings, and letting time pass. -/
inductive Operation where
  | call (c : Call)
  | flush
  | dispose
  | configure (s : Settings)
  | advance (ms : Nat)

/-- The session after an operation. -/
def Session.perform (x : Session) : Operation → Session
  | .call (.schedule d) => { x with scheduler := x.scheduler.schedule x.settings d }
  | .call (.scanNow d) => { x with scheduler := (x.scheduler.scanNow x.settings d).1 }
  | .call (.close uri) => { x with scheduler := (x.scheduler.close uri).1 }
  | .flush => { x with scheduler := (x.scheduler.flush x.settings).1 }
  | .dispose => { x with scheduler := x.scheduler.dispose }
  | .configure s => { x with settings := s }
  | .advance ms => { x with scheduler := (x.scheduler.advance x.settings ms).1 }

/-- The session after some operations. -/
def Session.performAll (x : Session) (ops : List Operation) : Session := ops.foldl Session.perform x

/-- What an operation does to the document of a name. -/
def Affairs.perform (u : String) (a : Affairs) : Operation → Affairs
  | .call (.schedule d) => a.after u (.schedule d)
  | .call (.scanNow d) => a.after u (.scanNow d)
  | .call (.close v) => a.after u (.close v)
  | .flush => a.settled
  | .dispose => a.released
  | .configure s => { a with settings := s }
  | .advance ms => a.advanced ms

theorem Session.sound_perform {x : Session} (hs : x.scheduler.Sound) (op : Operation) :
    (x.perform op).scheduler.Sound := by
  cases op with
  | call c =>
    cases c with
    | schedule d => exact (Step.schedule d).sound hs
    | scanNow d => exact (Step.scanNow d).sound hs
    | close uri => exact (Step.close uri).sound hs
  | flush => exact Step.flush.sound hs
  | dispose => exact Step.dispose.sound hs
  | configure s => exact hs
  | advance ms => exact hs.advance x.settings ms

/-- **One operation.**  What it does to a document depends on nothing but what is held about that
    document. -/
theorem affairs_perform {x : Session} (hs : x.scheduler.Sound) (op : Operation) (u : String) :
    (x.perform op).affairs u = (x.affairs u).perform u op := by
  cases op with
  | call c =>
    cases c with
    | schedule d => exact (Step.schedule d).affairs hs u
    | scanNow d => exact (Step.scanNow d).affairs hs u
    | close uri => exact (Step.close uri).affairs hs u
  | flush => exact Step.flush.affairs hs u
  | dispose => exact Step.dispose.affairs hs u
  | configure s => rfl
  | advance ms => exact hs.affairs_advance x.settings ms u

/-- What operations do to a document, one after the other. -/
theorem affairs_performAll {x : Session} (hs : x.scheduler.Sound) (ops : List Operation)
    (u : String) : (x.performAll ops).affairs u = ops.foldl (Affairs.perform u) (x.affairs u) := by
  induction ops generalizing x with
  | nil => rfl
  | cons op ops ih =>
    rw [List.foldl_cons, ← affairs_perform hs op u]
    exact ih (Session.sound_perform hs op)

/-- Whether an operation has to do with a document: all but the calls about others have. -/
def Operation.regards (u : String) : Operation → Bool
  | .call c => c.uri = u
  | _ => true

theorem Affairs.perform_of_not_regards {u : String} {op : Operation} (h : op.regards u = false)
    (a : Affairs) : a.perform u op = a := by
  cases op with
  | call c =>
    have hne : c.uri ≠ u := by simpa [Operation.regards] using h
    cases c with
    | schedule d => exact if_neg fun h => hne h.2
    | scanNow d => exact if_neg hne
    | close uri => exact if_neg hne
  | _ => cases h

/-- Operations that have nothing to do with a document can be left out. -/
theorem Affairs.foldl_perform_filter (u : String) (ops : List Operation) (a : Affairs) :
    (ops.filter (·.regards u)).foldl (Affairs.perform u) a = ops.foldl (Affairs.perform u) a := by
  rw [List.foldl_filter]
  congr 1
  funext a op
  split
  · rfl
  next h => exact (perform_of_not_regards (by simpa using h) a).symm

/-! ### Runs without the other documents -/

/-- Whether a deed has to do with a document: all but the calls about others, and the calls of the
    event loop for others, have. -/
def Deed.regards (u : String) : Deed → Bool
  | .schedule d => d.uri = u
  | .scanNow d => d.uri = u
  | .close v => v = u
  | .ring a => a.uri = u
  | _ => true

/-- A deed without the handle of a call, which only tells how many were asked for before. -/
def Deed.gist : Deed → Deed
  | .ring a => .ring { a with handle := 0 }
  | deed => deed

/-- What was done, when, and under which settings. -/
def Entry.gist (e : Entry) : Nat × Settings × Deed := (e.time, e.settings, e.deed.gist)

theorem Affairs.after_of_not_regards {u : String} {deed : Deed} (h : deed.regards u = false)
    (a : Affairs) : a.after u deed = a := by
  cases deed with
  | schedule d => exact if_neg fun hd => (by simpa [Deed.regards] using h : d.uri ≠ u) hd.2
  | scanNow d => exact if_neg (by simpa [Deed.regards] using h)
  | close v => exact if_neg (by simpa [Deed.regards] using h)
  | ring b => exact if_neg (by simpa [Deed.regards] using h)
  | _ => cases h

theorem Affairs.after_gist (u : String) (a : Affairs) (deed : Deed) :
    a.after u deed.gist = a.after u deed := by
  cases deed <;> rfl

/-- A session in which no other document waits can follow a deed of one that holds the same about
    the document. -/
theorem Step.follow {x y x' : Session} {deed : Deed} {events : List Event} {u : String}
    (step : Step x deed y events) (hs : x.scheduler.Sound) (hs' : x'.scheduler.Sound)
    (halike : x'.affairs u = x.affairs u) (hregards : deed.regards u)
    (honly : ∀ a ∈ x'.scheduler.loop.live, a.uri = u) :
    ∃ deed' y' events', Step x' deed' y' events' ∧ deed'.gist = deed.gist := by
  have hnow : x'.scheduler.loop.now = x.scheduler.loop.now := congrArg Affairs.now halike
  have hdeadline : x'.scheduler.deadline? u = x.scheduler.deadline? u :=
    congrArg Affairs.deadline halike
  cases step with
  | schedule d => exact ⟨_, _, _, .schedule d, rfl⟩
  | scanNow d => exact ⟨_, _, _, .scanNow d, rfl⟩
  | close v => exact ⟨_, _, _, .close v, rfl⟩
  | flush => exact ⟨_, _, _, .flush, rfl⟩
  | dispose => exact ⟨_, _, _, .dispose, rfl⟩
  | configure s => exact ⟨_, _, _, .configure s, rfl⟩
  | wait ms early =>
    refine ⟨_, _, _, .wait ms fun a ha => ?_, rfl⟩
    -- The other session has a call about the document with the same deadline.
    have hreached := hs'.deadline?_eq_some_iff.2 ⟨a, ha, honly a ha, rfl⟩
    rw [hdeadline] at hreached
    obtain ⟨b, hb, -, hsame⟩ := hs.deadline?_eq_some_iff.1 hreached
    rw [hnow, ← hsame]
    exact early b hb
  | ring a live due =>
    have hu : a.uri = u := by simpa [Deed.regards] using hregards
    have hreached := hs.deadline?_eq_some_iff.2 ⟨a, live, hu, rfl⟩
    rw [← hdeadline] at hreached
    obtain ⟨b, hb, hbu, hsame⟩ := hs'.deadline?_eq_some_iff.1 hreached
    refine ⟨_, _, _, .ring b hb (by rw [hsame, hnow]; exact due), ?_⟩
    have ha := (Loop.mem_live.1 live).2
    have hb := (Loop.mem_live.1 hb).2
    simp only [Deed.gist, hsame, hbu, hu, ha, hb]

/-- After a deed that has to do with a document, still no other document waits. -/
theorem Step.only {x y : Session} {deed : Deed} {events : List Event} {u : String}
    (step : Step x deed y events) (hs : x.scheduler.Sound) (hregards : deed.regards u)
    (honly : ∀ a ∈ x.scheduler.loop.live, a.uri = u) :
    ∀ a ∈ y.scheduler.loop.live, a.uri = u := by
  intro a ha
  obtain ⟨d, hd⟩ := (step.sound hs).exists_pending ha
  rcases step.waiting hs ha hd with ⟨hlive, -, -⟩ | ⟨rfl, huri, -, -⟩
  · exact honly a hlive
  · rw [← huri]
    simpa [Deed.regards] using hregards

theorem Deed.regards_of_gist_eq {deed deed' : Deed} (h : deed'.gist = deed.gist) (u : String) :
    deed'.regards u = deed.regards u := by
  have hgist : ∀ deed : Deed, deed.gist.regards u = deed.regards u := by
    intro deed
    cases deed <;> rfl
  rw [← hgist, h, hgist]

/-- **A run without the other documents.**  What is left of a run when the deeds about other
    documents are left out is a run, and comes to the same for the document. -/
theorem Run.without_others {s : Settings} {trace : List Entry} {z : Session}
    (run : Run ⟨s, {}⟩ trace z) (u : String) :
    ∃ trace' z', Run ⟨s, {}⟩ trace' z' ∧
      trace'.map Entry.gist = (trace.filter (·.deed.regards u)).map Entry.gist ∧
      z'.affairs u = z.affairs u ∧ ∀ a ∈ z'.scheduler.loop.live, a.uri = u := by
  induction run with
  | nil => exact ⟨[], _, .nil, rfl, rfl, fun a ha => by cases ha⟩
  | @snoc trace y z deed events run step ih =>
    obtain ⟨trace', y', run', hgist, halike, honly⟩ := ih
    have hs := run.sound Scheduler.sound_empty
    have hs' := run'.sound Scheduler.sound_empty
    have hafter := step.affairs hs u
    rw [List.filter_append, List.map_append]
    by_cases hregards : deed.regards u
    · obtain ⟨deed', z', events', step', hsame⟩ := step.follow hs hs' halike hregards honly
      have hregards' : deed'.regards u := by rwa [Deed.regards_of_gist_eq hsame]
      refine ⟨_, z', run'.snoc step', ?_, ?_, step'.only hs' hregards' honly⟩
      · have hnow : y'.scheduler.loop.now = y.scheduler.loop.now := congrArg Affairs.now halike
        have hsettings : y'.settings = y.settings := congrArg Affairs.settings halike
        simp [hgist, Session.record, Entry.gist, hregards, hsame, hnow, hsettings]
      · rw [step'.affairs hs' u, hafter, halike, ← Affairs.after_gist, hsame, Affairs.after_gist]
    · have hother : deed.regards u = false := by simpa using hregards
      refine ⟨trace', y', run', ?_, ?_, honly⟩
      · simp [hgist, Session.record, hother]
      · rw [halike, hafter, Affairs.after_of_not_regards hother]

/-- **Documents do not interfere.**  Whatever operations are performed, what is held about a
    document at the end is the same as if all calls about other documents were left out: its
    reports, whether it has a timer, the document that waits and its deadline.  Hence calls about
    two documents may change places.  And this does not depend on when within a moment the event
    loop makes its calls: every run, with all that is about other documents left out, is a run that
    comes to the same. -/
theorem documents_apart (s : Settings) (u : String) :
    (∀ ops : List Operation, (Session.performAll ⟨s, {}⟩ ops).affairs u =
      (Session.performAll ⟨s, {}⟩ (ops.filter (·.regards u))).affairs u) ∧
    (∀ (before after : List Operation) (c c' : Call), c.uri ≠ c'.uri →
      (Session.performAll ⟨s, {}⟩ (before ++ .call c :: .call c' :: after)).affairs u =
        (Session.performAll ⟨s, {}⟩ (before ++ .call c' :: .call c :: after)).affairs u) ∧
    (∀ (trace : List Entry) (z : Session), Run ⟨s, {}⟩ trace z →
      ∃ trace' z', Run ⟨s, {}⟩ trace' z' ∧
        trace'.map Entry.gist = (trace.filter (·.deed.regards u)).map Entry.gist ∧
        z'.affairs u = z.affairs u) := by
  have hfilter : ∀ ops : List Operation, (Session.performAll ⟨s, {}⟩ ops).affairs u =
      (Session.performAll ⟨s, {}⟩ (ops.filter (·.regards u))).affairs u := by
    intro ops
    rw [affairs_performAll Scheduler.sound_empty, affairs_performAll Scheduler.sound_empty,
      Affairs.foldl_perform_filter]
  refine ⟨hfilter, fun before after c c' hne => ?_, fun trace z run => ?_⟩
  · -- At most one of the two calls is about the document, so both orders leave the same.
    rw [hfilter, hfilter (before ++ .call c' :: .call c :: after)]
    simp only [List.filter_append, List.filter_cons, Operation.regards, decide_eq_true_eq]
    by_cases hc : c.uri = u
    · have hc' : c'.uri ≠ u := fun h => hne (hc.trans h.symm)
      simp only [hc, hc', if_true, if_false]
    · simp only [hc, if_false]
  · obtain ⟨trace', z', run', hgist, halike, -⟩ := run.without_others u
    exact ⟨trace', z', run', hgist, halike⟩

/-- Of two documents one is closed while both wait; for the other it is as if there had been no
    second one.  Calls about the two may change places.  And when the timers of both fall due at one
    moment, and one of them is closed before its call is made, a run without the other closes it as
    well. -/
theorem documents_apart_two :
    let a : Document := ⟨"a.lua", some "x = 1", "lua"⟩
    let b : Document := ⟨"b.lua", some "y = 1", "lua"⟩
    (Session.performAll ⟨Settings.default, {}⟩ [.call (.schedule a), .advance 100,
          .call (.schedule b), .call (.close "b.lua"), .advance 300, .call (.scanNow b),
          .flush]).affairs "a.lua" =
        (Session.performAll ⟨Settings.default, {}⟩
          [.call (.schedule a), .advance 100, .advance 300, .flush]).affairs "a.lua" ∧
      ((Call.schedule b).uri ≠ (Call.scanNow a).uri ∧
        (Session.performAll ⟨Settings.default, {}⟩
            [.flush, .call (.schedule b), .call (.scanNow a)]).affairs "a.lua" =
          (Session.performAll ⟨Settings.default, {}⟩
            [.flush, .call (.scanNow a), .call (.schedule b)]).affairs "a.lua") ∧
      ∃ trace z, Run ⟨Settings.default, {}⟩ trace z ∧
        trace.map (·.deed) = [.schedule a, .schedule b, .wait 350, .ring ⟨1, "b.lua", 350, false⟩,
          .close "a.lua"] ∧
        ∃ trace' z', Run ⟨Settings.default, {}⟩ trace' z' ∧
          trace'.map (·.deed.gist) = [.schedule a, .wait 350, .close "a.lua"] ∧
          z'.affairs "a.lua" = z.affairs "a.lua" := by
  intro a b
  have hne : (Call.schedule b).uri ≠ (Call.scanNow a).uri := by decide
  refine ⟨(documents_apart Settings.default "a.lua").1 _, ⟨hne,
    (documents_apart Settings.default "a.lua").2.1 [.flush] [] (.schedule b) (.scanNow a) hne⟩, ?_⟩
  have both := (Run.nil.snoc (Step.schedule (x := ⟨Settings.default, {}⟩) a)).snoc (Step.schedule b)
  have waited := both.snoc (Step.wait 350 (by decide))
  have rung := waited.snoc (Step.ring ⟨1, "b.lua", 350, false⟩ (by decide) (by decide))
  have closed := rung.snoc (Step.close "a.lua")
  refine ⟨_, _, closed, rfl, ?_⟩
  obtain ⟨trace', z', run', hgist, halike⟩ :=
    (documents_apart Settings.default "a.lua").2.2 _ _ closed
  refine ⟨trace', z', run', ?_, halike⟩
  have hdeeds := congrArg (List.map fun e : Nat × Settings × Deed => e.2.2) hgist
  rw [List.map_map] at hdeeds
  exact hdeeds

end LuaAudit.Scan
