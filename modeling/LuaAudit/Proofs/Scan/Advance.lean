import LuaAudit.Proofs.Scan.Run

/-!
# Letting time pass is a run

`advance` makes the calls that fall due one after the other, the earliest first, with the clock at
their deadlines.  That is a run of waits and calls, after which nothing is due any more.

* `Ticks x events y`: a run of waits and calls leads from `x` to `y` and makes the events known;
* `ringDue_ticks` and `advance_ticks`: `ringDue` and `advance` are such runs;
* `advance_live`: what is still to be called afterwards has a later deadline.
-/

namespace LuaAudit.Scan

/-! ### The earliest call -/

namespace Loop

/-- Only of no calls there is no earliest one. -/
theorem eq_nil_of_earliest? {as : List Alarm} (h : earliest? as = none) : as = [] := by
  cases as with
  | nil => rfl
  | cons a as =>
    rw [earliest?] at h
    split at h
    · split at h <;> cases h
    · cases h

theorem le_of_earliest? {as : List Alarm} {a : Alarm} (h : earliest? as = some a) :
    ∀ b ∈ as, a.deadline ≤ b.deadline := by
  induction as generalizing a with
  | nil => cases h
  | cons c as ih =>
    rw [earliest?] at h
    rw [List.forall_mem_cons]
    split at h
    next e he =>
      split at h
      next hle =>
        obtain rfl := Option.some.inj h
        exact ⟨Nat.le_refl _, fun b hb => Nat.le_trans hle (ih he b hb)⟩
      next hlt =>
        obtain rfl := Option.some.inj h
        exact ⟨by omega, ih he⟩
    next he =>
      obtain rfl := Option.some.inj h
      simp [eq_nil_of_earliest? he]

/-- The next call is the earliest of all. -/
theorem le_of_next? {l : Loop} {time : Nat} {a : Alarm} (h : l.next? time = some a) :
    ∀ b ∈ l.live, a.deadline ≤ b.deadline := by
  intro b hb
  -- A call that is not due yet is later than one that is.
  by_cases hdue : b.deadline ≤ time
  · exact le_of_earliest? h b (List.mem_filter.2 ⟨hb, by simpa using hdue⟩)
  · have := (mem_of_next? h).2
    omega

/-- When there is no next call, none is due. -/
theorem lt_of_next?_eq_none {l : Loop} {time : Nat} (h : l.next? time = none) :
    ∀ a ∈ l.live, time < a.deadline := by
  intro a ha
  have hnil := List.filter_eq_nil_iff.1 (eq_nil_of_earliest? h) a ha
  simpa using hnil

end Loop

/-! ### Runs of waits and calls -/

/-- Whether a deed is a wait or a call of the event loop. -/
def Deed.IsTick : Deed → Prop
  | .wait _ => True
  | .ring _ => True
  | _ => False

/-- A run of waits and calls leads from one session to another and makes the events known. -/
def Ticks (x : Session) (events : List Event) (y : Session) : Prop :=
  ∃ trace, Run x trace y ∧ (∀ e ∈ trace, e.deed.IsTick) ∧ trace.flatMap Entry.events = events

theorem Run.append {x y z : Session} {trace trace' : List Entry} (run : Run x trace y)
    (run' : Run y trace' z) : Run x (trace ++ trace') z := by
  induction run' with
  | nil => simpa using run
  | snoc _ step ih =>
    rw [← List.append_assoc]
    exact ih.snoc step

namespace Ticks

theorem refl (x : Session) : Ticks x [] x := ⟨[], .nil, by simp, rfl⟩

theorem trans {x y z : Session} {events more : List Event} (h : Ticks x events y)
    (h' : Ticks y more z) : Ticks x (events ++ more) z := by
  obtain ⟨trace, run, htick, rfl⟩ := h
  obtain ⟨trace', run', htick', rfl⟩ := h'
  refine ⟨trace ++ trace', run.append run', ?_, List.flatMap_append⟩
  intro e he
  exact (List.mem_append.1 he).elim (htick e) (htick' e)

/-- One wait or call. -/
theorem step {x y : Session} {deed : Deed} {events : List Event} (h : Step x deed y events)
    (htick : deed.IsTick) : Ticks x events y :=
  ⟨[x.record deed events], Run.nil.snoc h, by simpa [Session.record] using htick,
    by simp [Session.record]⟩

/-- Waiting up to a time before which nothing is to be called. -/
theorem waitUntil {s : Settings} {x : Scheduler} {time : Nat} (hnow : x.loop.now ≤ time)
    (early : ∀ a ∈ x.loop.live, time ≤ a.deadline) :
    Ticks ⟨s, x⟩ [] ⟨s, { x with loop := x.loop.waitUntil time }⟩ := by
  have htime : x.loop.now + (time - x.loop.now) = time := by omega
  have waited := step (Step.wait (x := ⟨s, x⟩) (time - x.loop.now)
    fun a ha => htime.symm ▸ early a ha) trivial
  simpa only [htime] using waited

end Ticks

namespace Scheduler

/-- Making a call early is waiting for its deadline and then making it. -/
theorem ring_waitUntil {x : Scheduler} {a : Alarm} (h : x.loop.now ≤ a.deadline) (s : Settings) :
    { x with loop := x.loop.waitUntil a.deadline }.ring s a = x.ring s a := by
  simp only [ring, Loop.take, Loop.waitUntil, Nat.max_self, Nat.max_eq_right h]

/-- The earliest call, made at its deadline. -/
theorem Sound.ring_ticks {x : Scheduler} (hs : x.Sound) (s : Settings) {a : Alarm}
    (ha : a ∈ x.loop.live) (hfirst : ∀ b ∈ x.loop.live, a.deadline ≤ b.deadline) :
    Ticks ⟨s, x⟩ (x.ring s a).2 ⟨s, (x.ring s a).1⟩ := by
  have hnow := hs.punctual ha
  have rung := (Ticks.waitUntil (s := s) hnow hfirst).trans
    (.step (Step.ring a ha (Nat.le_refl _)) trivial)
  simpa only [ring_waitUntil hnow, List.nil_append] using rung

/-- The earliest call leaves the scheduler sound. -/
theorem Sound.ring_first {x : Scheduler} (hs : x.Sound) (s : Settings) {a : Alarm}
    (ha : a ∈ x.loop.live) (hfirst : ∀ b ∈ x.loop.live, a.deadline ≤ b.deadline) :
    (x.ring s a).1.Sound :=
  hs.ring ha (fun b hb => Nat.max_le.2 ⟨hs.punctual hb, hfirst b hb⟩) s

/-- **Making the calls that are due.**  It is a run of waits and calls within the time, and no call
    that is due is left. -/
theorem ringDue_ticks {x : Scheduler} (hs : x.Sound) (s : Settings) {time : Nat}
    (hnow : x.loop.now ≤ time) :
    Ticks ⟨s, x⟩ (x.ringDue s time).2 ⟨s, (x.ringDue s time).1⟩ ∧
      (x.ringDue s time).1.loop.now ≤ time ∧
      ∀ a ∈ (x.ringDue s time).1.loop.live, time < a.deadline := by
  fun_induction ringDue s time x with
  | case1 x a h more ih =>
    obtain ⟨ha, hdue⟩ := Loop.mem_of_next? h
    have hfirst := Loop.le_of_next? h
    have hthen : (x.ring s a).1.loop.now ≤ time := by
      rw [ring_loop]
      exact Nat.max_le.2 ⟨hnow, hdue⟩
    -- The clock stays within the time, so what is due afterwards is a run as well.
    obtain ⟨hmore, hrest⟩ := ih (hs.ring_first s ha hfirst) hthen
    exact ⟨(hs.ring_ticks s ha hfirst).trans hmore, hrest⟩
  | case2 x h => exact ⟨.refl _, hnow, Loop.lt_of_next?_eq_none h⟩

/-- **Letting time pass** is a run of waits and calls. -/
theorem advance_ticks {x : Scheduler} (hs : x.Sound) (s : Settings) (ms : Nat) :
    Ticks ⟨s, x⟩ (x.advance s ms).2 ⟨s, (x.advance s ms).1⟩ := by
  obtain ⟨hring, hnow, hlater⟩ := ringDue_ticks hs s (Nat.le_add_right x.loop.now ms)
  have hwait := Ticks.waitUntil (s := s) hnow fun a ha => Nat.le_of_lt (hlater a ha)
  have passed := hring.trans hwait
  rw [List.append_nil] at passed
  exact passed

/-- What is still to be called after some time has a later deadline. -/
theorem advance_live {x : Scheduler} (hs : x.Sound) (s : Settings) (ms : Nat) :
    ∀ a ∈ (x.advance s ms).1.loop.live, x.loop.now + ms < a.deadline :=
  (ringDue_ticks hs s (Nat.le_add_right x.loop.now ms)).2.2

end Scheduler

end LuaAudit.Scan
