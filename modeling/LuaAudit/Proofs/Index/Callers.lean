import LuaAudit.Index.Queue
import LuaAudit.Proofs.Index.Refresh
import Mathlib.Data.List.Induction

/-!
# Whose report a caller gets

Calls come at any time, a run goes on in pieces, and when it has ended its callers go on one by one,
with other calls in between.  A `QueuedSite` is a queue with the site that its runs work on, and a
history is any list of events, in any order.  Who wants a source added asks for a refresh once: at
once, or when its wait is over.  The report that it gets is the one of the run under way after it
has asked.

* `QueuedSite.play` plays a history, and `QueuedSite.asks` tells who asks for a refresh at an event;
* `Move` is all that an event can do, by `move_perform`;
* `quiet_advance`, `quiet_finish`: letting time pass is a history in which nobody calls;
* `Stands`, `Promised`: how a caller stands, before it has asked and after, and what one event makes
  of it;
* `Begins` and `exists_begins`: every run was begun by someone who found none under way;
* `report_of_add`: the report that an added source comes back with.
-/

namespace LuaAudit.Index

open Docs (Source)

/-! ### Names in a report -/

section Names

variable {source : Source} {site site' : Site} {r r' : Report} {name : String}

/-- A turn accounts for its source, and for no other name. -/
theorem Turn.mem_names (h : Turn source site r site' r') :
    name ∈ r'.names ↔ name = source.name ∨ name ∈ r.names := by
  unfold Report.names
  cases h with
  | failed | garbled => simp [OrderedMap.mem_keys_insert, or_left_comm]
  | unchanged => simp [or_left_comm]
  | updated => simp [OrderedMap.mem_keys_insert, or_assoc]

/-- A run of turns accounts for its sources, and for no other name. -/
theorem mem_names_of_ends {sources : List Source}
    (h : (refreshSources sources r).Ends site site' r') :
    name ∈ r'.names ↔ (∃ s ∈ sources, s.name = name) ∨ name ∈ r.names := by
  induction sources generalizing site r with
  | nil =>
    obtain ⟨rfl, rfl⟩ := Job.ends_pure.1 h
    simp
  | cons source sources ih =>
    obtain ⟨site₁, r₁, hturn, hrest⟩ := ends_refreshSources_cons.1 h
    rw [ih hrest, (turn_of_ends hturn).mem_names]
    simp [or_left_comm, or_assoc, eq_comm]

/-- The end of a refresh leaves the names of the report as they are. -/
theorem names_of_conclude {byName : Bool} (h : conclude byName r site = (site', .ok r')) :
    r'.names = r.names := by
  obtain ⟨site₁, r₁, files, hend, -, ⟨e, hfail⟩ | hreport⟩ := conclusion_of_conclude h
  · cases hfail
  · obtain rfl := Except.ok.inj hreport
    cases hend with
    | plain | workspace => rfl

/-- **What a refresh accounts for:** its enabled sources, whoever else waits for its report. -/
theorem mem_names_of_refresh {sources : Option (List Source)} {report : Report}
    (h : (refresh sources).Ends site site' (.ok report)) :
    name ∈ report.names ↔
      ∃ s ∈ sources.getD site.world.settings.sources, s.enabled = true ∧ s.name = name := by
  unfold refresh at h
  rw [Job.ends_consult] at h
  obtain ⟨site₁, r, hsources, hlast⟩ := Job.ends_bind.1 h
  rw [names_of_conclude (Job.ends_act.1 hlast).symm, mem_names_of_ends hsources]
  simp [and_assoc]

end Names

/-! ### Queued sites and events -/

/-- A queue, and the site that its runs work on. -/
structure QueuedSite where
  queue : RefreshQueue
  site : Site

/-- What can happen: someone calls, time passes for the run under way, a caller goes on whose run
    has ended, or a caller gives up. -/
inductive Event where
  | refresh (id : Nat) (sources : Option (List Source))
  | add (id : Nat) (source : Source)
  | work (ms : Nat)
  | wake
  | drop (id : Nat)

/-- Who calls. -/
def Event.caller? : Event → Option Nat
  | .refresh id _ => some id
  | .add id _ => some id
  | _ => none

namespace QueuedSite

/-- A queue without callers. -/
def idle (site : Site) : QueuedSite := ⟨{}, site⟩

/-- What an event makes of a queued site. -/
def perform (x : QueuedSite) : Event → QueuedSite
  | .refresh id sources => ⟨x.queue.refresh id sources, x.site⟩
  | .add id source => ⟨x.queue.add id source, x.site⟩
  | .work ms => ⟨(x.queue.work ms x.site).1, (x.queue.work ms x.site).2.1⟩
  | .wake => ⟨x.queue.wake, x.site⟩
  | .drop id => ⟨x.queue.drop id, x.site⟩

/-- What a history makes of a queued site. -/
def play (x : QueuedSite) (history : List Event) : QueuedSite := history.foldl perform x

/-- What the run under way will come to. -/
def outcome? (x : QueuedSite) : Option Outcome := x.queue.run.map fun job => (job.run x.site).2.1

/-- Who asks for a refresh at an event, and of which sources: a caller at once, and one that wants a
    source added when no run is under way, or when its wait is over. -/
def asks (x : QueuedSite) : Event → Option (Nat × Option (List Source))
  | .refresh id sources => some (id, sources)
  | .add id source => if x.queue.run.isNone then some (id, some [source]) else none
  | .wake =>
    match x.queue.woken with
    | (⟨id, some source⟩, .ok _) :: _ => some (id, some [source])
    | _ => none
  | _ => none

@[simp] theorem play_nil (x : QueuedSite) : x.play [] = x := rfl

@[simp] theorem play_cons (x : QueuedSite) (e : Event) (history : List Event) :
    x.play (e :: history) = (x.perform e).play history := rfl

theorem play_append (x : QueuedSite) (before after : List Event) :
    x.play (before ++ after) = (x.play before).play after := List.foldl_append

theorem play_snoc (x : QueuedSite) (history : List Event) (e : Event) :
    x.play (history ++ [e]) = (x.play history).perform e := by
  rw [play_append, play_cons, play_nil]

/-- Who asks joins the run under way, or starts one. -/
theorem outcome?_refresh (x : QueuedSite) (id : Nat) (sources : Option (List Source)) :
    outcome? ⟨x.queue.refresh id sources, x.site⟩ =
      some (x.outcome?.getD ((Index.refresh sources).run x.site).2.1) := by
  unfold outcome? RefreshQueue.refresh
  cases x.queue.run <;> rfl

end QueuedSite

/-! ### What an event can do -/

/-- All that an event can make of a queued site. -/
inductive Move (x : QueuedSite) : Event → QueuedSite → Prop where
  /-- Someone calls and asks for a refresh at once. -/
  | ask {e : Event} {id : Nat} {sources : Option (List Source)} (hcaller : e.caller? = some id)
      (hasks : x.asks e = some (id, sources)) : Move x e ⟨x.queue.refresh id sources, x.site⟩
  /-- Someone wants a source added and waits for the run under way. -/
  | wait {id : Nat} {source : Source} :
      Move x (.add id source)
        ⟨{ x.queue with waiting := x.queue.waiting ++ [⟨id, some source⟩] }, x.site⟩
  /-- A wait is over, and the caller asks for its source. -/
  | resume {id : Nat} {source : Source} {report : Report} {woken : List (Caller × Outcome)}
      (hwoken : x.queue.woken = (⟨id, some source⟩, .ok report) :: woken) :
      Move x .wake ⟨{ x.queue with woken }.refresh id (some [source]), x.site⟩
  /-- A wait is over, and the caller is answered. -/
  | answer {c : Caller} {outcome : Outcome} {woken : List (Caller × Outcome)}
      (hwoken : x.queue.woken = (c, outcome) :: woken)
      (hfinal : c.adds ≠ none → ∃ e, outcome = .error e) :
      Move x .wake
        ⟨{ x.queue with woken, answers := x.queue.answers ++ [(c.id, outcome)] }, x.site⟩
  /-- The run goes on; what it will come to does not change. -/
  | onward {ms : Nat} {job : Run} {site : Site} (hrun : x.outcome? = some (job.run site).2.1) :
      Move x (.work ms) ⟨{ x.queue with run := some job }, site⟩
  /-- The run ends as it was bound to. -/
  | ended {ms : Nat} {outcome : Outcome} {site : Site} (hrun : x.outcome? = some outcome) :
      Move x (.work ms) ⟨x.queue.endRun outcome, site⟩
  /-- A caller gives up. -/
  | drop {id : Nat} : Move x (.drop id) ⟨x.queue.drop id, x.site⟩
  /-- There is nothing to do. -/
  | rest {e : Event} : Move x e x

/-- Time for the run under way. -/
theorem move_work (x : QueuedSite) (ms : Nat) :
    Move x (.work ms) ⟨(x.queue.work ms x.site).1, (x.queue.work ms x.site).2.1⟩ := by
  unfold RefreshQueue.work
  cases hrun : x.queue.run with
  | none => exact .rest
  | some job =>
    -- What is left of the job ends as the job would have.
    have hsame : ((job.advance ms x.site).2.1.run (job.advance ms x.site).1).2.1 =
        (job.run x.site).2.1 :=
      ((Job.ends_advance job ms x.site _ _).2 (Job.exists_ends job x.site)).eq.2
    have houtcome : x.outcome? = some (job.run x.site).2.1 := by
      rw [QueuedSite.outcome?, hrun, Option.map_some]
    rw [← hsame] at houtcome
    dsimp only
    split
    next outcome hvalue =>
      rw [Job.eq_done_of_value? hvalue] at houtcome
      exact .ended houtcome
    next => exact .onward houtcome

/-- **One event** does nothing else. -/
theorem move_perform (x : QueuedSite) (e : Event) : Move x e (x.perform e) := by
  cases e with
  | refresh id sources => exact .ask rfl rfl
  | add id source =>
    show Move x _ ⟨x.queue.add id source, x.site⟩
    unfold RefreshQueue.add
    split
    next hrun => exact .ask rfl (by simp [QueuedSite.asks, hrun])
    next => exact .wait
  | work ms => exact move_work x ms
  | wake =>
    show Move x _ ⟨x.queue.wake, x.site⟩
    unfold RefreshQueue.wake
    split
    next => exact .rest
    next c outcome woken hwoken =>
      obtain ⟨id, adds⟩ := c
      cases outcome with
      | error e => exact .answer hwoken fun _ => ⟨e, rfl⟩
      | ok report =>
        cases adds with
        | none => exact .answer hwoken fun h => absurd rfl h
        | some source => exact .resume hwoken
  | drop id => exact .drop

/-! ### Letting time pass

To let time pass is to let the run work and its callers go on, so it is a history of its own, in
which nobody calls. -/

/-- Callers go on one by one. -/
theorem play_wakes {α : Type} (x : QueuedSite) (turns : List α) :
    x.play (turns.map fun _ => .wake) = ⟨turns.foldl (fun d _ => d.wake) x.queue, x.site⟩ := by
  induction turns generalizing x with
  | nil => rfl
  | cons turn turns ih => exact ih (x.perform .wake)

/-- A history in which nobody calls leads from one queued site to another. -/
def Quiet (x y : QueuedSite) : Prop :=
  ∃ history, (∀ e ∈ history, e.caller? = none) ∧ x.play history = y

theorem Quiet.trans {x y z : QueuedSite} (h : Quiet x y) (h' : Quiet y z) : Quiet x z := by
  obtain ⟨before, hbefore, rfl⟩ := h
  obtain ⟨after, hafter, rfl⟩ := h'
  exact ⟨before ++ after, List.forall_mem_append.2 ⟨hbefore, hafter⟩, QueuedSite.play_append x _ _⟩

/-- The run works for a while, and then those go on whose wait is over. -/
theorem quiet_work (x : QueuedSite) (ms : Nat) :
    Quiet x ⟨(x.queue.work ms x.site).1.wakeAll, (x.queue.work ms x.site).2.1⟩ := by
  refine ⟨.work ms :: (x.queue.work ms x.site).1.woken.map fun _ => .wake, ?_, play_wakes _ _⟩
  simp [Event.caller?]

theorem quiet_advance (d : RefreshQueue) (ms : Nat) (site : Site) :
    Quiet ⟨d, site⟩ ⟨(d.advance ms site).1, (d.advance ms site).2⟩ :=
  (quiet_work ⟨d, site⟩ ms).trans (quiet_work _ _)

theorem quiet_finishRun (d : RefreshQueue) (site : Site) :
    Quiet ⟨d, site⟩ ⟨(d.finishRun site).1, (d.finishRun site).2⟩ := by
  unfold RefreshQueue.finishRun
  cases hrun : d.run with
  | none => exact ⟨[], by simp, rfl⟩
  | some job =>
    -- The run is given the time that it takes.
    have hwork := quiet_work ⟨d, site⟩ (job.run site).2.2
    simp only [RefreshQueue.work, hrun, Job.advance_run, Job.value?] at hwork
    exact hwork

theorem quiet_finish (d : RefreshQueue) (site : Site) :
    Quiet ⟨d, site⟩ ⟨(d.finish site).1, (d.finish site).2⟩ :=
  (quiet_finishRun d site).trans (quiet_finishRun _ _)

/-! ### How a caller stands -/

/-- Everyone who waits for a run or has not gone on since it ended, in the order of their calls. -/
def RefreshQueue.callers (d : RefreshQueue) : List Caller := d.woken.map Prod.fst ++ d.waiting

/-- Who asks is the last caller. -/
theorem callers_refresh (d : RefreshQueue) (id : Nat) (sources : Option (List Source)) :
    (d.refresh id sources).callers = d.callers ++ [⟨id, none⟩] := by
  simp [RefreshQueue.refresh, RefreshQueue.callers]

/-- The end of a run leaves the callers as they are. -/
theorem callers_endRun (d : RefreshQueue) (outcome : Outcome) :
    (d.endRun outcome).callers = d.callers := by
  simp [RefreshQueue.endRun, RefreshQueue.callers, Function.comp_def]

theorem callers_drop (d : RefreshQueue) (id : Nat) :
    (d.drop id).callers = d.callers.filter (·.id ≠ id) := by
  simp [RefreshQueue.drop, RefreshQueue.callers, List.filter_map, Function.comp_def]

/-- The one who goes on is the first caller. -/
theorem callers_of_woken {d : RefreshQueue} {c : Caller} {o : Outcome}
    {woken : List (Caller × Outcome)} (h : d.woken = (c, o) :: woken) :
    d.callers = c :: { d with woken }.callers := by
  simp [RefreshQueue.callers, h]

/-- The calls of one caller. -/
def RefreshQueue.of (d : RefreshQueue) (id : Nat) : List Caller := d.callers.filter (·.id = id)

/-- A caller that is not answered stands at the queue with some calls: with none before it has
    called, and with one when it wants a source added and has not asked yet. -/
structure Stands (x : QueuedSite) (id : Nat) (calls : List Caller) : Prop where
  calls : x.queue.of id = calls
  answers : ∀ a ∈ x.queue.answers, a.1 ≠ id

/-- A caller has asked, and whatever it is answered has a property. -/
structure Promised (x : QueuedSite) (id : Nat) (P : Outcome → Prop) : Prop where
  waiting : ∀ c ∈ x.queue.waiting, c.id = id → c.adds = none ∧ ∃ o, x.outcome? = some o ∧ P o
  woken : ∀ c ∈ x.queue.woken, c.1.id = id → c.1.adds = none ∧ P c.2
  answers : ∀ a ∈ x.queue.answers, a.1 = id → P a.2

theorem Stands.promised {x : QueuedSite} {id : Nat} (h : Stands x id []) (P : Outcome → Prop) :
    Promised x id P := by
  have hnone : ∀ c ∈ x.queue.callers, c.id ≠ id := by
    simpa [RefreshQueue.of, List.filter_eq_nil_iff] using h.calls
  unfold RefreshQueue.callers at hnone
  rw [List.forall_mem_append, List.forall_mem_map] at hnone
  exact ⟨fun c hc hid => absurd hid (hnone.2 c hc), fun c hc hid => absurd hid (hnone.1 c hc),
    fun a ha hid => absurd hid (h.answers a ha)⟩

/-- Someone else asks: who waits for a run waits for the same one. -/
theorem Promised.refresh {x : QueuedSite} {id : Nat} {P : Outcome → Prop} (h : Promised x id P)
    {id' : Nat} (hne : id' ≠ id) (sources : Option (List Source)) :
    Promised ⟨x.queue.refresh id' sources, x.site⟩ id P := by
  refine ⟨fun c hc hid => ?_, h.woken, h.answers⟩
  rcases List.mem_append.1 hc with hc | hc
  · obtain ⟨hadds, o, ho, hP⟩ := h.waiting c hc hid
    exact ⟨hadds, o, by rw [QueuedSite.outcome?_refresh, ho, Option.getD_some], hP⟩
  · obtain rfl := List.mem_singleton.1 hc
    exact absurd hid hne

/-- A caller that has asked is served whatever happens. -/
theorem Promised.perform {x : QueuedSite} {id : Nat} {P : Outcome → Prop} (h : Promised x id P)
    {e : Event} (he : e.caller? ≠ some id) : Promised (x.perform e) id P := by
  have hmove := move_perform x e
  generalize x.perform e = y at hmove
  cases hmove with
  | ask hcaller hasks => exact h.refresh (fun heq => he (heq ▸ hcaller)) _
  | wait =>
    refine ⟨fun c hc hid => ?_, h.woken, h.answers⟩
    rcases List.mem_append.1 hc with hc | hc
    · exact h.waiting c hc hid
    · obtain rfl := List.mem_singleton.1 hc
      exact absurd (congrArg some hid) he
  | @resume id' source _ woken hwoken =>
    -- Who has asked does not ask again.
    have hne : id' ≠ id := fun heq => by
      have hadds := (h.woken _ (hwoken ▸ List.mem_cons_self) heq).1
      cases hadds
    have htail : Promised ⟨{ x.queue with woken }, x.site⟩ id P :=
      ⟨h.waiting, fun c hc => h.woken c (hwoken ▸ List.mem_cons_of_mem _ hc), h.answers⟩
    exact htail.refresh hne _
  | @answer c outcome woken hwoken _ =>
    refine ⟨h.waiting, fun c hc => h.woken c (hwoken ▸ List.mem_cons_of_mem _ hc), ?_⟩
    intro a ha hid
    rcases List.mem_append.1 ha with ha | ha
    · exact h.answers a ha hid
    · obtain rfl := List.mem_singleton.1 ha
      exact (h.woken _ (hwoken ▸ List.mem_cons_self) hid).2
  | onward hrun =>
    refine ⟨fun c hc hid => ?_, h.woken, h.answers⟩
    obtain ⟨hadds, o, ho, hP⟩ := h.waiting c hc hid
    exact ⟨hadds, o, hrun.symm.trans ho, hP⟩
  | @ended _ outcome _ hrun =>
    refine ⟨fun c hc => absurd hc List.not_mem_nil, fun c hc hid => ?_, h.answers⟩
    rcases List.mem_append.1 hc with hc | hc
    · exact h.woken c hc hid
    · obtain ⟨c', hc', rfl⟩ := List.mem_map.1 hc
      obtain ⟨hadds, o, ho, hP⟩ := h.waiting c' hc' hid
      obtain rfl : outcome = o := Option.some.inj (hrun.symm.trans ho)
      exact ⟨hadds, hP⟩
  | drop =>
    exact ⟨fun c hc => h.waiting c (List.mem_filter.1 hc).1,
      fun c hc => h.woken c (List.mem_filter.1 hc).1,
      fun a ha => h.answers a (List.mem_filter.1 ha).1⟩
  | rest => exact h

/-- One more call of someone else. -/
theorem of_append {d d' : RefreshQueue} {id id' : Nat} (adds : Option Source) (hne : id' ≠ id)
    (h : d'.callers = d.callers ++ [⟨id', adds⟩]) : d'.of id = d.of id := by
  simp [RefreshQueue.of, h, hne]

/-- Someone else goes on. -/
theorem of_tail {d : RefreshQueue} {id : Nat} {c : Caller} {o : Outcome}
    {woken : List (Caller × Outcome)} (h : d.woken = (c, o) :: woken) (hne : c.id ≠ id) :
    RefreshQueue.of { d with woken } id = d.of id := by
  simp [RefreshQueue.of, callers_of_woken h, hne]

/-- Whatever others do, a caller that does not go on stands where it stood. -/
theorem Stands.perform {x : QueuedSite} {id : Nat} {calls : List Caller} (h : Stands x id calls)
    {e : Event} (he : e.caller? ≠ some id) (hdrop : e ≠ .drop id)
    (hwake : e = .wake → ∀ c o woken, x.queue.woken = (c, o) :: woken → c.id ≠ id) :
    Stands (x.perform e) id calls := by
  have hmove := move_perform x e
  generalize x.perform e = y at hmove
  cases hmove with
  | ask hcaller hasks =>
    have hne : _ ≠ id := fun heq => he (heq ▸ hcaller)
    exact ⟨(of_append none hne (callers_refresh _ _ _)).trans h.calls, h.answers⟩
  | @wait id' source =>
    have hne : id' ≠ id := fun heq => he (congrArg some heq)
    refine ⟨(of_append (some source) hne ?_).trans h.calls, h.answers⟩
    simp [RefreshQueue.callers]
  | @resume id' source _ woken hwoken =>
    have hne := hwake rfl _ _ _ hwoken
    have hasked := of_append none hne (callers_refresh { x.queue with woken } id' (some [source]))
    exact ⟨(hasked.trans (of_tail hwoken hne)).trans h.calls, h.answers⟩
  | @answer c outcome woken hwoken _ =>
    have hne := hwake rfl _ _ _ hwoken
    refine ⟨(of_tail hwoken hne).trans h.calls, fun a ha => ?_⟩
    rcases List.mem_append.1 ha with ha | ha
    · exact h.answers a ha
    · obtain rfl := List.mem_singleton.1 ha
      exact hne
  | onward hrun => exact ⟨h.calls, h.answers⟩
  | ended hrun =>
    refine ⟨?_, h.answers⟩
    rw [RefreshQueue.of, callers_endRun]
    exact h.calls
  | @drop id' =>
    have hne : id' ≠ id := fun heq => hdrop (heq ▸ rfl)
    refine ⟨?_, fun a ha => h.answers a (List.mem_filter.1 ha).1⟩
    rw [RefreshQueue.of, callers_drop, List.filter_filter, ← h.calls, RefreshQueue.of]
    apply List.filter_congr
    intro c _
    by_cases hid : c.id = id
    · simp [hid, Ne.symm hne]
    · simp [hid]
  | rest => exact h

/-- A caller that gives up is forgotten. -/
theorem stands_drop (x : QueuedSite) (id : Nat) : Stands (x.perform (.drop id)) id [] := by
  constructor
  · show (x.queue.drop id).of id = []
    rw [RefreshQueue.of, callers_drop, List.filter_filter, List.filter_eq_nil_iff]
    intro c _
    simp
  · intro a ha
    have hkept := (List.mem_filter.1 ha).2
    simpa using hkept

/-- The one who goes on has one call less. -/
theorem Stands.tail {x : QueuedSite} {id : Nat} {c : Caller} {calls : List Caller}
    (h : Stands x id (c :: calls)) {c' : Caller} {o : Outcome} {woken : List (Caller × Outcome)}
    (hwoken : x.queue.woken = (c', o) :: woken) (hid : c'.id = id) :
    c' = c ∧ Stands ⟨{ x.queue with woken }, x.site⟩ id calls := by
  have hcalls := h.calls
  rw [RefreshQueue.of, callers_of_woken hwoken,
    List.filter_cons_of_pos (by simpa using hid)] at hcalls
  obtain ⟨hc, hrest⟩ := List.cons.inj hcalls
  exact ⟨hc, hrest, h.answers⟩

/-- Who has not called stays away. -/
theorem Stands.absent_perform {x : QueuedSite} {id : Nat} (h : Stands x id []) {e : Event}
    (he : e.caller? ≠ some id) : Stands (x.perform e) id [] := by
  by_cases hdrop : e = .drop id
  · rw [hdrop]
    exact stands_drop x id
  · refine h.perform he hdrop fun _ c o woken hwoken hid => ?_
    have hcalls := h.calls
    rw [RefreshQueue.of, callers_of_woken hwoken,
      List.filter_cons_of_pos (by simpa using hid)] at hcalls
    cases hcalls

/-- Who asks for a refresh is served with the outcome of the run that is under way then. -/
theorem Stands.promised_refresh {x : QueuedSite} {id : Nat} (h : Stands x id [])
    (sources : Option (List Source)) :
    ∃ o, QueuedSite.outcome? ⟨x.queue.refresh id sources, x.site⟩ = some o ∧
      Promised ⟨x.queue.refresh id sources, x.site⟩ id (· = o) := by
  have hpromised := h.promised fun _ => False
  refine ⟨_, QueuedSite.outcome?_refresh x id sources, fun c hc hid => ?_, fun c hc hid => ?_,
    fun a ha hid => ?_⟩
  · rcases List.mem_append.1 hc with hc | hc
    · obtain ⟨-, -, -, hfalse⟩ := hpromised.waiting c hc hid
      exact hfalse.elim
    · obtain rfl := List.mem_singleton.1 hc
      exact ⟨rfl, _, QueuedSite.outcome?_refresh x id sources, rfl⟩
  · exact (hpromised.woken c hc hid).2.elim
  · exact (hpromised.answers a ha hid).elim

/-- **A caller that waits to ask** still waits after an event, or gives up or learns that the run
    broke off, or asks now and is served from then on. -/
theorem Stands.pending_perform {x : QueuedSite} {id : Nat} {source : Source}
    (h : Stands x id [⟨id, some source⟩]) {e : Event} (he : e.caller? ≠ some id) :
    Stands (x.perform e) id [⟨id, some source⟩] ∨
    Promised (x.perform e) id (fun o => ∃ cause, o = .error cause) ∨
    x.asks e = some (id, some [source]) ∧
      ∃ o, (x.perform e).outcome? = some o ∧ Promised (x.perform e) id (· = o) := by
  by_cases hdrop : e = .drop id
  · rw [hdrop]
    exact .inr (.inl ((stands_drop x id).promised _))
  · by_cases hturn : e = .wake ∧ ∃ c o woken, x.queue.woken = (c, o) :: woken ∧ c.id = id
    · obtain ⟨rfl, c, o, woken, hwoken, hid⟩ := hturn
      obtain ⟨rfl, htail⟩ := h.tail hwoken hid
      have hpromised := htail.promised fun o => ∃ cause, o = .error cause
      cases o with
      | error cause =>
        have hqueue : x.queue.wake =
            { x.queue with woken, answers := x.queue.answers ++ [(id, .error cause)] } := by
          simp [RefreshQueue.wake, hwoken]
        right; left
        show Promised ⟨x.queue.wake, x.site⟩ id _
        rw [hqueue]
        refine ⟨hpromised.waiting, hpromised.woken, fun a ha hid => ?_⟩
        rcases List.mem_append.1 ha with ha | ha
        · exact hpromised.answers a ha hid
        · obtain rfl := List.mem_singleton.1 ha
          exact ⟨cause, rfl⟩
      | ok report =>
        have hqueue : x.queue.wake = { x.queue with woken }.refresh id (some [source]) := by
          simp [RefreshQueue.wake, hwoken]
        right; right
        refine ⟨by simp [QueuedSite.asks, hwoken], ?_⟩
        show ∃ o, QueuedSite.outcome? ⟨x.queue.wake, x.site⟩ = some o ∧
          Promised ⟨x.queue.wake, x.site⟩ id _
        rw [hqueue]
        exact htail.promised_refresh _
    · left
      refine h.perform he hdrop fun hwake c o woken hwoken hid => ?_
      exact hturn ⟨hwake, c, o, woken, hwoken, hid⟩

/-! ### Histories -/

theorem Promised.play {x : QueuedSite} {id : Nat} {P : Outcome → Prop} (h : Promised x id P)
    {history : List Event} (hids : ∀ e ∈ history, e.caller? ≠ some id) :
    Promised (x.play history) id P := by
  induction history generalizing x with
  | nil => exact h
  | cons e history ih =>
    rw [List.forall_mem_cons] at hids
    exact ih (h.perform hids.1) hids.2

theorem Stands.absent_play {x : QueuedSite} {id : Nat} (h : Stands x id []) {history : List Event}
    (hids : ∀ e ∈ history, e.caller? ≠ some id) : Stands (x.play history) id [] := by
  induction history generalizing x with
  | nil => exact h
  | cons e history ih =>
    rw [List.forall_mem_cons] at hids
    exact ih (h.absent_perform hids.1) hids.2

/-- A caller that waits to ask and is answered with a report in the end has asked in between, and
    the report is what the run under way came to then. -/
theorem Stands.pending_play {x : QueuedSite} {id : Nat} {source : Source}
    (h : Stands x id [⟨id, some source⟩]) {history : List Event}
    (hids : ∀ e ∈ history, e.caller? ≠ some id) {report : Report}
    (hanswer : (id, .ok report) ∈ (x.play history).queue.answers) :
    ∃ before e after, history = before ++ e :: after ∧
      (x.play before).asks e = some (id, some [source]) ∧
      (x.play (before ++ [e])).outcome? = some (.ok report) := by
  induction history generalizing x with
  | nil => exact absurd rfl (h.answers _ hanswer)
  | cons e history ih =>
    rw [List.forall_mem_cons] at hids
    rcases h.pending_perform hids.1 with hstands | hfailed | ⟨hasks, o, ho, hpromised⟩
    · obtain ⟨before, e', after, rfl, hasks, houtcome⟩ := ih hstands hids.2 hanswer
      exact ⟨e :: before, e', after, rfl, hasks, houtcome⟩
    · obtain ⟨cause, hcause⟩ := (hfailed.play hids.2).answers _ hanswer rfl
      cases hcause
    · have hreport := (hpromised.play hids.2).answers _ hanswer rfl
      exact ⟨[], e, history, rfl, hasks, ho.trans (congrArg some hreport.symm)⟩

/-- **A run under way** after an event was under way before it, or is begun by someone who asks and
    finds none. -/
theorem outcome?_of_perform {x : QueuedSite} {e : Event} {o : Outcome}
    (h : (x.perform e).outcome? = some o) :
    x.outcome? = some o ∨ x.queue.run = none ∧ ∃ id sources, x.asks e = some (id, sources) ∧
      ((Index.refresh sources).run x.site).2.1 = o := by
  have hrefresh : ∀ id sources, x.asks e = some (id, sources) →
      some (x.outcome?.getD ((Index.refresh sources).run x.site).2.1) = some o →
      x.outcome? = some o ∨ x.queue.run = none ∧ ∃ id sources, x.asks e = some (id, sources) ∧
        ((Index.refresh sources).run x.site).2.1 = o := by
    intro id sources hasks ho
    cases houtcome : x.outcome? with
    | some o' =>
      rw [houtcome] at ho
      exact .inl ho
    | none =>
      rw [houtcome] at ho
      exact .inr ⟨Option.map_eq_none_iff.1 houtcome, id, sources, hasks, Option.some.inj ho⟩
  have hmove := move_perform x e
  generalize x.perform e = y at hmove h
  cases hmove with
  | @ask _ id sources hcaller hasks =>
    rw [QueuedSite.outcome?_refresh] at h
    exact hrefresh id sources hasks h
  | @resume id source _ woken hwoken =>
    have hasks : x.asks .wake = some (id, some [source]) := by simp [QueuedSite.asks, hwoken]
    have hsame := QueuedSite.outcome?_refresh ⟨{ x.queue with woken }, x.site⟩ id (some [source])
    exact hrefresh id _ hasks (hsame.symm.trans h)
  | onward hrun => exact .inl (hrun.trans h)
  | ended hrun => cases h
  | wait | answer | drop | rest => exact .inl h

/-- An event begins a run of some sources, and the run comes to a report. -/
structure QueuedSite.Begins (x : QueuedSite) (e : Event) (sources : Option (List Source))
    (report : Report) :
    Prop where
  free : x.queue.run = none
  asked : ∃ id, x.asks e = some (id, sources)
  comes : ((Index.refresh sources).run x.site).2.1 = .ok report

theorem QueuedSite.Begins.mem_names {x : QueuedSite} {e : Event} {sources : Option (List Source)}
    {report : Report} (h : x.Begins e sources report) (name : String) : name ∈ report.names ↔
      ∃ s ∈ sources.getD x.site.world.settings.sources, s.enabled = true ∧ s.name = name := by
  have hends := Job.exists_ends (Index.refresh sources) x.site
  rw [h.comes] at hends
  exact mem_names_of_refresh hends

/-- Every run under way was begun, and has been under way since. -/
theorem exists_begins {site : Site} {history : List Event} {report : Report}
    (h : ((QueuedSite.idle site).play history).outcome? = some (.ok report)) :
    ∃ before e between sources, history = before ++ e :: between ∧
      ((QueuedSite.idle site).play before).Begins e sources report ∧
      ∀ part, part <+: between →
        ((QueuedSite.idle site).play (before ++ e :: part)).outcome? = some (.ok report) := by
  induction history using List.reverseRecOn with
  | nil => cases h
  | append_singleton history e ih =>
    rw [QueuedSite.play_snoc] at h
    rcases outcome?_of_perform h with hbefore | ⟨hfree, id, sources, hasks, hcomes⟩
    · obtain ⟨before, e', between, sources, rfl, hbegins, hsince⟩ := ih hbefore
      refine ⟨before, e', between ++ [e], sources, by simp, hbegins, fun part hpart => ?_⟩
      rcases List.prefix_concat_iff.1 hpart with rfl | hpart
      · rw [← List.cons_append, ← List.append_assoc, QueuedSite.play_snoc]
        exact h
      · exact hsince part hpart
    · refine ⟨history, e, [], sources, rfl, ⟨hfree, ⟨id, hasks⟩, hcomes⟩, fun part hpart => ?_⟩
      rw [List.prefix_nil.1 hpart, QueuedSite.play_snoc]
      exact h

/-! ### Added sources -/

theorem stands_idle (site : Site) (id : Nat) : Stands (.idle site) id [] :=
  ⟨rfl, fun _ h => absurd h List.not_mem_nil⟩

/-- An answer was given. -/
theorem mem_of_answer? {d : RefreshQueue} {id : Nat} {o : Outcome} (h : d.answer? id = some o) :
    (id, o) ∈ d.answers := by
  obtain ⟨l₁, l₂, heq, -⟩ := List.lookup_eq_some_iff.1 h
  rw [heq]
  simp

/-- Who wants a source added asks at some moment, and its report is what the run under way comes to
    then. -/
theorem exists_asks {site : Site} {history : List Event}
    (hids : (history.filterMap Event.caller?).Nodup) {id : Nat} {source : Source} {report : Report}
    (hcall : .add id source ∈ history)
    (hanswer : ((QueuedSite.idle site).play history).queue.answer? id = some (.ok report)) :
    ∃ before e after, history = before ++ e :: after ∧
      ((QueuedSite.idle site).play before).asks e = some (id, some [source]) ∧
      ((QueuedSite.idle site).play (before ++ [e])).outcome? = some (.ok report) := by
  obtain ⟨before, after, rfl⟩ := List.append_of_mem hcall
  -- Nobody else calls under this name, neither before nor after.
  rw [List.filterMap_append, List.filterMap_cons_some (show Event.caller? _ = some id from rfl),
    List.nodup_middle, List.nodup_cons, List.mem_append, not_or] at hids
  have hbefore : ∀ e ∈ before, e.caller? ≠ some id := fun e he heq =>
    hids.1.1 (List.mem_filterMap.2 ⟨e, he, heq⟩)
  have hafter : ∀ e ∈ after, e.caller? ≠ some id := fun e he heq =>
    hids.1.2 (List.mem_filterMap.2 ⟨e, he, heq⟩)
  have habsent := (stands_idle site id).absent_play hbefore
  have hmem := mem_of_answer? hanswer
  rw [QueuedSite.play_append, QueuedSite.play_cons] at hmem
  generalize hx : (QueuedSite.idle site).play before = x at habsent hmem
  cases hrun : x.queue.run with
  | none =>
    have hperform : x.perform (.add id source) = ⟨x.queue.refresh id (some [source]), x.site⟩ := by
      simp [QueuedSite.perform, RefreshQueue.add, hrun]
    obtain ⟨o, ho, hpromised⟩ := habsent.promised_refresh (some [source])
    rw [hperform] at hmem
    have hreport := (hpromised.play hafter).answers _ hmem rfl
    refine ⟨before, .add id source, after, rfl, by simp [hx, QueuedSite.asks, hrun], ?_⟩
    rw [QueuedSite.play_snoc, hx, hperform, ho, ← hreport]
  | some job =>
    have hperform : x.perform (.add id source) =
        ⟨{ x.queue with waiting := x.queue.waiting ++ [⟨id, some source⟩] }, x.site⟩ := by
      simp [QueuedSite.perform, RefreshQueue.add, hrun]
    have hpending : Stands (x.perform (.add id source)) id [⟨id, some source⟩] := by
      rw [hperform]
      refine ⟨?_, habsent.answers⟩
      have hcalls := habsent.calls
      unfold RefreshQueue.of RefreshQueue.callers at hcalls ⊢
      rw [← List.append_assoc, List.filter_append, hcalls]
      simp
    obtain ⟨between, e, rest, rfl, hasks, houtcome⟩ := hpending.pending_play hafter hmem
    refine ⟨before ++ .add id source :: between, e, rest, by simp, ?_, ?_⟩
    · rw [QueuedSite.play_append, QueuedSite.play_cons, hx]
      exact hasks
    · rw [List.append_assoc, List.cons_append, QueuedSite.play_append, QueuedSite.play_cons, hx]
      exact houtcome

/-- How a source that is added in a history comes by its report. -/
inductive Obtained (site : Site) (history : List Event) (id : Nat) (source : Source)
    (report : Report) : Prop where
  /-- No run was under way when it was asked for: the report is that of the run which began there,
      and accounts for the source and for no other. -/
  | began {before after : List Event} {e : Event} (hhistory : history = before ++ e :: after)
      (hasks : ((QueuedSite.idle site).play before).asks e = some (id, some [source]))
      (hbegins : ((QueuedSite.idle site).play before).Begins e (some [source]) report)
      (hnames : ∀ name, name ∈ report.names ↔ name = source.name) :
      Obtained site history id source report
  /-- A run was under way when it was asked for: the report is that of this run, which had begun
      before and been under way since, and accounts for the enabled sources of the run and for no
      others. -/
  | joined {before between after : List Event} {e' e : Event} {sources : Option (List Source)}
      (hhistory : history = before ++ e' :: between ++ e :: after)
      (hasks : ((QueuedSite.idle site).play (before ++ e' :: between)).asks e =
        some (id, some [source]))
      (hbegins : ((QueuedSite.idle site).play before).Begins e' sources report)
      (hsince : ∀ part, part <+: between →
        ((QueuedSite.idle site).play (before ++ e' :: part)).outcome? = some (.ok report))
      (hnames : ∀ name, name ∈ report.names ↔
        ∃ s ∈ sources.getD ((QueuedSite.idle site).play before).site.world.settings.sources,
          s.enabled = true ∧ s.name = name) :
      Obtained site history id source report

/-- **Whose report an added source comes back with.**  In every history, an enabled source that is
    added and answered with a report comes by it in one of two ways: by a run of its own, which
    accounts for it, or by a run that it found under way, which accounts for the sources of that run
    only. -/
theorem report_of_add (site : Site) {history : List Event}
    (hids : (history.filterMap Event.caller?).Nodup) {id : Nat} {source : Source} {report : Report}
    (henabled : source.enabled = true) (hcall : .add id source ∈ history)
    (hanswer : ((QueuedSite.idle site).play history).queue.answer? id = some (.ok report)) :
    Obtained site history id source report := by
  obtain ⟨before, e, after, hhistory, hasks, houtcome⟩ := exists_asks hids hcall hanswer
  rw [QueuedSite.play_snoc] at houtcome
  rcases outcome?_of_perform houtcome with hbefore | ⟨hfree, id', sources, hasks', hcomes⟩
  · obtain ⟨before', e', between, sources, rfl, hbegins, hsince⟩ := exists_begins hbefore
    exact .joined hhistory hasks hbegins hsince hbegins.mem_names
  · obtain ⟨-, rfl⟩ := Prod.mk.inj (Option.some.inj (hasks'.symm.trans hasks))
    have hbegins : ((QueuedSite.idle site).play before).Begins e (some [source]) report :=
      ⟨hfree, ⟨id, hasks⟩, hcomes⟩
    refine .began hhistory hasks hbegins fun name => ?_
    rw [hbegins.mem_names name]
    constructor
    · rintro ⟨s, hs, -, rfl⟩
      obtain rfl := List.mem_singleton.1 hs
      rfl
    · rintro rfl
      exact ⟨source, List.mem_singleton.2 rfl, henabled, rfl⟩

/-- Three files with a function each. -/
def threeFiles : Site where
  world := {
    settings := .default
    files := {
      nodes := .ofList [(["data"], .directory),
        (["data", "a.lua"], .file (Text.Utf8.encode "function a()\nend\n".toList)),
        (["data", "b.lua"], .file (Text.Utf8.encode "function b()\nend\n".toList)),
        (["data", "c.lua"], .file (Text.Utf8.encode "function c()\nend\n".toList))] }
    homes := { own := ⟨.root, ["home"]⟩ }
    network := Fetch.plainClient fun _ _ => (0, .ok { status := 404 })
    clock := 63838368000 }
  catalogue := { path := ⟨.root, ["data", "index.json"]⟩ }

/-- Three sources are added at once: the first begins a run, and when that has ended, the second
    begins another and the third finds it under way. -/
def threeAdds : List Event := [
  .add 0 { name := "a", url := "/data/a.lua" }, .add 1 { name := "b", url := "/data/b.lua" },
  .add 2 { name := "c", url := "/data/c.lua" }, .work 0, .wake, .wake, .wake, .work 0, .wake, .wake]

/-- The third of them is answered with the report of the second. -/
theorem exists_third_answer : ∃ report,
    ((QueuedSite.idle threeFiles).play threeAdds).queue.answer? 2 = some (.ok report) ∧
      report.names = ["b"] := by
  have hnames : (((QueuedSite.idle threeFiles).play threeAdds).queue.answer? 2).map
      (fun o => o.toOption.map Report.names) = some (some ["b"]) := by
    decide +kernel
  obtain ⟨o, ho, hreport⟩ := Option.map_eq_some_iff.1 hnames
  cases o with
  | error e => cases hreport
  | ok report => exact ⟨report, ho, Option.some.inj hreport⟩

theorem threeAdds_report : ∃ report,
    ((QueuedSite.idle threeFiles).play threeAdds).queue.answer? 2 = some (.ok report) ∧
      Obtained threeFiles threeAdds 2 { name := "c", url := "/data/c.lua" } report := by
  obtain ⟨report, hanswer, -⟩ := exists_third_answer
  exact ⟨report, hanswer,
    report_of_add threeFiles (by decide) rfl (by simp [threeAdds]) hanswer⟩

/-- **Left out.**  Not every source that is added is accounted for in the report that it comes back
    with. -/
theorem not_all_adds_accounted :
    ¬ ∀ (site : Site) (history : List Event), (history.filterMap Event.caller?).Nodup →
      (∀ id source, .add id source ∈ history → source.enabled = true) →
      ∀ id source report, .add id source ∈ history →
        ((QueuedSite.idle site).play history).queue.answer? id = some (.ok report) →
        source.name ∈ report.names := by
  intro h
  obtain ⟨report, hanswer, hnames⟩ := exists_third_answer
  have henabled : ∀ id source, .add id source ∈ threeAdds → source.enabled = true := by
    simp only [threeAdds, List.mem_cons, List.not_mem_nil, or_false, Event.add.injEq, reduceCtorEq]
    rintro id source (⟨-, rfl⟩ | ⟨-, rfl⟩ | ⟨-, rfl⟩) <;> rfl
  have hmem := h threeFiles threeAdds (by decide) henabled 2 { name := "c", url := "/data/c.lua" }
    report (by simp [threeAdds]) hanswer
  rw [hnames] at hmem
  exact absurd hmem (by decide)

end LuaAudit.Index
