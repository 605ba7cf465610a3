import LuaAudit.Proofs.Index.Pool

/-!
# One refresh at a time

The queue is what one sees of a pool: the execution in the slot is the run under way until it has
ended, and the callers are told apart by whether theirs has.  So what holds of the executions in a
pool, whatever the order of its steps, holds of the runs of a queue.

* `TaskPool.queuedSite` is the view from the queue, and `TaskPool.trace` the steps that a history
  comes down to;
* `queuedSite_follow` and `queuedSite_trace`: every event at the queue, and so every history, is
  shown by a pool;
* `Asked` and `asked_play`: who asks joins the unfinished execution or starts one, and is served by
  it;
* `single_flight`: the whole account.
-/

namespace LuaAudit.Index

open Docs (Source)
open TaskPool (Step)

namespace TaskPool

variable {site : Site} {x : TaskPool}

/-! ### What one sees at the queue -/

/-- Those that wait for an unfinished execution. -/
def waiting (x : TaskPool) : List Caller :=
  (x.callers.filter fun t => (x.ended? t.on).isNone).map (·.caller)

/-- Those whose execution has ended, with how it ended. -/
def woken (x : TaskPool) : List (Caller × Outcome) :=
  x.callers.filterMap fun t => (x.ended? t.on).map fun o => (t.caller, o)

/-- The pool as it looks from the queue: with the execution in the slot as the run under way, if it
    is unfinished. -/
def queuedSite (x : TaskPool) : QueuedSite where
  site := x.site
  queue := {
    run := x.busy?.bind fun n => x.executions[n]?.map (·.left)
    waiting := x.waiting
    woken := x.woken
    answers := x.answers }

/-- The step that an event at the queue comes down to.  The run is the last execution, and callers
    are given their turns from the front. -/
def follow (x : TaskPool) : Event → Step
  | .refresh id sources => .refresh id sources
  | .add id source => .add id source
  | .work ms => .work (x.executions.length - 1) ms
  | .wake => .wake 0
  | .drop id => .drop id

/-- The steps that a history at the queue comes down to. -/
def trace (x : TaskPool) : List Event → List Step
  | [] => []
  | e :: history => x.follow e :: (x.perform (x.follow e)).trace history

theorem run_of_unfinished (h : x.Ordered site) {n : Nat} {e : Execution}
    (he : x.executions[n]? = some e) (hended : e.ended? = none) :
    x.queuedSite.queue.run = some e.left := by
  show x.busy?.bind _ = some e.left
  rw [h.busy?_eq_some_iff.2 ⟨e, he, hended⟩, Option.bind_some, he]
  rfl

theorem run_of_free (hbusy : x.busy? = none) : x.queuedSite.queue.run = none := by
  show x.busy?.bind _ = none
  rw [hbusy]
  rfl

/-- One more caller waits for an unfinished execution. -/
theorem queuedSite_await {n : Nat} (hended : x.ended? n = none) (caller : Caller) :
    (x.await caller n).queuedSite =
      ⟨{ x.queuedSite.queue with waiting := x.queuedSite.queue.waiting ++ [caller] }, x.site⟩ := by
  have hwaiting : (x.await caller n).waiting = x.waiting ++ [caller] := by
    show ((x.callers ++ [Ticket.mk caller n]).filter fun t => (x.ended? t.on).isNone).map
      (·.caller) = _
    rw [List.filter_append, List.map_append]
    simp [waiting, hended]
  have hwoken : (x.await caller n).woken = x.woken := by
    show (x.callers ++ [Ticket.mk caller n]).filterMap
      (fun t => (x.ended? t.on).map fun o => (t.caller, o)) = _
    rw [List.filterMap_append]
    simp [woken, hended]
  unfold queuedSite
  rw [hwaiting, hwoken]
  rfl

theorem queuedSite_start (h : x.Ordered site) (hfree : ∀ n, ¬ x.Unfinished n)
    (sources : Option (List Source)) :
    (x.start sources).queuedSite =
      ⟨{ x.queuedSite.queue with run := some (Index.refresh sources) }, x.site⟩ := by
  have hget : (x.start sources).executions[x.executions.length]? =
      some (.start sources x.site) := by
    simp [start]
  have hrun := run_of_unfinished (h.start hfree sources) hget rfl
  have hwaiting : (x.start sources).waiting = x.waiting := by
    simp only [waiting, ended?_start]
    rfl
  have hwoken : (x.start sources).woken = x.woken := by
    simp only [woken, ended?_start]
    rfl
  unfold queuedSite at hrun ⊢
  dsimp only at hrun
  rw [hrun, hwaiting, hwoken]
  rfl

theorem queuedSite_refresh (h : x.Ordered site) (id : Nat) (sources : Option (List Source)) :
    (x.refresh id sources).queuedSite = ⟨x.queuedSite.queue.refresh id sources, x.site⟩ := by
  unfold TaskPool.refresh RefreshQueue.refresh
  split
  next n hbusy =>
    obtain ⟨e, he, hended⟩ := h.busy?_eq_some_iff.1 hbusy
    rw [queuedSite_await (ended?_of_unfinished ⟨e, he, hended⟩)]
    simp [run_of_unfinished h he hended]
  next hbusy =>
    have hfree := h.busy?_eq_none_iff.1 hbusy
    have hended : (x.start sources).ended? x.executions.length = none := by
      rw [ended?_start, ended?, List.getElem?_eq_none (Nat.le_refl _)]
      rfl
    rw [queuedSite_await hended, queuedSite_start h hfree, run_of_free hbusy]
    rfl

theorem queuedSite_add (h : x.Ordered site) (id : Nat) (source : Source) :
    (x.add id source).queuedSite = ⟨x.queuedSite.queue.add id source, x.site⟩ := by
  unfold TaskPool.add RefreshQueue.add
  split
  next n hbusy =>
    obtain ⟨e, he, hended⟩ := h.busy?_eq_some_iff.1 hbusy
    rw [queuedSite_await (ended?_of_unfinished ⟨e, he, hended⟩)]
    simp [run_of_unfinished h he hended]
  next hbusy =>
    rw [run_of_free hbusy]
    exact queuedSite_refresh h id _

/-- Callers that come to wait for one execution after the other: when the last of the executions
    ends, those that waited for it follow those whose wait was over before. -/
theorem filterMap_of_sorted {tickets : List Ticket} (hsorted : tickets.Pairwise (·.on ≤ ·.on))
    {last : Nat} (hle : ∀ t ∈ tickets, t.on ≤ last) {before after : Nat → Option Outcome}
    (hsame : ∀ m < last, ∃ o, before m = some o ∧ after m = some o) {outcome : Outcome}
    (hbefore : before last = none) (hafter : after last = some outcome) :
    tickets.filterMap (fun t => (after t.on).map fun o => (t.caller, o)) =
      tickets.filterMap (fun t => (before t.on).map fun o => (t.caller, o)) ++
        ((tickets.filter fun t => (before t.on).isNone).map (·.caller)).map fun c =>
          (c, outcome) := by
  induction tickets with
  | nil => rfl
  | cons t tickets ih =>
    rw [List.pairwise_cons] at hsorted
    rw [List.forall_mem_cons] at hle
    rcases Nat.lt_or_ge t.on last with hlt | hge
    · obtain ⟨o, hb, ha⟩ := hsame t.on hlt
      simp [hb, ha, ih hsorted.2 hle.2]
    · -- From here on everyone waits for the last execution.
      have hlast : ∀ t' ∈ t :: tickets, t'.on = last := by
        intro t' ht'
        rcases List.mem_cons.1 ht' with rfl | ht'
        · exact Nat.le_antisymm hle.1 hge
        · exact Nat.le_antisymm (hle.2 t' ht') (Nat.le_trans hge (hsorted.1 t' ht'))
      have hnone : (t :: tickets).filterMap
          (fun t => (before t.on).map fun o => (t.caller, o)) = [] := by
        rw [List.filterMap_eq_nil_iff]
        intro t' ht'
        rw [hlast t' ht', hbefore]
        rfl
      have hall : (t :: tickets).filter (fun t => (before t.on).isNone) = t :: tickets := by
        rw [List.filter_eq_self]
        intro t' ht'
        rw [hlast t' ht', hbefore]
        rfl
      have hmap : (t :: tickets).filterMap (fun t => (after t.on).map fun o => (t.caller, o)) =
          (t :: tickets).filterMap (some ∘ fun t => (t.caller, outcome)) := by
        apply List.filterMap_congr
        intro t' ht'
        rw [hlast t' ht', hafter]
        rfl
      rw [hnone, hall, hmap, List.filterMap_eq_map, List.map_map]
      rfl

theorem ended?_work_eq {n : Nat} {e : Execution} (he : x.executions[n]? = some e) (ms m : Nat) :
    (x.work n ms).ended? m = if m = n then (e.advance ms x.site).ended? else x.ended? m := by
  rw [ended?, getElem?_work he]
  split <;> rfl

theorem queuedSite_work (h : x.Ordered site) (ms : Nat) :
    (x.work (x.executions.length - 1) ms).queuedSite =
      ⟨(x.queuedSite.queue.work ms x.site).1, (x.queuedSite.queue.work ms x.site).2.1⟩ := by
  cases hbusy : x.busy? with
  | none =>
    -- Neither the pool nor the queue has anything to do.
    rw [work_of_finished (h.busy?_eq_none_iff.1 hbusy _), RefreshQueue.work, run_of_free hbusy]
    rfl
  | some n =>
    have hn := h.busy?_eq_some_iff.1 hbusy
    have hlast := h.succ_of_unfinished hn
    obtain ⟨e, he, hended⟩ := hn
    rw [← hlast, Nat.add_sub_cancel, RefreshQueue.work, run_of_unfinished h he hended]
    have hsite : (x.work n ms).site = (e.left.advance ms x.site).1 := by rw [work_eq he]
    have hcallers : (x.work n ms).callers = x.callers := by rw [work_eq he]
    have hanswers : (x.work n ms).answers = x.answers := by rw [work_eq he]
    have hget : (x.work n ms).executions[n]? = some (e.advance ms x.site) := by
      rw [getElem?_work he, if_pos rfl]
    have hordered := h.work n ms
    dsimp only
    cases hvalue : (e.left.advance ms x.site).2.1.value? with
    | some outcome =>
      have hafter : (x.work n ms).ended? n = some outcome := by
        rw [ended?_work_eq he, if_pos rfl]
        exact hvalue
      have hsame : ∀ m < n, ∃ o, x.ended? m = some o ∧ (x.work n ms).ended? m = some o := by
        intro m hm
        obtain ⟨o, ho⟩ := h.exists_ended (n := m) (by omega)
        exact ⟨o, ho, ended?_work ho n ms⟩
      have hle : ∀ t ∈ x.callers, t.on ≤ n := by
        intro t ht
        have hlt := h.begun t ht
        omega
      have hfree : (x.work n ms).busy? = none := by
        rw [hordered.busy?_eq_none_iff]
        intro m hm
        have hmlast := hordered.succ_of_unfinished hm
        rw [length_work he, ← hlast, Nat.add_right_cancel_iff] at hmlast
        rw [hmlast] at hm
        rw [ended?_of_unfinished hm] at hafter
        cases hafter
      have hwaiting : (x.work n ms).waiting = [] := by
        rw [waiting, hcallers, List.map_eq_nil_iff, List.filter_eq_nil_iff]
        intro t ht
        rcases Nat.lt_or_eq_of_le (hle t ht) with hlt | heq
        · obtain ⟨o, -, ho⟩ := hsame t.on hlt
          simp [ho]
        · simp [heq, hafter]
      have hwoken : (x.work n ms).woken = x.woken ++ x.waiting.map fun c => (c, outcome) := by
        rw [woken, hcallers]
        exact filterMap_of_sorted h.sorted hle hsame
          (ended?_of_unfinished ⟨e, he, hended⟩) hafter
      have hrun := run_of_free hfree
      unfold queuedSite at hrun ⊢
      dsimp only at hrun
      rw [hrun, hwaiting, hwoken, hsite, hanswers]
      rfl
    | none =>
      have hsame : (x.work n ms).ended? = x.ended? := by
        funext m
        rw [ended?_work_eq he]
        split
        next hmn =>
          rw [hmn, ended?_of_unfinished ⟨e, he, hended⟩]
          exact hvalue
        next => rfl
      have hrun := run_of_unfinished hordered hget hvalue
      have hwaiting : (x.work n ms).waiting = x.waiting := by
        rw [waiting, hsame, hcallers]
        rfl
      have hwoken : (x.work n ms).woken = x.woken := by
        rw [woken, hsame, hcallers]
        rfl
      unfold queuedSite at hrun ⊢
      dsimp only at hrun
      rw [hrun, hwaiting, hwoken, hsite, hanswers]
      rfl

/-- The first caller leaves. -/
theorem queuedSite_tail {t : Ticket} {rest : List Ticket} (hcallers : x.callers = t :: rest)
    {o : Outcome} (ho : x.ended? t.on = some o) :
    x.queuedSite.queue.woken = (t.caller, o) :: TaskPool.woken { x with callers := rest } ∧
      ∀ answers, TaskPool.queuedSite { x with callers := rest, answers } =
        ⟨{ x.queuedSite.queue with woken := TaskPool.woken { x with callers := rest }, answers },
          x.site⟩ := by
  constructor
  · show x.woken = _
    rw [woken, hcallers, List.filterMap_cons_some (b := (t.caller, o)) (by rw [ho]; rfl)]
    rfl
  · intro answers
    have hwaiting : TaskPool.waiting { x with callers := rest, answers } = x.waiting := by
      show (rest.filter fun t => (x.ended? t.on).isNone).map (·.caller) = _
      rw [waiting, hcallers, List.filter_cons_of_neg (by simp [ho])]
    unfold queuedSite
    rw [hwaiting]
    rfl

theorem queuedSite_wake (h : x.Ordered site) :
    (x.wake 0).queuedSite = ⟨x.queuedSite.queue.wake, x.site⟩ := by
  -- The first caller to come has waited for no later execution than the others.
  have hrest : x.woken = [] → ⟨x.queuedSite.queue.wake, x.site⟩ = x.queuedSite := by
    intro hwoken
    have hqueue : x.queuedSite.queue.woken = [] := hwoken
    rw [RefreshQueue.wake, hqueue]
    rfl
  unfold TaskPool.wake
  cases hcallers : x.callers with
  | nil =>
    rw [List.getElem?_nil]
    exact (hrest (by rw [woken, hcallers]; rfl)).symm
  | cons t rest =>
    rw [List.getElem?_cons_zero]
    dsimp only
    cases hended : x.ended? t.on with
    | none =>
      refine (hrest ?_).symm
      have hlast := h.succ_of_unfinished
        (unfinished_iff.2 ⟨h.begun t (hcallers ▸ List.mem_cons_self), hended⟩)
      have hsorted := h.sorted
      rw [hcallers, List.pairwise_cons] at hsorted
      rw [woken, List.filterMap_eq_nil_iff]
      intro t' ht'
      have hlt := h.begun t' ht'
      have hon : t'.on = t.on := by
        rw [hcallers] at ht'
        rcases List.mem_cons.1 ht' with rfl | ht'
        · rfl
        · have hle := hsorted.1 t' ht'
          omega
      rw [hon, hended]
      rfl
    | some outcome =>
      obtain ⟨hwoken, htail⟩ := queuedSite_tail hcallers hended
      have hordered : TaskPool.Ordered site { x with callers := rest } :=
        h.callers (hcallers ▸ List.sublist_cons_self _ _)
      rw [RefreshQueue.wake, hwoken]
      obtain ⟨⟨id, adds⟩, n⟩ := t
      cases outcome with
      | error e => cases adds <;> exact htail _
      | ok report =>
        cases adds with
        | none => exact htail _
        | some source =>
          show (TaskPool.refresh { x with callers := rest } id (some [source])).queuedSite = _
          rw [queuedSite_refresh hordered]
          exact congrArg (fun y : QueuedSite =>
            QueuedSite.mk (y.queue.refresh id (some [source])) x.site)
            (htail x.answers)

theorem queuedSite_drop (x : TaskPool) (id : Nat) :
    (x.drop id).queuedSite = ⟨x.queuedSite.queue.drop id, x.site⟩ := by
  have hwaiting : (x.drop id).waiting = x.waiting.filter (·.id ≠ id) := by
    show ((x.callers.filter _).filter fun t => (x.ended? t.on).isNone).map (·.caller) = _
    rw [waiting, List.filter_map, List.filter_filter, List.filter_filter]
    simp only [Function.comp_def, Bool.and_comm]
  have hwoken : (x.drop id).woken = x.woken.filter (·.1.id ≠ id) := by
    show (x.callers.filter _).filterMap (fun t => (x.ended? t.on).map fun o => (t.caller, o)) = _
    rw [woken, List.filter_filterMap, List.filterMap_filter]
    apply List.filterMap_congr
    intro t _
    cases x.ended? t.on with
    | none => simp
    | some o => by_cases hid : t.caller.id = id <;> simp [hid, Option.filter]
  unfold queuedSite
  rw [hwaiting, hwoken]
  rfl

/-- **What one sees at the queue** is what happens in the pool. -/
theorem queuedSite_follow (h : x.Ordered site) (e : Event) :
    (x.perform (x.follow e)).queuedSite = x.queuedSite.perform e := by
  cases e with
  | refresh id sources => exact queuedSite_refresh h id sources
  | add id source => exact queuedSite_add h id source
  | work ms => exact queuedSite_work h ms
  | wake => exact queuedSite_wake h
  | drop id => exact queuedSite_drop x id

theorem queuedSite_trace (h : x.Ordered site) (history : List Event) :
    (x.play (x.trace history)).queuedSite = x.queuedSite.play history := by
  induction history generalizing x with
  | nil => rfl
  | cons e history ih =>
    show ((x.perform (x.follow e)).play _).queuedSite = (x.queuedSite.perform e).play history
    rw [ih (h.perform _), queuedSite_follow h]

end TaskPool

/-! ### One refresh at a time -/

/-- What becomes of someone who asks for a refresh: it joins the unfinished execution and starts
    none, or it finds none and starts exactly one. -/
inductive Asked (x : TaskPool) (sources : Option (List Source)) (y : TaskPool) (n : Nat) :
    Prop where
  | joined (hn : x.Unfinished n) (hsame : y.executions = x.executions)
  | started (hfree : ∀ m, ¬ x.Unfinished m) (hn : n = x.executions.length)
      (hnew : y.executions = x.executions ++ [.start sources x.site])

/-- Refreshes of one queue, which holds a site, never overlap. -/
structure SingleFlight (site : Site) : Prop where
  /-- Whatever happens at the queue happens in the pool. -/
  shown : ∀ history,
    ((TaskPool.opened site).play ((TaskPool.opened site).trace history)).queuedSite =
    (QueuedSite.idle site).play history
  /-- At most one execution is unfinished. -/
  single : ∀ steps m n, ((TaskPool.opened site).play steps).Unfinished m →
    ((TaskPool.opened site).play steps).Unfinished n → m = n
  /-- Time for any other changes nothing. -/
  still : ∀ steps n ms, ¬ ((TaskPool.opened site).play steps).Unfinished n →
    ((TaskPool.opened site).play steps).work n ms = (TaskPool.opened site).play steps
  /-- Each execution finds what those before it leave when they are run one after the other, and
      comes to what it comes to alone. -/
  own : ∀ steps n e, ((TaskPool.opened site).play steps).executions[n]? = some e →
    e.found =
      inTurn site ((((TaskPool.opened site).play steps).executions.map (·.sources)).take n) ∧
      ∀ o, e.ended? = some o → o = e.comesTo
  /-- Together they leave what they leave that are run one after the other. -/
  leaves : ∀ steps, (∀ n, ¬ ((TaskPool.opened site).play steps).Unfinished n) →
    ((TaskPool.opened site).play steps).site =
      inTurn site (((TaskPool.opened site).play steps).executions.map (·.sources))
  /-- Who asks is answered with how the execution has ended that it joined or started, and with
      nothing else; and it waits for that execution until it is answered or gives up. -/
  asked : ∀ before s after id sources, ((before ++ s :: after).filterMap Step.caller?).Nodup →
    ((TaskPool.opened site).play before).asks s = some (id, sources) →
    ∃ n, Asked ((TaskPool.opened site).play before) sources
      ((TaskPool.opened site).play (before ++ [s])) n ∧
      (∀ o, (id, o) ∈ ((TaskPool.opened site).play (before ++ s :: after)).answers →
        ((TaskPool.opened site).play (before ++ s :: after)).ended? n = some o) ∧
      (.drop id ∉ after → ((TaskPool.opened site).play (before ++ s :: after)).Holds id n)
  /-- Who waits for an execution can be answered with what that comes to. -/
  answered : ∀ steps k id n,
    ((TaskPool.opened site).play steps).callers[k]? = some ⟨⟨id, none⟩, n⟩ →
    ∃ e ms, ((TaskPool.opened site).play steps).executions[n]? = some e ∧
      (id, e.comesTo) ∈ ((TaskPool.opened site).play (steps ++ [.work n ms, .wake k])).answers

/-- Who asks joins or starts an execution, and waits for that one. -/
theorem TaskPool.Ordered.asked {site : Site} {x : TaskPool} (h : x.Ordered site) {id : Nat}
    (hid : id ∉ x.ids) (sources : Option (List Source)) :
    ∃ n, Asked x sources (x.refresh id sources) n ∧ (x.refresh id sources).Serves id n ∧
      (x.refresh id sources).Holds id n := by
  rw [TaskPool.ids, List.mem_append, List.mem_map, List.mem_map, not_or] at hid
  -- Nobody else goes by this name.
  have hserves : ∀ {y : TaskPool} (n : Nat), y.callers = x.callers → y.answers = x.answers →
      (y.await { id } n).Serves id n := by
    intro y n hcallers hanswers
    refine ⟨fun t ht hcaller => ?_, fun a ha hanswer => ?_⟩
    · rcases List.mem_append.1 ht with ht | ht
      · exact absurd ⟨t, hcallers ▸ ht, hcaller⟩ hid.1
      · obtain rfl := List.mem_singleton.1 ht
        exact ⟨rfl, rfl⟩
    · exact absurd ⟨a, hanswers ▸ ha, hanswer⟩ hid.2
  have hholds : ∀ (y : TaskPool) (n : Nat), (y.await { id } n).Holds id n := fun y n =>
    .inl (List.mem_append_right _ (List.mem_singleton.2 rfl))
  unfold TaskPool.refresh
  split
  next n hbusy =>
    exact ⟨n, .joined (h.busy?_eq_some_iff.1 hbusy) rfl, hserves n rfl rfl, hholds x n⟩
  next hbusy =>
    exact ⟨x.executions.length, .started (h.busy?_eq_none_iff.1 hbusy) rfl rfl,
      hserves _ rfl rfl, hholds _ _⟩

/-- Callers that call once: those of a step and those that called before it are not found twice, and
    not among those that call after it. -/
theorem TaskPool.nodup_calls (site : Site) {before after : List Step} {s : Step}
    (hids : ((before ++ s :: after).filterMap Step.caller?).Nodup) :
    ((s.caller?.toList ++ ((TaskPool.opened site).play before).ids) ++
      after.filterMap Step.caller?).Nodup := by
  have hbefore := TaskPool.ids_play (TaskPool.opened site) before
  rw [show (TaskPool.opened site).ids = [] from rfl, List.append_nil] at hbefore
  rw [List.filterMap_append, TaskPool.filterMap_caller?_cons, ← List.append_assoc] at hids
  have hperm : (before.filterMap Step.caller? ++ s.caller?.toList).Perm
      (s.caller?.toList ++ before.filterMap Step.caller?) := List.perm_append_comm
  obtain ⟨calls, hcalls, hsub⟩ := (List.subperm_append_right (after.filterMap Step.caller?)).2
    ((List.subperm_append_left s.caller?.toList).2 hbefore)
  exact hcalls.nodup_iff.1 (((hperm.append_right _).nodup_iff.1 hids).sublist hsub)

/-- Whatever happens before and after, who asks is served by the execution that it joins or
    starts. -/
theorem TaskPool.asked_play (site : Site) {before after : List Step} {s : Step} {id : Nat}
    {sources : Option (List Source)} (hids : ((before ++ s :: after).filterMap Step.caller?).Nodup)
    (hasks : ((TaskPool.opened site).play before).asks s = some (id, sources)) :
    ∃ n, Asked ((TaskPool.opened site).play before) sources
      ((TaskPool.opened site).play (before ++ [s])) n ∧
      ((TaskPool.opened site).play (before ++ s :: after)).Serves id n ∧
      (.drop id ∉ after → ((TaskPool.opened site).play (before ++ s :: after)).Holds id n) := by
  have hordered := (TaskPool.ordered_opened site).play before
  have hnodup := TaskPool.nodup_calls site hids
  rw [TaskPool.play_append, TaskPool.play_append]
  generalize (TaskPool.opened site).play before = x at hordered hnodup hasks ⊢
  obtain ⟨rest, hrest, hperform, hperm⟩ := TaskPool.exists_refresh_of_asks hasks
  rw [List.nodup_append] at hnodup
  -- Who asks is not waiting any more, and does not call again.
  have hgone := (List.nodup_cons.1 (hperm.nodup_iff.2 hnodup.1)).1
  have hafter : ∀ s' ∈ after, s'.caller? ≠ some id := by
    intro s' hs' hcaller
    exact hnodup.2.2 id (hperm.subset List.mem_cons_self) id
      (List.mem_filterMap.2 ⟨s', hs', hcaller⟩) rfl
  obtain ⟨n, hasked, hserves, hholds⟩ := (hordered.callers hrest).asked hgone sources
  rw [← hperform] at hasked hserves hholds
  refine ⟨n, ?_, hserves.play hafter, hholds.play⟩
  cases hasked with
  | joined hn hsame => exact .joined hn hsame
  | started hfree hn hnew => exact .started hfree hn hnew

/-- **One refresh at a time.**  In whatever order callers come and go and executions go on, at most
    one execution is unfinished; who asks meanwhile shares it, and who finds none starts one. -/
theorem single_flight (site : Site) : SingleFlight site where
  shown history := TaskPool.queuedSite_trace (TaskPool.ordered_opened site) history
  single steps m n hm hn := by
    have h := (TaskPool.ordered_opened site).play steps
    exact Option.some.inj ((h.single m hm).symm.trans (h.single n hn))
  still steps n ms hn := TaskPool.work_of_finished hn ms
  own steps n e he := by
    have h := (TaskPool.ordered_opened site).play steps
    exact ⟨h.found n e he, h.own e (List.mem_of_getElem? he)⟩
  leaves steps := ((TaskPool.ordered_opened site).play steps).site_eq
  asked before s after id sources hids hasks := by
    obtain ⟨n, hasked, hserves, hholds⟩ := TaskPool.asked_play site hids hasks
    exact ⟨n, hasked, fun o ho => hserves.answers _ ho rfl, hholds⟩
  answered steps k id n hk := by
    simp only [TaskPool.play_append]
    exact ((TaskPool.ordered_opened site).play steps).exists_answer hk

/-- Three sources are added at once.  When the execution that the first has started is over, the
    second starts another, and then the third asks. -/
theorem single_flight_threeFiles :
    let before : List Step := [.add 0 { name := "a", url := "/data/a.lua" },
      .add 1 { name := "b", url := "/data/b.lua" }, .add 2 { name := "c", url := "/data/c.lua" },
      .work 0 0, .wake 0, .wake 0]
    ((TaskPool.opened threeFiles).play before).asks (.wake 0) =
      some (2, some [{ name := "c", url := "/data/c.lua" }]) ∧
    ∃ n, Asked ((TaskPool.opened threeFiles).play before)
      (some [{ name := "c", url := "/data/c.lua" }])
      ((TaskPool.opened threeFiles).play (before ++ [.wake 0])) n := by
  intro before
  have hasks : ((TaskPool.opened threeFiles).play before).asks (.wake 0) =
      some (2, some [{ name := "c", url := "/data/c.lua" }]) := by decide +kernel
  obtain ⟨n, hasked, -, -⟩ :=
    (single_flight threeFiles).asked before (.wake 0) [] 2 _ (by decide) hasks
  exact ⟨hasks, n, hasked⟩

end LuaAudit.Index
