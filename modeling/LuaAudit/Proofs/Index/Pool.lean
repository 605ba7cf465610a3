import LuaAudit.Proofs.Index.Callers
import Mathlib.Data.List.Perm.Basic
import Mathlib.Data.List.Perm.Subperm

/-!
# Executions of a refresh

A queue has room for one run only, so it cannot even say that two of them overlap.  A `TaskPool`
can: it keeps every execution that was ever begun, each of them may go on at any time, and a slot
names the one that was begun last.  Callers look at nothing but the slot, wait for one execution by
its number, and go on in any order when it has ended.  That the executions come one after the other
all the same is an invariant.

* `TaskPool.perform` and `TaskPool.play`: the steps, taken in any order;
* `Change` is all that a step can do, by `change_perform`;
* `TaskPool.Ordered` is kept by every step, by `Ordered.perform`: only the execution in the slot may
  be unfinished, and each of them finds what those before it leave;
* `TaskPool.ids_play`: nobody is found twice in a pool who has called once;
* `TaskPool.Serves` and `TaskPool.Holds`: which execution a caller waits for, and what one step
  makes of it;
* `Ordered.exists_answer`: nobody waits in vain.
-/

namespace LuaAudit.Index

open Docs (Source)

/-! ### The pool -/

/-- One execution of a refresh: the sources it was begun with, the site it found, and what is left
    of it. -/
structure Execution where
  sources : Option (List Source)
  found : Site
  left : Run

namespace Execution

/-- An execution that begins at a site. -/
def start (sources : Option (List Source)) (site : Site) : Execution :=
  ⟨sources, site, Index.refresh sources⟩

/-- How an execution has ended, if it has. -/
def ended? (e : Execution) : Option Outcome := e.left.value?

/-- What an execution comes to that nobody interrupts. -/
def comesTo (e : Execution) : Outcome := ((Index.refresh e.sources).run e.found).2.1

/-- An execution goes on for a while. -/
def advance (e : Execution) (ms : Nat) (site : Site) : Execution :=
  { e with left := (e.left.advance ms site).2.1 }

/-- A refresh begins with a look at the site, so it is not over before it has begun. -/
@[simp] theorem ended?_start (sources : Option (List Source)) (site : Site) :
    (start sources site).ended? = none := rfl

/-- An execution that has ended does nothing any more. -/
theorem advance_of_ended {e : Execution} {o : Outcome} (h : e.ended? = some o) (ms : Nat)
    (site : Site) : e.left.advance ms site = (site, e.left, ms) := by
  rw [Job.eq_done_of_value? h]
  rfl

end Execution

/-- What refreshes of some sources leave that are run one after the other. -/
def inTurn (site : Site) (pools : List (Option (List Source))) : Site :=
  pools.foldl (fun site sources => ((Index.refresh sources).run site).1) site

theorem inTurn_snoc (site : Site) (pools : List (Option (List Source)))
    (sources : Option (List Source)) :
    inTurn site (pools ++ [sources]) = ((Index.refresh sources).run (inTurn site pools)).1 :=
  List.foldl_append

/-- Someone who waits for the end of an execution. -/
structure Ticket where
  caller : Caller
  on : Nat

/-- All executions in the order of their beginnings, the number of the last one, and the callers
    that have not gone on, in the order in which they came to wait. -/
structure TaskPool where
  site : Site
  executions : List Execution := []
  slot : Option Nat := none
  callers : List Ticket := []
  answers : List (Nat × Outcome) := []

namespace TaskPool

/-- What can happen in a pool: someone asks for a refresh, wants a source added or gives up, any of
    the executions goes on for a while, or any of the callers is given its turn. -/
inductive Step where
  | refresh (id : Nat) (sources : Option (List Source))
  | add (id : Nat) (source : Source)
  | work (n ms : Nat)
  | wake (k : Nat)
  | drop (id : Nat)

/-- Who calls. -/
def Step.caller? : Step → Option Nat
  | .refresh id _ => some id
  | .add id _ => some id
  | _ => none

/-- Nothing has happened yet. -/
def opened (site : Site) : TaskPool := { site }

/-- How an execution has ended, if it has. -/
def ended? (x : TaskPool) (n : Nat) : Option Outcome := x.executions[n]?.bind Execution.ended?

/-- An execution was begun and has not ended. -/
def Unfinished (x : TaskPool) (n : Nat) : Prop := ∃ e, x.executions[n]? = some e ∧ e.ended? = none

/-- The execution in the slot, unless it has ended. -/
def busy? (x : TaskPool) : Option Nat := x.slot.filter fun n => (x.ended? n).isNone

/-- A caller waits for an execution. -/
def await (x : TaskPool) (caller : Caller) (n : Nat) : TaskPool :=
  { x with callers := x.callers ++ [⟨caller, n⟩] }

/-- Begins an execution and puts it into the slot. -/
def start (x : TaskPool) (sources : Option (List Source)) : TaskPool :=
  { x with
    executions := x.executions ++ [.start sources x.site]
    slot := some x.executions.length }

/-- Asks for a refresh: joins the execution in the slot, or starts one. -/
def refresh (x : TaskPool) (id : Nat) (sources : Option (List Source)) : TaskPool :=
  match x.busy? with
  | some n => x.await { id } n
  | none => (x.start sources).await { id } x.executions.length

/-- Wants a source added: waits for the execution in the slot, or asks for a refresh. -/
def add (x : TaskPool) (id : Nat) (source : Source) : TaskPool :=
  match x.busy? with
  | some n => x.await { id, adds := some source } n
  | none => x.refresh id (some [source])

/-- An execution goes on for a while. -/
def work (x : TaskPool) (n ms : Nat) : TaskPool :=
  match x.executions[n]? with
  | none => x
  | some e =>
    { x with
      site := (e.left.advance ms x.site).1
      executions := x.executions.set n (e.advance ms x.site) }

/-- Gives a caller its turn.  It goes on if its execution has ended: who wants a source added asks
    for a refresh now, unless the execution broke off; anyone else is answered. -/
def wake (x : TaskPool) (k : Nat) : TaskPool :=
  match x.callers[k]? with
  | none => x
  | some t =>
    match x.ended? t.on, t.caller.adds with
    | none, _ => x
    | some (.ok _), some source =>
      { x with callers := x.callers.eraseIdx k }.refresh t.caller.id (some [source])
    | some outcome, _ =>
      { x with
        callers := x.callers.eraseIdx k
        answers := x.answers ++ [(t.caller.id, outcome)] }

/-- Forgets a caller. -/
def drop (x : TaskPool) (id : Nat) : TaskPool :=
  { x with
    callers := x.callers.filter (·.caller.id ≠ id)
    answers := x.answers.filter (·.1 ≠ id) }

/-- What a step makes of a pool. -/
def perform (x : TaskPool) : Step → TaskPool
  | .refresh id sources => x.refresh id sources
  | .add id source => x.add id source
  | .work n ms => x.work n ms
  | .wake k => x.wake k
  | .drop id => x.drop id

/-- What many steps make of a pool. -/
def play (x : TaskPool) (steps : List Step) : TaskPool := steps.foldl perform x

@[simp] theorem play_nil (x : TaskPool) : x.play [] = x := rfl

@[simp] theorem play_cons (x : TaskPool) (s : Step) (steps : List Step) :
    x.play (s :: steps) = (x.perform s).play steps := rfl

theorem play_append (x : TaskPool) (before after : List Step) :
    x.play (before ++ after) = (x.play before).play after := List.foldl_append

/-- The source for which a caller asks when it is given its turn. -/
def resumes? (x : TaskPool) (t : Ticket) : Option Source :=
  match x.ended? t.on with
  | some (.ok _) => t.caller.adds
  | _ => none

/-- Who asks for a refresh at a step, and of which sources: a caller at once, and one that wants a
    source added when the slot is free, or when its wait is over. -/
def asks (x : TaskPool) : Step → Option (Nat × Option (List Source))
  | .refresh id sources => some (id, sources)
  | .add id source => if x.busy?.isNone then some (id, some [source]) else none
  | .wake k =>
    x.callers[k]?.bind fun t => (x.resumes? t).map fun source => (t.caller.id, some [source])
  | _ => none

variable {x : TaskPool} {n : Nat}

theorem ended?_of_unfinished (h : x.Unfinished n) : x.ended? n = none := by
  obtain ⟨e, he, hended⟩ := h
  rw [ended?, he]
  exact hended

theorem unfinished_iff : x.Unfinished n ↔ n < x.executions.length ∧ x.ended? n = none := by
  constructor
  · intro h
    have hended := ended?_of_unfinished h
    obtain ⟨e, he, -⟩ := h
    obtain ⟨hlt, -⟩ := List.getElem?_eq_some_iff.1 he
    exact ⟨hlt, hended⟩
  · rintro ⟨hlt, hended⟩
    refine ⟨_, List.getElem?_eq_getElem hlt, ?_⟩
    rw [ended?, List.getElem?_eq_getElem hlt] at hended
    exact hended

end TaskPool

/-! ### What a step can do -/

open TaskPool (Step)

/-- All that a step can make of a pool. -/
inductive Change (x : TaskPool) : Step → TaskPool → Prop where
  /-- Someone calls and asks for a refresh at once. -/
  | ask {s : Step} {id : Nat} {sources : Option (List Source)} (hcaller : s.caller? = some id)
      (hasks : x.asks s = some (id, sources)) : Change x s (x.refresh id sources)
  /-- Someone wants a source added and waits for the execution in the slot. -/
  | wait {id n : Nat} {source : Source} (hbusy : x.busy? = some n) :
      Change x (.add id source) (x.await ⟨id, some source⟩ n)
  /-- A wait is over, and the caller asks for its source. -/
  | resume {k n : Nat} {id : Nat} {source : Source} {report : Report}
      (ht : x.callers[k]? = some ⟨⟨id, some source⟩, n⟩) (hended : x.ended? n = some (.ok report)) :
      Change x (.wake k) ({ x with callers := x.callers.eraseIdx k }.refresh id (some [source]))
  /-- A wait is over, and the caller is answered. -/
  | answer {k : Nat} {t : Ticket} {outcome : Outcome} (ht : x.callers[k]? = some t)
      (hended : x.ended? t.on = some outcome)
      (hfinal : t.caller.adds ≠ none → ∃ e, outcome = .error e) :
      Change x (.wake k)
        { x with
          callers := x.callers.eraseIdx k
          answers := x.answers ++ [(t.caller.id, outcome)] }
  /-- An execution goes on. -/
  | onward {n ms : Nat} {e : Execution} (he : x.executions[n]? = some e) :
      Change x (.work n ms)
        { x with
          site := (e.left.advance ms x.site).1
          executions := x.executions.set n (e.advance ms x.site) }
  /-- A caller gives up. -/
  | drop {id : Nat} : Change x (.drop id) (x.drop id)
  /-- There is nothing to do, or the caller waits on. -/
  | rest {s : Step} (hasks : x.asks s = none) : Change x s x

theorem change_wake (x : TaskPool) (k : Nat) : Change x (.wake k) (x.wake k) := by
  unfold TaskPool.wake
  split
  next hnone => exact .rest (by simp [TaskPool.asks, hnone])
  next t ht =>
    obtain ⟨⟨id, adds⟩, n⟩ := t
    split
    next hended => exact .rest (by simp [TaskPool.asks, ht, TaskPool.resumes?, hended])
    next report source hended hadds =>
      obtain rfl : adds = some source := hadds
      exact .resume ht hended
    next outcome hended hfinal =>
      refine .answer ht hended fun hadds => ?_
      -- An outcome that is a report would have let the caller ask.
      obtain ⟨source, rfl⟩ := Option.ne_none_iff_exists'.1 hadds
      cases outcome with
      | error e => exact ⟨e, rfl⟩
      | ok report => exact (hfinal report source rfl rfl).elim

/-- **One step** does nothing else. -/
theorem change_perform (x : TaskPool) (s : Step) : Change x s (x.perform s) := by
  cases s with
  | refresh id sources => exact .ask rfl rfl
  | add id source =>
    show Change x _ (x.add id source)
    unfold TaskPool.add
    split
    next n hbusy => exact .wait hbusy
    next hbusy => exact .ask rfl (by simp [TaskPool.asks, hbusy])
  | work n ms =>
    show Change x _ (x.work n ms)
    unfold TaskPool.work
    split
    next => exact .rest rfl
    next e he => exact .onward he
  | wake k => exact change_wake x k
  | drop id => exact .drop

/-! ### The invariant -/

/-- Executions that come one after the other, the first of them at a given site. -/
structure TaskPool.Ordered (site : Site) (x : TaskPool) : Prop where
  /-- The slot names the last execution. -/
  slot : ∀ n, x.slot = some n ↔ n + 1 = x.executions.length
  /-- No other execution is unfinished. -/
  single : ∀ n, x.Unfinished n → x.slot = some n
  /-- An execution finds what those before it leave. -/
  found : ∀ n e, x.executions[n]? = some e →
    e.found = inTurn site ((x.executions.map (·.sources)).take n)
  /-- An execution that has ended came to what it comes to alone. -/
  own : ∀ e ∈ x.executions, ∀ o, e.ended? = some o → o = e.comesTo
  /-- What is left of the last execution leads where it leads alone. -/
  onward : ∀ e, x.executions.getLast? = some e →
    e.left.Ends x.site (inTurn site (x.executions.map (·.sources))) e.comesTo
  /-- Before the first execution nothing has changed. -/
  untouched : x.executions = [] → x.site = site
  /-- Everyone waits for an execution that was begun. -/
  begun : ∀ t ∈ x.callers, t.on < x.executions.length
  /-- Who came later waits for the same execution or for a later one. -/
  sorted : x.callers.Pairwise (·.on ≤ ·.on)

namespace TaskPool

variable {site : Site} {x : TaskPool}

theorem ordered_opened (site : Site) : (opened site).Ordered site where
  slot n := by simp [opened]
  single n := by
    rintro ⟨e, he, -⟩
    cases he
  found n e he := by cases he
  own e he := absurd he List.not_mem_nil
  onward e he := by cases he
  untouched _ := rfl
  begun t ht := absurd ht List.not_mem_nil
  sorted := List.Pairwise.nil

namespace Ordered

/-- The slot is busy with an execution exactly when that is unfinished. -/
theorem busy?_eq_some_iff (h : x.Ordered site) {n : Nat} : x.busy? = some n ↔ x.Unfinished n := by
  unfold busy?
  rw [Option.filter_eq_some_iff, Option.isNone_iff_eq_none, unfinished_iff]
  constructor
  · rintro ⟨hslot, hended⟩
    have hlast := (h.slot n).1 hslot
    exact ⟨by omega, hended⟩
  · rintro ⟨hlt, hended⟩
    exact ⟨h.single n (unfinished_iff.2 ⟨hlt, hended⟩), hended⟩

theorem busy?_eq_none_iff (h : x.Ordered site) : x.busy? = none ↔ ∀ n, ¬ x.Unfinished n := by
  rw [Option.eq_none_iff_forall_ne_some]
  exact forall_congr' fun n => not_congr h.busy?_eq_some_iff

theorem succ_of_unfinished (h : x.Ordered site) {n : Nat} (hn : x.Unfinished n) :
    n + 1 = x.executions.length :=
  (h.slot n).1 (h.single n hn)

/-- An execution before the last has ended. -/
theorem exists_ended (h : x.Ordered site) {n : Nat} (hn : n + 1 < x.executions.length) :
    ∃ o, x.ended? n = some o := by
  rw [← Option.ne_none_iff_exists']
  intro hended
  have hlast := h.succ_of_unfinished (unfinished_iff.2 ⟨by omega, hended⟩)
  omega

/-- When no execution is unfinished, the site is as they leave it that are run one after the
    other. -/
theorem site_eq (h : x.Ordered site) (hfree : ∀ n, ¬ x.Unfinished n) :
    x.site = inTurn site (x.executions.map (·.sources)) := by
  cases hlast : x.executions.getLast? with
  | none =>
    rw [List.getLast?_eq_none_iff] at hlast
    rw [h.untouched hlast, hlast]
    rfl
  | some e =>
    have hends := h.onward e hlast
    have hended : e.ended? ≠ none := by
      intro hended
      rw [List.getLast?_eq_getElem?] at hlast
      exact hfree _ ⟨e, hlast, hended⟩
    obtain ⟨o, ho⟩ := Option.ne_none_iff_exists'.1 hended
    rw [Job.eq_done_of_value? ho, Job.ends_done] at hends
    exact hends.1.symm

/-- Callers may leave. -/
theorem callers (h : x.Ordered site) {rest : List Ticket} (hrest : rest.Sublist x.callers) :
    { x with callers := rest }.Ordered site :=
  { h with
    begun := fun t ht => h.begun t (hrest.subset ht)
    sorted := h.sorted.sublist hrest }

/-- Another one may wait, for the last execution. -/
theorem await (h : x.Ordered site) {n : Nat} (hn : n + 1 = x.executions.length) (caller : Caller) :
    (x.await caller n).Ordered site :=
  { h with
    begun := by
      intro t ht
      show t.on < x.executions.length
      rcases List.mem_append.1 ht with ht | ht
      · exact h.begun t ht
      · obtain rfl := List.mem_singleton.1 ht
        show n < x.executions.length
        omega
    sorted := by
      refine List.pairwise_append.2 ⟨h.sorted, List.pairwise_singleton _ _, fun t ht t' ht' => ?_⟩
      obtain rfl := List.mem_singleton.1 ht'
      have hlt := h.begun t ht
      show t.on ≤ n
      omega }

end Ordered

/-- A new execution has not ended, and makes no difference to the others. -/
theorem ended?_start (sources : Option (List Source)) (n : Nat) :
    (x.start sources).ended? n = x.ended? n := by
  unfold ended? start
  rw [List.getElem?_append]
  split
  next => rfl
  next hge =>
    rw [List.getElem?_eq_none (Nat.le_of_not_lt hge), List.getElem?_singleton]
    split <;> rfl

theorem unfinished_start_iff (sources : Option (List Source)) {n : Nat} :
    (x.start sources).Unfinished n ↔ x.Unfinished n ∨ n = x.executions.length := by
  simp only [Unfinished, start, List.getElem?_append]
  by_cases hlt : n < x.executions.length
  · simp only [hlt, if_true]
    constructor
    · exact .inl
    · rintro (h | rfl)
      · exact h
      · omega
  · simp only [hlt, if_false]
    constructor
    · rintro ⟨e, he, -⟩
      obtain ⟨hlt', -⟩ := List.getElem?_eq_some_iff.1 he
      simp only [List.length_singleton] at hlt'
      exact .inr (by omega)
    · rintro (⟨e, he, -⟩ | rfl)
      · exact absurd (List.getElem?_eq_some_iff.1 he).1 hlt
      · exact ⟨.start sources x.site, by simp, rfl⟩

/-- Who finds no execution unfinished may start one. -/
theorem Ordered.start (h : x.Ordered site) (hfree : ∀ n, ¬ x.Unfinished n)
    (sources : Option (List Source)) : (x.start sources).Ordered site where
  slot n := by
    show some x.executions.length = some n ↔ n + 1 = (x.executions ++ [_]).length
    rw [Option.some_inj, List.length_append, List.length_singleton]
    omega
  single n hn := by
    rcases (unfinished_start_iff sources).1 hn with hn | rfl
    · exact absurd hn (hfree n)
    · rfl
  found n e he := by
    obtain ⟨hlt, -⟩ := List.getElem?_eq_some_iff.1 he
    simp only [TaskPool.start, List.length_append, List.length_singleton] at he hlt ⊢
    rw [List.map_append, List.take_append_of_le_length (by rw [List.length_map]; omega)]
    rw [List.getElem?_append] at he
    split at he
    next => exact h.found n e he
    next hge =>
      -- The new one finds the site as it is, and the others have left it so.
      obtain rfl : n = x.executions.length := by omega
      rw [Nat.sub_self] at he
      obtain rfl := Option.some.inj he
      rw [List.take_of_length_le (Nat.le_of_eq (List.length_map _))]
      exact h.site_eq hfree
  own e he o ho := by
    rcases List.mem_append.1 he with he | he
    · exact h.own e he o ho
    · obtain rfl := List.mem_singleton.1 he
      cases ho
  onward e he := by
    simp only [TaskPool.start, List.getLast?_concat] at he ⊢
    obtain rfl := Option.some.inj he
    rw [List.map_append, List.map_singleton, inTurn_snoc, ← h.site_eq hfree]
    exact Job.exists_ends (Index.refresh sources) x.site
  untouched hnil := absurd hnil (List.append_ne_nil_of_right_ne_nil _ (List.cons_ne_nil _ _))
  begun t ht := by
    have hlt := h.begun t ht
    simp only [TaskPool.start, List.length_append]
    omega
  sorted := h.sorted

theorem Ordered.refresh (h : x.Ordered site) (id : Nat) (sources : Option (List Source)) :
    (x.refresh id sources).Ordered site := by
  unfold TaskPool.refresh
  split
  next n hbusy =>
    exact h.await (h.succ_of_unfinished (h.busy?_eq_some_iff.1 hbusy)) _
  next hbusy =>
    refine (h.start (h.busy?_eq_none_iff.1 hbusy) sources).await ?_ _
    simp [TaskPool.start]

/-! ### An execution goes on -/

section Onward

variable {n : Nat} {e : Execution} (he : x.executions[n]? = some e) (ms : Nat)
include he

theorem work_eq : x.work n ms =
    { x with
      site := (e.left.advance ms x.site).1
      executions := x.executions.set n (e.advance ms x.site) } := by
  unfold work
  rw [he]

/-- An execution that has ended is not changed by the time that it is given. -/
theorem work_of_ended {o : Outcome} (ho : e.ended? = some o) : x.work n ms = x := by
  have hsame : e.advance ms x.site = e := by
    rw [Execution.advance, Execution.advance_of_ended ho]
  have hset : x.executions.set n e = x.executions := by
    obtain ⟨hlt, rfl⟩ := List.getElem?_eq_some_iff.1 he
    exact List.set_getElem_self hlt
  rw [work_eq he, hsame, Execution.advance_of_ended ho, hset]

theorem getElem?_work (m : Nat) : (x.work n ms).executions[m]? =
    if m = n then some (e.advance ms x.site) else x.executions[m]? := by
  obtain ⟨hlt, -⟩ := List.getElem?_eq_some_iff.1 he
  rw [work_eq he, List.getElem?_set]
  by_cases hmn : n = m
  · subst hmn
    simp [hlt]
  · simp [hmn, Ne.symm hmn]

theorem length_work : (x.work n ms).executions.length = x.executions.length := by
  rw [work_eq he, List.length_set]

/-- Time changes what is left of an execution, not what it was begun with. -/
theorem sources_work :
    (x.work n ms).executions.map (·.sources) = x.executions.map (·.sources) := by
  apply List.ext_getElem?
  intro m
  rw [List.getElem?_map, List.getElem?_map, getElem?_work he]
  split
  next hmn =>
    rw [hmn, he]
    rfl
  next => rfl

end Onward

/-- Nor does time change anything that is given to one that was not begun. -/
theorem work_of_finished {x : TaskPool} {n : Nat} (h : ¬ x.Unfinished n) (ms : Nat) :
    x.work n ms = x := by
  cases he : x.executions[n]? with
  | none =>
    unfold work
    rw [he]
  | some e =>
    have hended : e.ended? ≠ none := fun hended => h ⟨e, he, hended⟩
    obtain ⟨o, ho⟩ := Option.ne_none_iff_exists'.1 hended
    exact work_of_ended he ms ho

/-- What has ended stays as it is. -/
theorem ended?_work {x : TaskPool} {m : Nat} {o : Outcome} (hm : x.ended? m = some o) (n ms : Nat) :
    (x.work n ms).ended? m = some o := by
  obtain ⟨e, he, ho⟩ := Option.bind_eq_some_iff.1 hm
  by_cases hmn : m = n
  · subst hmn
    rw [work_of_ended he ms ho]
    exact hm
  · cases hn : x.executions[n]? with
    | none =>
      unfold work
      rw [hn]
      exact hm
    | some e' =>
      rw [ended?, getElem?_work hn, if_neg hmn]
      exact hm

theorem Ordered.work (h : x.Ordered site) (n ms : Nat) : (x.work n ms).Ordered site := by
  by_cases hn : x.Unfinished n
  swap
  · rw [work_of_finished hn]
    exact h
  -- Only the last execution has something left to do.
  have hlast := h.succ_of_unfinished hn
  obtain ⟨e, he, hended⟩ := hn
  have hgetLast : x.executions.getLast? = some e := by
    rw [List.getLast?_eq_getElem?, ← hlast]
    exact he
  have hends : (e.advance ms x.site).left.Ends (x.work n ms).site
      (inTurn site (x.executions.map (·.sources))) e.comesTo := by
    rw [work_eq he]
    exact (Job.ends_advance e.left ms x.site _ _).2 (h.onward e hgetLast)
  have hrest : (x.work n ms).slot = x.slot ∧ (x.work n ms).callers = x.callers := by
    rw [work_eq he]
    exact ⟨rfl, rfl⟩
  constructor
  case slot =>
    rw [hrest.1, length_work he]
    exact h.slot
  case single =>
    rintro m ⟨e', he', hended'⟩
    rw [getElem?_work he] at he'
    rw [hrest.1]
    split at he'
    next hmn =>
      rw [hmn]
      exact h.single n ⟨e, he, hended⟩
    next => exact h.single m ⟨e', he', hended'⟩
  case found =>
    intro m e' he'
    rw [sources_work he]
    rw [getElem?_work he] at he'
    split at he'
    next hmn =>
      obtain rfl := Option.some.inj he'
      rw [hmn]
      exact h.found n e he
    next => exact h.found m e' he'
  case own =>
    intro e' hmem o ho
    obtain ⟨m, he'⟩ := List.mem_iff_getElem?.1 hmem
    rw [getElem?_work he] at he'
    split at he'
    next =>
      obtain rfl := Option.some.inj he'
      rw [Job.eq_done_of_value? ho, Job.ends_done] at hends
      exact hends.2.symm
    next => exact h.own e' (List.mem_of_getElem? he') o ho
  case onward =>
    intro e' he'
    rw [List.getLast?_eq_getElem?, length_work he, ← hlast, Nat.add_sub_cancel, getElem?_work he,
      if_pos rfl] at he'
    obtain rfl := Option.some.inj he'
    rw [sources_work he]
    exact hends
  case untouched =>
    intro hnil
    have hlength := length_work he ms
    rw [hnil, List.length_nil] at hlength
    omega
  case begun =>
    rw [hrest.2, length_work he]
    exact h.begun
  case sorted =>
    rw [hrest.2]
    exact h.sorted

/-- **One step** keeps the executions one after the other. -/
theorem Ordered.perform (h : x.Ordered site) (s : Step) : (x.perform s).Ordered site := by
  have hchange := change_perform x s
  generalize x.perform s = y at hchange
  cases hchange with
  | ask hcaller hasks => exact h.refresh _ _
  | wait hbusy => exact h.await (h.succ_of_unfinished (h.busy?_eq_some_iff.1 hbusy)) _
  | resume ht hended => exact (h.callers (List.eraseIdx_sublist _ _)).refresh _ _
  | @answer k t outcome ht hended hfinal =>
    have hrest := h.callers (List.eraseIdx_sublist x.callers k)
    exact { hrest with }
  | @onward n ms e he =>
    rw [← work_eq he]
    exact h.work n ms
  | @drop id =>
    have hrest := h.callers (List.filter_sublist (p := fun t => t.caller.id ≠ id))
    exact { hrest with }
  | rest => exact h

theorem Ordered.play (h : x.Ordered site) (steps : List Step) : (x.play steps).Ordered site := by
  induction steps generalizing x with
  | nil => exact h
  | cons s steps ih => exact ih (h.perform s)

/-! ### Whom a caller waits for -/

/-- Everyone who has called and was not forgotten: those that have not gone on, and those that were
    answered. -/
def ids (x : TaskPool) : List Nat := x.callers.map (·.caller.id) ++ x.answers.map (·.1)

/-- A caller has asked: it waits for one execution only, and whatever it is answered is how that one
    has ended. -/
structure Serves (x : TaskPool) (id n : Nat) : Prop where
  callers : ∀ t ∈ x.callers, t.caller.id = id → t.caller.adds = none ∧ t.on = n
  answers : ∀ a ∈ x.answers, a.1 = id → x.ended? n = some a.2

/-- A caller that has asked waits for an execution, or was answered. -/
def Holds (x : TaskPool) (id n : Nat) : Prop :=
  ⟨⟨id, none⟩, n⟩ ∈ x.callers ∨ ∃ o, (id, o) ∈ x.answers

theorem ids_await (x : TaskPool) (caller : Caller) (n : Nat) :
    (x.await caller n).ids.Perm (caller.id :: x.ids) := by
  unfold ids await
  rw [List.map_append, List.append_assoc]
  exact List.perm_middle

theorem ids_refresh (x : TaskPool) (id : Nat) (sources : Option (List Source)) :
    (x.refresh id sources).ids.Perm (id :: x.ids) := by
  unfold refresh
  split
  next n hbusy => exact ids_await x { id } n
  next => exact ids_await (x.start sources) { id } _

/-- One caller less. -/
theorem ids_eraseIdx {k : Nat} {t : Ticket} (ht : x.callers[k]? = some t) :
    (t.caller.id :: { x with callers := x.callers.eraseIdx k }.ids).Perm x.ids := by
  obtain ⟨hlt, rfl⟩ := List.getElem?_eq_some_iff.1 ht
  exact ((List.getElem_cons_eraseIdx_perm hlt).map (·.caller.id)).append_right _

/-- Nobody is there who has not called, and nobody twice who has called once. -/
theorem ids_perform (x : TaskPool) (s : Step) :
    (x.perform s).ids.Subperm (s.caller?.toList ++ x.ids) := by
  have hchange := change_perform x s
  generalize x.perform s = y at hchange
  cases hchange with
  | ask hcaller hasks =>
    rw [hcaller]
    exact (ids_refresh x _ _).subperm
  | wait hbusy => exact (ids_await x _ _).subperm
  | resume ht hended => exact ((ids_refresh _ _ _).trans (ids_eraseIdx ht)).subperm
  | answer ht hended hfinal =>
    refine (List.Perm.trans ?_ (ids_eraseIdx ht)).subperm
    unfold ids
    rw [List.map_append, ← List.append_assoc]
    exact List.perm_append_comm
  | onward he => exact List.Subperm.refl _
  | drop =>
    apply List.Sublist.subperm
    exact (List.filter_sublist.map _).append (List.filter_sublist.map _)
  | rest => exact (List.sublist_append_right _ _).subperm

theorem filterMap_caller?_cons (s : Step) (steps : List Step) :
    (s :: steps).filterMap Step.caller? = s.caller?.toList ++ steps.filterMap Step.caller? := by
  cases hs : s.caller? <;> simp [hs]

theorem ids_play (x : TaskPool) (steps : List Step) :
    (x.play steps).ids.Subperm (steps.filterMap Step.caller? ++ x.ids) := by
  induction steps generalizing x with
  | nil => exact List.Subperm.refl _
  | cons s steps ih =>
    rw [filterMap_caller?_cons, List.append_assoc]
    refine (ih (x.perform s)).trans ?_
    refine ((List.subperm_append_left _).2 (ids_perform x s)).trans ?_
    rw [← List.append_assoc, ← List.append_assoc]
    exact (List.perm_append_comm.append_right _).subperm

/-- Who asks for a refresh is not waiting any more, if it was before. -/
theorem exists_refresh_of_asks {s : Step} {id : Nat} {sources : Option (List Source)}
    (h : x.asks s = some (id, sources)) :
    ∃ rest, rest.Sublist x.callers ∧
      x.perform s = { x with callers := rest }.refresh id sources ∧
      (id :: { x with callers := rest }.ids).Perm (s.caller?.toList ++ x.ids) := by
  have hchange := change_perform x s
  generalize x.perform s = y at hchange
  cases hchange with
  | ask hcaller hasks =>
    obtain ⟨rfl, rfl⟩ := Prod.mk.inj (Option.some.inj (h.symm.trans hasks))
    refine ⟨x.callers, List.Sublist.refl _, rfl, ?_⟩
    rw [hcaller]
    exact List.Perm.refl _
  | wait hbusy => simp [asks, hbusy] at h
  | @resume k n id' source report ht hended =>
    have hasks : x.asks (.wake k) = some (id', some [source]) := by
      simp [asks, ht, resumes?, hended]
    obtain ⟨rfl, rfl⟩ := Prod.mk.inj (Option.some.inj (h.symm.trans hasks))
    exact ⟨_, List.eraseIdx_sublist _ _, rfl, ids_eraseIdx ht⟩
  | @answer k t outcome ht hended hfinal =>
    obtain ⟨⟨id', adds⟩, n⟩ := t
    have hasks : x.asks (.wake k) = none := by
      cases adds with
      | none => cases outcome <;> simp [asks, ht, resumes?, hended]
      | some source =>
        obtain ⟨e, rfl⟩ := hfinal (Option.some_ne_none source)
        simp [asks, ht, resumes?, hended]
    rw [hasks] at h
    cases h
  | onward he => cases h
  | drop => cases h
  | rest hasks =>
    rw [hasks] at h
    cases h

/-- Someone else asks. -/
theorem Serves.refresh {id n : Nat} (h : x.Serves id n) {id' : Nat} (hne : id' ≠ id)
    (sources : Option (List Source)) : (x.refresh id' sources).Serves id n := by
  have hawait : ∀ {y : TaskPool} (m : Nat), y.Serves id n →
      (y.await { id := id' } m).Serves id n := by
    refine fun m hy => ⟨fun t ht hid => ?_, hy.answers⟩
    rcases List.mem_append.1 ht with ht | ht
    · exact hy.callers t ht hid
    · obtain rfl := List.mem_singleton.1 ht
      exact absurd hid hne
  unfold TaskPool.refresh
  split
  next m hbusy => exact hawait m h
  next =>
    refine hawait _ ⟨h.callers, fun a ha hid => ?_⟩
    rw [ended?_start]
    exact h.answers a ha hid

/-- **A caller that has asked** is served whatever happens. -/
theorem Serves.perform {id n : Nat} (h : x.Serves id n) {s : Step} (hs : s.caller? ≠ some id) :
    (x.perform s).Serves id n := by
  have hchange := change_perform x s
  generalize x.perform s = y at hchange
  cases hchange with
  | ask hcaller hasks => exact h.refresh (fun heq => hs (heq ▸ hcaller)) _
  | wait hbusy =>
    refine ⟨fun t ht hid => ?_, h.answers⟩
    rcases List.mem_append.1 ht with ht | ht
    · exact h.callers t ht hid
    · obtain rfl := List.mem_singleton.1 ht
      exact absurd (congrArg some hid) hs
  | @resume k m id' source report ht hended =>
    -- Who has asked does not ask again.
    have hne : id' ≠ id := by
      intro heq
      have hadds := (h.callers _ (List.mem_of_getElem? ht) heq).1
      cases hadds
    have hrest : Serves { x with callers := x.callers.eraseIdx k } id n :=
      ⟨fun t ht => h.callers t (List.mem_of_mem_eraseIdx ht), h.answers⟩
    exact hrest.refresh hne _
  | answer ht hended hfinal =>
    refine ⟨fun t ht => h.callers t (List.mem_of_mem_eraseIdx ht), fun a ha hid => ?_⟩
    rcases List.mem_append.1 ha with ha | ha
    · exact h.answers a ha hid
    · obtain rfl := List.mem_singleton.1 ha
      obtain ⟨-, rfl⟩ := h.callers _ (List.mem_of_getElem? ht) hid
      exact hended
  | @onward m ms e he =>
    rw [← work_eq he]
    refine ⟨?_, fun a ha hid => ended?_work ?_ m ms⟩
    · rw [work_eq he]
      exact h.callers
    · rw [work_eq he] at ha
      exact h.answers a ha hid
  | drop =>
    exact ⟨fun t ht => h.callers t (List.mem_filter.1 ht).1,
      fun a ha => h.answers a (List.mem_filter.1 ha).1⟩
  | rest => exact h

theorem Serves.play {id n : Nat} (h : x.Serves id n) {steps : List Step}
    (hsteps : ∀ s ∈ steps, s.caller? ≠ some id) : (x.play steps).Serves id n := by
  induction steps generalizing x with
  | nil => exact h
  | cons s steps ih =>
    rw [List.forall_mem_cons] at hsteps
    exact ih (h.perform hsteps.1) hsteps.2

theorem Holds.refresh {id n : Nat} (h : x.Holds id n) (id' : Nat) (sources : Option (List Source)) :
    (x.refresh id' sources).Holds id n := by
  unfold TaskPool.refresh
  split <;> exact h.imp_left fun hmem => List.mem_append_left _ hmem

/-- Unless it gives up, a caller that has asked waits on or is answered. -/
theorem Holds.perform {id n : Nat} (h : x.Holds id n) {s : Step} (hs : s ≠ .drop id) :
    (x.perform s).Holds id n := by
  have herase : ∀ {k : Nat} {t : Ticket}, x.callers[k]? = some t → t ≠ ⟨⟨id, none⟩, n⟩ →
      ⟨⟨id, none⟩, n⟩ ∈ x.callers → ⟨⟨id, none⟩, n⟩ ∈ x.callers.eraseIdx k := by
    intro k t ht hne hmem
    obtain ⟨j, hj⟩ := List.mem_iff_getElem?.1 hmem
    refine List.mem_eraseIdx_iff_getElem?.2 ⟨j, fun hjk => hne ?_, hj⟩
    rw [← hjk, hj] at ht
    exact (Option.some.inj ht).symm
  have hchange := change_perform x s
  generalize x.perform s = y at hchange
  cases hchange with
  | ask hcaller hasks => exact h.refresh _ _
  | wait hbusy => exact h.imp_left fun hmem => List.mem_append_left _ hmem
  | @resume k m id' source report ht hended =>
    have hrest : Holds { x with callers := x.callers.eraseIdx k } id n :=
      h.imp_left (herase ht fun heq => by cases heq)
    exact hrest.refresh _ _
  | @answer k t outcome ht hended hfinal =>
    by_cases heq : t = ⟨⟨id, none⟩, n⟩
    · exact .inr ⟨outcome, List.mem_append_right _ (by simp [heq])⟩
    · refine h.imp (herase ht heq) ?_
      rintro ⟨o, ho⟩
      exact ⟨o, List.mem_append_left _ ho⟩
  | onward he => exact h
  | @drop id' =>
    have hne : id ≠ id' := fun heq => hs (heq ▸ rfl)
    refine h.imp (fun hmem => List.mem_filter.2 ⟨hmem, by simpa using hne⟩) ?_
    rintro ⟨o, ho⟩
    exact ⟨o, List.mem_filter.2 ⟨ho, by simpa using hne⟩⟩
  | rest => exact h

theorem Holds.play {id n : Nat} (h : x.Holds id n) {steps : List Step}
    (hsteps : .drop id ∉ steps) : (x.play steps).Holds id n := by
  induction steps generalizing x with
  | nil => exact h
  | cons s steps ih =>
    rw [List.mem_cons, not_or] at hsteps
    exact ih (h.perform (Ne.symm hsteps.1)) hsteps.2

/-- Who waits for an execution is answered with what that comes to, when it has had its time and the
    caller its turn. -/
theorem Ordered.exists_answer (h : x.Ordered site) {k id n : Nat}
    (hk : x.callers[k]? = some ⟨⟨id, none⟩, n⟩) :
    ∃ e ms, x.executions[n]? = some e ∧
      (id, e.comesTo) ∈ (x.play [.work n ms, .wake k]).answers := by
  have hlt := h.begun _ (List.mem_of_getElem? hk)
  obtain ⟨e, he⟩ : ∃ e, x.executions[n]? = some e := ⟨_, List.getElem?_eq_getElem hlt⟩
  refine ⟨e, (e.left.run x.site).2.2, he, ?_⟩
  have hadvance := Job.advance_run e.left x.site
  generalize (e.left.run x.site).2.2 = ms at hadvance ⊢
  have hended : (e.advance ms x.site).ended? = some (e.left.run x.site).2.1 := by
    rw [Execution.ended?, Execution.advance, hadvance]
    rfl
  have hget : (x.work n ms).executions[n]? = some (e.advance ms x.site) := by
    rw [getElem?_work he, if_pos rfl]
  -- The execution has ended as it would have ended alone.
  have hown := (h.work n ms).own _ (List.mem_of_getElem? hget) _ hended
  have hendedn : (x.work n ms).ended? n = some e.comesTo := by
    rw [ended?, hget]
    exact hended.trans (congrArg some hown)
  have hcaller : (x.work n ms).callers[k]? = some ⟨⟨id, none⟩, n⟩ := by
    rw [work_eq he]
    exact hk
  show (id, e.comesTo) ∈ ((x.work n ms).wake k).answers
  unfold wake
  rw [hcaller]
  dsimp only
  rw [hendedn]
  cases e.comesTo <;> exact List.mem_append_right _ (List.mem_singleton.2 rfl)

end TaskPool

end LuaAudit.Index
