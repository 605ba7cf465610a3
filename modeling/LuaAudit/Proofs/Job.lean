import LuaAudit.Job

/-!
# How jobs end

A job that is run to its end leaves a state and a value.  What each way to build a job comes to is
said once here, so that a job is taken apart from its end backwards.

* `Job.Ends`: where a job leads, and with what value;
* `ends_bind`, `ends_act`, …: one equivalence for each way to build a job;
* `ends_zoom`: a job on a part of the state leaves the rest alone;
* `Ends.of_within`: a job that ends before its deadline ends as it would without one;
* `ends_advance`: so does one that is left for a while;
* `Job.Keeps`: what every step of a job preserves, so that it holds wherever the job is left.
-/

namespace LuaAudit.Job

variable {σ τ α β : Type}

/-- A job that starts in a state ends in another, with a value. -/
def Ends (job : Job σ α) (s s' : σ) (a : α) : Prop := ∃ time, job.run s = (s', a, time)

theorem exists_ends (job : Job σ α) (s : σ) : job.Ends s (job.run s).1 (job.run s).2.1 :=
  ⟨_, rfl⟩

theorem Ends.eq {job : Job σ α} {s s' : σ} {a : α} (h : job.Ends s s' a) :
    (job.run s).1 = s' ∧ (job.run s).2.1 = a := by
  obtain ⟨time, h⟩ := h
  simp [h]

@[simp] theorem ends_done {a b : α} {s s' : σ} : (Job.done a).Ends s s' b ↔ s' = s ∧ b = a := by
  simp [Ends, run, eq_comm]

@[simp] theorem ends_pure {a b : α} {s s' : σ} :
    (pure a : Job σ α).Ends s s' b ↔ s' = s ∧ b = a :=
  ends_done

@[simp] theorem ends_step {update : σ → σ} {next : σ → Job σ α} {s s' : σ} {a : α} :
    (Job.step update next).Ends s s' a ↔ (next s).Ends (update s) s' a :=
  Iff.rfl

@[simp] theorem ends_wait {ms : Nat} {next : Job σ α} {s s' : σ} {a : α} :
    (Job.wait ms next).Ends s s' a ↔ next.Ends s s' a := by
  simp [Ends, run, Prod.ext_iff]

@[simp] theorem ends_bind {job : Job σ α} {f : α → Job σ β} {s s'' : σ} {b : β} :
    (job >>= f).Ends s s'' b ↔ ∃ s' a, job.Ends s s' a ∧ (f a).Ends s' s'' b := by
  show (job.bind f).Ends s s'' b ↔ _
  induction job generalizing s with
  | done a =>
    constructor
    · exact fun h => ⟨s, a, ends_done.2 ⟨rfl, rfl⟩, h⟩
    · rintro ⟨s', a', hdone, h⟩
      obtain ⟨rfl, rfl⟩ := ends_done.1 hdone
      exact h
  | step update next ih => exact ih s
  | wait ms next ih => simpa [bind] using ih

@[simp] theorem ends_ask {f : σ → α} {s s' : σ} {a : α} :
    (Job.ask f).Ends s s' a ↔ s' = s ∧ a = f s := by
  simp [ask]

@[simp] theorem ends_act {f : σ → σ × α} {s s' : σ} {a : α} :
    (Job.act f).Ends s s' a ↔ (s', a) = f s := by
  simp [act, Prod.ext_iff]

@[simp] theorem ends_change {f : σ → σ} {s s' : σ} {a : Unit} :
    (Job.change f).Ends s s' a ↔ s' = f s := by
  simp [change]

@[simp] theorem ends_consult {f : σ → Job σ α} {s s' : σ} {a : α} :
    (Job.consult f).Ends s s' a ↔ (f s).Ends s s' a :=
  Iff.rfl

@[simp] theorem ends_sleep {ms : Nat} {s s' : σ} {a : Unit} :
    (Job.sleep ms).Ends s s' a ↔ s' = s := by
  unfold sleep
  split <;> simp

/-- A job on a part of the state changes that part and leaves the rest alone. -/
theorem ends_zoom {get : τ → σ} {put : σ → τ → τ} (hget : ∀ s t, get (put s t) = s)
    (hput : ∀ s s' t, put s' (put s t) = put s' t) (hsame : ∀ t, put (get t) t = t)
    (job : Job σ α) (t t' : τ) (a : α) :
    (job.zoom get put).Ends t t' a ↔ ∃ s', job.Ends (get t) s' a ∧ t' = put s' t := by
  induction job generalizing t with
  | done b =>
    simp only [zoom, ends_done]
    constructor
    · rintro ⟨rfl, rfl⟩
      exact ⟨get t', ⟨rfl, rfl⟩, (hsame t').symm⟩
    · rintro ⟨s', ⟨rfl, rfl⟩, rfl⟩
      exact ⟨hsame t, rfl⟩
  | step update next ih => simp [zoom, ih, hget, hput]
  | wait ms next ih => simp [zoom, ih]

/-- A job that ends before its deadline ends as it would without one. -/
theorem Ends.of_within {job : Job σ α} {limit : Nat} {s s' : σ} {a : α}
    (h : (job.within limit).Ends s s' (some a)) : job.Ends s s' a := by
  induction job generalizing limit s with
  | done b => simpa [within] using h
  | step update next ih => exact ih s h
  | wait ms next ih =>
    rw [within] at h
    split at h
    · rw [ends_wait] at h ⊢
      exact ih h
    · -- the deadline comes first, and then there is no value
      obtain ⟨_, _, -, hlast⟩ := ends_bind.1 h
      cases (ends_done.1 hlast).2

theorem Ends.of_withinLimit {job : Job σ α} {limit : Option Nat} {s s' : σ} {a : α}
    (h : (job.withinLimit limit).Ends s s' (some a)) : job.Ends s s' a := by
  cases limit with
  | some limit => exact h.of_within
  | none =>
    obtain ⟨_, _, hjob, hlast⟩ := ends_bind.1 h
    obtain ⟨rfl, hvalue⟩ := ends_done.1 hlast
    cases hvalue
    exact hjob

/-- A job that is left for a while ends as it would have ended. -/
theorem ends_advance (job : Job σ α) (ms : Nat) (s s' : σ) (a : α) :
    (job.advance ms s).2.1.Ends (job.advance ms s).1 s' a ↔ job.Ends s s' a := by
  induction job generalizing ms s with
  | done b => rfl
  | step update next ih => exact ih s ms (update s)
  | wait pause next ih =>
    rw [advance, ends_wait]
    split
    · exact ih _ s
    · exact ends_wait

/-- A job that is given the time it takes is done then. -/
theorem advance_run (job : Job σ α) (s : σ) :
    job.advance (job.run s).2.2 s = ((job.run s).1, .done (job.run s).2.1, 0) := by
  induction job generalizing s with
  | done a => rfl
  | step update next ih => exact ih s (update s)
  | wait ms next ih =>
    show (Job.wait ms next).advance (ms + (next.run s).2.2) s = _
    rw [advance, if_pos (Nat.le_add_right _ _), Nat.add_sub_cancel_left]
    exact ih s

theorem eq_done_of_value? {job : Job σ α} {a : α} (h : job.value? = some a) : job = .done a := by
  cases job with
  | done b => rw [Option.some.inj h]
  | step | wait => cases h

/-- The run of a job goes on with the run of what follows. -/
theorem run_bind_of_run {job : Job σ α} {f : α → Job σ β} {s s' : σ} {a : α} {time : Nat}
    (h : job.run s = (s', a, time)) :
    (job >>= f).run s = (((f a).run s').1, ((f a).run s').2.1, time + ((f a).run s').2.2) := by
  show (job.bind f).run s = _
  rw [run_bind, h]

/-! ### What every step keeps -/

/-- Every step of a job keeps a property of the state. -/
def Keeps (I : σ → Prop) : Job σ α → Prop
  | .done _ => True
  | .step update next => ∀ s, I s → I (update s) ∧ (next s).Keeps I
  | .wait _ next => next.Keeps I

variable {I : σ → Prop}

/-- So does the whole job. -/
theorem Keeps.ends {job : Job σ α} (h : job.Keeps I) {s s' : σ} {a : α} (hs : I s)
    (hends : job.Ends s s' a) : I s' := by
  induction job generalizing s with
  | done b =>
    obtain ⟨rfl, -⟩ := ends_done.1 hends
    exact hs
  | step update next ih => exact ih s (h s hs).2 (h s hs).1 hends
  | wait ms next ih => exact ih h hs (ends_wait.1 hends)

theorem keeps_pure (a : α) : (pure a : Job σ α).Keeps I := trivial

theorem keeps_bind {job : Job σ α} {f : α → Job σ β} (h : job.Keeps I)
    (hf : ∀ a, (f a).Keeps I) : (job >>= f).Keeps I := by
  show (job.bind f).Keeps I
  induction job with
  | done a => exact hf a
  | step update next ih => exact fun s hs => ⟨(h s hs).1, ih s (h s hs).2⟩
  | wait ms next ih => exact ih h

theorem keeps_ask (f : σ → α) : (Job.ask f).Keeps I := fun _ hs => ⟨hs, trivial⟩

theorem keeps_act {f : σ → σ × α} (h : ∀ s, I s → I (f s).1) : (Job.act f).Keeps I := fun s hs =>
  ⟨h s hs, trivial⟩

theorem keeps_change {f : σ → σ} (h : ∀ s, I s → I (f s)) : (Job.change f).Keeps I := fun s hs =>
  ⟨h s hs, trivial⟩

theorem keeps_consult {f : σ → Job σ α} (h : ∀ s, (f s).Keeps I) : (Job.consult f).Keeps I :=
  fun s hs => ⟨hs, h s⟩

theorem keeps_sleep (ms : Nat) : (Job.sleep ms : Job σ Unit).Keeps I := by
  unfold sleep
  split <;> trivial

theorem Keeps.and {J : σ → Prop} {job : Job σ α} (h : job.Keeps I) (h' : job.Keeps J) :
    job.Keeps fun s => I s ∧ J s := by
  induction job with
  | done a => trivial
  | step update next ih =>
    exact fun s hs => ⟨⟨(h s hs.1).1, (h' s hs.2).1⟩, ih s (h s hs.1).2 (h' s hs.2).2⟩
  | wait ms next ih => exact ih h h'

/-- A job that is given up keeps what it keeps when it is not. -/
theorem Keeps.within {job : Job σ α} (h : job.Keeps I) (limit : Nat) :
    (job.within limit).Keeps I := by
  induction job generalizing limit with
  | done a => trivial
  | step update next ih => exact fun s hs => ⟨(h s hs).1, ih s (h s hs).2 limit⟩
  | wait ms next ih =>
    rw [Job.within]
    split
    · exact ih h _
    · exact keeps_bind (keeps_sleep limit) fun _ => keeps_pure none

theorem Keeps.withinLimit {job : Job σ α} (h : job.Keeps I) (limit : Option Nat) :
    (job.withinLimit limit).Keeps I := by
  cases limit with
  | some limit => exact h.within limit
  | none => exact keeps_bind h fun a => keeps_pure (some a)

/-- A job on a part of the state keeps what it keeps of the part. -/
theorem Keeps.zoom {job : Job σ α} (h : job.Keeps I) {get : τ → σ} {put : σ → τ → τ}
    (hget : ∀ s t, get (put s t) = s) : (job.zoom get put).Keeps fun t => I (get t) := by
  induction job with
  | done a => trivial
  | step update next ih =>
    refine fun t ht => ⟨?_, ih _ (h _ ht).2⟩
    show I (get (put (update (get t)) t))
    rw [hget]
    exact (h _ ht).1
  | wait ms next ih => exact ih h

/-- A job on a part of the state keeps what does not depend on the part. -/
theorem keeps_zoom {I : τ → Prop} {get : τ → σ} {put : σ → τ → τ} (h : ∀ s t, I t → I (put s t))
    (job : Job σ α) : (job.zoom get put).Keeps I := by
  induction job with
  | done a => trivial
  | step update next ih => exact fun t ht => ⟨h _ t ht, ih _⟩
  | wait ms next ih => exact ih

/-- A job that is left for a while has kept what it keeps, and goes on keeping it. -/
theorem Keeps.advance {job : Job σ α} (h : job.Keeps I) {s : σ} (hs : I s) (ms : Nat) :
    I (job.advance ms s).1 ∧ (job.advance ms s).2.1.Keeps I := by
  induction job generalizing s ms with
  | done a => exact ⟨hs, h⟩
  | step update next ih => exact ih s (h s hs).2 (h s hs).1 ms
  | wait pause next ih =>
    rw [Job.advance]
    split
    · exact ih h hs _
    · exact ⟨hs, h⟩

end LuaAudit.Job
