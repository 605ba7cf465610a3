import LuaAudit.Proofs.Fetch.Honest
import Mathlib.Algebra.Field.Rat
import Mathlib.Algebra.Order.Ring.Int
import Mathlib.Tactic.Ring

/-!
# Attempts and the rests between them

A fetch makes attempts until one needs no other, as long as the settings allow.  It rests before
every attempt but the first, each time twice as long as the time before, and the last attempt
decides.

* `tries`: attempts with given rests between them;
* `Persists`: a fetch that makes a number of retries, none of them without need;
* `retry_steps`: what the loop does, from any attempt on;
* `backs_off`: every fetch with retries does so, whatever comes of the attempts.
-/

namespace LuaAudit.Fetch

/-! ### Outcomes -/

/-- What an outcome says that another attempt may mend: the status of a failing server, what broke
    on the way, or the time that ran out. -/
def Outcome.complaint? : Outcome → Option String
  | .page p => if 500 ≤ p.status then some ("HTTP " ++ toString p.status) else none
  | .transport message => some message
  | .late limit => some ("timed out after " ++ limit.text ++ "s")
  | .failed _ => none

/-- What the last outcome makes of a fetch: its page, its own failure, or a failure that names
    it. -/
inductive Verdict (source : String) : Outcome → Except FetchError Page → Prop where
  | page {p : Page} (hstatus : p.status < 500) : Verdict source (.page p) (.ok p)
  | failed {cause : FetchError} : Verdict source (.failed cause) (.error cause)
  | exhausted {o : Outcome} {text : String} {last : Setback} (hcomplaint : o.complaint? = some text)
      (hmessage : (FetchError.exhausted source last).message = source ++ ": " ++ text) :
      Verdict source o (.error (.exhausted source last))

theorem Outcome.map_message_setback? (o : Outcome) :
    o.setback?.map Setback.message = o.complaint? := by
  cases o with
  | page p =>
    simp only [setback?, complaint?]
    split <;> rfl
  | transport | late | failed => rfl

theorem Outcome.isSome_setback? (o : Outcome) : o.setback?.isSome = o.complaint?.isSome := by
  rw [← o.map_message_setback?, Option.isSome_map]

theorem verdict_settle (source : String) (o : Outcome) : Verdict source o (o.settle source) := by
  cases o with
  | page p =>
    rw [Outcome.settle]
    split
    next hstatus => exact .exhausted (if_pos hstatus) rfl
    next hstatus => exact .page (Nat.lt_of_not_le hstatus)
  | transport message => exact .exhausted rfl rfl
  | late limit => exact .exhausted rfl rfl
  | failed cause => exact .failed

/-! ### Pauses -/

/-- The first `k` pauses, from a base. -/
def pauses (base : Rat) (k : Nat) : List Rat := (List.range k).map fun i => base * 2 ^ i

theorem pauses_succ (base : Rat) (k : Nat) : pauses base (k + 1) = base :: pauses (base * 2) k := by
  rw [pauses, List.range_succ_eq_map, List.map_cons, List.map_map, pow_zero, mul_one]
  congr 1
  refine List.map_congr_left fun i _ => ?_
  show base * 2 ^ (i + 1) = base * 2 * 2 ^ i
  ring

theorem sum_pauses (base : Rat) (k : Nat) : (pauses base k).sum = base * (2 ^ k - 1) := by
  induction k generalizing base with
  | zero => simp [pauses]
  | succ k ih =>
    rw [pauses_succ, List.sum_cons, ih]
    ring

theorem pause_succ (s : Settings) (tried : Nat) : pause s (tried + 1) = pause s tried * 2 := by
  have hpow (n : Nat) : mkRat (Nat.pow 2 n) 1 = 2 ^ n := by
    rw [Rat.mkRat_one, Nat.pow_eq]
    push_cast
    rfl
  rw [pause, pause, hpow, hpow]
  ring

/-! ### Attempts -/

section Tries

variable (rest : Rat → Job World Unit) (attempt : Job World Outcome)

/-- An attempt, and after each of the pauses another one. -/
def tries : (pauses : List Rat) → Job World Outcome
  | [] => attempt
  | pause :: pauses => do
    let _ ← attempt
    rest pause
    tries pauses

/-- What the last of them comes to. -/
def outcomeAfter (pauses : List Rat) (w : World) : Outcome :=
  ((tries rest attempt pauses).run w).2.1

/-- A fetch that makes `k` retries, with a base for its pauses.  There are no more of them than the
    settings allow, and each one follows an outcome that may be mended; if the last outcome may be
    mended too, no more are allowed.  The last outcome decides. -/
structure Persists (source : String) (fetch : Job World (Except FetchError Page)) (w : World)
    (base : Rat) (k : Nat) : Prop where
  allowed : (k : Int) ≤ max (w.settings.count .fetchRetries) 0
  again : ∀ i < k, (outcomeAfter rest attempt (pauses base i) w).complaint?.isSome
  spent : (outcomeAfter rest attempt (pauses base k) w).complaint?.isSome →
    (k : Int) = max (w.settings.count .fetchRetries) 0
  run : ∃ result, Verdict source (outcomeAfter rest attempt (pauses base k) w) result ∧
    fetch.run w = (((tries rest attempt (pauses base k)).run w).1, result,
      ((tries rest attempt (pauses base k)).run w).2.2)

variable {rest attempt}

/-- The first attempt and the first rest lead on to the others. -/
theorem run_tries_cons {pause : Rat} {pauses : List Rat} {w w₁ w₂ : World} {o : Outcome}
    {t₁ t₂ : Nat} (hattempt : attempt.run w = (w₁, o, t₁))
    (hrest : (rest pause).run w₁ = (w₂, (), t₂)) :
    (tries rest attempt (pause :: pauses)).run w =
      (((tries rest attempt pauses).run w₂).1, outcomeAfter rest attempt pauses w₂,
        t₁ + (t₂ + ((tries rest attempt pauses).run w₂).2.2)) := by
  rw [tries, Job.run_bind_of_run hattempt, Job.run_bind_of_run hrest]
  rfl

/-- The last outcome is the one of an attempt. -/
theorem ends_attempt_of_tries {pauses : List Rat} {w w' : World} {o : Outcome}
    (h : (tries rest attempt pauses).Ends w w' o) : ∃ w₀, attempt.Ends w₀ w' o := by
  induction pauses generalizing w with
  | nil => exact ⟨w, h⟩
  | cons pause pauses ih =>
    obtain ⟨w₁, _, -, h⟩ := Job.ends_bind.1 h
    obtain ⟨w₂, _, -, h⟩ := Job.ends_bind.1 h
    exact ih h

variable {I : World → Prop} (hrest : ∀ d, (rest d).Keeps I) (hattempt : attempt.Keeps I)
include hrest hattempt

theorem keeps_tries (pauses : List Rat) : (tries rest attempt pauses).Keeps I := by
  induction pauses with
  | nil => exact hattempt
  | cons pause pauses ih =>
    exact Job.keeps_bind hattempt fun _ => Job.keeps_bind (hrest pause) fun _ => ih

end Tries

/-! ### The loop -/

section Retry

variable {rest : Rat → Job World Unit} {source : String} {attempt : Job World Outcome}

/-- An outcome that stands ends the loop. -/
theorem run_retry_of_stands {left tried : Nat} {w w₁ : World} {o : Outcome} {t₁ : Nat}
    (hrun : attempt.run w = (w₁, o, t₁)) (ho : o.setback? = none) :
    (retry rest source attempt (left + 1) tried).run w = (w₁, o.settle source, t₁) := by
  have hloop : (retry rest source attempt (left + 1) tried).run w = _ := Job.run_bind_of_run hrun
  rw [hloop, ho]
  rfl

/-- After any other outcome comes a rest, and then the rest of the loop. -/
theorem run_retry_of_setback {left tried : Nat} {w w₁ w₂ : World} {o : Outcome} {setback : Setback}
    {t₁ t₂ : Nat} (hrun : attempt.run w = (w₁, o, t₁)) (ho : o.setback? = some setback)
    (hrest : (rest (pause w.settings tried)).run w₁ = (w₂, (), t₂)) :
    (retry rest source attempt (left + 1) tried).run w =
      (((retry rest source attempt left (tried + 1)).run w₂).1,
        ((retry rest source attempt left (tried + 1)).run w₂).2.1,
        t₁ + (t₂ + ((retry rest source attempt left (tried + 1)).run w₂).2.2)) := by
  have hloop : (retry rest source attempt (left + 1) tried).run w = _ := Job.run_bind_of_run hrun
  rw [hloop, ho]
  dsimp only
  rw [Job.run_bind_of_run hrest]

variable {s : Settings} (hrest : ∀ d, (rest d).Keeps (·.settings = s))
  (hattempt : attempt.Keeps (·.settings = s))
include hrest hattempt

/-- From any attempt on, the loop makes attempts until one needs no other or none is left. -/
theorem retry_steps (source : String) (left tried : Nat) {w : World} (hw : w.settings = s) :
    ∃ k ≤ left,
      (∀ i < k, (outcomeAfter rest attempt (pauses (pause s tried) i) w).complaint?.isSome) ∧
      ((outcomeAfter rest attempt (pauses (pause s tried) k) w).complaint?.isSome → k = left) ∧
      (retry rest source attempt left tried).run w =
        (((tries rest attempt (pauses (pause s tried) k)).run w).1,
          (outcomeAfter rest attempt (pauses (pause s tried) k) w).settle source,
          ((tries rest attempt (pauses (pause s tried) k)).run w).2.2) := by
  induction left generalizing tried w with
  | zero =>
    refine ⟨0, le_rfl, fun i hi => absurd hi (Nat.not_lt_zero i), fun _ => rfl, ?_⟩
    exact Job.run_bind_of_run rfl
  | succ left ih =>
    obtain ⟨⟨w₁, o, t₁⟩, h₁⟩ : ∃ r, attempt.run w = r := ⟨_, rfl⟩
    have hfirst : (tries rest attempt (pauses (pause s tried) 0)).run w = (w₁, o, t₁) := h₁
    cases ho : o.setback? with
    | none =>
      -- the first outcome stands
      refine ⟨0, Nat.zero_le _, fun i hi => absurd hi (Nat.not_lt_zero i), ?_, ?_⟩
      · rw [outcomeAfter, hfirst, ← Outcome.isSome_setback?, ho]
        intro h
        cases h
      · rw [run_retry_of_stands h₁ ho, outcomeAfter, hfirst]
    | some setback =>
      obtain ⟨⟨w₂, _, t₂⟩, h₂⟩ : ∃ r, (rest (pause s tried)).run w₁ = r := ⟨_, rfl⟩
      have hw₁ : w₁.settings = s := hattempt.ends hw ⟨t₁, h₁⟩
      have hw₂ : w₂.settings = s := (hrest _).ends hw₁ ⟨t₂, h₂⟩
      obtain ⟨k, hk, hagain, hspent, hrun⟩ := ih (tried + 1) hw₂
      -- the later attempts are the attempts that start after the first one and its rest
      have hlater (i : Nat) : (tries rest attempt (pauses (pause s tried) (i + 1))).run w =
          (((tries rest attempt (pauses (pause s (tried + 1)) i)).run w₂).1,
            outcomeAfter rest attempt (pauses (pause s (tried + 1)) i) w₂,
            t₁ + (t₂ + ((tries rest attempt (pauses (pause s (tried + 1)) i)).run w₂).2.2)) := by
        rw [pauses_succ, ← pause_succ]
        exact run_tries_cons h₁ h₂
      have houtcome (i : Nat) : outcomeAfter rest attempt (pauses (pause s tried) (i + 1)) w =
          outcomeAfter rest attempt (pauses (pause s (tried + 1)) i) w₂ :=
            congrArg (·.2.1) (hlater i)
      refine ⟨k + 1, Nat.succ_le_succ hk, fun i hi => ?_, fun h => ?_, ?_⟩
      · cases i with
        | zero => rw [outcomeAfter, hfirst, ← Outcome.isSome_setback?, ho, Option.isSome_some]
        | succ i =>
          rw [houtcome]
          exact hagain i (Nat.lt_of_succ_lt_succ hi)
      · rw [houtcome] at h
        rw [hspent h]
      · rw [run_retry_of_setback h₁ ho (hw ▸ h₂), hrun, houtcome, hlater]

/-- The retries of the settings, from the first attempt on. -/
theorem exists_persists {w : World} (hw : w.settings = s) {base : Rat}
    (hbase : (s.delay .retryBase).value? = some base) :
    ∃ k, Persists rest attempt source (persist rest source attempt) w base k := by
  have hfirst : pause s 0 = base := by
    rw [pause, hbase]
    exact mul_one base
  obtain ⟨k, hk, hagain, hspent, hrun⟩ :=
    retry_steps hrest hattempt source (s.count .fetchRetries).toNat 0 hw
  rw [hfirst] at hagain hspent hrun
  subst hw
  refine ⟨k, ?_, hagain, fun h => ?_, _, verdict_settle source _, hrun⟩
  · omega
  · have := hspent h
    omega

end Retry

/-! ### The attempts of a fetch -/

theorem Breakage.outcome_ne_late (cause : Breakage) (limit : Seconds) :
    cause.outcome ≠ .late limit := by
  cases cause <;> exact nofun

theorem BodyFault.outcome_ne_late (name : String) (max : Int) (fault : BodyFault)
    (limit : Seconds) :
    fault.outcome name max ≠ .late limit := by
  cases fault with
  | broken cause => exact cause.outcome_ne_late limit
  | _ => exact nofun

/-- An exchange without a deadline is never late. -/
theorem fetchOnce_ne_late {name url : String} {headers : List (String × Json)} {w w' : World}
    {limit : Seconds} : ¬(fetchOnce name url headers).Ends w w' (.late limit) := by
  intro h
  unfold fetchOnce at h
  rw [Job.ends_consult] at h
  obtain ⟨w₁, reply, -, h⟩ := Job.ends_bind.1 h
  split at h
  next response =>
    have hjudge := (Job.ends_ask.1 h).2
    unfold judge at hjudge
    split at hjudge
    · cases hjudge
    · split at hjudge
      · cases hjudge
      · split at hjudge
        next fault _ => exact absurd hjudge.symm (BodyFault.outcome_ne_late name _ fault limit)
        · cases hjudge
  next cause => exact absurd (Job.ends_pure.1 h).2.symm (cause.outcome_ne_late limit)

/-- An attempt is late by the deadline of the settings. -/
theorem limit_of_attempt {name url : String} {headers : List (String × Json)} {w w' : World}
    {limit : Seconds} (h : (attempt name url headers).Ends w w' (.late limit)) :
    limit = w'.settings.delay .fetchTimeout := by
  unfold attempt at h
  rw [Job.ends_consult] at h
  obtain ⟨w₁, found, hwithin, h⟩ := Job.ends_bind.1 h
  split at h
  next outcome =>
    obtain ⟨rfl, rfl⟩ := Job.ends_pure.1 h
    exact absurd hwithin.of_withinLimit fetchOnce_ne_late
  next =>
    obtain ⟨rfl, hlate⟩ := Job.ends_ask.1 h
    exact Outcome.late.inj hlate

/-- **Retries.**  Whatever comes of the attempts, and however a rest is taken, a fetch makes
    attempts until the first outcome that another attempt cannot mend, at most one more than the
    retries that the settings allow, and rests for the base delay times `2 ^ i` after attempt `i`,
    except after the last one.  The last outcome decides.  The attempts of a page that is fetched
    are of this kind, and are late by the deadline of the settings. -/
theorem backs_off (source : String) (w : World) {base : Rat}
    (hbase : (w.settings.delay .retryBase).value? = some base) :
    (∀ (rest : Rat → Job World Unit) (attempt : Job World Outcome),
      (∀ d, (rest d).Keeps (·.settings = w.settings)) → attempt.Keeps (·.settings = w.settings) →
      ∃ k, Persists rest attempt source (persist rest source attempt) w base k) ∧
    (∀ url headers,
      (∃ k, Persists sleep (attempt source url headers) source (fetchPage source url headers) w
        base k) ∧
      ∀ i limit, outcomeAfter sleep (attempt source url headers) (pauses base i) w = .late limit →
        limit = w.settings.delay .fetchTimeout) ∧
    ∀ k, (pauses base k).sum = base * (2 ^ k - 1) := by
  refine ⟨fun rest attempt hrest hattempt => exists_persists hrest hattempt rfl hbase,
    fun url headers => ?_, sum_pauses base⟩
  have hrest (d : Rat) : (sleep d).Keeps (·.settings = w.settings) := Job.keeps_sleep _
  have hattempt : (attempt source url headers).Keeps (·.settings = w.settings) :=
    keeps_attempt (fun _ _ hsteady h => hsteady.settings.trans h) source url headers
  refine ⟨exists_persists hrest hattempt rfl hbase, fun i limit hlate => ?_⟩
  have hends := Job.exists_ends (tries sleep (attempt source url headers) (pauses base i)) w
  obtain ⟨w₀, hlast⟩ := ends_attempt_of_tries hends
  rw [← outcomeAfter, hlate] at hlast
  rw [limit_of_attempt hlast, (keeps_tries hrest hattempt _).ends rfl hends]

/-- A server that fails, then takes too long, and then has the page. -/
def faltering : World where
  settings := Settings.default
  files := { nodes := .empty }
  homes := { own := ⟨.root, ["home"]⟩, other? := fun _ => none }
  network := plainClient fun sent _ => match sent with
    | [] => (0, .ok { status := 503 })
    | [_] => (40000, .ok { status := 200 })
    | _ => (0, .ok { status := 200 })
  clock := 0

/-- Two retries bring the page, after half a second and a second. -/
theorem backs_off_faltering :
    (faltering.settings.delay .retryBase).value? = some (1 / 2) ∧
    Persists sleep (attempt "lib" "http://a" []) "lib" (fetchPage "lib" "http://a" []) faltering
      (1 / 2) 2 ∧
    pauses (1 / 2) 2 = [1 / 2, 1] ∧ (pauses (1 / 2) 2).sum = 1 / 2 * (2 ^ 2 - 1) := by
  have hbase : (faltering.settings.delay .retryBase).value? = some (1 / 2) := by decide +kernel
  obtain ⟨-, hfetch, hsum⟩ := backs_off "lib" faltering hbase
  obtain ⟨⟨k, hk⟩, -⟩ := hfetch "http://a" []
  obtain ⟨h₀, h₁, h₂⟩ :
      (outcomeAfter sleep (attempt "lib" "http://a" []) (pauses (1 / 2) 0) faltering).complaint? =
        some "HTTP 503" ∧
      (outcomeAfter sleep (attempt "lib" "http://a" []) (pauses (1 / 2) 1) faltering).complaint? =
        some "timed out after 30.0s" ∧
      (outcomeAfter sleep (attempt "lib" "http://a" []) (pauses (1 / 2) 2) faltering).complaint? =
        none := by
    decide +kernel
  refine ⟨hbase, ?_, by decide +kernel, hsum 2⟩
  -- the first two outcomes call for another attempt and the third does not
  obtain rfl | rfl | rfl | hlate : k = 0 ∨ k = 1 ∨ k = 2 ∨ 2 < k := by omega
  · cases hk.spent (by rw [h₀]; rfl)
  · cases hk.spent (by rw [h₁]; rfl)
  · exact hk
  · have := hk.again 2 hlate
    rw [h₂] at this
    cases this

end LuaAudit.Fetch
