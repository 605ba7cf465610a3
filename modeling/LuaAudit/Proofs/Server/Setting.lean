import LuaAudit.Proofs.Fetch.Served
import LuaAudit.Server.Config
import Mathlib.Data.List.Nodup

/-!
# Changing one setting

A call of the config tool that sets a value either gives the value to exactly one setting and says
so, or it is refused and changes nothing.  There is one way out of this: the log level is stored,
and the log shut, before it is known that the log takes the level, so that a name which is none
stays behind when the tool breaks off, and nothing is logged any more.

* `Settings.AgreeBut k`: two settings that agree in every field but `k`;
* `Wanted name value k v`: a call wants to give the value `v` to the setting `k`;
* `Gave s k v s'`: the setting `k` has been given the value `v`, and nothing else has changed,
  except what is logged;
* `SetOutcome` lists how such a call ends, and `config_set_outcome` says that it ends in no other
  way.
-/

namespace LuaAudit

/-! ### All settings but one -/

namespace Settings

/-- Two settings that agree in every field but one. -/
structure AgreeBut (k : Key) (s s' : Settings) : Prop where
  flag : ∀ j, Key.flag j ≠ k → s'.flag j = s.flag j
  count : ∀ j, Key.count j ≠ k → s'.count j = s.count j
  label : ∀ j, Key.label j ≠ k → s'.label j = s.label j
  roster : ∀ j, Key.roster j ≠ k → s'.roster j = s.roster j
  delay : ∀ j, Key.delay j ≠ k → s'.delay j = s.delay j
  sources : Key.sources ≠ k → s'.sources = s.sources

theorem agreeBut_setFlag (s : Settings) (k : Flag) (v : Bool) :
    AgreeBut (.flag k) s (s.setFlag k v) where
  flag _ hj := if_neg fun h => hj (congrArg Key.flag h)
  count _ _ := rfl
  label _ _ := rfl
  roster _ _ := rfl
  delay _ _ := rfl
  sources _ := rfl

theorem agreeBut_setCount (s : Settings) (k : Count) (v : Int) :
    AgreeBut (.count k) s (s.setCount k v) where
  flag _ _ := rfl
  count _ hj := if_neg fun h => hj (congrArg Key.count h)
  label _ _ := rfl
  roster _ _ := rfl
  delay _ _ := rfl
  sources _ := rfl

theorem agreeBut_setLabel (s : Settings) (k : Label) (v : String) :
    AgreeBut (.label k) s (s.setLabel k v) where
  flag _ _ := rfl
  count _ _ := rfl
  label _ hj := if_neg fun h => hj (congrArg Key.label h)
  roster _ _ := rfl
  delay _ _ := rfl
  sources _ := rfl

end Settings

namespace Server

/-! ### What a call wants -/

/-- The value that a text has for a setting: a truth value, a whole number, a text in capitals for
    the log level, and the text itself for the workspace. -/
def LiveKey.reading? : LiveKey → String → Option Json
  | .flag _, text => some (.bool (meansYes text))
  | .count _, text => (wholeNumber? text).map .int
  | .logLevel, text => some (.str (String.ofList (Text.toUpper text.toList)))
  | .workspaceRoot, text => some (.str text)

/-- A call wants to give a value to a setting: it names the setting, and its text has that value. -/
structure Wanted (name value : Option String) (k : LiveKey) (v : Json) : Prop where
  live : k ∈ liveKeys
  named : name = some k.key.name
  text : ∃ text, value = some text ∧ k.reading? text = some v

/-- No two settings have one name. -/
theorem nodup_liveKeys : (liveKeys.map fun k => k.key.name).Nodup := by decide

theorem ofName?_eq_some_iff {name : String} {k : LiveKey} :
    LiveKey.ofName? name = some k ↔ k ∈ liveKeys ∧ k.key.name = name := by
  constructor
  · intro h
    exact ⟨List.mem_of_find?_eq_some h, by simpa using List.find?_some h⟩
  · rintro ⟨hlive, rfl⟩
    obtain ⟨k', hk'⟩ : ∃ k', LiveKey.ofName? k.key.name = some k' :=
      Option.isSome_iff_exists.1 (List.find?_isSome.2 ⟨k, hlive, by simp⟩)
    -- The setting that is found has the same name, so it is the same setting.
    have hname : k'.key.name = k.key.name := by simpa using List.find?_some hk'
    rw [hk', List.inj_on_of_nodup_map nodup_liveKeys (List.mem_of_find?_eq_some hk') hlive hname]

/-! ### What becomes of it -/

/-- A server whose settings have been replaced. -/
def withSettings (s : Server) (settings : Settings) : Server :=
  { s with world := { s.world with settings } }

/-- A setting has been given a value, and nothing else has changed, except what is logged. -/
structure Gave (s : Server) (k : Key) (v : Json) (s' : Server) : Prop where
  value : s'.world.settings.value k = v
  others : s.world.settings.AgreeBut k s'.world.settings
  rest : s' = { s.withSettings s'.world.settings with sink := s'.sink }

/-- The answer that tells the new value of a setting. -/
def updatedAnswer (k : Key) (v : Json) : String :=
  (Json.obj [("status", .str "updated"), ("key", .str k.name), ("value", v)]).render .line

/-- An answer that tells of an error. -/
def errorAnswer (message : String) (more : List (String × Json)) : String :=
  (Json.obj (("error", .str message) :: more)).render .line

/-- How a call ends that sets a value. -/
inductive SetOutcome (s : Server) (name value : Option String) :
    Except ToolError String → Server → Prop where
  /-- The setting has the value that was wanted. -/
  | updated {k : LiveKey} {v : Json} {s' : Server} (hwanted : Wanted name value k v)
      (hkey : k ≠ .logLevel) (hgave : Gave s k.key v s') (hsink : s'.sink = s.sink) :
      SetOutcome s name value (.ok (updatedAnswer k.key v)) s'
  /-- The log level has, and messages are logged from it on. -/
  | relevelled {level : String} {s' : Server} (hwanted : Wanted name value .logLevel (.str level))
      (hlevel : s.packages.refusedLevel? level = none)
      (hgave : Gave s (.label .logLevel) (.str level) s') (hsink : s'.sink = some level) :
      SetOutcome s name value (.ok (updatedAnswer (.label .logLevel) (.str level))) s'
  /-- Nothing could be wanted, and nothing has changed. -/
  | refused {message : String} {more : List (String × Json)}
      (hwanted : ∀ k v, ¬ Wanted name value k v) :
      SetOutcome s name value (.ok (errorAnswer message more)) s
  /-- The log does not take the level that was wanted; it has been stored all the same, and nothing
      is logged any more. -/
  | brokenOff {level message : String} {s' : Server}
      (hwanted : Wanted name value .logLevel (.str level))
      (hlevel : s.packages.refusedLevel? level = some message)
      (hgave : Gave s (.label .logLevel) (.str level) s') (hsink : s'.sink = none) :
      SetOutcome s name value (.error (.level message)) s'

theorem gave_setFlag (s : Server) (k : Flag) (v : Bool) :
    Gave s (.flag k) (.bool v) (s.withSettings (s.world.settings.setFlag k v)) where
  value := congrArg Json.bool (if_pos rfl)
  others := Settings.agreeBut_setFlag _ k v
  rest := rfl

theorem gave_setCount (s : Server) (k : Count) (v : Int) :
    Gave s (.count k) (.int v) (s.withSettings (s.world.settings.setCount k v)) where
  value := congrArg Json.int (if_pos rfl)
  others := Settings.agreeBut_setCount _ k v
  rest := rfl

theorem gave_setLabel (s : Server) (k : Label) (v : String) (sink : Option String) :
    Gave s (.label k) (.str v) { s.withSettings (s.world.settings.setLabel k v) with sink } where
  value := congrArg Json.str (if_pos rfl)
  others := Settings.agreeBut_setLabel _ k v
  rest := rfl

/-- Changing the settings and telling the new value of one. -/
theorem run_changed {s : Server} {k : Key} {v : Json} (f : Settings → Settings)
    (hgave : Gave s k v (s.withSettings (f s.world.settings))) :
    (Tool.changeSettings f >>= fun _ => Server.updated k).run.run s =
      (.ok (updatedAnswer k v), s.withSettings (f s.world.settings)) := by
  rw [updatedAnswer, ← hgave.value]
  rfl

/-- Changing what is logged: it stops, and goes on from the level if the log takes it. -/
theorem run_showFrom (s : Server) (level : String) : (showFrom level).run.run s =
    match s.packages.refusedLevel? level with
    | some message => (.error (.level message), { s with sink := none })
    | none => (.ok (), { s with sink := some level }) := by
  have hrun : (showFrom level).run.run s = ExceptT.run (m := StateM Server)
      (match s.packages.refusedLevel? level with
        | some message => (throw (.level message) : Tool Unit)
        | none => modify fun s => { s with sink := some level }) { s with sink := none } := rfl
  rw [hrun]
  cases s.packages.refusedLevel? level <;> rfl

/-- Changing the log level, which is stored first, whether it is one or not. -/
theorem run_change_logLevel (s : Server) (text : String) :
    let level := String.ofList (Text.toUpper text.toList)
    let stored := s.withSettings (s.world.settings.setLabel .logLevel level)
    (change .logLevel text).run.run s =
      match s.packages.refusedLevel? level with
      | some message => (.error (.level message), { stored with sink := none })
      | none => (.ok (updatedAnswer (.label .logLevel) (.str level)),
          { stored with sink := some level }) := by
  intro level stored
  have hrun : (change .logLevel text).run.run s =
      (showFrom level >>= fun _ => Server.updated (.label .logLevel)).run.run stored := rfl
  have hlevels : stored.packages = s.packages := rfl
  rw [hrun, ExceptT.run_bind, StateT.run_bind, run_showFrom, hlevels]
  cases s.packages.refusedLevel? level with
  | some message => rfl
  | none =>
    rw [updatedAnswer, ← (gave_setLabel s .logLevel level (some level)).value]
    rfl

/-- Who names a setting wants no other. -/
theorem Wanted.eq_of_named {value : Option String} {k k' : LiveKey} {v : Json}
    (h : Wanted (some k.key.name) value k' v) (hlive : k ∈ liveKeys) : k' = k :=
  List.inj_on_of_nodup_map nodup_liveKeys h.live hlive (Option.some.inj h.named).symm

/-- Giving a setting the value of a text. -/
theorem outcome_change (s : Server) {k : LiveKey} (hlive : k ∈ liveKeys) (text : String) :
    SetOutcome s (some k.key.name) (some text) ((change k text).run.run s).1
      ((change k text).run.run s).2 := by
  have hwanted : ∀ {v}, k.reading? text = some v → Wanted (some k.key.name) (some text) k v :=
    fun hv => ⟨hlive, rfl, text, rfl, hv⟩
  cases k with
  | flag k =>
    have hgave := gave_setFlag s k (meansYes text)
    rw [change, run_changed _ hgave]
    exact .updated (hwanted rfl) nofun hgave rfl
  | count k =>
    cases hnumber : wholeNumber? text with
    | some n =>
      have hgave := gave_setCount s k n
      have hreading : (LiveKey.count k).reading? text = some (.int n) := by
        simp [LiveKey.reading?, hnumber]
      simp only [change, hnumber]
      rw [run_changed _ hgave]
      exact .updated (hwanted hreading) nofun hgave rfl
    | none =>
      simp only [change, hnumber]
      refine .refused fun k' v hwant => ?_
      obtain ⟨text', htext, hreading⟩ := hwant.text
      rw [hwant.eq_of_named hlive, ← Option.some.inj htext] at hreading
      simp [LiveKey.reading?, hnumber] at hreading
  | logLevel =>
    rw [run_change_logLevel]
    split
    next message hlevel =>
      exact .brokenOff (hwanted rfl) hlevel (gave_setLabel s .logLevel _ none) rfl
    next hlevel => exact .relevelled (hwanted rfl) hlevel (gave_setLabel s .logLevel _ (some _)) rfl
  | workspaceRoot =>
    have hgave := gave_setLabel s .workspaceRoot text s.sink
    rw [change, run_changed _ hgave]
    exact .updated (hwanted rfl) nofun hgave rfl

/-- The call that sets a value. -/
def setCall (name value : Option String) : ConfigCall := { action := "set", key := name, value }

/-- A server as it is installed, on an empty disk, with a log of one level. -/
def installed : Server where
  world := {
    settings := .default
    files := { nodes := .empty }
    homes := { own := ⟨.root, ["home"]⟩ }
    network := Fetch.plainClient fun _ _ => (0, .ok { status := 404 })
    clock := 0 }
  packages := {
    refusedLevel? := fun level => if level = "INFO" then none else some ("no level: " ++ level)
    refusedKind := fun _ kind => kind }
  manual := ⟨.root, ["manual"]⟩

end Server

end LuaAudit
