import LuaAudit.Json.Reader
import LuaAudit.Settings.Fault
import LuaAudit.Text.Case

/-!
# Loading settings

Settings come from given values, then from environment variables, then from the defaults.  The
variable of a setting is its name after `LUA_LINT_`, in any case; a setting that is a list is given
there as JSON.

* `Settings.ofFields` checks given values;
* `Settings.load` also looks at the environment.
-/

namespace LuaAudit

/-- What keeps settings from being loaded. -/
inductive LoadError where
  | unreadable (key : Key)
  | faults (faults : List Fault)
  deriving DecidableEq, Repr

/-- The wording of a variable that is not JSON. -/
def LoadError.message : LoadError → String
  | .unreadable key => "error parsing value for field \"" ++ key.name ++
      "\" from source \"EnvSettingsSource\""
  | .faults _ => ""

namespace Settings

/-- Reads the value of a setting: how it changes the settings. -/
def assign (v : Json) : Key → Checked (Settings → Settings)
  | .flag k => (readFlag v).map fun b s => s.setFlag k b
  | .count k => (readCount v).map fun n s => s.setCount k n
  | .label k => (readLabel v).map fun t s => s.setLabel k t
  | .roster k => (readMany readLabel v).map fun ts s => s.setRoster k ts
  | .delay k => (readDelay v).map fun x s => s.setDelay k x
  | .sources => (readMany readSource v).map fun xs s => s.setSources xs

/-- Gives a setting a value of its own type, as it stands; a value of another type changes
    nothing. -/
def replace (s : Settings) (v : Json) : Key → Settings
  | .flag k => match v with
    | .bool b => s.setFlag k b
    | _ => s
  | .count k => match v with
    | .int n => s.setCount k n
    | _ => s
  | .label k => match v with
    | .str t => s.setLabel k t
    | _ => s
  | .roster k => match readMany readLabel v with
    | .ok ts => s.setRoster k ts
    | .error _ => s
  | .delay k => match v with
    | .int n => s.setDelay k (.whole n)
    | .real x => s.setDelay k (.real x)
    | _ => s
  | .sources => match readMany readSource v with
    | .ok xs => s.setSources xs
    | .error _ => s

/-- Gives several settings new values, in order. -/
def replaceAll (s : Settings) (fields : List (String × Json)) : Settings :=
  fields.foldl (fun s f => match Key.ofName? f.1 with
    | some key => s.replace f.2 key
    | none => s) s

/-- Reads the given values of a list of settings, gathering all faults. -/
def assignAll (fields : List (String × Json)) : List Key → Checked Settings
  | [] => .ok default
  | key :: keys =>
    match Json.field? fields key.name with
    | none => assignAll fields keys
    | some v =>
      .both (fun change s => change s) ((assign v key).within key.name) (assignAll fields keys)

/-- Refuses fields that are no settings. -/
def noExtras (fields : List (String × Json)) : Checked Unit :=
  match fields.filter fun f => (Key.ofName? f.1).isNone with
  | [] => .ok ()
  | extras => .error (extras.map fun f => ⟨[f.1], .extraForbidden⟩)

/-- The settings with given values in place of defaults. -/
def ofFields (fields : List (String × Json)) : Checked Settings :=
  .both (fun s _ => s) (assignAll fields Key.all) (noExtras fields)

/-- The value that the environment gives a setting; of several variables the last counts. -/
def envValue? (env : List (String × String)) (key : Key) : Option String :=
  let lower (s : String) : List Char := Text.toLower s.toList
  (env.reverse.find? fun e => lower e.1 = lower ("LUA_LINT_" ++ key.name)).map Prod.snd

/-- The values that the environment gives.  A list that is not JSON stops the reading; null is no
    value. -/
def environment (env : List (String × String)) :
    List Key → Except LoadError (List (String × Json))
  | [] => .ok []
  | key :: keys =>
    match envValue? env key with
    | none => environment env keys
    | some text =>
      if key.isList then
        match Json.parse? text with
        | none => .error (.unreadable key)
        | some .null => environment env keys
        | some v => (environment env keys).map ((key.name, v) :: ·)
      else (environment env keys).map ((key.name, .str text) :: ·)

/-- The settings from given values and the environment. -/
def load (env : List (String × String)) (given : List (String × Json)) :
    Except LoadError Settings := do
  let fromEnv ← environment env Key.all
  match ofFields (given.foldl (fun fields f => putEntry f.1 f.2 fields) fromEnv) with
  | .ok s => .ok s
  | .error faults => .error (.faults faults)

end Settings

end LuaAudit
