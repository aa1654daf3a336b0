/-
Settings from the command line and the environment.

Every setting has a flag and a variable; a flag wins over its variable,
which is then not even read. A value stands behind an equals sign or in
the next argument. A value of the second form is read only when the
next flag is met or the arguments end, so an unknown argument behind it
is reported first.
-/
import ControlLoop.Config

namespace ControlLoop.Config

/-- A setting that a flag or a variable can give. -/
inductive Setting where
  | maxConcurrent
  | resyncPeriod
  | reconcileTimeout
  | fieldManager
  | logFormat
  deriving DecidableEq, Repr

/-- Why the arguments do not give settings. -/
inductive FlagError where
  | unknownArgument
  /-- A missing value, or one that is none of the choices. -/
  | invalidValue
  /-- A value that does not parse. -/
  | valueValidation
  /-- A flag that is given twice. -/
  | argumentConflict
  /-- A value for a flag that takes none. -/
  | tooManyValues
  | displayHelp
  deriving DecidableEq, Repr

namespace Setting

/-- All settings, in the order in which their variables are read. -/
def all : List Setting :=
  [.maxConcurrent, .resyncPeriod, .reconcileTimeout, .fieldManager, .logFormat]

def flag : Setting → List Char
  | .maxConcurrent => "max-concurrent-reconciles".toList
  | .resyncPeriod => "resync-period".toList
  | .reconcileTimeout => "reconcile-timeout".toList
  | .fieldManager => "field-manager".toList
  | .logFormat => "log-format".toList

def variable_ : Setting → String
  | .maxConcurrent => "MAX_CONCURRENT_RECONCILES"
  | .resyncPeriod => "RESYNC_PERIOD"
  | .reconcileTimeout => "RECONCILE_TIMEOUT"
  | .fieldManager => "FIELD_MANAGER"
  | .logFormat => "LOG_FORMAT"

/-- The setting of a flag. -/
def ofFlag? (name : List Char) : Option Setting := all.find? (·.flag = name)

end Setting

/-- Decimal digits as a number. -/
def readDigits (cs : List Char) : Option Nat :=
  if cs = [] ∨ !cs.all Char.isDigit then none else some (Duration.digitsValue cs)

/-- A number of 16 bits, perhaps with a sign. -/
def readCount (s : String) : Option Nat :=
  let inRange (n : Nat) : Option Nat := if n < 65536 then some n else none
  match s.toList with
  | '+' :: cs => (readDigits cs).bind inRange
  | '-' :: cs => (readDigits cs).bind fun n => if n = 0 then some 0 else none
  | cs => (readDigits cs).bind inRange

/-- Give a setting a value. -/
def assign (c : Config) (setting : Setting) (value : String) : Except FlagError Config :=
  match setting with
  | .maxConcurrent =>
    match readCount value with
    | some n => .ok { c with maxConcurrent := n }
    | none => .error .valueValidation
  | .resyncPeriod =>
    match Duration.parse value with
    | .ok d => .ok { c with resyncPeriod := d }
    | .error _ => .error .valueValidation
  | .reconcileTimeout =>
    match Duration.parse value with
    | .ok d => .ok { c with reconcileTimeout := d }
    | .error _ => .error .valueValidation
  | .fieldManager => .ok { c with fieldManager := value }
  | .logFormat =>
    if value = "text" then .ok { c with logFormat := .text }
    else if value = "json" then .ok { c with logFormat := .json }
    else .error .invalidValue

/-- Arguments read so far. -/
structure Reading where
  config : Config
  given : List Setting
  /-- The last flag and the value behind it, both not taken over yet. -/
  pending : Option (Setting × Option String)

namespace Reading

/-- Take over a value for a setting. -/
def take (r : Reading) (setting : Setting) (value : String) : Except FlagError Reading :=
  if setting ∈ r.given then .error .argumentConflict
  else do .ok { r with config := ← r.config.assign setting value, given := setting :: r.given }

/-- Take over the last flag, which must have a value by now. -/
def settle (r : Reading) : Except FlagError Reading :=
  match r.pending with
  | none => .ok r
  | some (_, none) => .error .invalidValue
  | some (setting, some value) => { r with pending := none }.take setting value

/-- An argument behind two dashes, up to its equals sign and behind it. -/
def long (r : Reading) (name : List Char) (value : Option String) : Except FlagError Reading :=
  if name = "help".toList then
    match value with
    | some _ => .error .tooManyValues
    | none => do
      let _ ← r.settle
      .error .displayHelp
  else
    match Setting.ofFlag? name, value with
    | none, _ => .error .unknownArgument
    | some setting, some value => do (← r.settle).take setting value
    | some setting, none => do .ok { ← r.settle with pending := some (setting, none) }

/-- An argument that is no flag: the value of the flag before it, if that still lacks one. -/
def plain (r : Reading) (arg : String) : Except FlagError Reading :=
  match r.pending with
  | some (setting, none) => .ok { r with pending := some (setting, some arg) }
  | _ => .error .unknownArgument

/-- The value behind the equals sign, if there is one. -/
def attachedValue : List Char → Option String
  | '=' :: cs => some (String.ofList cs)
  | _ => none

/-- Read one argument. -/
def arg (r : Reading) (a : String) : Except FlagError Reading :=
  match a.toList with
  | '-' :: '-' :: cs => r.long (cs.takeWhile (· ≠ '=')) (attachedValue (cs.dropWhile (· ≠ '=')))
  | '-' :: 'h' :: _ => do
    let _ ← r.settle
    .error .displayHelp
  | '-' :: _ :: _ => .error .unknownArgument
  | _ => r.plain a

/-- Read arguments up to two lone dashes, behind which nothing may stand. -/
def args (r : Reading) : List String → Except FlagError Reading
  | [] => r.settle
  | "--" :: rest => if rest.isEmpty then r.settle else .error .unknownArgument
  | a :: rest => do (← r.arg a).args rest

/-- Read the variables of the settings that no flag gave. -/
def environment (env : TextMap) (r : Reading) : List Setting → Except FlagError Reading
  | [] => .ok r
  | setting :: rest =>
    match env.get? setting.variable_ with
    | some value =>
      if setting ∈ r.given then r.environment env rest
      else do ((← r.take setting value).environment env rest)
    | none => r.environment env rest

end Reading

/-- The settings that arguments and environment give, over the defaults. -/
def ofArgs (args : List String) (env : TextMap) : Except FlagError Config := do
  let r ← Reading.args ⟨default, [], none⟩ args
  .ok (← r.environment env Setting.all).config

end ControlLoop.Config
