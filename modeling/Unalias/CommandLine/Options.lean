import Unalias.Path.Basic

/-! The options of the command line. Options that take a value take it from the same argument
or from the next one; a value is looked at only when the argument after it has been found to be
an option, or when the arguments end. -/
namespace Unalias

structure Options where
  settings? : Option Path
  targets : List Text
  excludes : List Text
  excludedAliases : List Text
  verbose : Bool
  dryRun : Bool
  yes : Bool
deriving DecidableEq

/-- Why the arguments do not lead to a run. -/
inductive Refusal
  | unknownArgument
  | badValue
  | conflict
  | tooManyValues
  | help
  | version
deriving DecidableEq

namespace Options

def defaultTargets : List Text := ["src/**/*.ts".toList, "src/**/*.tsx".toList]

def defaultExcludes : List Text := ["**/node_modules/**".toList]

inductive Setting
  | settings
  | target
  | exclude
  | excludeAlias
deriving DecidableEq

inductive Flag
  | verbose
  | dryRun
  | yes
  | help
  | version
deriving DecidableEq

def byName? (name : Text) : Option (Setting ⊕ Flag) :=
  match String.ofList name with
  | "tsconfig" => some (.inl .settings)
  | "target" => some (.inl .target)
  | "exclude" => some (.inl .exclude)
  | "exclude-alias" => some (.inl .excludeAlias)
  | "verbose" => some (.inr .verbose)
  | "dry-run" => some (.inr .dryRun)
  | "yes" => some (.inr .yes)
  | "help" => some (.inr .help)
  | "version" => some (.inr .version)
  | _ => none

def byLetter? : Char → Option (Setting ⊕ Flag)
  | 'p' => some (.inl .settings)
  | 't' => some (.inl .target)
  | 'e' => some (.inl .exclude)
  | 'x' => some (.inl .excludeAlias)
  | 'v' => some (.inr .verbose)
  | 'd' => some (.inr .dryRun)
  | 'y' => some (.inr .yes)
  | 'h' => some (.inr .help)
  | 'V' => some (.inr .version)
  | _ => none

/-- What the arguments have given so far, and the option that waits for its value or whose
value waits to be looked at. -/
structure Draft where
  given : Options
  waiting? : Option (Setting × Option Text)

namespace Draft

def empty : Draft := ⟨⟨none, [], [], [], false, false, false⟩, none⟩

/-- Takes a value in. The settings file can be named once, and not by an empty name. -/
def take (o : Options) (setting : Setting) (value : Text) : Except Refusal Options :=
  match setting with
  | .settings =>
    if o.settings?.isSome then .error .conflict
    else if value = [] then .error .badValue
    else .ok { o with settings? := some ⟨value⟩ }
  | .target => .ok { o with targets := o.targets ++ [value] }
  | .exclude => .ok { o with excludes := o.excludes ++ [value] }
  | .excludeAlias => .ok { o with excludedAliases := o.excludedAliases ++ value.splitOn ',' }

def settle (d : Draft) : Except Refusal Options :=
  match d.waiting? with
  | none => .ok d.given
  | some (_, none) => .error .badValue
  | some (setting, some value) => take d.given setting value

def raise (o : Options) : Flag → Except Refusal Options
  | .verbose => if o.verbose then .error .conflict else .ok { o with verbose := true }
  | .dryRun => if o.dryRun then .error .conflict else .ok { o with dryRun := true }
  | .yes => if o.yes then .error .conflict else .ok { o with yes := true }
  | .help => .error .help
  | .version => .error .version

/-- An option with the value that stands in the same argument, if there is one. -/
def addSetting (d : Draft) (setting : Setting) (value? : Option Text) : Except Refusal Draft := do
  let o ← d.settle
  match value? with
  | some value => return ⟨← take o setting value, none⟩
  | none => return ⟨o, some (setting, none)⟩

def addFlag (d : Draft) (flag : Flag) : Except Refusal Draft := do
  return ⟨← raise (← d.settle) flag, none⟩

def addLong (d : Draft) (t : Text) : Except Refusal Draft :=
  let name := t.takeWhile (· ≠ '=')
  let value? := match t.dropWhile (· ≠ '=') with
    | [] => none
    | _ :: value => some value
  match byName? name, value? with
  | some (.inl setting), value? => d.addSetting setting value?
  | some (.inr _), some _ => .error .tooManyValues
  | some (.inr flag), none => d.addFlag flag
  | none, _ => .error .unknownArgument

/-- The letters after one hyphen. What follows the letter of an option that takes a value is
the value, with or without an equals sign. -/
def addLetters (d : Draft) : Text → Except Refusal Draft
  | [] => .ok d
  | c :: t => match byLetter? c with
    | some (.inr flag) => do addLetters (← d.addFlag flag) t
    | some (.inl setting) => match t with
      | [] => d.addSetting setting none
      | '=' :: value => d.addSetting setting (some value)
      | value => d.addSetting setting (some value)
    | none => .error .unknownArgument

/-- Any other argument is the value of an option that waits for one. -/
def addValue (d : Draft) (t : Text) : Except Refusal Draft :=
  match d.waiting? with
  | some (setting, none) => .ok { d with waiting? := some (setting, some t) }
  | _ => .error .unknownArgument

/-- Reads the arguments in order. After `--` there may be nothing. -/
def read (d : Draft) : List Text → Except Refusal Draft
  | [] => .ok d
  | ['-', '-'] :: rest => if rest = [] then .ok d else .error .unknownArgument
  | ('-' :: '-' :: t) :: rest => do read (← d.addLong t) rest
  | ('-' :: c :: t) :: rest => do read (← d.addLetters (c :: t)) rest
  | t :: rest => do read (← d.addValue t) rest

end Draft

/-- The options that arguments give. Values that are given replace the default ones. -/
def ofArguments (args : List Text) : Except Refusal Options := do
  let o ← (← Draft.empty.read args).settle
  return { o with
    targets := if o.targets = [] then defaultTargets else o.targets
    excludes := if o.excludes = [] then defaultExcludes else o.excludes }

end Options
end Unalias
