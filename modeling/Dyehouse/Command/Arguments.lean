import Dyehouse.Text.Basic

/-!
# Arguments of a command line

Arguments are options and operands.  An option is written out, `--output x` or
`--output=x`, or short, `-o x` or `-ox`; short options without a value can be run together.
`--` ends the options.  Reading fails at an option that is not understood, a value that is
missing, and a value given to an option that takes none.
-/

namespace Dyehouse.Command

/-- The options that are understood somewhere on the command line. -/
inductive Flag where
  | help
  | version
  | verbose
  | output
  | minify
  | strict
  deriving DecidableEq, Repr

namespace Flag

/-- An option written out. -/
def long : Flag → Text
  | help => "--help".toList
  | version => "--version".toList
  | verbose => "--verbose".toList
  | output => "--output".toList
  | minify => "--minify".toList
  | strict => "--strict".toList

/-- The letter of an option that can be written short. -/
def letter? : Flag → Option Char
  | verbose => some 'v'
  | output => some 'o'
  | help | version | minify | strict => none

/-- Whether an option takes a value. -/
def takesValue : Flag → Bool
  | output => true
  | help | version | verbose | minify | strict => false

end Flag

/-- An option that was given; the value is empty for an option that takes none. -/
structure Setting where
  flag : Flag
  value : Text := []
  deriving DecidableEq, Repr

/-- What one argument that is an option amounts to: the options it gives, and perhaps one
    more that takes its value from the next argument. -/
structure Reading where
  settings : List Setting := []
  pending : Option Flag := none
  deriving DecidableEq, Repr

/-- Read an option that is written out. -/
def readLong (flags : List Flag) (argument : Text) : Option Reading :=
  match Text.splitFirst '=' argument with
  | some (name, value) =>
    match flags.find? fun flag => flag.long = name with
    | some flag => if flag.takesValue then some { settings := [{ flag, value }] } else none
    | none => none
  | none =>
    match flags.find? fun flag => flag.long = argument with
    | some flag =>
      if flag.takesValue then some { pending := some flag } else some { settings := [{ flag }] }
    | none => none

/-- Read the letters of short options.  A letter that takes a value takes the rest of the
    argument. -/
def readLetters (flags : List Flag) : Text → Option Reading
  | [] => some {}
  | c :: rest =>
    match flags.find? fun flag => flag.letter? = some c with
    | none => none
    | some flag =>
      if flag.takesValue then
        if rest.isEmpty then some { pending := some flag }
        else some { settings := [{ flag, value := rest }] }
      else (readLetters flags rest).map fun r => { r with settings := { flag } :: r.settings }

/-- Read an argument as options, if it looks like one: a dash with something after it. -/
def readOption? (flags : List Flag) : Text → Option (Option Reading)
  | '-' :: '-' :: rest => some (readLong flags ('-' :: '-' :: rest))
  | '-' :: c :: rest => some (readLetters flags (c :: rest))
  | _ => none

/-- The options that were given, in order, and the operands. -/
structure Arguments where
  settings : List Setting := []
  operands : List Text := []
  deriving DecidableEq, Repr

namespace Arguments

/-- Put options in front. -/
def withSettings (settings : List Setting) (a : Arguments) : Arguments :=
  { a with settings := settings ++ a.settings }

/-- Put an operand in front. -/
def withOperand (operand : Text) (a : Arguments) : Arguments :=
  { a with operands := operand :: a.operands }

/-- Read arguments.  If options and operands may not be mixed, the first operand ends the
    options. -/
def read (flags : List Flag) (mixed : Bool) : List Text → Option Arguments
  | [] => some {}
  | argument :: rest =>
    if argument = "--".toList then some { operands := rest }
    else
      match readOption? flags argument with
      | none =>
        if mixed then (read flags mixed rest).map (withOperand argument)
        else some { operands := argument :: rest }
      | some none => none
      | some (some { settings, pending := none }) =>
        (read flags mixed rest).map (withSettings settings)
      | some (some { settings, pending := some flag }) =>
        match rest with
        | [] => none
        | value :: rest =>
          (read flags mixed rest).map (withSettings (settings ++ [{ flag, value }]))

/-- Whether an option was given. -/
def has (a : Arguments) (flag : Flag) : Bool :=
  a.settings.any fun setting => setting.flag = flag

/-- The value of an option that was given; the last one counts. -/
def value? (a : Arguments) (flag : Flag) : Option Text :=
  ((a.settings.filter fun setting => setting.flag = flag).getLast?).map Setting.value

end Arguments

end Dyehouse.Command
