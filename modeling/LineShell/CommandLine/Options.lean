import LineShell.Text.Basic

/-!
# Options of the command line

* `Options.read`: the arguments are read in order, and the first one that does not fit is
  the error. A request for help is only remembered, but no option may follow it.
* `OptionError.message`: the text that names the argument.
* `Options.helpText`: what a request for help prints.

Options take their value from the next argument, whatever that is. `--` ends the options,
and the help words count as long as options do.
-/

namespace LineShell

structure Options where
  /-- A text of commands to run. -/
  command : Option Text := none
  /-- How much is logged. -/
  logLevel : Option Text := none
  /-- A file of commands to run. -/
  script : Option Text := none
  wantsHelp : Bool := false
deriving DecidableEq, Repr

inductive OptionError where
  | unrecognized (arg : Text)
  | missingValue (option : Text)
  | duplicate (option value : Text)
  | afterHelp
deriving DecidableEq, Repr

namespace OptionError

/-- The error, ended by a newline unless it is about help. -/
def message : OptionError → Text
  | unrecognized arg => Text.ofLines ["Unrecognized argument: ".toList ++ arg]
  | missingValue option =>
    Text.ofLines ["No value provided for option ".toList ++ option.quoted ++ ['.']]
  | duplicate option value =>
    Text.ofLines
      ["Error parsing option ".toList ++ option.quoted ++ " with value ".toList ++
        value.quoted ++ ": duplicate values provided".toList]
  | afterHelp => "Trailing arguments are not allowed after `help`.".toList

end OptionError

namespace Options

/-- The options that take a value. -/
inductive Setting where
  | command
  | logLevel
deriving DecidableEq, Repr

def Setting.ofArg? (arg : Text) : Option Setting :=
  if arg = "-c".toList ∨ arg = "--command".toList then some command
  else if arg = "--log-level".toList then some logLevel
  else none

/-- The options with one more value, unless there is one already. -/
def fill? (options : Options) (setting : Setting) (value : Text) : Option Options :=
  match setting with
  | .command => if options.command.isSome then none else some { options with command := value }
  | .logLevel =>
    if options.logLevel.isSome then none else some { options with logLevel := value }

def asksForHelp (arg : Text) : Bool := arg = "--help".toList || arg = "help".toList

/-- What has been read so far. -/
structure Reading where
  options : Options := {}
  /-- Whether `--` has been read. -/
  ended : Bool := false
  /-- An option that waits for its value, as it was written. -/
  waiting : Option (Text × Setting) := none
deriving DecidableEq, Repr

/-- Read one more argument. -/
def Reading.next (r : Reading) (arg : Text) : Except OptionError Reading :=
  match r.waiting with
  | some (option, setting) =>
    match r.options.fill? setting arg with
    | some options => .ok { r with options := options, waiting := none }
    | none => .error (.duplicate option arg)
  | none =>
    if !r.ended && asksForHelp arg then
      .ok { r with options := { r.options with wantsHelp := true } }
    else if !r.ended && arg = ['-', '-'] then
      .ok { r with ended := true }
    else if !r.ended && arg.head? = some '-' then
      if r.options.wantsHelp then .error .afterHelp
      else
        match Setting.ofArg? arg with
        | some setting => .ok { r with waiting := some (arg, setting) }
        | none => .error (.unrecognized arg)
    else if r.options.script.isSome then
      .error (.unrecognized arg)
    else
      .ok { r with options := { r.options with script := arg } }

/-- The options at the end of the arguments. -/
def Reading.finish (r : Reading) : Except OptionError Options :=
  match r.waiting with
  | some (option, _) => .error (.missingValue option)
  | none => .ok r.options

def Reading.all (r : Reading) : List Text → Except OptionError Options
  | [] => r.finish
  | arg :: rest =>
    match r.next arg with
    | .ok r => r.all rest
    | .error error => .error error

def read (args : List Text) : Except OptionError Options := Reading.all {} args

def helpText (name : Text) : Text :=
  Text.ofLines
    ["Usage: ".toList ++ name
        ++ " [-c <command>] [--log-level <log-level>] [--] [<script>]".toList,
      [],
      "Line-oriented command interpreter with `;`, `&&` and `||` chaining.".toList,
      [],
      "Positional Arguments:".toList,
      "  script            script file to read commands from; standard input when".toList,
      "                    omitted.".toList,
      [],
      "Options:".toList,
      "  -c, --command     run the given command text instead of reading input, then".toList,
      "                    exit.".toList,
      "  --log-level       log filter used when RUST_LOG is not set (default: warn).".toList,
      "  --help, help      display usage information".toList,
      []]

end Options

end LineShell
