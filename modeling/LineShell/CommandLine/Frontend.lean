import LineShell.CommandLine.Invocation
import LineShell.CommandLine.LogFilter
import LineShell.CommandLine.Options

/-!
# The frontend of the program

* `Options.arguments`: what options come to for a run.
* `Frontend.standard`: arguments are read as options, and the filter of the log is taken from a
  variable or from an option. Lines of the log carry the time, and none is written.
-/

namespace LineShell

/-- The arguments of a run. Warnings are logged if the options do not say otherwise. -/
def Options.arguments (options : Options) : Arguments :=
  { command := options.command
    logLevel := options.logLevel.getD "warn".toList
    script := options.script }

namespace Frontend

/-- The last name in the path the program was started under, or that text itself if its
last name is `..` or it has none. -/
def shortName (path : Text) : Text :=
  match Path.location (Utf8.encode path) with
  | [] => path
  | name :: _ => if name = Path.up then path else Utf8.decode name

/-- The exit after arguments that do not fit. -/
def misused (name : Text) (error : OptionError) : Exit :=
  { status := 1
    err := Utf8.encode (error.message ++ Text.ofLines
      [[], "Run ".toList ++ shortName name ++ " --help for more information.".toList]) }

def readOptions (name : Text) (args : List Text) : Except Exit Arguments :=
  match Options.read args with
  | .error error => .error (misused name error)
  | .ok options =>
    if options.wantsHelp then
      .error { status := 0, out := Utf8.encode (Options.helpText (shortName name)) }
    else .ok options.arguments

def setUpLog (block : List Bytes) (level : Text) : LogSetup :=
  let held := (Environment.blockValue? block LogFilter.variableName).bind Utf8.text?
  let opening := LogFilter.opening held level
  let notices := Utf8.encode (Text.ofLines opening.notices)
  if opening.broken then .broken notices else .ready notices .silent

def standard : Frontend := { read := readOptions, setUp := setUpLog }

end Frontend

end LineShell
