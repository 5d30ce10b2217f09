/-
# Command-line arguments

Options take one value each.  They may stand before, between and after the other
arguments, until two dashes end them.

| form | value |
| --- | --- |
| `--name value`, `-n value` | the next argument, which must not look like an option |
| `--name=value`, `-n=value` | what follows the equals sign, even if empty |
| `-nvalue` | what follows the letter |

A dash alone is an ordinary argument.
-/

namespace ScopeTrack

/-- An option that a command takes. -/
structure OptionName where
  long : String
  short : Option Char := none
deriving DecidableEq, Repr

/-- An argument with its meaning. -/
inductive Argument where
  /-- An argument of the command itself. -/
  | plain (text : String)
  /-- An option, by its long name, and its value. -/
  | option (name value : String)
  /-- The request for help; what follows it does not count. -/
  | help
deriving DecidableEq, Repr

namespace Argument

/-- What one argument is by its looks. -/
inductive Look where
  | plain
  /-- The end of the options. -/
  | separator
  | help
  /-- An option with its value. -/
  | complete (name value : String)
  /-- An option whose value is the next argument. -/
  | incomplete (name : String)
  | unknown
deriving DecidableEq, Repr

/-- The option and what follows it in the same argument. -/
def Look.ofOption (option : Option OptionName) (rest : List Char) : Look :=
  match option, rest with
  | none, _ => .unknown
  | some option, [] => .incomplete option.long
  | some option, '=' :: value => .complete option.long (String.ofList value)
  | some option, value => .complete option.long (String.ofList value)

/-- What an argument of a command with the given options looks like. -/
def look (options : List OptionName) (argument : String) : Look :=
  match argument.toList with
  | ['-'] => .plain
  | ['-', '-'] => .separator
  | '-' :: '-' :: cs =>
    let (name, rest) := cs.span (· != '=')
    if String.ofList name = "help" then
      if rest = [] then .help else .unknown
    else
      .ofOption (options.find? fun option => option.long = String.ofList name) rest
  | '-' :: c :: cs =>
    if c = 'h' then .help
    else .ofOption (options.find? fun option => option.short = some c) cs
  | _ => .plain

/-- Whether an argument starts with a dash and is more than a dash. -/
def isDashed (argument : String) : Bool :=
  argument.toList.head? = some '-' && argument ≠ "-"

/-- The meaning of the arguments of a command; `none` if they are refused. -/
def scan (options : List OptionName) : List String → Option (List Argument)
  | [] => some []
  | argument :: rest =>
    match look options argument with
    | .plain => (scan options rest).map (.plain argument :: ·)
    | .separator => some (rest.map .plain)
    | .help => some [.help]
    | .complete name value => (scan options rest).map (.option name value :: ·)
    | .incomplete name =>
      match rest with
      | [] => none
      | value :: rest =>
        if isDashed value then none else (scan options rest).map (.option name value :: ·)
    | .unknown => none

/-- The arguments of the command itself. -/
def plains (arguments : List Argument) : List String :=
  arguments.filterMap fun
    | .plain text => some text
    | _ => none

/-- The value of an option, if it is given; `none` if it is given twice. -/
def value? (name : String) (arguments : List Argument) : Option (Option String) :=
  let values := arguments.filterMap fun
    | .option other value => if other = name then some value else none
    | _ => none
  match values with
  | [] => some none
  | [value] => some (some value)
  | _ => none

end Argument
end ScopeTrack
