import RubyFormat.Options
import RubyFormat.Text.Digit
import RubyFormat.Text.Quoted

/-!
# The arguments of a run

Arguments are read from left to right, and the first fault ends the reading.  Whether the phase is
known, and whether it agrees with a check, is looked at when all arguments are read.
-/

namespace RubyFormat.CommandLine

/-- The phase after which a run stops. -/
inductive Phase where
  | parse
  | doc
  deriving DecidableEq, Repr

/-- The phase of the given name. -/
def Phase.ofName? : String → Option Phase
  | "parse" => some .parse
  | "doc" => some .doc
  | _ => none

/-- What a run is asked to do. -/
structure Request where
  options : Options := {}
  stopAt : Option Phase := none
  check : Bool := false
  input : Option String := none
  output : Option String := none
  deriving DecidableEq, Repr

/-- What can be wrong with the arguments. -/
inductive UsageError where
  | missingArgument (flag : String)
  | invalidIndent (value : String)
  | unknownFlag (flag : String)
  | unexpectedArgument (argument : String)
  | unknownPhase (name : String)
  | checkWithPhase
  deriving DecidableEq, Repr

/-- The wording of a usage error. -/
def UsageError.message : UsageError → String
  | .missingArgument flag => flag ++ " requires an argument"
  | .invalidIndent value => "invalid indent width '" ++ value ++ "'"
  | .unknownFlag flag => "unknown flag '" ++ flag ++ "'"
  | .unexpectedArgument argument => "unexpected argument '" ++ argument ++ "'"
  | .unknownPhase name => "unknown phase '" ++ name ++ "'"
  | .checkWithPhase => "--check cannot be combined with --stop-at"

/-- Why digits give no number. -/
inductive NumeralError where
  /-- Not all of the digits are decimal. -/
  | notDecimal (value : String)
  /-- There are more decimal digits than are read. -/
  | tooLong (digits : Nat)
  deriving DecidableEq, Repr

/-- The wording of an error; a long text is cut. -/
def NumeralError.message : NumeralError → String
  | .notDecimal value =>
      "invalid literal for int() with base 10: "
        ++ String.ofList ((Text.quoted value).toList.take 200)
  | .tooLong digits =>
      "Exceeds the limit (" ++ toString Text.maxDigits
        ++ " digits) for integer string conversion: value has " ++ toString digits
        ++ " digits; use sys.set_int_max_str_digits() to increase the limit"

/-- The number that digits write. -/
def numeral (value : String) : Except NumeralError Nat :=
  let decimals := value.toList.takeWhile fun c => (Text.decimalValue? c).isSome
  if Text.maxDigits < decimals.length then
    .error (.tooLong decimals.length)
  else
    match Text.decimal? value.toList with
    | none => .error (.notDecimal value)
    | some number => .ok number

/-- Why the arguments give no request. -/
inductive ArgumentStop where
  /-- Help is asked for. -/
  | help
  | usage (error : UsageError)
  /-- The digits of the width give no number. -/
  | numeral (error : NumeralError)
  deriving DecidableEq, Repr

/-- The width of indentation that an argument gives. -/
def indentWidth (value : String) : Except ArgumentStop Nat :=
  if value.isEmpty || !value.toList.all Text.isDigit then
    .error (.usage (.invalidIndent value))
  else
    match numeral value with
    | .error error => .error (.numeral error)
    | .ok 0 => .error (.usage (.invalidIndent value))
    | .ok width => .ok width

/-- What has been read of the arguments; the phase is still a name. -/
structure Reading where
  request : Request := {}
  phase : Option String := none
  deriving DecidableEq, Repr

/-- The request, if the phase is known and agrees with the rest. -/
def Reading.finish (reading : Reading) : Except ArgumentStop Request :=
  match reading.phase with
  | none => .ok reading.request
  | some name =>
      match Phase.ofName? name with
      | none => .error (.usage (.unknownPhase name))
      | some phase =>
          if reading.request.check then .error (.usage .checkWithPhase)
          else .ok { reading.request with stopAt := some phase }

/-- Read arguments after those read already. -/
def readArguments (reading : Reading) : List String → Except ArgumentStop Request
  | [] => reading.finish
  | flag :: rest =>
      let request := reading.request
      if flag = "--help" ∨ flag = "-h" then
        .error .help
      else if flag = "--to-proc" then
        readArguments
          { reading with request := { request with options.toProc := true } } rest
      else if flag = "--check" then
        readArguments { reading with request := { request with check := true } } rest
      else if flag = "--stop-at" ∨ flag = "--indent" ∨ flag = "-o" ∨ flag = "--output" then
        match rest with
        | [] => .error (.usage (.missingArgument flag))
        | value :: rest =>
            if flag = "--stop-at" then
              readArguments { reading with phase := some value } rest
            else if flag = "--indent" then
              match indentWidth value with
              | .error stop => .error stop
              | .ok width =>
                  readArguments
                    { reading with request := { request with options.indentWidth := width } } rest
            else
              readArguments { reading with request := { request with output := some value } } rest
      else if flag.toList.head? = some '-' then
        .error (.usage (.unknownFlag flag))
      else if request.input.isSome then
        .error (.usage (.unexpectedArgument flag))
      else
        readArguments { reading with request := { request with input := some flag } } rest

/-- The request that arguments make. -/
def Request.ofArguments (arguments : List String) : Except ArgumentStop Request :=
  readArguments {} arguments

/-- The lines of the help text. -/
def usageLines : List String := [
  "garnet [OPTIONS] [INPUT] [-o OUTPUT]",
  "",
  "Options:",
  "  --to-proc           Rewrite simple blocks into &:method shorthand",
  "  --stop-at PHASE     Stop after phase: parse (AST JSON), doc (debug doc)",
  "  --check             Exit 1 if formatting would change INPUT",
  "  --indent N          Indent width (default 2)",
  "  -o, --output FILE   Write output to FILE instead of stdout",
  "  --help              Show this help message"]

/-- The help text. -/
def usage : String :=
  String.join (usageLines.map (· ++ "\n"))

end RubyFormat.CommandLine
