/-!
# Command-line arguments

The schema and the logging options stand in front of the name of a task; the
message type, the input and, for some tasks, the raw option follow it. What the
logging options ask for does not change what is printed on standard output.
-/

set_option autoImplicit false

namespace ProtoWire.Command

/-- What is to be done with a message type. -/
inductive Task where
  /-- Encode a JSON value. -/
  | encode
  /-- Print the encoded size of a JSON value. -/
  | size
  /-- Print the digest of the encoding of a JSON value. -/
  | digest
  /-- Decode an encoding and print it as JSON. -/
  | decode
  /-- Print the field table of the type. -/
  | table
  deriving DecidableEq, Repr

namespace Task

def ofName? : String → Option Task
  | "encode" => some .encode
  | "size" => some .size
  | "digest" => some .digest
  | "decode" => some .decode
  | "table" => some .table
  | _ => none

/-- Whether the encoding may be asked for, or given, as raw bytes. -/
def allowsRaw : Task → Bool
  | .encode | .decode => true
  | _ => false

/-- Whether the task takes an input. -/
def takesInput : Task → Bool
  | .table => false
  | _ => true

end Task

/-- A request. -/
structure Invocation where
  /-- The path of the schema. -/
  schema : String
  task : Task
  /-- The full name of the message type. -/
  message : String
  /-- The path of the input. -/
  input : String
  raw : Bool
  deriving DecidableEq, Repr

/-- Whether a path stands for standard input: a dash, behind which nothing may
follow but slashes and single points between them. -/
def isStandardInput (path : String) : Bool :=
  match path.splitOn "/" with
  | "-" :: parts => parts.all fun part => part == "" || part == "."
  | _ => false

/-- The options in front of the task, as far as they matter. -/
structure Options where
  schema : Option String
  jsonLogs : Bool
  deriving DecidableEq, Repr

/-- Sets the path of the schema, once and to something. -/
def Options.withSchema (options : Options) (path : String) : Option Options :=
  if options.schema.isSome ∨ path.isEmpty then none
  else some { options with schema := some path }

/-- Asks for logs as JSON, once. -/
def Options.withJsonLogs (options : Options) : Option Options :=
  if options.jsonLogs then none else some { options with jsonLogs := true }

/-- Whether an argument looks like an option; a lone dash does not. -/
def looksLikeOption (argument : String) : Bool :=
  argument.startsWith "-" && argument != "-"

/-- Takes the value of an option from the arguments after it. -/
def takeValue : List String → Option (String × List String)
  | [] => none
  | argument :: rest => if looksLikeOption argument then none else some (argument, rest)

/-- Reads one-letter options that share a dash. The value of the schema option is
the rest of the letters, less an equals sign in front, or else the next argument. -/
def readLetters : Options → List Char → List String → Option (Options × List String)
  | options, [], rest => some (options, rest)
  | options, 'v' :: letters, rest => readLetters options letters rest
  | options, 's' :: letters, rest =>
      match letters with
      | [] => do
          let (path, rest) ← takeValue rest
          return (← options.withSchema path, rest)
      | '=' :: path => do return (← options.withSchema (String.ofList path), rest)
      | path => do return (← options.withSchema (String.ofList path), rest)
  | _, _ :: _, _ => none

/-- The name of a long option and what stands behind its equals sign. -/
def splitLong (argument : String) : String × Option String :=
  let letters := argument.toList.drop 2
  match letters.dropWhile (· ≠ '=') with
  | '=' :: value => (String.ofList (letters.takeWhile (· ≠ '=')), some (String.ofList value))
  | _ => (String.ofList letters, none)

/-- Reads a long option. -/
def readLong (options : Options) (argument : String) (rest : List String) :
    Option (Options × List String) :=
  match splitLong argument with
  | ("schema", some path) => do return (← options.withSchema path, rest)
  | ("schema", none) => do
      let (path, rest) ← takeValue rest
      return (← options.withSchema path, rest)
  | ("log-json", none) => do return (← options.withJsonLogs, rest)
  | ("verbose", none) => some (options, rest)
  | _ => none

/-- What follows the name of a task: values in order, and the raw option. Behind
a double dash everything is a value. -/
def readTail (allowsRaw : Bool) : Bool → Bool → List String → Option (Bool × List String)
  | _, raw, [] => some (raw, [])
  | valuesOnly, raw, argument :: rest =>
      if valuesOnly || !looksLikeOption argument then do
        let (raw, values) ← readTail allowsRaw valuesOnly raw rest
        return (raw, argument :: values)
      else if argument = "--" then readTail allowsRaw true raw rest
      else if (argument = "-r" ∨ argument = "--raw") ∧ allowsRaw ∧ !raw then
        readTail allowsRaw valuesOnly true rest
      else none

/-- Reads the arguments of a task. -/
def readTask (options : Options) (task : Task) (rest : List String) : Option Invocation := do
  let schema ← options.schema
  let (raw, values) ← readTail task.allowsRaw false false rest
  match values with
  | [message] => return ⟨schema, task, message, "-", raw⟩
  | [message, input] =>
      if task.takesInput ∧ ¬ input.isEmpty then return ⟨schema, task, message, input, raw⟩
      else none
  | _ => none

/-- Reads options up to the name of a task. No more arguments are read than
`limit`. -/
def readArguments : Nat → Options → List String → Option Invocation
  | 0, _, _ => none
  | _, _, [] => none
  | limit + 1, options, argument :: rest =>
      if argument = "--" then none
      else if argument.startsWith "--" then do
        let (options, rest) ← readLong options argument rest
        readArguments limit options rest
      else if looksLikeOption argument then do
        let (options, rest) ← readLetters options (argument.toList.drop 1) rest
        readArguments limit options rest
      else do
        readTask options (← Task.ofName? argument) rest

/-- The request that the arguments make, if they make one. -/
def parse (arguments : List String) : Option Invocation :=
  readArguments arguments.length ⟨none, false⟩ arguments

end ProtoWire.Command
