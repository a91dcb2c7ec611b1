import ProtoWire.Bytes.Sha256
import ProtoWire.Command.Arguments
import ProtoWire.Json.Printer
import ProtoWire.Json.Written
import ProtoWire.Message.Json
import ProtoWire.Message.Marshal
import ProtoWire.Message.Merge
import ProtoWire.Registry.Load

/-!
# Running requests

A request is carried out in two steps, since a program should not read its input
before the schema and the message type are known to be there: `prepare` loads the
schema, and `finish` turns the input into what is printed.
-/

set_option autoImplicit false

namespace ProtoWire.Command

/-- Why a request fails. -/
inductive Fault where
  | schemaUnreadable (path : String)
  | schemaInvalid (path : String)
  | schemaUnloadable (fault : LoadFault)
  | unknownType (name : String)
  | inputUnreadable (path : String)
  | inputNotJson (path : String)
  | inputNotUtf8
  | inputNotHex (fault : HexFault)
  | unfit (error : Unfit)
  | failure (cause : Failure)
  | noTable (error : Unbuildable)
  deriving DecidableEq, Repr

/-- The wording of a fault. -/
def Fault.message : Fault → String
  | .schemaUnreadable path => "Cannot read schema file " ++ path
  | .schemaInvalid path => "Invalid schema file " ++ path
  | .schemaUnloadable fault => fault.message
  | .unknownType name => "Unknown message type '" ++ name ++ "'"
  | .inputUnreadable path => "Cannot read " ++ path
  | .inputNotJson path => "Invalid JSON in " ++ path
  | .inputNotUtf8 => "Hex input is not UTF-8"
  | .inputNotHex fault => "Invalid hex input: " ++ fault.message
  | .unfit error => error.message
  | .failure cause => cause.report
  | .noTable error => error.message

/-- A loaded schema and the type that a request is about. -/
structure Prepared where
  invocation : Invocation
  registry : Registry
  type : MessageType

/-- Loads a schema document into a new registry of the given identifier. -/
def loadSchema (id : RegistryId) (path text : String) : Except Fault Registry :=
  match (Written.ofText? text).bind Schema.ofWritten with
  | none => .error (.schemaInvalid path)
  | some schema => ((Registry.empty id).load schema).mapError Fault.schemaUnloadable

/-- Loads the schema, given what its file holds if it can be read, and looks up
the message type. -/
def prepare (invocation : Invocation) (schema : Option Bytes) : Except Fault Prepared := do
  match schema.bind Bytes.toText? with
  | none => .error (.schemaUnreadable invocation.schema)
  | some text =>
      let registry ← loadSchema ⟨0⟩ invocation.schema text
      match registry.type? invocation.message with
      | none => .error (.unknownType invocation.message)
      | some type => return ⟨invocation, registry, type⟩

/-- The characters that Unicode counts as white space. -/
def isBlank (c : Char) : Bool :=
  let n := c.toNat
  (9 ≤ n && n ≤ 13) || n == 0x20 || n == 0x85 || n == 0xA0 || n == 0x1680 ||
    (0x2000 ≤ n && n ≤ 0x200A) || n == 0x2028 || n == 0x2029 || n == 0x202F ||
    n == 0x205F || n == 0x3000

/-- Takes white space off both ends. -/
def trim (text : String) : String :=
  String.ofList ((text.toList.dropWhile isBlank).reverse.dropWhile isBlank).reverse

/-- A line of text. -/
def line (text : String) : Bytes :=
  Bytes.ofText (text ++ "\n")

/-- The message that a JSON input describes. -/
def readMessage (prepared : Prepared) (input : Bytes) : Except Fault Message :=
  match (Bytes.toText? input).bind Json.parse with
  | none => .error (.inputNotJson prepared.invocation.input)
  | some json => (prepared.registry.readMessage prepared.type json).mapError Fault.unfit

/-- The bytes that an encoded input holds: its own, or those that its text shows. -/
def readEncoding (raw : Bool) (input : Bytes) : Except Fault Bytes :=
  if raw then .ok input
  else
    match Bytes.toText? input with
    | none => .error .inputNotUtf8
    | some text => (Bytes.ofHex (trim text)).mapError Fault.inputNotHex

/-- The encoding of a message. -/
def encoding (store : Store) (message : Message) : Except Fault Bytes :=
  (message.encode.run store).1.2.mapError Fault.failure

/-- One field of a table. -/
def describeEntry (entry : FieldEntry) : Json :=
  .ofMembers
    [ ("number", .int entry.number),
      ("kind", .string entry.codec.kind.name),
      ("coding", .string entry.codec.arrangement.name),
      ("wire_type", .string entry.codec.wireType.name),
      ("tag_size", .int entry.codec.tagSize),
      ("pointer", .bool entry.mayBeAbsent),
      ("required", .bool entry.isRequired),
      ("oneof_group", match entry.group with
        | some index => .int index
        | none => .null),
      ("message_type", match entry.codec.valueType with
        | some type => .string type.fullName
        | none => .null) ]

/-- The table of a type. -/
def describeTable (type : MessageType) (table : FieldTable) : Json :=
  .ofMembers
    [ ("message_type", .string type.fullName),
      ("message_set", .bool table.isMessageSet),
      ("needs_init_check", .bool table.needsInitCheck),
      ("required_fields", .int table.requiredCount),
      ("dense_len", .int table.dense.length),
      ("marshal_order", .array (table.writingOrder.map fun entry => .int entry.number)),
      ("fields", .array (table.entries.map describeEntry)) ]

/-- What is printed for a prepared request, given the input if it can be read. -/
def finish (prepared : Prepared) (input : Option Bytes) : Except Fault Bytes := do
  let store : Store := ⟨[prepared.registry]⟩
  let readInput : Except Fault Bytes :=
    match input with
    | some bytes => .ok bytes
    | none => .error (.inputUnreadable prepared.invocation.input)
  match prepared.invocation.task with
  | .encode =>
      let bytes ← encoding store (← readMessage prepared (← readInput))
      return if prepared.invocation.raw then bytes else line (Bytes.toHex bytes)
  | .size =>
      let message ← readMessage prepared (← readInput)
      match ((message.size false).run store).1.2 with
      | .ok size => return line (toString size)
      | .error error => .error (.failure (.build error))
  | .digest =>
      let bytes ← encoding store (← readMessage prepared (← readInput))
      return line (Bytes.toHex (Sha256.digest bytes))
  | .decode =>
      let bytes ← readEncoding prepared.invocation.raw (← readInput)
      match ((prepared.type.decode bytes).run store).1 with
      | .ok message => return line (Json.wide 0 message.toJson)
      | .error failure => .error (.failure failure)
  | .table =>
      match (Coding.table prepared.type).run store with
      | (.ok table, _) => return line (Json.wide 0 (describeTable prepared.type table))
      | (.error error, _) => .error (.noTable error)

/-- What a run of the program leaves. -/
structure Outcome where
  exitCode : UInt32
  output : Bytes
  /-- Why the run failed; wrong arguments have no text of their own. -/
  fault : Option Fault
  deriving DecidableEq, Repr

/-- Carries out the request that the arguments make, with files given by path. -/
def run (files : String → Option Bytes) (standardInput : Bytes) (arguments : List String) :
    Outcome :=
  match parse arguments with
  | none => ⟨2, [], none⟩
  | some invocation =>
      let result : Except Fault Bytes := do
        let prepared ← prepare invocation (files invocation.schema)
        finish prepared
          (if isStandardInput invocation.input then some standardInput
            else files invocation.input)
      match result with
      | .ok output => ⟨0, output, none⟩
      | .error fault => ⟨1, [], some fault⟩

end ProtoWire.Command
