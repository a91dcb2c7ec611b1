import ProtoWire.Message.Access
import ProtoWire.Registry.Store

/-!
# Required fields

A message is initialized if it and all messages in it have their required fields
set. Messages of a type whose table says that nothing it reaches can lack a field
are not looked into.
-/

set_option autoImplicit false

namespace ProtoWire

/-- Whether every element passes; elements after one that fails are not tried. -/
def Coding.all {α : Type} (test : α → Coding Bool) : List α → Coding Bool
  | [] => return true
  | x :: xs => do
      if ← test x then Coding.all test xs else return false

namespace Value

/-- Whether the messages of a type that a value holds, alone or in lists nested
no deeper than the number, pass a test. -/
def allMessages (test : MessageType → Message → Coding Bool) (type : MessageType) :
    Nat → Value → Coding Bool
  | _, .message inner => test type inner
  | depth + 1, .list items => Coding.all (allMessages test type depth) items
  | _, _ => return true

end Value

namespace MessageOf

/-- Whether every required field of a table is set. -/
def hasRequired (table : FieldTable) (message : Message) : Bool :=
  table.entries.all fun entry => !entry.isRequired || (message.slot? entry.position).isSome

/-- Whether a message has its required fields, and the messages in it pass a test. -/
def checkBody (nested : MessageType → Value → Coding Bool) (table : FieldTable)
    (message : Message) : Coding Bool := do
  if !hasRequired table message then return false
  else
    let fields ← Coding.all
      (fun (entry : FieldEntry) =>
        match entry.codec.valueType, message.slot? entry.position with
        | some type, some value => nested type value
        | _, _ => return true)
      table.entries
    if !fields then return false
    else
      Coding.all
        (fun (entry : Attached) =>
          match entry.type.valueType with
          | some type => nested type entry.value
          | none => return true)
        message.attached

/-- Whether a message passes the check of a declared type. A type whose table
cannot be built fails. The number bounds how deeply values nest in the message. -/
def checkAt : Nat → MessageType → Message → Coding Bool
  | depth, type, message => do
      match ← Coding.table type with
      | .error _ => return false
      | .ok table =>
          if !table.needsInitCheck then return true
          else
            match depth with
            | 0 => checkBody (fun _ _ => return true) table message
            | depth + 1 =>
                checkBody (fun type value => value.allMessages (checkAt depth) type value.height)
                  table message

end MessageOf

/-- Whether a message, checked as one of the given type, is initialized. -/
def MessageType.isInitialized (type : MessageType) (message : Message) :
    Coding (Except Unbuildable Bool) := do
  match ← Coding.table type with
  | .error error => return .error error
  | .ok _ => return .ok (← MessageOf.checkAt message.height type message)

end ProtoWire
