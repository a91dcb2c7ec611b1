import ProtoWire.Registry.Basic
import ProtoWire.Schema.Document

/-!
# Loading schemas

A schema is loaded into a new registry: the message types first, so that the
extensions find the types of their values.
-/

set_option autoImplicit false

namespace ProtoWire

/-- Why a schema cannot be loaded. -/
inductive LoadFault where
  | badType (error : Misuse)
  | badExtension (name : String) (failure : Failure)
  deriving DecidableEq, Repr

/-- The wording of a fault. -/
def LoadFault.message : LoadFault → String
  | .badType error => error.message
  | .badExtension name failure => "Cannot register extension " ++ name ++ ": " ++ failure.report

namespace Registry

/-- Registers what a schema declares, up to the first thing that cannot be. -/
def load (registry : Registry) (schema : Schema) : Except LoadFault Registry := do
  let registry ← schema.messages.foldlM
    (fun registry entry =>
      match registry.register entry.1 entry.2 with
      | .ok (_, registry) => .ok registry
      | .error error => .error (LoadFault.badType error))
    registry
  schema.extensions.foldlM
    (fun registry descriptor =>
      match registry.registerExtension descriptor with
      | .ok (_, registry) => .ok registry
      | .error failure => .error (LoadFault.badExtension descriptor.fullName failure))
    registry

end Registry

end ProtoWire
