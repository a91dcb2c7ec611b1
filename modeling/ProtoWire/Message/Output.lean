import ProtoWire.Bytes.Basic
import ProtoWire.Failure

/-!
# Outputs

Writing stops at the first value that cannot be encoded, and what was written
before it stays. An output is therefore some bytes and perhaps a failure; outputs
are put together by `andThen`, under which a failed output swallows what follows.
-/

set_option autoImplicit false

namespace ProtoWire

/-- Bytes written, and what stopped the writing, if anything did. -/
structure Output where
  bytes : Bytes
  failure : Option Unencodable
  deriving DecidableEq, Repr

namespace Output

/-- Nothing written. -/
def empty : Output :=
  ⟨[], none⟩

/-- Bytes written without failure. -/
def ofBytes (bytes : Bytes) : Output :=
  ⟨bytes, none⟩

/-- A failure before anything was written. -/
def fail (error : Unencodable) : Output :=
  ⟨[], some error⟩

/-- A failure of the value at hand. -/
def failHere (fault : ValueFault) : Output :=
  fail (.here fault)

/-- Whether writing was stopped. -/
def failed (output : Output) : Bool :=
  output.failure.isSome

/-- One output after another, unless the first one failed. -/
def andThen (first second : Output) : Output :=
  if first.failed then first else ⟨first.bytes ++ second.bytes, second.failure⟩

/-- The same output seen from one level further out. -/
def under (step : PathStep) (output : Output) : Output :=
  { output with failure := output.failure.map (·.under step) }

@[simp]
theorem empty_andThen (output : Output) : empty.andThen output = output := by
  simp [andThen, empty, failed]

@[simp]
theorem andThen_empty (output : Output) : output.andThen empty = output := by
  cases output with
  | mk bytes failure => cases failure <;> simp [andThen, empty, failed]

theorem andThen_assoc (a b c : Output) :
    (a.andThen b).andThen c = a.andThen (b.andThen c) := by
  cases a with
  | mk bytes failure =>
      cases failure with
      | some error => simp [andThen, failed]
      | none =>
          cases b with
          | mk bytes' failure' => cases failure' <;> simp [andThen, failed]

end Output

end ProtoWire
