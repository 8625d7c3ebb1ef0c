import FlowEngine.Identifier
import FlowEngine.Text.Quoted
/-! Faults in written records: text that is no document, text that breaks off, and documents whose
values have the wrong shape. `Fault.message` words the last kind; the first two have no wording. -/

namespace FlowEngine.Markup

inductive Found where
  | null
  | boolean (b : Bool)
  | integer (i : Int)
  | decimal (shown : String)
  | string (s : String)
  | sequence
  | map
  deriving DecidableEq, Repr

def Found.message : Found → String
  | .null => "null"
  | .boolean b => s!"boolean `{b}`"
  | .integer i => s!"integer `{i}`"
  | .decimal shown => s!"floating point `{shown}`"
  | .string s => s!"string {Text.Quoted.quoted s}"
  | .sequence => "sequence"
  | .map => "map"

inductive Rejection where
  | identifier (kind : IdentifierKind) (raw : String) (fault : IdentifierFault)
  | blankUseAs
  | missingUseAs (source : String)
  | unclearStepInput
  deriving DecidableEq, Repr

def Rejection.message : Rejection → String
  | .identifier kind raw fault => s!"invalid {kind.label} `{raw}`: {fault.message kind.label}"
  | .blankUseAs => "step input `use-as` must be non-empty"
  | .missingUseAs source =>
    s!"step input redirecting output of `{source}` is missing required `use-as`"
  | .unclearStepInput =>
    "step input must be either `use-flow-input` or `use-output-from-step` with `use-as`"

inductive Mismatch where
  | wrongType (found : Found) (expected : String)
  | outOfRange (found : Found) (expected : String)
  | wrongLength (length : Nat) (expected : String)
  | missingField (name : String)
  | duplicateField (name : String)
  | unknownVariant (given : String) (known : List String)
  | rejected (why : Rejection)
  deriving DecidableEq, Repr

def alternatives : List String → String
  | [] => "there are no variants"
  | [a] => s!"expected `{a}`"
  | [a, b] => s!"expected `{a}` or `{b}`"
  | all => "expected one of " ++ ", ".intercalate (all.map fun a => s!"`{a}`")

def Mismatch.message : Mismatch → String
  | .wrongType found expected => s!"invalid type: {found.message}, expected {expected}"
  | .outOfRange found expected => s!"invalid value: {found.message}, expected {expected}"
  | .wrongLength length expected => s!"invalid length {length}, expected {expected}"
  | .missingField name => s!"missing field `{name}`"
  | .duplicateField name => s!"duplicate field `{name}`"
  | .unknownVariant given known => s!"unknown variant `{given}`, {alternatives known}"
  | .rejected why => why.message

inductive Fault where
  | malformed
  | truncated
  | mismatch (m : Mismatch)
  deriving DecidableEq, Repr

def Fault.wrongType (found : Found) (expected : String) : Fault :=
  .mismatch (.wrongType found expected)

end FlowEngine.Markup
