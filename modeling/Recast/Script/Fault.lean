import Recast.Decimal.Layout

set_option autoImplicit false

/-!
# Faults of evaluation

Why an expression has no value. The wording of each fault is fixed here and nowhere else.
-/

namespace Recast.Script

inductive Operation where
  | addition
  | subtraction
  | multiplication
  | division
  | power
  | negation
  | minus
  | conversion
deriving Repr, DecidableEq

def Operation.overflowText : Operation → String
  | .addition => "Addition overflow"
  | .subtraction => "Subtraction overflow"
  | .multiplication => "Multiplication overflow"
  | .division => "Division overflow"
  | .power => "Exponential overflow"
  | .negation => "Negation overflow"
  | .minus => "integer overflow"
  | .conversion => "Integer overflow"

inductive Indexed where
  | array
  | text
  | bits
deriving Repr, DecidableEq

def Indexed.name : Indexed → String
  | .array => "Array"
  | .text => "String"
  | .bits => "Bit-field"

inductive Fault where
  | divisionByZero
  | moduloByZero
  | overflow (operation : Operation)
  | negativePower
  | outOfBounds (indexed : Indexed) (index : Int)
  | typeMismatch
  | noIndexer
  | unknownProperty
  | nonPureMethod
  | functionNotFound (name : String)
  | variableNotFound (name : String)
  | constantModified (name : String)
  | textTooLong
  | arrayTooLarge
  | mapTooLarge
  | noInteger
  | noFloat
  | invalidRadix
  | undefinedSign
  | laterTime
  | notIterable
  | raised (reason : String)
  | stackOverflow
  | tooManyOperations
  | invalidScript
deriving Repr, DecidableEq

def Fault.message : Fault → String
  | .divisionByZero => "Division by zero"
  | .moduloByZero => "Modulo division by zero or overflow"
  | .overflow operation => operation.overflowText
  | .negativePower => "Integer raised to a negative power"
  | .outOfBounds indexed index =>
    indexed.name ++ " index " ++ String.ofList (Decimal.intText index) ++ " out of bounds"
  | .typeMismatch => "Data type incorrect"
  | .noIndexer => "Indexer unavailable"
  | .unknownProperty => "Unknown property"
  | .nonPureMethod => "Non-pure method"
  | .functionNotFound name => "Function not found: " ++ name
  | .variableNotFound name => "Variable not found: " ++ name
  | .constantModified name => "Cannot modify constant " ++ name
  | .textTooLong => "Length of string too large"
  | .arrayTooLarge => "Size of array/BLOB too large"
  | .mapTooLarge => "Size of object map too large"
  | .noInteger => "Error parsing integer number"
  | .noFloat => "Error parsing floating-point number"
  | .invalidRadix => "Invalid radix"
  | .undefinedSign => "Sign of NaN is undefined"
  | .laterTime => "Time-stamp is later than now"
  | .notIterable => "For loop expects iterable type"
  | .raised reason => if reason.isEmpty then "Runtime error" else "Runtime error: " ++ reason
  | .stackOverflow => "Stack overflow"
  | .tooManyOperations => "Too many operations"
  | .invalidScript => "Syntax error"

/-- Limits are no matter of the script, and neither is a text that is none. -/
def Fault.isCatchable : Fault → Bool
  | .textTooLong => false
  | .arrayTooLarge => false
  | .mapTooLarge => false
  | .stackOverflow => false
  | .tooManyOperations => false
  | .invalidScript => false
  | _ => true

end Recast.Script
