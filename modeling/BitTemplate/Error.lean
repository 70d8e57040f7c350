import BitTemplate.Template.Diagnostic
import BitTemplate.Value.Text

/-!
Everything that can go wrong, by cause. A cause carries what its message shows. Some failures
have no text of their own: a value of the wrong kind in an arithmetic or structural position,
a value that lacks what is asked of it, a setting that is unknown, a shift by a negative amount,
a fraction where an integer is to be shown, a number that is too long to be read, written or
held, one that is not finite where an integer is looked for, a letter that a layout lacks, a
level of a listing that was never opened, and a schema that is itself malformed.
-/
namespace BitTemplate

/-- A keyword of a schema that an instance violates, and where: both are given as paths of keys
from the root. -/
structure Violation where
  location : List String
  keyword : List String
  deriving DecidableEq

inductive Error where
  /-- A value is not of the kind that its use requires. -/
  | wrongKind
  /-- A value that is no text is asked whether it is blank. -/
  | missingAttribute
  /-- A base or a precision is unknown. -/
  | unknownSetting
  /-- A width to shift by is negative. -/
  | negativeShift
  /-- A fraction exceeds its field, which can only be reported of integers. -/
  | fractionalExcess
  /-- A numeral has too many digits to be read or written. -/
  | longNumeral
  /-- A number would have more bits than any number can. -/
  | tooManyBits
  /-- A number or a text would not fit into memory. -/
  | outOfMemory
  /-- An infinite number stands where an integer is looked for. -/
  | infiniteNumber
  /-- A number without a value stands where an integer is looked for. -/
  | undefinedNumber
  /-- A layout has no field of the name. -/
  | missingField
  /-- A level of a listing is closed that was never opened. -/
  | unopenedLevel
  -- numbers
  | negative (n : Int)
  | negativeWidth (n : Int)
  | negativeOffset (n : Int)
  | doesNotFit (n width : Int)
  -- shapes
  | shapeWidthKind (v : Value)
  | shapeWidthRange (n : Int)
  | booleanWidth (n : Int)
  | notAShape (v : Value)
  | minimumNotStandard (s : Shape)
  -- templates and fields
  | notAText (v : Value)
  | wrongBase (text : String) (actual expected : Base)
  | diagnostic (d : Diagnostic)
  | notATemplate (v : Value)
  | fieldName (v : Value)
  | noPositions (name : Letter)
  | positionOutside (name : Letter) (position templateWidth : Value)
  | repeatedPositions (name : Letter) (positions : List Numeral)
  -- storing values
  | unknownPolicy (v : Value)
  | excess (name : Value) (value : Int) (width : Value)
  | notAField (v : Value)
  | sourceWidth (name : Letter) (v : Value)
  | widthsKind (v : Value)
  | widthOfUnknownField (name : Value) (text : String)
  -- operations
  | unknownEngine (v : Value)
  | unknownEngineVariable (setting : String)
  | tooManyValues (text : String) (fields values : Nat)
  | unknownKeyword (text : String) (keyword : Value)
  | boundTwice (name : Letter)
  | noInputs
  | valueCount (inputs values : Nat)
  | notOneField (text : String) (fields : Nat)
  | unpaired (function : String) (arguments : Nat)
  -- modules
  | operationsKind (v : Value)
  | functionNameKind (v : Value)
  | functionNameForm (name : String)
  | functionNameTaken (name : String)
  | notAnOperation (v : Value)
  -- documents
  | notALayout (v : Value)
  | schemaKind (v : Value)
  | schemaWithoutId (v : Value)
  | invalidSchema
  | nonconforming (violations : List Violation)

inductive ErrorClass where
  | type
  | attribute
  | value
  | key
  | invalidCharacter
  | invalidTemplateWidth
  | invalidCell
  | duplicateField
  | undefinedField
  | fieldOverflow
  | engine
  | overflow
  | memory
  | index
  | invalidSchema
  | nonconforming
  deriving DecidableEq

namespace Fault

def errorClass : Fault → ErrorClass
  | .invalidCharacter .. => .invalidCharacter
  | .wrongWidth .. => .invalidTemplateWidth
  | .placeholder .. => .invalidCell
  | .literal .. => .invalidCell
  | .duplicateField .. => .duplicateField
  | .unproducedField .. => .undefinedField
  | .unboundField .. => .undefinedField

end Fault

namespace Error

/-- The integers that the text of an error writes in decimal, as far as callers choose them. What
is only counted, such as fields or arguments, is left out, and so is the width of a slot, whose
largest value is worked out before. -/
def numbers : Error → List Int
  | .negative n => [n]
  | .negativeWidth n => [n]
  | .negativeOffset n => [n]
  | .doesNotFit n width => [n, width]
  | .shapeWidthKind v => v.numbers
  | .shapeWidthRange n => [n]
  | .booleanWidth n => [n]
  | .notAShape v => v.numbers
  | .notAText v => v.numbers
  | .notATemplate v => v.numbers
  | .fieldName v => v.numbers
  | .positionOutside _ position templateWidth => position.numbers ++ templateWidth.numbers
  | .repeatedPositions _ positions => positions.flatMap Numeral.numbers
  | .unknownPolicy v => v.numbers
  | .excess name _ _ => name.numbers
  | .notAField v => v.numbers
  | .sourceWidth _ v => v.numbers
  | .widthsKind v => v.numbers
  | .widthOfUnknownField name _ => name.numbers
  | .unknownEngine v => v.numbers
  | .unknownKeyword _ keyword => keyword.numbers
  | .operationsKind v => v.numbers
  | .functionNameKind v => v.numbers
  | .notAnOperation v => v.numbers
  | .notALayout v => v.numbers
  | .schemaKind v => v.numbers
  | .schemaWithoutId v => v.numbers
  | _ => []

/-- Whether the text of an error cannot be written, because a number in it has too many digits. -/
def isUnwritable (e : Error) : Bool := e.numbers.any Text.isLong

def causeClass : Error → ErrorClass
  | .wrongKind => .type
  | .missingAttribute => .attribute
  | .unknownSetting => .value
  | .negativeShift => .value
  | .fractionalExcess => .value
  | .longNumeral => .value
  | .tooManyBits => .overflow
  | .outOfMemory => .memory
  | .infiniteNumber => .overflow
  | .undefinedNumber => .value
  | .missingField => .key
  | .unopenedLevel => .index
  | .negative .. => .value
  | .negativeWidth .. => .value
  | .negativeOffset .. => .value
  | .doesNotFit .. => .value
  | .shapeWidthKind .. => .type
  | .shapeWidthRange .. => .type
  | .booleanWidth .. => .type
  | .notAShape .. => .type
  | .minimumNotStandard .. => .value
  | .notAText .. => .type
  | .wrongBase .. => .value
  | .diagnostic d => d.fault.errorClass
  | .notATemplate .. => .type
  | .fieldName .. => .type
  | .noPositions .. => .value
  | .positionOutside .. => .value
  | .repeatedPositions .. => .value
  | .unknownPolicy .. => .value
  | .excess .. => .fieldOverflow
  | .notAField .. => .type
  | .sourceWidth .. => .type
  | .widthsKind .. => .type
  | .widthOfUnknownField .. => .type
  | .unknownEngine .. => .engine
  | .unknownEngineVariable .. => .engine
  | .tooManyValues .. => .type
  | .unknownKeyword .. => .type
  | .boundTwice .. => .type
  | .noInputs => .type
  | .valueCount .. => .type
  | .notOneField .. => .type
  | .unpaired .. => .type
  | .operationsKind .. => .type
  | .functionNameKind .. => .type
  | .functionNameForm .. => .type
  | .functionNameTaken .. => .type
  | .notAnOperation .. => .type
  | .notALayout .. => .type
  | .schemaKind .. => .type
  | .schemaWithoutId .. => .invalidSchema
  | .invalidSchema => .invalidSchema
  | .nonconforming .. => .nonconforming

/-- The class that an error is reported as. One that cannot be shown is an error of writing it. -/
def errorClass (e : Error) : ErrorClass := if e.isUnwritable then .value else e.causeClass

def excessMessage (name : Value) (value : Int) (width : Value) : String :=
  "Field " ++ name.quoted ++ " value " ++ Text.binaryLiteral value ++
    " does not fit in its " ++ width.shown ++ "-bit slot (maximum " ++
    Text.binaryLiteral (Bits.ones (width.index?.getD 0).toNat) ++ ")"

def causeMessage? : Error → Option String
  | .wrongKind => none
  | .missingAttribute => none
  | .unknownSetting => none
  | .negativeShift => none
  | .fractionalExcess => none
  | .longNumeral => none
  | .tooManyBits => none
  | .outOfMemory => none
  | .infiniteNumber => none
  | .undefinedNumber => none
  | .missingField => none
  | .unopenedLevel => none
  | .negative n => some (Text.decimal n ++ " is negative")
  | .negativeWidth n => some ("Width " ++ Text.decimal n ++ " is negative")
  | .negativeOffset n => some ("Offset " ++ Text.decimal n ++ " is negative")
  | .doesNotFit n width =>
    some (Text.decimal n ++ " does not fit in " ++ Text.decimal width ++ " bits")
  | .shapeWidthKind v => some ("Width must be an integer, not " ++ v.quoted)
  | .shapeWidthRange n =>
    some ("Width must be an integer between 1 and 128, not " ++ Text.decimal n)
  | .booleanWidth n => some ("Width of a boolean shape must be 1, not " ++ Text.decimal n)
  | .notAShape v => some ("Object " ++ v.quoted ++ " cannot be converted to a shape")
  | .minimumNotStandard s =>
    some ("Minimum shape " ++ s.name ++ " is only allowed with exact-width precision; use " ++
      "one of bool, u8, u16, u32, u64, or u128")
  | .notAText v => some ("Template must be a string, not " ++ v.quoted)
  | .wrongBase text actual expected =>
    some ("Template " ++ Text.quote text ++ " is " ++ actual.adjective ++ ", not " ++
      expected.adjective)
  | .diagnostic d => some d.message
  | .notATemplate v => some ("Template layout must be built from a template, not " ++ v.quoted)
  | .fieldName v => some ("Field name must be a single ASCII letter, not " ++ v.quoted)
  | .noPositions name => some ("Field " ++ name.quoted ++ " must have at least one position")
  | .positionOutside name position templateWidth =>
    some ("Field " ++ name.quoted ++ " position " ++ position.quoted ++ " is outside of a " ++
      templateWidth.shown ++ "-bit template")
  | .repeatedPositions name positions =>
    some ("Field " ++ name.quoted ++ " positions " ++ DeclaredField.tupleText positions ++
      " are not unique")
  | .unknownPolicy v =>
    some ("Overflow policy must be one of 'truncate', 'panic', 'corrupt', or 'saturate', not " ++
      v.quoted)
  | .excess name value width => some (excessMessage name value width)
  | .notAField v => some ("Slot field must be a field layout, not " ++ v.quoted)
  | .sourceWidth name v =>
    some ("Source width of field " ++ name.quoted ++ " must be a positive integer, not " ++
      v.quoted)
  | .widthsKind v => some ("Source widths must be provided as a mapping, not " ++ v.quoted)
  | .widthOfUnknownField name text =>
    some ("Source width is provided for field " ++ name.quoted ++
      ", which is not a part of template " ++ Text.quote text)
  | .unknownEngine v => some ("Engine must be 'compiled' or 'interpreted', not " ++ v.quoted)
  | .unknownEngineVariable setting =>
    some ("The SPLITBITS_USE_ENGINE environment variable contains an unrecognized engine " ++
      Text.quote setting)
  | .tooManyValues text fields values =>
    some ("Template " ++ Text.quote text ++ " has " ++ Text.decimalNat fields ++
      " fields, but " ++ Text.decimalNat values ++ " values were provided")
  | .unknownKeyword text keyword =>
    some ("Template " ++ Text.quote text ++ " has no field named " ++ keyword.quoted)
  | .boundTwice name =>
    some ("Field " ++ name.quoted ++ " was provided both by position and by name")
  | .noInputs => some "At least one input template must be provided"
  | .valueCount inputs values =>
    some ("Expected " ++ Text.decimalNat inputs ++ " values, one per input template, but " ++
      Text.decimalNat values ++ " were provided")
  | .notOneField text fields =>
    some ("Template " ++ Text.quote text ++ " must have exactly one field, not " ++
      Text.decimalNat fields)
  | .unpaired function arguments =>
    some (function ++ "() takes pairs of a value and an input template followed by an output " ++
      "template, but " ++ Text.decimalNat arguments ++ " arguments were provided")
  | .operationsKind v => some ("Operations must be provided as a mapping, not " ++ v.quoted)
  | .functionNameKind v => some ("Function name must be a string, not " ++ v.quoted)
  | .functionNameForm name =>
    some ("Function name must be a valid Python identifier, not " ++ Text.quote name)
  | .functionNameTaken name =>
    some ("Function name " ++ Text.quote name ++ " is already used in the generated module")
  | .notAnOperation v => some ("Object " ++ v.quoted ++ " is not a compiled operation")
  | .notALayout v => some ("Layout must be a TemplateLayout, not " ++ v.quoted)
  | .schemaKind v => some ("Annotation schema must be a dict, not " ++ v.quoted)
  | .schemaWithoutId v =>
    some ("'$id' keyword is missing from Annotation schema: " ++ v.shown)
  | .invalidSchema => none
  | .nonconforming _ => none

/-- The text of an error that cannot be written in place of its own. The excess of a field is made
into an object first, and what goes wrong there has no text. -/
def limitMessage? : Error → Option String
  | .excess .. => none
  | _ => some ("Exceeds the limit (" ++ Text.decimalNat Text.digitLimit ++
      " digits) for integer string conversion; use sys.set_int_max_str_digits() to increase the limit")

/-- The text that an error is reported with, if it has one. -/
def message? (e : Error) : Option String :=
  if e.isUnwritable then e.limitMessage? else e.causeMessage?

end Error

end BitTemplate
