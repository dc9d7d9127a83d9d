import Schematic.Calendar.Iso
import Schematic.Text.Quote

/-!
# Faults

Everything that can go wrong while declaring a schema or running one, as a cause. Validation
failures are not faults: they are codes in a message map. A fault is raised when a declaration
is malformed, when a context is used against its contract, when data is not a mapping, when a
synchronous run meets an asynchronous validator, or when a custom rule or a bound comparison
fails in the host's own terms.

`Fault.message` gives the one text of each cause and `Fault.className` the class under which it
is raised; `Fault.isDefinition` tells the causes that are schema definition errors.
-/

namespace Schematic

/-- The order operators a bound or a rule can apply. -/
inductive Comparison where
  | lt
  | gt
  | ge
  deriving Repr, DecidableEq

/-- The operator's symbol. -/
def Comparison.symbol : Comparison → String
  | .lt => "<"
  | .gt => ">"
  | .ge => ">="

/-- A cause of failure. Field-related causes carry the field name when one is known. -/
inductive Fault where
  | emptySpec (field : Option String)
  | missingType (field : Option String)
  | arrayShorthand (field : Option String)
  | invalidType (field : Option String) (shown : String)
  | invalidSpec (field : Option String) (errors : Nat)
  | fieldName (shown : String)
  | noFields
  | fieldsNotMapping
  | frozenRegister
  | frozenUnregister
  | notATag (shown : String)
  | unknownType (name : String)
  | unknownField (path : String)
  | notMapping (schema : String) (typeName : String)
  | pending (fields : List String)
  | invalidOptions (errors : Nat)
  | incomparable (op : Comparison) (left right : String)
  | naiveAware
  | dateAgainstDateTime
  | fieldNotText
  | messageNotText (field : String)
  | unhashable (typeName : String)
  | noCandidates
  | raised (message : String)
  | noLength (typeName : String)
  | noAttribute (typeName : String) (member : String)
  /-- A class asked for a method it does not have. -/
  | classNoAttribute (className : String) (member : String)
  /-- A class's own method called with a first argument that is not of that class. -/
  | descriptorMismatch (member : String) (owner : String) (typeName : String)
  /-- A class's own method called with its first argument only, taken as the instance. -/
  | unboundCall (member : String)
  | prefixType (typeName : String)
  | containsOperand (typeName : String)
  | notContainer (typeName : String)
  | notIterable (typeName : String)
  | updateSequence (index : Nat) (length : Nat)
  | notSequenceElement (index : Nat)
  | tuplePrefix (typeName : String)
  | frameViolations (schema : String) (violations : Nat) (rows : Nat)
  | missingKey (shown : String)
  | recursionLimit
  /-- Text that does not spell an integer, as the integer class reads it. -/
  | integerLiteral (shown : String)
  /-- Text that does not spell a double. -/
  | floatLiteral (shown : String)
  | nanToInteger
  | infinityToInteger
  | integerTooLargeForFloat
  /-- A numeral with more digits than text conversion allows. -/
  | digitLimit (digits : Nat)
  | integerArgument (typeName : String)
  | floatArgument (typeName : String)
  | noArguments
  | missingArgument (name : String) (position : Nat)
  | notAnInteger (typeName : String)
  /-- An integer outside the range of a machine integer: above it, or below it. -/
  | machineOverflow (above : Bool)
  | longOverflow
  | indexOverflow
  | textWithoutEncoding
  | negativeCount
  | byteRange
  | notBytes (typeName : String)
  | bytesPrefixType (typeName : String)
  | latinState (kind : String)
  /-- A cell of a frame column that the column's type does not take. -/
  | cellType (column found shown : String)
  | columnHeight (column : String) (height : Nat) (first : String) (firstHeight : Nat)
  | duplicateColumn (name : String)
  /-- A list cell holds a cell its element type cannot take. -/
  | listCellType (column : String)
  /-- A value of no type a cell can hold. -/
  | unconvertible (shown : String)
  /-- An integer beyond 128 bits. -/
  | integerBeyondColumns (n : Int)
  /-- A mapping key that is not text, given by its class. -/
  | keyNotText (typeName : String)
  /-- Two cell types that meet in no supertype, by their short names. -/
  | noSupertype (left right : String)
  /-- A row value a structure field cannot take, with its type's short name. -/
  | appendValue (shown typeName : String)
  /-- A double given for a date or date-time column, with the host class it should have been. -/
  | notTemporal (target : String)
  /-- A cast between two types that the host cannot do, by their storage names. -/
  | unsupportedCast (source target : String)
  /-- A cast of text to dates or date-times (`kind`), which the host leaves to its date parser. -/
  | textToTemporal (kind : String)
  /-- A cast of a list to a type that is not a list, by the names of the list's element type
  and of the target. -/
  | listToFlat (inner target : String)
  /-- A list whose items, cast to its element type, keep a type of their own. -/
  | listItemTypes
  /-- Text in a date or date-time column that no known date format reads. -/
  | dateFormat
  /-- Texts of a column that a date format did not read: the types, the column, how many failed
  out of how many, and the failed ones as a list. -/
  | conversionFailed (source target column : String) (failed total : Nat) (shown : String)
  /-- A row of a structure column that should have been a mapping, by its class. -/
  | notMappingRow (typeName : String)
  /-- A row of a structure column that should have been a sequence, by its class. -/
  | notSequenceRow (typeName : String)
  /-- A text given as a row of a structure column read by position. -/
  | textRow
  /-- A first row whose length is not the number of fields of a structure column. -/
  | columnCount
  /-- A row whose length is not that of the first row. -/
  | rowLength (index length expected : Nat)
  /-- A structure with a field of host objects; `wrapped` when raised while building a series
  from values. -/
  | nestedObjects (wrapped : Bool)
  /-- A list of host objects; `wrapped` when raised while building a series from values. -/
  | nestedObjectTypes (wrapped : Bool)
  | base64Padding
  | base64Length (characters : Nat)
  | base64Ascii
  /-- Text that names no date or date-time, and why. -/
  | calendar (problem : Iso.Problem) (shown : String)
  deriving Repr, DecidableEq

namespace Fault

/-- `" for name"` after a field-related text, or nothing when no name is known or it is empty. -/
def forField : Option String → String
  | some name => if name.isEmpty then "" else " for " ++ name
  | none => ""

/-- `"N validation error(s) for Model"`. -/
def errorCount (n : Nat) (model : String) : String :=
  toString n ++ (if n = 1 then " validation error for " else " validation errors for ") ++ model

/-- A list of names as the host writes it: `['a', 'b']`, each quoted. -/
def nameList (names : List String) : String :=
  "[" ++ ", ".intercalate (names.map Quote.text) ++ "]"

/-- The text of a fault. -/
def message : Fault → String
  | .emptySpec f => "Empty field specification" ++ forField f
  | .missingType f => "Missing field type" ++ forField f
  | .arrayShorthand f => "Array type must declare exactly one element type" ++ forField f
  | .invalidType f shown => "Invalid field type" ++ forField f ++ ": " ++ shown
  | .invalidSpec f n =>
    "Invalid field specification" ++ forField f ++ ": " ++ errorCount n "FieldSpec"
  | .fieldName shown => "Field names must be strings, got " ++ shown
  | .noFields => "No defined fields"
  | .fieldsNotMapping => "Invalid fields argument"
  | .frozenRegister => "Cannot register types on a frozen registry"
  | .frozenUnregister => "Cannot unregister types on a frozen registry"
  | .notATag shown => "Not a type tag : " ++ shown
  | .unknownType name => "Unknown type : " ++ name
  | .unknownField path => "Unknown field : " ++ path
  | .notMapping schema t => schema ++ " expects a mapping, got " ++ t
  | .pending fields =>
    "Fields " ++ nameList fields ++ " have asynchronous validators; use validate_async()"
  | .invalidOptions n => errorCount n "SchemaOptions"
  | .incomparable op l r =>
    "'" ++ op.symbol ++ "' not supported between instances of '" ++ l ++ "' and '" ++ r ++ "'"
  | .naiveAware => "can't compare offset-naive and offset-aware datetimes"
  | .dateAgainstDateTime => "can't compare datetime.datetime to datetime.date"
  | .fieldNotText => "Invalid field value"
  | .messageNotText f => "Invalid message for " ++ f
  | .unhashable t => "unhashable type: '" ++ t ++ "'"
  | .noCandidates => "AnyOf requires at least one candidate type"
  | .raised m => m
  | .noLength t => "object of type '" ++ t ++ "' has no len()"
  | .noAttribute t a => "'" ++ t ++ "' object has no attribute '" ++ a ++ "'"
  | .classNoAttribute c a => "type object '" ++ c ++ "' has no attribute '" ++ a ++ "'"
  | .descriptorMismatch a c t =>
    "descriptor '" ++ a ++ "' for '" ++ c ++ "' objects doesn't apply to a '" ++ t ++ "' object"
  | .unboundCall a => a ++ "() takes at least 1 argument (0 given)"
  | .prefixType t => "startswith first arg must be str or a tuple of str, not " ++ t
  | .containsOperand t => "'in <string>' requires string as left operand, not " ++ t
  | .notContainer t => "argument of type '" ++ t ++ "' is not iterable"
  | .notIterable t => "'" ++ t ++ "' object is not iterable"
  | .updateSequence i n =>
    "dictionary update sequence element #" ++ toString i ++ " has length " ++ toString n ++
      "; 2 is required"
  | .tuplePrefix t => "tuple for startswith must only contain str, not " ++ t
  | .notSequenceElement i =>
    "cannot convert dictionary update sequence element #" ++ toString i ++ " to a sequence"
  | .frameViolations schema n rows =>
    "Schema validation failed for " ++ schema ++ "\nFound " ++ toString n ++ " violations in " ++
      toString rows ++ " rows."
  | .missingKey shown => shown
  | .recursionLimit => "maximum recursion depth exceeded"
  | .integerLiteral shown => "invalid literal for int() with base 10: " ++ shown
  | .floatLiteral shown => "could not convert string to float: " ++ shown
  | .nanToInteger => "cannot convert float NaN to integer"
  | .infinityToInteger => "cannot convert float infinity to integer"
  | .integerTooLargeForFloat => "int too large to convert to float"
  | .digitLimit n =>
    "Exceeds the limit (4300 digits) for integer string conversion: value has " ++ toString n ++
      " digits; use sys.set_int_max_str_digits() to increase the limit"
  | .integerArgument t =>
    "int() argument must be a string, a bytes-like object or a real number, not '" ++ t ++ "'"
  | .floatArgument t => "float() argument must be a string or a real number, not '" ++ t ++ "'"
  | .noArguments => "object() takes no arguments"
  | .missingArgument name pos =>
    "function missing required argument '" ++ name ++ "' (pos " ++ toString pos ++ ")"
  | .notAnInteger t => "'" ++ t ++ "' object cannot be interpreted as an integer"
  | .machineOverflow above =>
    if above then "signed integer is greater than maximum"
    else "signed integer is less than minimum"
  | .longOverflow => "Python int too large to convert to C long"
  | .indexOverflow => "cannot fit 'int' into an index-sized integer"
  | .textWithoutEncoding => "string argument without an encoding"
  | .negativeCount => "negative count"
  | .byteRange => "bytes must be in range(0, 256)"
  | .notBytes t => "cannot convert '" ++ t ++ "' object to bytes"
  | .bytesPrefixType t => "startswith first arg must be bytes or a tuple of bytes, not " ++ t
  | .latinState kind =>
    "Failed to encode latin1 string when unpickling a " ++ kind ++
      " object. pickle.load(data, encoding='latin1') is assumed."
  | .cellType column found shown =>
    "unexpected value while building Series of type " ++ column ++ "; found value of type " ++
      found ++ ": " ++ shown
  | .columnHeight column n first m =>
    "could not create a new DataFrame: height of column '" ++ column ++ "' (" ++ toString n ++
      ") does not match height of column '" ++ first ++ "' (" ++ toString m ++ ")"
  | .duplicateColumn name =>
    "could not create a new DataFrame: column with name '" ++ name ++
      "' has more than one occurrence"
  | .listCellType column => "unexpected value while building Series of type " ++ column
  | .unconvertible shown => "Cannot convert " ++ shown
  | .integerBeyondColumns n => "int value too large for Polars integer types: " ++ toString n
  | .keyNotText t =>
    if t == "NoneType" then "'None' is not an instance of 'str'"
    else "'" ++ t ++ "' object is not an instance of 'str'"
  | .noSupertype l r => "failed to determine supertype of " ++ l ++ " and " ++ r
  | .appendValue shown t =>
    "could not append value: " ++ shown ++ " of type: " ++ t ++ " to the builder; make sure " ++
      "that all rows have the same schema or consider increasing \x60infer_schema_length\x60"
  | .notTemporal t => "'float' object cannot be interpreted as a '" ++ t ++ "'"
  | .unsupportedCast s t => "casting from " ++ s ++ " to " ++ t ++ " not supported"
  | .textToTemporal kind => "casting from string to " ++ kind ++ " is not supported."
  | .listToFlat inner target =>
    "cannot cast List type (inner: '" ++ inner ++ "', to: '" ++ target ++ "')"
  | .listItemTypes => "cannot build list with different dtypes "
  | .dateFormat =>
    "could not find an appropriate format to parse dates, please define a format"
  | .conversionFailed s t column k n shown =>
    "conversion from \x60" ++ s ++ "\x60 to \x60" ++ t ++ "\x60 failed in column '" ++ column ++
      "' for " ++ toString k ++ " out of " ++ toString n ++ " values: " ++ shown
  | .notMappingRow t => "'" ++ t ++ "' object is not an instance of 'Mapping'"
  | .notSequenceRow t => "'" ++ t ++ "' object is not an instance of 'Sequence'"
  | .textRow => "Can't extract \x60str\x60 to \x60Vec\x60"
  | .columnCount => "data does not match the number of columns"
  | .rowLength i l n =>
    "row at index " ++ toString i ++ " has length " ++ toString l ++ " (expected " ++
      toString n ++ ")"
  | .nestedObjects _ => "nested objects are not allowed"
  | .nestedObjectTypes _ => "not yet implemented: Nested object types"
  | .base64Padding => "Incorrect padding"
  | .base64Length n =>
    "Invalid base64-encoded string: number of data characters (" ++ toString n ++
      ") cannot be 1 more than a multiple of 4"
  | .base64Ascii => "string argument should contain only ASCII characters"
  | .calendar p shown => p.message shown

/-- The class under which a fault is raised. -/
def className : Fault → String
  | .unknownType _ => "UnknownTypeError"
  | .unknownField _ => "UnknownFieldError"
  | .notMapping _ _ => "StructureError"
  | .pending _ => "AsyncValidationError"
  | .invalidOptions _ => "ValidationError"
  | .incomparable _ _ _ | .naiveAware | .dateAgainstDateTime | .fieldNotText
  | .messageNotText _ | .unhashable _ | .noCandidates | .noLength _ | .prefixType _
  | .containsOperand _ | .notContainer _ | .notIterable _ | .notSequenceElement _
  | .tuplePrefix _ | .integerArgument _ | .floatArgument _ | .noArguments
  | .missingArgument _ _ | .notAnInteger _ | .textWithoutEncoding | .notBytes _
  | .bytesPrefixType _ | .cellType _ _ _ | .descriptorMismatch _ _ _
  | .unboundCall _ | .listCellType _ | .keyNotText _ | .noSupertype _ _ | .notTemporal _
  | .notMappingRow _ | .notSequenceRow _ | .textRow | .nestedObjects true
  | .nestedObjectTypes true => "TypeError"
  | .raised _ | .updateSequence _ _ | .frameViolations _ _ _ | .integerLiteral _
  | .floatLiteral _ | .nanToInteger | .digitLimit _ | .negativeCount | .byteRange
  | .latinState _ | .base64Ascii | .calendar _ _ | .unconvertible _ => "ValueError"
  | .infinityToInteger | .integerTooLargeForFloat | .machineOverflow _ | .longOverflow
  | .indexOverflow | .integerBeyondColumns _ => "OverflowError"
  | .appendValue _ _ | .dateFormat | .nestedObjectTypes false => "ComputeError"
  | .unsupportedCast _ _ | .textToTemporal _ | .listToFlat _ _ | .conversionFailed _ _ _ _ _ _
  | .nestedObjects false =>
    "InvalidOperationError"
  | .columnHeight _ _ _ _ | .columnCount | .rowLength _ _ _ => "ShapeError"
  | .duplicateColumn _ => "DuplicateError"
  | .listItemTypes => "SchemaError"
  | .base64Padding | .base64Length _ => "Error"
  | .noAttribute _ _ | .classNoAttribute _ _ => "AttributeError"
  | .missingKey _ => "KeyError"
  | .recursionLimit => "RecursionError"
  | _ => "SchemaDefinitionError"

/-- The causes raised as schema definition errors, unknown aliases and fields included. -/
def isDefinition (f : Fault) : Bool :=
  f.className == "SchemaDefinitionError" || f.className == "UnknownTypeError" ||
    f.className == "UnknownFieldError"

end Fault

end Schematic
