import Classfile.Descriptor.Basic

/-!
# Reading descriptors

Each reader takes what it needs from the front of the characters and returns the rest. A descriptor
as a whole leaves no rest.
-/

namespace Classfile

inductive DescriptorError where
  | baseLetter (found : Char)
  | missingBase
  | notObject
  | emptyClassName
  | illegalInClassName (found : Char) (before : String)
  | unterminatedClassName (name : String)
  | referenceLetter (found : Char)
  | fieldLetter (found : Char)
  | missingField
  | methodStart
  | unclosedParameters
  | leftover (found : Char) (source : String)
  deriving DecidableEq

def DescriptorError.message : DescriptorError → String
  | baseLetter c => s!"Invalid base type character '{c}'"
  | missingBase => "Missing base type character"
  | notObject => "Expected object type to start with `L`"
  | emptyClassName => "Empty class name in object type"
  | illegalInClassName c before => s!"Illegal character '{c}' in class name 'L{before}'"
  | unterminatedClassName name => s!"Missing terminator for 'L{name}'"
  | referenceLetter c => s!"Invalid reference type character '{c}'"
  | fieldLetter c => s!"Invalid field type character '{c}'"
  | missingField => "Missing field type"
  | methodStart => "Expected '(' for method"
  | unclosedParameters => "Expected ')' for method"
  | leftover c source => s!"Unexpected leftover input '{c}' in '{source}'"

namespace Descriptor

/-- A reader returns what it read together with the rest of the input. -/
abbrev Reader (α : Type) := List Char → Except DescriptorError (α × List Char)

def readBase : Reader BaseType
  | [] => .error .missingBase
  | c :: rest =>
    match BaseType.ofLetter? c with
    | some type => .ok (type, rest)
    | none => .error (.baseLetter c)

/-- Class names hold any character but the terminator, the dot and the bracket. -/
def isNameChar (c : Char) : Bool := c != ';' && c != '.' && c != '['

def readClassName : Reader String
  | 'L' :: rest =>
    let name := rest.takeWhile isNameChar
    match rest.dropWhile isNameChar with
    | [] => .error (.unterminatedClassName (String.ofList name))
    | ';' :: rest => if name.isEmpty then .error .emptyClassName else .ok (String.ofList name, rest)
    | c :: _ => .error (.illegalInClassName c (String.ofList name))
  | _ => .error .notObject

/-- What follows the brackets of an array type. -/
def readArrayElement : Reader Element
  | cs@('L' :: _) => (readClassName cs).map fun (name, rest) => (.object name, rest)
  | cs => (readBase cs).map fun (type, rest) => (.base type, rest)

/-- An element outside an array: a letter of no type is reported as a letter of no field type. -/
def readBareElement : Reader Element
  | [] => .error .missingField
  | cs@('L' :: _) => (readClassName cs).map fun (name, rest) => (.object name, rest)
  | c :: rest =>
    match BaseType.ofLetter? c with
    | some type => .ok (.base type, rest)
    | none => .error (.fieldLetter c)

/-- A text has fewer brackets than a word counts. -/
def readField : Reader FieldType
  | cs@('[' :: _) =>
    let dims := (cs.takeWhile (· == '[')).length
    (readArrayElement (cs.dropWhile (· == '['))).map fun (element, rest) =>
      (.ofDims dims element, rest)
  | cs => (readBareElement cs).map fun (element, rest) => (.bare element, rest)

/-- A field type that is no base type. -/
def readReference : Reader FieldType
  | [] => .error .missingField
  | cs@(c :: _) => if c == 'L' || c == '[' then readField cs else .error (.referenceLetter c)

/-- Parameters up to the closing parenthesis. A parameter takes at least one character, so the
number of characters bounds the number of rounds. -/
def readParameters : Nat → List FieldType → Reader (List FieldType)
  | _, read, ')' :: rest => .ok (read.reverse, rest)
  | 0, _, _ => .error .unclosedParameters
  | _ + 1, _, [] => .error .unclosedParameters
  | rounds + 1, read, cs =>
    match readField cs with
    | .ok (type, rest) => readParameters rounds (type :: read) rest
    | .error e => .error e

def readMethod : Reader MethodType
  | '(' :: cs =>
    match readParameters cs.length [] cs with
    | .ok (parameters, 'V' :: rest) => .ok (⟨parameters, none⟩, rest)
    | .ok (parameters, rest) =>
      (readField rest).map fun (result, rest) => (⟨parameters, some result⟩, rest)
    | .error e => .error e
  | _ => .error .methodStart

/-- Reads the whole text. -/
def parse {α : Type} (reader : Reader α) (source : String) : Except DescriptorError α :=
  match reader source.toList with
  | .ok (value, []) => .ok value
  | .ok (_, c :: _) => .error (.leftover c source)
  | .error e => .error e

end Descriptor

def FieldType.parse (source : String) : Except DescriptorError FieldType :=
  Descriptor.parse Descriptor.readField source

def MethodType.parse (source : String) : Except DescriptorError MethodType :=
  Descriptor.parse Descriptor.readMethod source

end Classfile
