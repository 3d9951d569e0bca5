import EntityScripts.Decimal.Shortest
import EntityScripts.Json.Basic
import EntityScripts.Text.Quoted
import EntityScripts.Text.Search

/-!
What can be wrong with a JSON document: the text is not JSON, it ends too early, or the value is not
of the shape that is asked for. Messages say what is wrong and not where: the line and column that
follow for a document read from a text are left out.
-/
namespace EntityScripts

/-- Numbers in messages are positional from five places behind the point to sixteen before it. -/
def realStyle : Decimal.Style := ⟨-5, 15⟩

def Number.text : Number → String
  | .natural n => Nat.repr n
  | .negative n => "-" ++ Nat.repr (n + 1)
  | .real x => Decimal.floatText realStyle x

namespace Json

inductive Found where
  | null
  | flag (b : Bool)
  | number (n : Number)
  | text (s : String)
  | list
  | object

inductive Wanted where
  | text
  | flag
  | list
  | object
  | record (name : String)
  | alternative
  | nothing
  | fieldList
  | tagged (name : String)
  | tag

inductive Size where
  | record (name : String) (fields : Nat)
  | exactly (n : Nat)
  | fewer

inductive Fault where
  | endInValue
  | endInText
  | endInList
  | endInObject
  | expectedValue
  | expectedWord
  | expectedColon
  | expectedListComma
  | expectedObjectComma
  | trailingComma
  | trailingCharacters
  | keyNotText
  | invalidNumber
  | numberOutOfRange
  | invalidEscape
  | loneSurrogate
  | unfinishedEscape
  | invalidCodePoint
  | controlCharacter
  | tooDeep
  | wrongType (found : Found) (wanted : Wanted)
  | missingField (name : String)
  | duplicateField (name : String)
  | unknownAlternative (name : String) (known : List String)
  | manyAlternatives
  | noAlternative (name : String)
  | wrongLength (found : Nat) (size : Size)

inductive Fault.Family where
  | malformed
  | shape
  | truncated
deriving DecidableEq

namespace Fault

def family : Fault → Family
  | endInValue | endInText | endInList | endInObject => .truncated
  | wrongType .. | missingField _ | duplicateField _ | unknownAlternative .. | manyAlternatives
  | noAlternative _ | wrongLength .. => .shape
  | _ => .malformed

end Fault

def Found.describe : Found → String
  | null => "null"
  | flag true => "boolean `true`"
  | flag false => "boolean `false`"
  | number (.real x) => "floating point `" ++ Number.text (.real x) ++ "`"
  | number n => "integer `" ++ Number.text n ++ "`"
  | text s => "string " ++ Text.quoted s
  | list => "sequence"
  | object => "map"

def Wanted.describe : Wanted → String
  | text => "a string"
  | flag => "a boolean"
  | list => "a sequence"
  | object => "a map"
  | record name => "struct " ++ name
  | alternative => "string or map"
  | nothing => "unit"
  | fieldList => "an object mapping field names to type expressions"
  | tagged name => "internally tagged enum " ++ name
  | tag => "variant identifier"

def countOf (n : Nat) (noun : String) : String :=
  Nat.repr n ++ " " ++ noun ++ if n = 1 then "" else "s"

def Size.describe : Size → String
  | record name n => name ++ " with " ++ countOf n "element"
  | exactly n => countOf n "element" ++ " in sequence"
  | fewer => "fewer elements in array"

def describeAlternatives (known : List String) : String :=
  match known.map (fun k => "`" ++ k ++ "`") with
  | [a] => a
  | [a, b] => a ++ " or " ++ b
  | all => "one of " ++ Text.joinWith ", " all

def Fault.message : Fault → String
  | endInValue => "EOF while parsing a value"
  | endInText => "EOF while parsing a string"
  | endInList => "EOF while parsing a list"
  | endInObject => "EOF while parsing an object"
  | expectedValue => "expected value"
  | expectedWord => "expected ident"
  | expectedColon => "expected `:`"
  | expectedListComma => "expected `,` or `]`"
  | expectedObjectComma => "expected `,` or `\x7d`"
  | trailingComma => "trailing comma"
  | trailingCharacters => "trailing characters"
  | keyNotText => "key must be a string"
  | invalidNumber => "invalid number"
  | numberOutOfRange => "number out of range"
  | invalidEscape => "invalid escape"
  | loneSurrogate => "lone leading surrogate in hex escape"
  | unfinishedEscape => "unexpected end of hex escape"
  | invalidCodePoint => "invalid unicode code point"
  | controlCharacter => "control character (\\u0000-\\u001F) found while parsing a string"
  | tooDeep => "recursion limit exceeded"
  | wrongType found wanted =>
    "invalid type: " ++ found.describe ++ ", expected " ++ wanted.describe
  | missingField name => "missing field `" ++ name ++ "`"
  | duplicateField name => "duplicate field `" ++ name ++ "`"
  | unknownAlternative name known =>
    "unknown variant `" ++ name ++ "`, expected " ++ describeAlternatives known
  | manyAlternatives => "invalid value: map, expected map with a single key"
  | noAlternative name => "data did not match any variant of untagged enum " ++ name
  | wrongLength n size => "invalid length " ++ Nat.repr n ++ ", expected " ++ size.describe

end Json
end EntityScripts
