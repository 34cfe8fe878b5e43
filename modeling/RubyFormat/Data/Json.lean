import RubyFormat.Data.Basic
import RubyFormat.Text.Quoted

/-!
# Data as JSON text

A list or object opens a block with one part a line, two blanks further in than the line that
opens it; an empty one, and a list whose parts have no parts of their own, stay on one line.

`Data.json` is the text of any data.  `Data.dump` refuses data with an integer that has more decimal
digits than are allowed.
-/

namespace RubyFormat

/-- Why something has no dump. -/
inductive DumpError where
  /-- There is a thing that is no data, by the name of what it is. -/
  | foreign (typeName : String)
  /-- An integer has more digits than are allowed. -/
  | tooLong (limit : Nat)
  deriving DecidableEq, Repr

/-- The wording of an error. -/
def DumpError.message : DumpError → String
  | .foreign typeName => "cannot serialize " ++ typeName
  | .tooLong limit =>
      "Exceeds the limit (" ++ toString limit ++ " digits) for integer string conversion; "
        ++ "use sys.set_int_max_str_digits() to increase the limit"

namespace Data

/-- One character of a JSON text between its quotes. -/
def jsonChar (c : Char) : List Char :=
  if c = '\\' then ['\\', '\\']
  else if c = '"' then ['\\', '"']
  else if c = '\n' then ['\\', 'n']
  else if c = '\r' then ['\\', 'r']
  else if c = '\t' then ['\\', 't']
  else if c.toNat < 0x20 then '\\' :: 'u' :: Text.hexadecimal 4 c.toNat
  else [c]

/-- A text between JSON quotes. -/
def jsonText (text : String) : List Char :=
  '"' :: text.toList.flatMap jsonChar ++ ['"']

/-- An integer in decimal digits. -/
def decimal : Int → List Char
  | .ofNat value => Nat.toDigits 10 value
  | .negSucc value => '-' :: Nat.toDigits 10 (value + 1)

/-- Whether an integer has no more decimal digits than are allowed; a limit of zero is none. -/
def fits (limit : Nat) (value : Int) : Bool :=
  limit = 0 || value.natAbs < Nat.pow 10 limit

/-- The blanks at the start of a line of the given depth. -/
def jsonMargin (depth : Nat) : List Char :=
  List.replicate (2 * depth) ' '

/-- Lines between two brackets, the closing one at the margin of the given depth. -/
def jsonBlock (left right : Char) (depth : Nat) (lines : List (List Char)) : List Char :=
  left :: '\n' :: [',', '\n'].intercalate lines ++ '\n' :: jsonMargin depth ++ [right]

mutual

/-- The JSON text of data that starts on a line of the given depth. -/
def jsonAt (depth : Nat) : Data → List Char
  | .null => "null".toList
  | .bool true => "true".toList
  | .bool false => "false".toList
  | .int value => decimal value
  | .text value => jsonText value
  | .list items =>
      if items.isEmpty then ['[', ']']
      else if items.any isNested then
        jsonBlock '[' ']' depth ((jsonItems (depth + 1) items).map (jsonMargin (depth + 1) ++ ·))
      else
        '[' :: [',', ' '].intercalate (jsonItems depth items) ++ [']']
  | .object entries =>
      if entries.isEmpty then ['\x7b', '\x7d']
      else jsonBlock '\x7b' '\x7d' depth (jsonEntries (depth + 1) entries)

/-- The JSON texts of the items of a list. -/
def jsonItems (depth : Nat) : List Data → List (List Char)
  | [] => []
  | item :: items => jsonAt depth item :: jsonItems depth items

/-- The lines of the entries of an object. -/
def jsonEntries (depth : Nat) : List (String × Data) → List (List Char)
  | [] => []
  | (key, value) :: entries =>
      (jsonMargin depth ++ jsonText key ++ [':', ' '] ++ jsonAt depth value)
        :: jsonEntries depth entries

end

/-- Data as JSON text. -/
def json (data : Data) : String :=
  String.ofList (jsonAt 0 data)

mutual

/-- The integers in data. -/
def ints : Data → List Int
  | .int value => [value]
  | .list items => intsOfItems items
  | .object entries => intsOfEntries entries
  | .null | .bool _ | .text _ => []

/-- The integers in the items of a list. -/
def intsOfItems : List Data → List Int
  | [] => []
  | item :: items => ints item ++ intsOfItems items

/-- The integers in the values of an object. -/
def intsOfEntries : List (String × Data) → List Int
  | [] => []
  | (_, value) :: entries => ints value ++ intsOfEntries entries

end

/-- Data as JSON text, if no integer in it has more digits than are allowed. -/
def dump (limit : Nat) (data : Data) : Except DumpError String :=
  if data.ints.all (fits limit) then .ok data.json else .error (.tooLong limit)

end Data

end RubyFormat
