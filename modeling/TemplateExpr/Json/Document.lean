import TemplateExpr.Decimal.Numeral
import TemplateExpr.Json.Basic

/-!
JSON documents and the data that they stand for. A document keeps what the data loses: how a number
is spelled, the order and repetition of keys, and texts with half of a surrogate pair in them.
-/
namespace TemplateExpr

structure NumberLiteral where
  numeral : Numeral
  whole : Bool
  deriving DecidableEq

namespace NumberLiteral

/-- The integer that a literal denotes, unless it is spelled as a decimal or as a negative zero. -/
def integer? (l : NumberLiteral) : Option Int :=
  let n := l.numeral.magnitude.coefficient
  if !l.whole || (l.numeral.negative && n == 0) then none
  else some (if l.numeral.negative then -n else n)

def toNumber? (l : NumberLiteral) : Option Number :=
  match l.integer?.filter fun n => -(Nat.pow 2 63 : Int) ≤ n && n < Nat.pow 2 64 with
  | some n => some (.integer n)
  | none => match l.numeral.toDouble with
      | .finite x => some (.double x)
      | _ => none

end NumberLiteral

/-- A text is none where its escapes leave half of a surrogate pair alone. -/
inductive Document where
  | null
  | boolean (b : Bool)
  | number (literal : NumberLiteral)
  | text (s : Option String)
  | array (items : List Document)
  | object (fields : List (Option String × Document))

namespace Document

mutual

/-- The data that a document stands for: of fields with one key the last counts. Whole numbers that
64 bits hold, with or without a sign, are integers; a text with half of a surrogate pair is no
data. -/
def toJson? : Document → Option Json
  | .null => some .null
  | .boolean b => some (.boolean b)
  | .number l => l.toNumber?.map .number
  | .text s => s.map .text
  | .array items => (itemsToJson? items).map .array
  | .object fields => (fieldsToJson? fields).map fun fs => .object (Table.ofEntries fs)

def itemsToJson? : List Document → Option (List Json)
  | [] => some []
  | d :: ds => do some ((← toJson? d) :: (← itemsToJson? ds))

def fieldsToJson? : List (Option String × Document) → Option (List (String × Json))
  | [] => some []
  | (k, d) :: ds => do some ((← k, ← toJson? d) :: (← fieldsToJson? ds))

end

end Document

end TemplateExpr
