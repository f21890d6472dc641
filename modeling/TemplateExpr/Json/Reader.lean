import TemplateExpr.Json.Lexeme

namespace TemplateExpr.Document

/-- An array or object that is still open, with what it holds so far, the last first. -/
inductive Frame where
  | items (before : List Document)
  | fields (before : List (Option String × Document)) (key : Option String)

inductive Progress where
  | value (outer : List Frame)
  | key (before : List (Option String × Document)) (outer : List Frame)
  | colon (key : Option String) (before : List (Option String × Document)) (outer : List Frame)
  | complete (d : Document) (outer : List Frame)

def Progress.step : Progress → Lexeme → Option Progress
  | .value outer, .scalar d => some (.complete d outer)
  | .value outer, .mark '[' => some (.value (.items [] :: outer))
  | .value outer, .mark '\x7b' => some (.key [] outer)
  | .value (.items [] :: outer), .mark ']' => some (.complete (.array []) outer)
  | .key [] outer, .mark '\x7d' => some (.complete (.object []) outer)
  | .key before outer, .scalar (.text k) => some (.colon k before outer)
  | .colon k before outer, .mark ':' => some (.value (.fields before k :: outer))
  | .complete d (.items before :: outer), .mark ',' =>
      some (.value (.items (d :: before) :: outer))
  | .complete d (.items before :: outer), .mark ']' =>
      some (.complete (.array (d :: before).reverse) outer)
  | .complete d (.fields before k :: outer), .mark ',' => some (.key ((k, d) :: before) outer)
  | .complete d (.fields before k :: outer), .mark '\x7d' =>
      some (.complete (.object ((k, d) :: before).reverse) outer)
  | _, _ => none

def ofText? (s : String) : Option Document := do
  let ls ← lexemes (s.toList.length + 1) s.toList
  match ← ls.foldlM Progress.step (.value []) with
  | .complete d [] => some d
  | _ => none

end TemplateExpr.Document
