import TemplateExpr.Json.Reader
import TemplateExpr.Options.Basic

namespace TemplateExpr.Options

inductive Key where
  | opening
  | closing
  | denied
  | maxDepth
  deriving DecidableEq

def Key.name : Key → String
  | .opening => "open"
  | .closing => "close"
  | .denied => "deny"
  | .maxDepth => "max_depth"

def Key.all : List Key :=
  [.opening, .closing, .denied, .maxDepth]

def textOf? : Document → Option String
  | .text s => s
  | _ => none

def namesOf? : Document → Option (List String)
  | .array items => items.mapM textOf?
  | _ => none

def depthOf? : Document → Option Nat
  | .number l => (l.integer?.filter fun n => 0 ≤ n && n < (Nat.pow 2 64 : Int)).map Int.toNat
  | _ => none

def set (o : Options) (d : Document) : Key → Option Options
  | .opening => (textOf? d).map fun s => { o with opening := s }
  | .closing => (textOf? d).map fun s => { o with closing := s }
  | .denied => (namesOf? d).map fun names => { o with denied := names }
  | .maxDepth => (depthOf? d).map fun n => { o with maxDepth := n }

def setFields (o : Options) (seen : List Key) : List (Option String × Document) → Option Options
  | [] => some o
  | (none, _) :: _ => none
  | (some name, d) :: rest => match Key.all.find? (·.name = name) with
      | none => setFields o seen rest
      | some k =>
          if k ∈ seen then none
          else do setFields (← o.set d k) (k :: seen) rest

def setItems (o : Options) : List Key → List Document → Option Options
  | _, [] => some o
  | [], _ :: _ => none
  | k :: ks, d :: ds => do setItems (← o.set d k) ks ds

def ofDocument? : Document → Option Options
  | .object fields => setFields {} [] fields
  | .array items => setItems {} Key.all items
  | _ => none

def ofText (s : String) : Except Fault Options :=
  match (Document.ofText? s).bind ofDocument? with
  | none => .error .unreadable
  | some o => o.validate.map fun _ => o

end TemplateExpr.Options
