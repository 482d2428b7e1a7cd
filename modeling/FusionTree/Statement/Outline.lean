import FusionTree.Number.Shortest
import FusionTree.Statement.Basic
import FusionTree.Text.Quoted

/-!
# Outlines of documents

An outline shows a document with everything that its statements hold, one part to a line, four
spaces to the right of what it belongs to.
-/

namespace FusionTree

inductive Outline
  | leaf (text : String)
  /-- Named parts between braces. -/
  | record (name : String) (fields : List (String × Outline))
  /-- One part between parentheses. -/
  | wrap (name : String) (part : Outline)
  | list (items : List Outline)

namespace Outline

def indent (depth : Nat) : String :=
  String.ofList (List.replicate (4 * depth) ' ')

mutual

/-- An outline as text, the first line of which stands at a depth. -/
def render (depth : Nat) : Outline → String
  | leaf text => text
  | record name fields =>
    name ++ " \x7b\n" ++ renderFields (depth + 1) fields ++ indent depth ++ "\x7d"
  | wrap name part =>
    name ++ "(\n" ++ indent (depth + 1) ++ part.render (depth + 1) ++ ",\n" ++ indent depth ++ ")"
  | list items =>
    if items.isEmpty then "[]"
    else "[\n" ++ renderItems (depth + 1) items ++ indent depth ++ "]"

def renderFields (depth : Nat) : List (String × Outline) → String
  | [] => ""
  | field :: rest => renderField depth field ++ renderFields depth rest

def renderField (depth : Nat) : String × Outline → String
  | (name, part) => indent depth ++ name ++ ": " ++ part.render depth ++ ",\n"

def renderItems (depth : Nat) : List Outline → String
  | [] => ""
  | item :: rest => indent depth ++ item.render depth ++ ",\n" ++ renderItems depth rest

end

def quoted (s : String) : Outline :=
  leaf (Text.quote s.toList)

def bool (b : Bool) : Outline :=
  leaf (if b then "true" else "false")

def optional : Option Outline → Outline
  | none => leaf "None"
  | some part => wrap "Some" part

end Outline

def outlineLayout : Layout := { leastPositional := -4, tie := .up, plus := false }

namespace Span

def outline (s : Span) : Outline :=
  .record "Span" [("start", .leaf (toString s.start)), ("end", .leaf (toString s.stop)),
    ("as_str", .leaf (Text.quote s.text))]

def summary (s : Span) : String :=
  "Span \x7b start: " ++ toString s.start ++ ", end: " ++ toString s.stop ++ ", as_str: " ++
    Text.quote s.text ++ " \x7d"

end Span

def PathSegment.outline : PathSegment → Outline
  | plain key span => .record "Plain" [("key", .quoted key), ("span", span.outline)]
  | quoted key span => .record "Quoted" [("key", .quoted key), ("span", span.outline)]
  | metaProperty name span => .record "Meta" [("name", .quoted name), ("span", span.outline)]
  | prototype name span => .record "Prototype" [("name", .quoted name), ("span", span.outline)]

def ObjectPath.outline (p : ObjectPath) : Outline :=
  .record "ObjectPath" [("segments", .list (p.segments.map PathSegment.outline))]

def Value.outline : Value → Outline
  | string s span => .record "String" [("value", .quoted s), ("span", span.outline)]
  | int n span => .record "Int" [("value", .leaf (toString n.toInt)), ("span", span.outline)]
  | float x span =>
    .record "Float" [("value", .leaf (x.toText outlineLayout)), ("span", span.outline)]
  | bool b span => .record "Bool" [("value", .bool b), ("span", span.outline)]
  | null span => .record "Null" [("span", span.outline)]
  | objectName name span =>
    .record "FusionObject" [("name", .quoted name), ("span", span.outline)]
  | eel code span => .record "Eel" [("code", .quoted code), ("span", span.outline)]
  | dsl identifier code span =>
    .record "Dsl" [("identifier", .quoted identifier), ("code", .quoted code),
      ("span", span.outline)]

def Operation.outline : Operation → Outline
  | assign value => .wrap "Assign" value.outline
  | unset span => .record "Unset" [("span", span.outline)]
  | copy source =>
    .wrap "Copy" (.record "AssignedObjectPath"
      [("path", source.path.outline), ("is_relative", .bool source.relative)])

mutual

def Statement.outline : Statement → Outline
  | .inclusion pattern span =>
    .wrap "Include" (.record "IncludeStatement"
      [("pattern", .quoted pattern), ("span", span.outline)])
  | .object path operation none =>
    .wrap "Object" (.record "ObjectStatement" [("path", path.outline),
      ("operation", .optional (operation.map Operation.outline)), ("block", .leaf "None")])
  | .object path operation (some ⟨openBrace, inner, closeBrace⟩) =>
    .wrap "Object" (.record "ObjectStatement" [("path", path.outline),
      ("operation", .optional (operation.map Operation.outline)),
      ("block", .wrap "Some" (.record "Block" [("open_brace", openBrace.outline),
        ("statement_list", .record "StatementList"
          [("statements", .list (Statement.outlines inner))]),
        ("close_brace", closeBrace.outline)]))])

def Statement.outlines : List Statement → List Outline
  | [] => []
  | s :: rest => s.outline :: Statement.outlines rest

end

def Document.outline (d : Document) : Outline :=
  .record "FusionFile" [
    ("statement_list", .record "StatementList"
      [("statements", .list (Statement.outlines d.statements))]),
    ("path", .optional (d.path.map fun p => .quoted p.text)),
    ("span", d.span.outline)]

end FusionTree
