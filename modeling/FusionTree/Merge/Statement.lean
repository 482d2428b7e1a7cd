import FusionTree.Merge.Basic
import FusionTree.Statement.Basic

/-!
# Merging statements

What each statement does to the tree. The path of a statement is seen from the block it stands in;
its segments become keys, two for a property `@name` and for a prototype. A block comes after the
operation of its statement.
-/

namespace FusionTree

namespace Merge

/-- Refuses a key that is empty, belongs to the tree itself, or holds a newline. -/
def checkKey (key : String) (span : Span) : Merge Unit :=
  if key.isEmpty then fail .emptyKey span
  else if Key.isReserved key then fail (.reservedKey key) span
  else if '\n' ∈ key.toList then fail (.newlineInKey key) span
  else pure ()

def keysOf (ctx : Context) : PathSegment → Merge (List String)
  | .plain key span | .quoted key span => do
    checkKey key span
    return [key]
  | .metaProperty name span => do
    if name = Key.privateProperty ∧ !ctx.inPrototype then fail .misplacedPrivate span
    return [Key.metaProperties, name]
  | .prototype name _ => return [Key.prototypes, name]

def extend (ctx : Context) (path : List String) : List PathSegment → Merge (List String)
  | [] => return path
  | segment :: rest => do extend ctx (path ++ (← keysOf ctx segment)) rest

/-- Takes the output of a DSL as the value of an assignment on a tree of its own, and gives that
value. The first problem reported for the output is one of the DSL expression. -/
def outputValue (ctx : Context) (identifier output : String) (span : Span) : Merge Node := do
  let source := Source.ofString ("value = " ++ output) none
  match ← apart (ctx.enter source ctx.chain) with
  | (_, p :: _) => fail (.invalidDslOutput identifier p.cause p.span) span
  | (.error stop, []) => throw stop
  | (.ok tree, []) => return (tree.get? "value").getD .null

def dslNode (ctx : Context) (identifier code : String) (span : Span) : Merge Node := do
  match ctx.dsl.get? identifier with
  | none => fail (.dslFailed identifier (.unknown identifier)) span
  | some transpiler =>
    record (·.use identifier code)
    match transpiler code with
    | .error message => fail (.dslFailed identifier (.failed message)) span
    | .ok output =>
      note (.dslOutputRead identifier)
      outputValue ctx identifier output span

/-- The node that a value stands for. The code of an embedded expression loses its newlines. -/
def nodeOf (ctx : Context) : Value → Merge Node
  | .string s _ => return .string s
  | .int n _ => return .int n
  | .float x _ => return .float x
  | .bool b _ => return .bool b
  | .null _ => return .null
  | .objectName name _ => return Node.objectType name
  | .eel code _ => return Node.eelExpression (String.ofList (code.toList.filter (· ≠ '\n')))
  | .dsl identifier code span => dslNode ctx identifier code span

/-- Copies to a path. Between two prototypes a copy sets up inheritance, which is possible only at
the root of the tree; with a prototype on one side only it is refused. -/
def copy (ctx : Context) (target : List String) (source : CopySource) (span : Span) :
    Merge Unit := do
  let start := if source.relative then Key.parentPath target else []
  let path ← extend ctx start source.path.segments
  match Key.isPrototypePath target, Key.isPrototypePath path with
  | true, true =>
    match target, path with
    | [_, _], [_, parent] => update (·.set (target ++ [Key.parent]) (.string parent))
    | _, _ => fail .nestedInheritance span
  | false, false => update (·.copy target path)
  | _, _ => fail .inheritanceMismatch span

/-- Does what an operation says to a path; `span` is that of the whole statement. -/
def operate (ctx : Context) (target : List String) (span : Span) : Operation → Merge Unit
  | .assign value => do
    let node ← nodeOf ctx value
    update (·.set target node)
  | .unset _ => update (·.unset target)
  | .copy source => copy ctx target source span

/-- Merges the files of an include statement one after another. The file that holds the statement
is left out; one that is being merged already cannot be merged again. -/
def includeFiles (ctx : Context) (pattern : String) (span : Span) : List Path → Merge Unit
  | [] => pure ()
  | file :: rest => do
    if ctx.file.any (ctx.resolver.same · file) then note (.selfSkipped file)
    else
      if ctx.chain.any (ctx.resolver.same · file) then fail (.includeCycle file) span
      match ctx.resolver.read file with
      | .error error => fail (.unreadableInclude pattern file error) span
      | .ok text =>
        note (.fileIncluded file pattern)
        ctx.enter (Source.ofString text (some file)) ctx.chain
    includeFiles ctx pattern span rest

def inclusion (ctx : Context) (pattern : String) (span : Span) : Merge Unit := do
  match ctx.resolver.resolve pattern ctx.file with
  | .error error => fail (.unresolvedInclude pattern error) span
  | .ok files =>
    if files.isEmpty then record (·.warn (.includeMatchedNothing pattern span))
    includeFiles ctx pattern span files

/-- Does what an object statement says apart from its block, and gives its path. -/
def object (ctx : Context) (path : ObjectPath) (operation : Option Operation) :
    Merge (List String) := do
  let target ← extend ctx ctx.blockPath path.segments
  note (.objectVisited target)
  match operation with
  | none => pure ()
  | some op => operate ctx target (path.span.join op.span) op
  return target

mutual

def statement (ctx : Context) : Statement → Merge Unit
  | .inclusion pattern span => inclusion ctx pattern span
  | .object path operation none => discard (object ctx path operation)
  | .object path operation (some ⟨_, inner, _⟩) => do
    let target ← object ctx path operation
    let ctx := { ctx with
      blockPath := target
      inPrototype := isRootPrototypeDeclaration path operation }
    statements ctx inner

def statements (ctx : Context) : List Statement → Merge Unit
  | [] => pure ()
  | s :: rest => do
    statement ctx s
    statements ctx rest

end

end Merge

end FusionTree
