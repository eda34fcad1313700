/-
Module: HermesNode.Build.RequireScanner
Purpose: The scanner for `require`: the syntax tree with the declarations its identifiers are bound
  to, the visitor that collects specifiers and gaps, and the search for the wrapper's parameter. The
  visitor knows of a node only what it sees there; what a parent has explained it keeps in a set of
  nodes, read when the walk gets to the identifier. Node kinds that no overload is for are one kind.
Trusted boundary: human-reviewed spec (transcribed from `lib/bundle/require_scanner.cpp` and
  `cjs_wrapper.h`; the parser, the resolver and the node visitor of the engine are not part of the
  repository: a tree is given resolved, and its children are visited once each, in order)
Main exports: Node, Scan, isRequire, extractLiteral
-/
import HermesNode.Build.Disk

namespace HermesNode.Build.Scanner

/-- A declaration of the resolver. -/
abbrev Decl := Nat

/-- What the resolver knows about one identifier. -/
structure Binding where
  unresolvable : Bool := false
  /-- The declaration the identifier refers to where it is used. -/
  expressionDecl : Option Decl := none
  /-- The declaration the identifier introduces. -/
  declarationDecl : Option Decl := none
deriving Repr, DecidableEq

/-- One piece of text of a template literal; there is no cooked one when an escape in it is invalid.
-/
structure TemplateElement where
  cooked : Option Bytes
  raw : Bytes
deriving Repr, DecidableEq

/-- A node of the tree. The number is its address. A template literal has a first piece of text. -/
inductive Node where
  | identifier (id : Nat) (name : Bytes) (binding : Binding) ( typeAnnotation : List Node)
  | stringLiteral (id : Nat) (value : Bytes)
  | templateLiteral (id : Nat) (quasi : TemplateElement) (quasis : List TemplateElement)
      (expressions : List Node)
  | callExpression (id : Nat) (callee : Node) (typeArguments arguments : List Node)
  | optionalCallExpression (id : Nat) (callee : Node) (typeArguments arguments : List Node)
  | memberExpression (id : Nat) (object property : Node) (computed : Bool)
  | optionalMemberExpression (id : Nat) (object property : Node) (computed : Bool)
  | unaryExpression (id : Nat) (operator : Bytes) (argument : Node)
  | binaryExpression (id : Nat) (operator : Bytes) (left right : Node)
  | program (id : Nat) (body : List Node)
  | expressionStatement (id : Nat) (expression : Node)
  | functionExpression (id : Nat) (name params rest : List Node)
  | other (id : Nat) (children : List Node)

def Node.id : Node → Nat
  | .identifier id .. | .stringLiteral id .. | .templateLiteral id .. | .callExpression id ..
  | .optionalCallExpression id .. | .memberExpression id .. | .optionalMemberExpression id ..
  | .unaryExpression id .. | .binaryExpression id .. | .program id .. | .expressionStatement id ..
  | .functionExpression id .. | .other id .. => id

inductive RequireGapKind where
  | kComputedArgument
  | kEscapedValue
deriving Repr, DecidableEq

structure RequireGap where
  kind : RequireGapKind
  line : UInt32
  column : UInt32
deriving Repr, DecidableEq

structure RequireSpecifier where
  text : Bytes
  line : UInt32
  column : UInt32
deriving Repr, DecidableEq

/-- What the visitor carries along. There are no gaps when the caller does not ask for them. -/
structure Scan where
  out : List RequireSpecifier
  gaps : Option (List RequireGap)
  accounted : List Nat
deriving Repr, DecidableEq

def unwrapCoords (line column : UInt32) : UInt32 :=
  if line ≠ 1 then column
  else if kCJSWrapperPrefix.length < column.toNat then
    column - UInt32.ofNat kCJSWrapperPrefix.length
  else 1

section

/- `coords` is where a node starts in the wrapped text, and `requireDecl` the wrapper's `require`. -/
variable (coords : Nat → Option (UInt32 × UInt32)) (requireDecl : Decl)

def sourceCoords (node : Node) : Option (UInt32 × UInt32) :=
  (coords node.id).map fun (line, column) => (line, unwrapCoords line column)

def record (kind : RequireGapKind) (node : Node) (s : Scan) : Scan :=
  match s.gaps, sourceCoords coords node with
  | some gaps, some (line, column) => { s with gaps := some (gaps ++ [{ kind, line, column }]) }
  | _, _ => s

def isRequire : Node → Bool
  | .identifier _ _ binding _ =>
      !binding.unresolvable && binding.expressionDecl == some requireDecl
  | _ => false

def accountFor (node : Node) (s : Scan) : Scan :=
  if isRequire requireDecl node then { s with accounted := node.id :: s.accounted } else s

def extractLiteral : Node → Option Bytes
  | .stringLiteral _ value => some value
  | .templateLiteral _ quasi _ expressions =>
      if expressions.isEmpty then some (quasi.cooked.getD quasi.raw) else none
  | _ => none

def isRequireResolveProperty (object : Node) : Node → Bool
  | .identifier _ name _ _ => name == ascii "resolve" && isRequire requireDecl object
  | _ => false

def isRequireResolveCallee : Node → Bool
  | .memberExpression _ object property computed
  | .optionalMemberExpression _ object property computed =>
      !computed && isRequireResolveProperty requireDecl object property
  | _ => false

/-- Append a specifier unless its text is there already. -/
def addSpecifier (node : Node) (value : Bytes) (out : List RequireSpecifier) :
    List RequireSpecifier :=
  if out.any (·.text == value) then out
  else
    match sourceCoords coords node with
    | some (line, column) => out ++ [{ text := value, line, column }]
    | none => out ++ [{ text := value, line := 0, column := 0 }]

/-- `collect`, for both kinds of calls. -/
def collect (node callee : Node) (arguments : List Node) (s : Scan) : Scan :=
  let isDirectCall := isRequire requireDecl callee
  let s := if isDirectCall then { s with accounted := callee.id :: s.accounted } else s
  if !isDirectCall && !isRequireResolveCallee requireDecl callee then s
  else
    match arguments with
    | [] => s
    | firstArg :: _ =>
        match extractLiteral firstArg with
        | none => record coords .kComputedArgument node s
        | some value => { s with out := addSpecifier coords node value s.out }

/-- The operators whose operand is tested and not kept. -/
def testsOperand (operator : Bytes) : Bool :=
  operator == ascii "typeof" || operator == ascii "!" || operator == ascii "void"

def isEquality (operator : Bytes) : Bool :=
  operator == ascii "==" || operator == ascii "!=" || operator == ascii "===" ||
    operator == ascii "!=="

/-- What the overload for a node does before it visits the children. -/
def enter (node : Node) (s : Scan) : Scan :=
  match node with
  | .callExpression _ callee _ arguments => collect coords requireDecl node callee arguments s
  | .optionalCallExpression _ callee _ arguments =>
      collect coords requireDecl node callee arguments s
  | .memberExpression _ object _ _ => accountFor requireDecl object s
  | .optionalMemberExpression _ object _ _ => accountFor requireDecl object s
  | .unaryExpression _ operator argument =>
      if testsOperand operator then accountFor requireDecl argument s else s
  | .binaryExpression _ operator left right =>
      if isEquality operator then accountFor requireDecl right (accountFor requireDecl left s)
      else s
  | .identifier id .. =>
      if isRequire requireDecl node && !s.accounted.contains id then
        record coords .kEscapedValue node s
      else s
  | _ => s

mutual

/-- `visit`: the overload of the node, then its children. -/
def visit (node : Node) (s : Scan) : Scan :=
  match node with
  | .identifier id name binding annotation =>
      visitAll annotation (enter coords requireDecl (.identifier id name binding annotation) s)
  | .stringLiteral id value => enter coords requireDecl (.stringLiteral id value) s
  | .templateLiteral id quasi quasis expressions =>
      visitAll expressions
        (enter coords requireDecl (.templateLiteral id quasi quasis expressions) s)
  | .callExpression id callee types arguments =>
      visitAll arguments (visitAll types (visit callee
        (enter coords requireDecl (.callExpression id callee types arguments) s)))
  | .optionalCallExpression id callee types arguments =>
      visitAll arguments (visitAll types (visit callee
        (enter coords requireDecl (.optionalCallExpression id callee types arguments) s)))
  | .memberExpression id object property computed =>
      visit property (visit object
        (enter coords requireDecl (.memberExpression id object property computed) s))
  | .optionalMemberExpression id object property computed =>
      visit property (visit object
        (enter coords requireDecl (.optionalMemberExpression id object property computed) s))
  | .unaryExpression id operator argument =>
      visit argument (enter coords requireDecl (.unaryExpression id operator argument) s)
  | .binaryExpression id operator left right =>
      visit right (visit left
        (enter coords requireDecl (.binaryExpression id operator left right) s))
  | .program id body => visitAll body (enter coords requireDecl (.program id body) s)
  | .expressionStatement id expression =>
      visit expression (enter coords requireDecl (.expressionStatement id expression) s)
  | .functionExpression id name params rest =>
      visitAll rest (visitAll params (visitAll name
        (enter coords requireDecl (.functionExpression id name params rest) s)))
  | .other id children => visitAll children (enter coords requireDecl (.other id children) s)

/-- `visitESTreeChildren` over one list of children. -/
def visitAll : List Node → Scan → Scan
  | [], s => s
  | node :: rest, s => visitAll rest (visit node s)

end

end

/-! ### The wrapper -/

/-- The parameters of the function the whole program is. -/
def findWrapper : Node → Option (List Node)
  | .program _ [.expressionStatement _ (.functionExpression _ _ params _)] => some params
  | _ => none

/-- The first parameter of a name, with its binding. -/
def findParam (params : List Node) (name : Bytes) : Option (Nat × Binding) :=
  params.findSome? fun
    | .identifier id paramName binding _ => if paramName == name then some (id, binding) else none
    | _ => none

/-- The wrapper's `require`: the parameter and its declaration. -/
def findRequire (program : Node) : Option (Nat × Decl) := do
  let params ← findWrapper program
  let (id, binding) ← findParam params (ascii "require")
  let decl ← binding.declarationDecl
  pure (id, decl)

/-- `scanRequires` on a tree that has been parsed and resolved. -/
def scanTree (coords : Nat → Option (UInt32 × UInt32)) (program : Node)
    (out : List RequireSpecifier) (gaps : Option (List RequireGap)) :
    Except Bytes (List RequireSpecifier × Option (List RequireGap)) :=
  match findRequire program with
  | none => .error (ascii "hermes-node bundle: internal: no require binding in the wrapper")
  | some (param, decl) =>
      let s := visit coords decl program { out, gaps, accounted := [param] }
      .ok (s.out, s.gaps)

end HermesNode.Build.Scanner
