import ExprTree.Node.Update

/-!
# Building nodes

Each function builds one kind of node and works out its static type from the operands. Functions
that can be given inconsistent operands check them and report what is wrong; of several faults the
one that is checked first is reported. A checked function draws a stamp only if it builds a node.
-/

namespace ExprTree

/-- Why a node was not built. -/
inductive BuildError where
  /-- The kind is not of the family that was asked for. -/
  | kindMismatch (kind : Kind) (expected : Family)
  /-- The number of arguments is wrong. -/
  | argumentCount (expected found : Nat)
  /-- A node of another kind stands where only a parameter may. -/
  | notAParameter (kind : Kind)
  /-- A node of another kind stands where only a creation may. -/
  | notACreation (kind : Kind)
  /-- A block has nothing to do. -/
  | emptyBlock
deriving DecidableEq

/-- What is reported when a node is not built. -/
def BuildError.message : BuildError → String
  | .kindMismatch kind expected => kind.name ++ " is not a " ++ expected.name ++ " node kind"
  | .argumentCount expected found =>
    "expected " ++ toString expected ++ " arguments, found " ++ toString found
  | .notAParameter kind => "expected a Parameter node, found " ++ kind.name
  | .notACreation kind => "expected a New node, found " ++ kind.name
  | .emptyBlock => "a block needs at least one expression"

namespace Factory

/-- The kind must be of the family. -/
def checkFamily (kind : Kind) (expected : Family) : Except BuildError Unit :=
  if kind.family = expected then .ok () else .error (.kindMismatch kind expected)

/-- The numbers must agree. -/
def checkCount (expected found : Nat) : Except BuildError Unit :=
  if expected = found then .ok () else .error (.argumentCount expected found)

/-- All nodes must be parameters; the first that is none is reported. -/
def checkParameters (nodes : List Node) : Except BuildError Unit :=
  match nodes.find? (·.kind ≠ .parameter) with
  | some node => .error (.notAParameter node.kind)
  | none => .ok ()

/-- The node must create an object. -/
def checkCreation (node : Node) : Except BuildError Unit :=
  if node.kind = .new then .ok () else .error (.notACreation node.kind)

variable {m : Type → Type} [Monad m] [MonadStamp m]

/-- Builds the node if the checks passed. -/
def checked (checks : Except BuildError Unit) (build : m Node) : m (Except BuildError Node) :=
  match checks with
  | .ok () => .ok <$> build
  | .error error => pure (.error error)

/-! ## Leaves -/

/-- A parameter, with or without a name. -/
def anyParameter (type : Ty) (name : Option String) (byRef : Bool) : m Node :=
  Node.make .parameter type (.parameter name byRef)

/-- A parameter that is passed by value. -/
def parameter (type : Ty) (name : String) : m Node := anyParameter type (some name) false

/-- A parameter that is passed by reference. -/
def byRefParameter (type : Ty) (name : String) : m Node := anyParameter type (some name) true

/-- A constant of the given type. -/
def typedConstant (value : Value Node) (type : Ty) : m Node :=
  Node.make .constant type (.constant value)

/-- A constant of the natural type of its payload. -/
def constant (value : Value Node) : m Node := typedConstant value value.naturalType

/-- The default value of a type. -/
def defaultValue (type : Ty) : m Node := Node.make .default type .default

/-- The statement that does nothing. -/
def empty : m Node := defaultValue .void

/-! ## Operators -/

/-- The static type of a binary node. Comparisons give a truth value, or possibly nothing if they
are lifted; else the method decides, and without one the operands do. -/
def binaryType (kind : Kind) (left right : Node) (method : Option Method) (lifted : Bool) : Ty :=
  if kind.isComparison then
    if lifted then .nullable .bool else .bool
  else
    match method, kind with
    | some method, _ => method.result
    | none, .arrayIndex => left.type.element?.getD .object
    | none, .coalesce => right.type
    | none, _ => left.type

/-- A binary node whose kind is known to be one. -/
def operation (kind : Kind) (left right : Node) (method : Option Method)
    (conversion : Option Node) (lifted : Bool) : m Node :=
  Node.make kind (binaryType kind left right method lifted)
    (.binary left conversion right method lifted)

/-- A binary node of any binary kind, with all its parts. -/
def binaryWith (kind : Kind) (left right : Node) (method : Option Method)
    (conversion : Option Node) (lifted : Bool) : m (Except BuildError Node) :=
  checked (checkFamily kind .binary) (operation kind left right method conversion lifted)

/-- A binary node of any binary kind. -/
def binary (kind : Kind) (left right : Node) : m (Except BuildError Node) :=
  binaryWith kind left right none none false

/-- The sum. -/
def add (left right : Node) : m Node := operation .add left right none none false

/-- The difference. -/
def subtract (left right : Node) : m Node := operation .subtract left right none none false

/-- The product. -/
def multiply (left right : Node) : m Node := operation .multiply left right none none false

/-- The quotient. -/
def divide (left right : Node) : m Node := operation .divide left right none none false

/-- The remainder. -/
def modulo (left right : Node) : m Node := operation .modulo left right none none false

/-- The power. -/
def power (left right : Node) : m Node := operation .power left right none none false

/-- The test for equality. -/
def equal (left right : Node) : m Node := operation .equal left right none none false

/-- The test for difference. -/
def notEqual (left right : Node) : m Node := operation .notEqual left right none none false

/-- The test for less. -/
def lessThan (left right : Node) : m Node := operation .lessThan left right none none false

/-- The test for less or equal. -/
def lessThanOrEqual (left right : Node) : m Node :=
  operation .lessThanOrEqual left right none none false

/-- The test for greater. -/
def greaterThan (left right : Node) : m Node := operation .greaterThan left right none none false

/-- The test for greater or equal. -/
def greaterThanOrEqual (left right : Node) : m Node :=
  operation .greaterThanOrEqual left right none none false

/-- The conjunction that stops at a false left operand. -/
def andAlso (left right : Node) : m Node := operation .andAlso left right none none false

/-- The disjunction that stops at a true left operand. -/
def orElse (left right : Node) : m Node := operation .orElse left right none none false

/-- The assignment of the right operand to the left. -/
def assign (left right : Node) : m Node := operation .assign left right none none false

/-- The choice of the right operand where the left is nothing. -/
def coalesce (left right : Node) : m Node := operation .coalesce left right none none false

/-- The element of an array. -/
def arrayIndex (left right : Node) : m Node := operation .arrayIndex left right none none false

/-- A unary node whose kind is known to be one. -/
def unaryOperation (kind : Kind) (operand : Option Node) (type : Ty) (method : Option Method) :
    m Node :=
  Node.make kind type (.unary operand method)

/-- A unary node of any unary kind. -/
def unary (kind : Kind) (operand : Option Node) (type : Ty) (method : Option Method) :
    m (Except BuildError Node) :=
  checked (checkFamily kind .unary) (unaryOperation kind operand type method)

/-- The number with its sign changed. -/
def negate (operand : Node) : m Node := unaryOperation .negate (some operand) operand.type none

/-- The complement. -/
def not (operand : Node) : m Node := unaryOperation .not (some operand) operand.type none

/-- A conversion to a type. -/
def convert (operand : Node) (type : Ty) : m Node :=
  unaryOperation .convert (some operand) type none

/-- A conversion to a type that gives nothing where it fails. -/
def typeAs (operand : Node) (type : Ty) : m Node := unaryOperation .typeAs (some operand) type none

/-- The tree of a lambda as a value. -/
def quote (lambda : Node) : m Node :=
  unaryOperation .quote (some lambda) (.generic "Expression" [lambda.type]) none

/-- The length of an array. -/
def arrayLength (array : Node) : m Node := unaryOperation .arrayLength (some array) .i32 none

/-- Raises an exception. -/
def throw (exception : Node) : m Node := unaryOperation .throw (some exception) .void none

/-- Raises the exception under treatment again. -/
def rethrow : m Node := unaryOperation .throw none .void none

/-- Tests whether a value belongs to a type. -/
def typeIs (operand : Node) (type : Ty) : m Node :=
  Node.make .typeIs .bool (.typeBinary operand type)

/-- Tests whether a value is of exactly a type. -/
def typeEqual (operand : Node) (type : Ty) : m Node :=
  Node.make .typeEqual .bool (.typeBinary operand type)

/-! ## Calls and control flow -/

/-- A call; static methods have no receiver. -/
def call (object : Option Node) (method : Method) (arguments : List Node) :
    m (Except BuildError Node) :=
  checked (checkCount method.parameters.length arguments.length)
    (Node.make .call method.result (.call object method arguments))

/-- A choice of the given type. -/
def typedConditional (test ifTrue ifFalse : Node) (type : Ty) : m Node :=
  Node.make .conditional type (.conditional test ifTrue ifFalse)

/-- A choice of the type of its first branch. -/
def conditional (test ifTrue ifFalse : Node) : m Node :=
  typedConditional test ifTrue ifFalse ifTrue.type

/-- The application of a function value. -/
def invoke (callee : Node) (arguments : List Node) : m Node :=
  Node.make .invoke (callee.type.result?.getD .object) (.invoke callee arguments)

/-- A lambda with all its parts. -/
def lambdaWith (name : Option String) (body : Node) (parameters : List Node) (tailCall : Bool) :
    m (Except BuildError Node) :=
  checked (checkParameters parameters)
    (Node.make .lambda (.function (parameters.map (·.type)) body.type)
      (.lambda body parameters name tailCall))

/-- A lambda without a name. -/
def lambda (body : Node) (parameters : List Node) : m (Except BuildError Node) :=
  lambdaWith none body parameters false

/-- Statements in sequence, with variables of their own; the last one gives the value. -/
def block (locals statements : List Node) : m (Except BuildError Node) :=
  match checkParameters locals, statements.getLast? with
  | .error error, _ => pure (.error error)
  | .ok (), none => pure (.error .emptyBlock)
  | .ok (), some last => .ok <$> Node.make .block last.type (.block locals statements)

/-- A jump. -/
def goto (jump : JumpKind) (target : LabelTarget) (value : Option Node) : m Node :=
  Node.make .goto .void (.goto jump target value)

/-- The place of a target. -/
def label (target : LabelTarget) (value : Option Node) : m Node :=
  Node.make .label target.type (.label target value)

/-- A loop without end; its value comes with the jump out of it. -/
def loop (body : Node) (breakTarget continueTarget : Option LabelTarget) : m Node :=
  Node.make .loop ((breakTarget.map (·.type)).getD .void) (.loop body breakTarget continueTarget)

/-- The static type of a switch: that of its first branch, or else of its default. -/
def switchType (cases : List (SwitchCase Node)) (otherwise : Option Node) : Ty :=
  match cases, otherwise with
  | first :: _, _ => first.body.type
  | [], some body => body.type
  | [], none => .void

/-- A choice among many. -/
def switch (subject : Node) (cases : List (SwitchCase Node)) (otherwise : Option Node)
    (comparison : Option Method) : m Node :=
  Node.make .switch (switchType cases otherwise) (.switch subject cases otherwise comparison)

/-- A protected body. -/
def tryCatch (body : Node) (handlers : List (Handler Node)) (cleanup fault : Option Node) :
    m Node :=
  Node.make .tryCatch body.type (.tryCatch body handlers cleanup fault)

/-- An operation that is bound when it runs. -/
def dynamic (binder : String) (delegate : Ty) (arguments : List Node) : m Node :=
  Node.make .dynamic (delegate.result?.getD .object) (.dynamic binder delegate arguments)

/-- Access to variables while the code runs. -/
def runtimeVariables (locals : List Node) : m (Except BuildError Node) :=
  checked (checkParameters locals)
    (Node.make .runtimeVariables (.reference "RuntimeVariables") (.runtimeVariables locals))

/-- A stretch of source code that the following nodes come from. -/
def debugInfo (document : Document) (span : Span) : m Node :=
  Node.make .debugInfo .void (.debugInfo document span)

/-- The end of the stretch that the nodes before came from. -/
def clearDebugInfo (document : Document) : m Node := debugInfo document .clear

/-! ## Members, objects and arrays -/

/-- Reads a member; static members have no object. -/
def memberAccess (object : Option Node) (member : Member) : m Node :=
  Node.make .memberAccess member.type (.memberAccess object member)

/-- Indexed access, through an indexer or into an array. -/
def index (object : Node) (indexer : Option Member) (arguments : List Node) : m Node :=
  Node.make .index
    (match indexer with
      | some member => member.type
      | none => object.type.element?.getD .object)
    (.index object indexer arguments)

/-- Creates an object. -/
def new (constructor : Constructor) (arguments : List Node) : m (Except BuildError Node) :=
  checked (checkCount constructor.parameters.length arguments.length)
    (Node.make .new constructor.declaringType (.new (some constructor) arguments none))

/-- Creates an object whose members hold the arguments. -/
def newWithMembers (constructor : Constructor) (arguments : List Node) (members : List Member) :
    m (Except BuildError Node) :=
  checked
    (do
      checkCount constructor.parameters.length arguments.length
      checkCount arguments.length members.length)
    (Node.make .new constructor.declaringType (.new (some constructor) arguments (some members)))

/-- Creates a value without a constructor. -/
def newValue (type : Ty) : m Node := Node.make .new type (.new none [] none)

/-- Creates a collection and fills it. -/
def listInit (creation : Node) (initializers : List (ElementInit Node)) :
    m (Except BuildError Node) :=
  checked (checkCreation creation)
    (Node.make .listInit creation.type (.listInit creation initializers))

/-- Creates an object and binds its members. -/
def memberInit (creation : Node) (bindings : List (Binding Node)) : m (Except BuildError Node) :=
  checked (checkCreation creation)
    (Node.make .memberInit creation.type (.memberInit creation bindings))

/-- Creates an array of one dimension from its elements. -/
def newArrayInit (element : Ty) (items : List Node) : m Node :=
  Node.make .newArrayInit (.vector element) (.newArray items)

/-- The rank of an array with the given number of bounds; ranks end at 255. -/
def boundsRank (count : Nat) : UInt8 := UInt8.ofNat (min count 255)

/-- Creates an array with one dimension for each bound. -/
def newArrayBounds (element : Ty) (bounds : List Node) : m Node :=
  Node.make .newArrayBounds (.array element (boundsRank bounds.length)) (.newArray bounds)

end Factory

namespace Extension

/-- The static type of the value that the extension gives. -/
def type : Extension Node → Ty
  | .doubled operand | .standIn operand => operand.type
  | .sealed _ type | .other _ type _ _ => type

/-- The ordinary node that stands for the extension; the stamp is for one that is built anew. -/
def reduceAt (stamp : Stamp) : Extension Node → Option Node
  | .doubled operand =>
    some ⟨stamp, .add, Factory.binaryType .add operand operand none false,
      .binary operand none operand none false⟩
  | .standIn operand => some operand
  | .sealed _ _ => none
  | .other _ _ prototype anew =>
    prototype.map fun node => if anew then { node with stamp } else node

variable {m : Type → Type} [Monad m] [MonadStamp m]

/-- Reduces the extension to an ordinary node, if it can be. -/
def reduce (custom : Extension Node) : m (Option Node) := do
  return custom.reduceAt (← fresh)

end Extension

namespace Factory

variable {m : Type → Type} [Monad m] [MonadStamp m]

/-- A node that is defined outside the tree. -/
def extension (custom : Extension Node) : m Node := do
  let stamp ← fresh
  Node.make .extension custom.type (.extension stamp custom)

end Factory

end ExprTree
