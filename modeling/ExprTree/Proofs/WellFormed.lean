import ExprTree.Factory
import Mathlib.Data.List.Basic

/-!
# Well-formed nodes

A node is well formed if its shape is that of its kind and if its parts fit together as the
factories demand: numbers of arguments are those of the method or constructor, variables are
parameters, blocks are not empty, and the static type is the one that is worked out from the parts.
These are the nodes that factories return: each factory returns well-formed nodes only, and each
well-formed node is what some factory returns for the nodes that it holds.
-/

namespace ExprTree

/-! ## What factories demand -/

/-- The parts of a node of the given kind and type fit together. -/
def Shape.Fits (kind : Kind) (type : Ty) : Shape Node → Prop
  | .binary left _ right method lifted =>
    type = Factory.binaryType kind left right method lifted
  | .call _ method arguments =>
    method.parameters.length = arguments.length ∧ type = method.result
  | .invoke callee _ => type = callee.type.result?.getD .object
  | .lambda body parameters _ _ =>
    (∀ p ∈ parameters, p.kind = .parameter) ∧
      type = .function (parameters.map (·.type)) body.type
  | .listInit creation _ | .memberInit creation _ => creation.kind = .new ∧ type = creation.type
  | .memberAccess _ member => type = member.type
  | .new (some constructor) arguments members =>
    constructor.parameters.length = arguments.length ∧
      (∀ names ∈ members, arguments.length = names.length) ∧ type = constructor.declaringType
  | .new none arguments members => arguments = [] ∧ members = none
  | .newArray items =>
    (kind = .newArrayInit → ∃ element, type = .vector element) ∧
      (kind = .newArrayBounds → ∃ element, type = .array element (Factory.boundsRank items.length))
  | .typeBinary _ _ => type = .bool
  | .block locals statements =>
    (∀ p ∈ locals, p.kind = .parameter) ∧ ∃ last ∈ statements.getLast?, type = last.type
  | .dynamic _ delegate _ => type = delegate.result?.getD .object
  | .index object indexer _ =>
    type = match indexer with
      | some member => member.type
      | none => object.type.element?.getD .object
  | .label target _ => type = target.type
  | .runtimeVariables locals =>
    (∀ p ∈ locals, p.kind = .parameter) ∧ type = .reference "RuntimeVariables"
  | .loop _ breakTarget _ => type = (breakTarget.map (·.type)).getD .void
  | .switch _ branches otherwise _ => type = Factory.switchType branches otherwise
  | .tryCatch body _ _ _ => type = body.type
  | .extension _ custom => type = custom.type
  | .goto _ _ _ | .debugInfo _ _ => type = .void
  -- the type of the others is free
  | .unary _ _ | .conditional _ _ _ | .parameter _ _ | .constant _ | .default => True

/-- The shape is that of the kind, and the parts fit together. -/
structure Node.WellFormed (n : Node) : Prop where
  /-- Kind and shape are of one family. -/
  coherent : n.kind.family = n.shape.family
  /-- The parts are as the factories demand. -/
  fits : n.shape.Fits n.kind n.type

namespace Factory

/-- The action builds a node from the operands without checking them. -/
inductive Unchecked : List Node → Supply Node → Prop where
  | anyParameter (type : Ty) (name : Option String) (byRef : Bool) :
    Unchecked [] (anyParameter type name byRef)
  | parameter (type : Ty) (name : String) : Unchecked [] (parameter type name)
  | byRefParameter (type : Ty) (name : String) : Unchecked [] (byRefParameter type name)
  | typedConstant (value : Value Node) (type : Ty) :
    Unchecked value.roots (typedConstant value type)
  | constant (value : Value Node) : Unchecked value.roots (constant value)
  | defaultValue (type : Ty) : Unchecked [] (defaultValue type)
  | empty : Unchecked [] empty
  | add (left right : Node) : Unchecked [left, right] (add left right)
  | subtract (left right : Node) : Unchecked [left, right] (subtract left right)
  | multiply (left right : Node) : Unchecked [left, right] (multiply left right)
  | divide (left right : Node) : Unchecked [left, right] (divide left right)
  | modulo (left right : Node) : Unchecked [left, right] (modulo left right)
  | power (left right : Node) : Unchecked [left, right] (power left right)
  | equal (left right : Node) : Unchecked [left, right] (equal left right)
  | notEqual (left right : Node) : Unchecked [left, right] (notEqual left right)
  | lessThan (left right : Node) : Unchecked [left, right] (lessThan left right)
  | lessThanOrEqual (left right : Node) : Unchecked [left, right] (lessThanOrEqual left right)
  | greaterThan (left right : Node) : Unchecked [left, right] (greaterThan left right)
  | greaterThanOrEqual (left right : Node) :
    Unchecked [left, right] (greaterThanOrEqual left right)
  | andAlso (left right : Node) : Unchecked [left, right] (andAlso left right)
  | orElse (left right : Node) : Unchecked [left, right] (orElse left right)
  | assign (left right : Node) : Unchecked [left, right] (assign left right)
  | coalesce (left right : Node) : Unchecked [left, right] (coalesce left right)
  | arrayIndex (left right : Node) : Unchecked [left, right] (arrayIndex left right)
  | negate (operand : Node) : Unchecked [operand] (negate operand)
  | not (operand : Node) : Unchecked [operand] (not operand)
  | convert (operand : Node) (type : Ty) : Unchecked [operand] (convert operand type)
  | typeAs (operand : Node) (type : Ty) : Unchecked [operand] (typeAs operand type)
  | quote (lambda : Node) : Unchecked [lambda] (quote lambda)
  | arrayLength (array : Node) : Unchecked [array] (arrayLength array)
  | throw (exception : Node) : Unchecked [exception] (throw exception)
  | rethrow : Unchecked [] rethrow
  | typeIs (operand : Node) (type : Ty) : Unchecked [operand] (typeIs operand type)
  | typeEqual (operand : Node) (type : Ty) : Unchecked [operand] (typeEqual operand type)
  | typedConditional (test ifTrue ifFalse : Node) (type : Ty) :
    Unchecked [test, ifTrue, ifFalse] (typedConditional test ifTrue ifFalse type)
  | conditional (test ifTrue ifFalse : Node) :
    Unchecked [test, ifTrue, ifFalse] (conditional test ifTrue ifFalse)
  | invoke (callee : Node) (arguments : List Node) :
    Unchecked (callee :: arguments) (invoke callee arguments)
  | goto (jump : JumpKind) (target : LabelTarget) (value : Option Node) :
    Unchecked value.toList (goto jump target value)
  | label (target : LabelTarget) (value : Option Node) :
    Unchecked value.toList (label target value)
  | loop (body : Node) (breakTarget continueTarget : Option LabelTarget) :
    Unchecked [body] (loop body breakTarget continueTarget)
  | switch (subject : Node) (branches : List (SwitchCase Node)) (otherwise : Option Node)
      (comparison : Option Method) :
    Unchecked (subject :: (SwitchCase.childrenOfList branches ++ otherwise.toList))
      (switch subject branches otherwise comparison)
  | tryCatch (body : Node) (handlers : List (Handler Node)) (cleanup fault : Option Node) :
    Unchecked (body :: (Handler.childrenOfList handlers ++ cleanup.toList ++ fault.toList))
      (tryCatch body handlers cleanup fault)
  | dynamic (binder : String) (delegate : Ty) (arguments : List Node) :
    Unchecked arguments (dynamic binder delegate arguments)
  | debugInfo (document : Document) (span : Span) : Unchecked [] (debugInfo document span)
  | clearDebugInfo (document : Document) : Unchecked [] (clearDebugInfo document)
  | memberAccess (object : Option Node) (member : Member) :
    Unchecked object.toList (memberAccess object member)
  | index (object : Node) (indexer : Option Member) (arguments : List Node) :
    Unchecked (object :: arguments) (index object indexer arguments)
  | newValue (type : Ty) : Unchecked [] (newValue type)
  | newArrayInit (element : Ty) (items : List Node) : Unchecked items (newArrayInit element items)
  | newArrayBounds (element : Ty) (bounds : List Node) :
    Unchecked bounds (newArrayBounds element bounds)
  | extension (custom : Extension Node) : Unchecked custom.operand?.toList (extension custom)

/-- The action checks the operands and builds a node from them. -/
inductive Checked : List Node → Supply (Except BuildError Node) → Prop where
  | binaryWith (kind : Kind) (left right : Node) (method : Option Method)
      (conversion : Option Node) (lifted : Bool) :
    Checked (left :: (conversion.toList ++ [right]))
      (binaryWith kind left right method conversion lifted)
  | binary (kind : Kind) (left right : Node) : Checked [left, right] (binary kind left right)
  | unary (kind : Kind) (operand : Option Node) (type : Ty) (method : Option Method) :
    Checked operand.toList (unary kind operand type method)
  | call (object : Option Node) (method : Method) (arguments : List Node) :
    Checked (object.toList ++ arguments) (call object method arguments)
  | lambdaWith (name : Option String) (body : Node) (parameters : List Node) (tailCall : Bool) :
    Checked (body :: parameters) (lambdaWith name body parameters tailCall)
  | lambda (body : Node) (parameters : List Node) :
    Checked (body :: parameters) (lambda body parameters)
  | block (locals statements : List Node) :
    Checked (locals ++ statements) (block locals statements)
  | runtimeVariables (locals : List Node) : Checked locals (runtimeVariables locals)
  | new (constructor : Constructor) (arguments : List Node) :
    Checked arguments (new constructor arguments)
  | newWithMembers (constructor : Constructor) (arguments : List Node) (members : List Member) :
    Checked arguments (newWithMembers constructor arguments members)
  | listInit (creation : Node) (inits : List (ElementInit Node)) :
    Checked (creation :: ElementInit.argumentsOfList inits) (listInit creation inits)
  | memberInit (creation : Node) (bindings : List (Binding Node)) :
    Checked (creation :: Binding.childrenOfList bindings) (memberInit creation bindings)

/-- Some factory that is given the operands returns the node; the stamp is the one drawn next. -/
def Returns (operands : List Node) (next : Stamp) (r : Node) : Prop :=
  (∃ build, Unchecked operands build ∧ (build next).1 = r) ∨
    ∃ build, Checked operands build ∧ (build next).1 = .ok r

/-! ## Factories return well-formed nodes -/

/-- The check of a family is passed by its kinds. -/
theorem checkFamily_eq_ok_iff {kind : Kind} {expected : Family} :
    checkFamily kind expected = .ok () ↔ kind.family = expected := by
  unfold checkFamily
  split <;> simp_all

/-- The check of a number is passed by that number. -/
theorem checkCount_eq_ok_iff {expected found : Nat} :
    checkCount expected found = .ok () ↔ expected = found := by
  unfold checkCount
  split <;> simp_all

/-- Two numbers are checked one after the other. -/
theorem checkCounts_eq_ok_iff {expected found expected' found' : Nat} :
    (do checkCount expected found; checkCount expected' found') = .ok () ↔
      expected = found ∧ expected' = found' := by
  rw [← checkCount_eq_ok_iff, ← checkCount_eq_ok_iff]
  cases checkCount expected found with
  | error error => exact ⟨nofun, nofun⟩
  | ok _ => exact ⟨fun h => ⟨rfl, h⟩, fun h => h.2⟩

/-- The check of a creation is passed by creations. -/
theorem checkCreation_eq_ok_iff {node : Node} :
    checkCreation node = .ok () ↔ node.kind = .new := by
  unfold checkCreation
  split <;> simp_all

/-- The check of parameters is passed if all nodes are parameters. -/
theorem checkParameters_eq_ok_iff {nodes : List Node} :
    checkParameters nodes = .ok () ↔ ∀ p ∈ nodes, p.kind = .parameter := by
  have hnone : nodes.find? (·.kind ≠ .parameter) = none ↔ ∀ p ∈ nodes, p.kind = .parameter := by
    simp
  rw [← hnone]
  unfold checkParameters
  split <;> simp_all

section Checked

variable {checks : Except BuildError Unit} {build : Supply Node} {next : Stamp} {r : Node}

/-- A node is built if the checks pass. -/
theorem checked_eq_ok_iff :
    (checked checks build next).1 = .ok r ↔ checks = .ok () ∧ (build next).1 = r := by
  cases checks with
  | error error =>
    have hrun : (checked (.error error) build next).1 = .error error := rfl
    simp [hrun]
  | ok passed =>
    have hrun : (checked (.ok passed) build next).1 = .ok (build next).1 := rfl
    simp [hrun]

/-- A block is built if its variables are parameters and it has a last statement. -/
theorem block_eq_ok_iff {locals statements : List Node} :
    ((block locals statements : Supply (Except BuildError Node)) next).1 = .ok r ↔
      checkParameters locals = .ok () ∧ ∃ last ∈ statements.getLast?,
        r = ⟨next, .block, last.type, .block locals statements⟩ := by
  cases hlocals : checkParameters locals with
  | error error =>
    have hrun : ((block locals statements : Supply (Except BuildError Node)) next).1 =
        .error error := by
      rw [block, hlocals]
      rfl
    simp [hrun]
  | ok _ =>
    cases hlast : statements.getLast? with
    | none =>
      have hrun : ((block locals statements : Supply (Except BuildError Node)) next).1 =
          .error .emptyBlock := by
        rw [block, hlocals, hlast]
        rfl
      simp [hrun]
    | some last =>
      have hrun : ((block locals statements : Supply (Except BuildError Node)) next).1 =
          .ok ⟨next, .block, last.type, .block locals statements⟩ := by
        rw [block, hlocals, hlast]
        rfl
      simp [hrun, eq_comm]

end Checked

/-- Unchecked factories build well-formed nodes that hold the operands. -/
theorem Unchecked.wellFormed {operands : List Node} {build : Supply Node}
    (h : Unchecked operands build) (next : Stamp) :
    (build next).1.WellFormed ∧ (build next).1.shape.handles = operands := by
  cases h with
  | newArrayInit element items => exact ⟨⟨rfl, fun _ => ⟨element, rfl⟩, nofun⟩, rfl⟩
  | newArrayBounds element bounds => exact ⟨⟨rfl, nofun, fun _ => ⟨element, rfl⟩⟩, rfl⟩
  | newValue type => exact ⟨⟨rfl, rfl, rfl⟩, rfl⟩
  | anyParameter | parameter | byRefParameter | typedConstant | constant | defaultValue | empty
  | negate | not | convert | typeAs | quote | arrayLength | throw | rethrow | typedConditional
  | conditional => exact ⟨⟨rfl, trivial⟩, rfl⟩
  | _ => exact ⟨⟨rfl, rfl⟩, rfl⟩

/-- Checked factories that return a node return a well-formed one that holds the operands. -/
theorem Checked.wellFormed {operands : List Node} {build : Supply (Except BuildError Node)}
    (h : Checked operands build) {next : Stamp} {r : Node} (hr : (build next).1 = .ok r) :
    r.WellFormed ∧ r.shape.handles = operands := by
  cases h with
  | binaryWith | binary =>
    obtain ⟨hc, rfl⟩ := checked_eq_ok_iff.mp hr
    exact ⟨⟨checkFamily_eq_ok_iff.mp hc, rfl⟩, rfl⟩
  | unary kind operand type method =>
    obtain ⟨hc, rfl⟩ := checked_eq_ok_iff.mp hr
    exact ⟨⟨checkFamily_eq_ok_iff.mp hc, trivial⟩, rfl⟩
  | call object method arguments =>
    obtain ⟨hc, rfl⟩ := checked_eq_ok_iff.mp hr
    exact ⟨⟨rfl, checkCount_eq_ok_iff.mp hc, rfl⟩, rfl⟩
  | lambdaWith | lambda | runtimeVariables =>
    obtain ⟨hc, rfl⟩ := checked_eq_ok_iff.mp hr
    exact ⟨⟨rfl, checkParameters_eq_ok_iff.mp hc, rfl⟩, rfl⟩
  | block locals statements =>
    obtain ⟨hc, last, hlast, rfl⟩ := block_eq_ok_iff.mp hr
    exact ⟨⟨rfl, checkParameters_eq_ok_iff.mp hc, last, hlast, rfl⟩, rfl⟩
  | new constructor arguments =>
    obtain ⟨hc, rfl⟩ := checked_eq_ok_iff.mp hr
    exact ⟨⟨rfl, checkCount_eq_ok_iff.mp hc, nofun, rfl⟩, rfl⟩
  | newWithMembers constructor arguments members =>
    obtain ⟨hc, rfl⟩ := checked_eq_ok_iff.mp hr
    obtain ⟨hcount, hmembers⟩ := checkCounts_eq_ok_iff.mp hc
    exact ⟨⟨rfl, hcount, fun names hn => Option.some.inj hn ▸ hmembers, rfl⟩, rfl⟩
  | listInit | memberInit =>
    obtain ⟨hc, rfl⟩ := checked_eq_ok_iff.mp hr
    exact ⟨⟨rfl, checkCreation_eq_ok_iff.mp hc, rfl⟩, rfl⟩

/-- What factories return is well formed and holds the operands. -/
theorem Returns.wellFormed {operands : List Node} {next : Stamp} {r : Node}
    (h : Returns operands next r) : r.WellFormed ∧ r.shape.handles = operands := by
  rcases h with ⟨build, hb, rfl⟩ | ⟨build, hb, hr⟩
  · exact hb.wellFormed next
  · exact hb.wellFormed hr

end Factory

/-! ## Well-formed nodes are returned by factories -/

/-- The kinds of a family are listed with it. -/
theorem Kind.mem_kinds_of_family_eq {kind : Kind} {family : Family} (h : kind.family = family) :
    kind ∈ family.kinds := by
  have hall : kind ∈ Kind.all := by cases kind <;> decide
  exact List.mem_filter.mpr ⟨hall, decide_eq_true h⟩

namespace Node

/-- Some factory returns the node for the nodes that it holds, with stamps of its own. -/
def IsReturned (n : Node) : Prop :=
  ∃ next r, Factory.Returns n.shape.handles next r ∧
    r.kind = n.kind ∧ r.type = n.type ∧ r.shape = n.shape

open Factory

section Returned

variable {stamp : Stamp} {kind : Kind} {type : Ty} {shape : Shape Node} {build : Supply Node}

/-- What an unchecked factory gives is returned. -/
theorem isReturned_of_unchecked (h : Unchecked shape.handles build) (next : Stamp)
    (hkind : (build next).1.kind = kind) (htype : type = (build next).1.type)
    (hshape : (build next).1.shape = shape) : IsReturned ⟨stamp, kind, type, shape⟩ :=
  ⟨next, _, .inl ⟨build, h, rfl⟩, hkind, htype.symm, hshape⟩

/-- What a checked factory gives is returned if the checks pass. -/
theorem isReturned_of_checked {checks : Except BuildError Unit}
    (h : Checked shape.handles (checked checks build)) (hchecks : checks = .ok ()) (next : Stamp)
    (hkind : (build next).1.kind = kind) (htype : type = (build next).1.type)
    (hshape : (build next).1.shape = shape) : IsReturned ⟨stamp, kind, type, shape⟩ :=
  ⟨next, _, .inr ⟨_, h, checked_eq_ok_iff.mpr ⟨hchecks, rfl⟩⟩, hkind, htype.symm, hshape⟩

end Returned

/-- A well-formed node is one that a factory returns for the nodes that it holds. -/
theorem WellFormed.isReturned {n : Node} (h : n.WellFormed) : n.IsReturned := by
  obtain ⟨stamp, kind, type, shape⟩ := n
  obtain ⟨hfamily, hfits⟩ := h
  have hkind : kind ∈ shape.family.kinds := Kind.mem_kinds_of_family_eq hfamily
  cases shape with
  | binary left conversion right method lifted =>
    have hchecks := checkFamily_eq_ok_iff.mpr hfamily
    exact isReturned_of_checked (.binaryWith kind left right method conversion lifted) hchecks
      stamp rfl hfits rfl
  | unary operand method =>
    have hchecks := checkFamily_eq_ok_iff.mpr hfamily
    exact isReturned_of_checked (.unary kind operand type method) hchecks stamp rfl rfl rfl
  | call object method arguments =>
    obtain rfl := List.mem_singleton.mp hkind
    have hchecks := checkCount_eq_ok_iff.mpr hfits.1
    exact isReturned_of_checked (.call object method arguments) hchecks stamp rfl hfits.2 rfl
  | conditional test ifTrue ifFalse =>
    obtain rfl := List.mem_singleton.mp hkind
    exact isReturned_of_unchecked (.typedConditional test ifTrue ifFalse type) stamp rfl rfl rfl
  | invoke callee arguments =>
    obtain rfl := List.mem_singleton.mp hkind
    exact isReturned_of_unchecked (.invoke callee arguments) stamp rfl hfits rfl
  | lambda body parameters name tailCall =>
    obtain rfl := List.mem_singleton.mp hkind
    have hchecks := checkParameters_eq_ok_iff.mpr hfits.1
    exact isReturned_of_checked (.lambdaWith name body parameters tailCall) hchecks stamp rfl
      hfits.2 rfl
  | listInit creation inits =>
    obtain rfl := List.mem_singleton.mp hkind
    have hchecks := checkCreation_eq_ok_iff.mpr hfits.1
    exact isReturned_of_checked (.listInit creation inits) hchecks stamp rfl hfits.2 rfl
  | memberAccess object member =>
    obtain rfl := List.mem_singleton.mp hkind
    exact isReturned_of_unchecked (.memberAccess object member) stamp rfl hfits rfl
  | memberInit creation bindings =>
    obtain rfl := List.mem_singleton.mp hkind
    have hchecks := checkCreation_eq_ok_iff.mpr hfits.1
    exact isReturned_of_checked (.memberInit creation bindings) hchecks stamp rfl hfits.2 rfl
  | new constructor arguments members =>
    obtain rfl := List.mem_singleton.mp hkind
    -- which factory it is depends on whether there are a constructor and members
    cases constructor with
    | none =>
      obtain ⟨rfl, rfl⟩ := hfits
      exact isReturned_of_unchecked (.newValue type) stamp rfl rfl rfl
    | some constructor =>
      obtain ⟨hcount, hmembers, htype⟩ := hfits
      cases members with
      | none =>
        have hchecks := checkCount_eq_ok_iff.mpr hcount
        exact isReturned_of_checked (.new constructor arguments) hchecks stamp rfl htype rfl
      | some members =>
        have hchecks := checkCounts_eq_ok_iff.mpr ⟨hcount, hmembers members rfl⟩
        exact isReturned_of_checked (.newWithMembers constructor arguments members) hchecks stamp
          rfl htype rfl
  | newArray items =>
    rcases List.mem_pair.mp hkind with rfl | rfl
    · obtain ⟨element, htype⟩ := hfits.2 rfl
      exact isReturned_of_unchecked (.newArrayBounds element items) stamp rfl htype rfl
    · obtain ⟨element, htype⟩ := hfits.1 rfl
      exact isReturned_of_unchecked (.newArrayInit element items) stamp rfl htype rfl
  | typeBinary operand tested =>
    rcases List.mem_pair.mp hkind with rfl | rfl
    · exact isReturned_of_unchecked (.typeEqual operand tested) stamp rfl hfits rfl
    · exact isReturned_of_unchecked (.typeIs operand tested) stamp rfl hfits rfl
  | block locals statements =>
    obtain rfl := List.mem_singleton.mp hkind
    obtain ⟨hlocals, last, hlast, rfl⟩ := hfits
    have hchecks := checkParameters_eq_ok_iff.mpr hlocals
    exact ⟨stamp, _, .inr ⟨_, .block locals statements,
      block_eq_ok_iff.mpr ⟨hchecks, last, hlast, rfl⟩⟩, rfl, rfl, rfl⟩
  | dynamic binder delegate arguments =>
    obtain rfl := List.mem_singleton.mp hkind
    exact isReturned_of_unchecked (.dynamic binder delegate arguments) stamp rfl hfits rfl
  | goto jump target value =>
    obtain rfl := List.mem_singleton.mp hkind
    exact isReturned_of_unchecked (.goto jump target value) stamp rfl hfits rfl
  | index object indexer arguments =>
    obtain rfl := List.mem_singleton.mp hkind
    exact isReturned_of_unchecked (.index object indexer arguments) stamp rfl hfits rfl
  | label target value =>
    obtain rfl := List.mem_singleton.mp hkind
    exact isReturned_of_unchecked (.label target value) stamp rfl hfits rfl
  | runtimeVariables locals =>
    obtain rfl := List.mem_singleton.mp hkind
    have hchecks := checkParameters_eq_ok_iff.mpr hfits.1
    exact isReturned_of_checked (.runtimeVariables locals) hchecks stamp rfl hfits.2 rfl
  | loop body breakTarget continueTarget =>
    obtain rfl := List.mem_singleton.mp hkind
    exact isReturned_of_unchecked (.loop body breakTarget continueTarget) stamp rfl hfits rfl
  | switch subject branches otherwise comparison =>
    obtain rfl := List.mem_singleton.mp hkind
    exact isReturned_of_unchecked (.switch subject branches otherwise comparison) stamp rfl hfits
      rfl
  | tryCatch body handlers cleanup fault =>
    obtain rfl := List.mem_singleton.mp hkind
    exact isReturned_of_unchecked (.tryCatch body handlers cleanup fault) stamp rfl hfits rfl
  | extension inner custom =>
    -- the first stamp that is drawn is that of the extension inside the node
    obtain rfl := List.mem_singleton.mp hkind
    exact isReturned_of_unchecked (.extension custom) inner rfl hfits rfl
  | debugInfo document span =>
    obtain rfl := List.mem_singleton.mp hkind
    exact isReturned_of_unchecked (.debugInfo document span) stamp rfl hfits rfl
  | parameter name byRef =>
    obtain rfl := List.mem_singleton.mp hkind
    exact isReturned_of_unchecked (.anyParameter type name byRef) stamp rfl rfl rfl
  | constant value =>
    obtain rfl := List.mem_singleton.mp hkind
    exact isReturned_of_unchecked (.typedConstant value type) stamp rfl rfl rfl
  | default =>
    obtain rfl := List.mem_singleton.mp hkind
    exact isReturned_of_unchecked (.defaultValue type) stamp rfl rfl rfl

/-- The well-formed nodes are those that factories return. -/
theorem wellFormed_iff_isReturned {n : Node} : n.WellFormed ↔ n.IsReturned := by
  constructor
  · exact WellFormed.isReturned
  · intro h
    obtain ⟨next, r, hr, hkind, htype, hshape⟩ := h
    obtain ⟨hcoherent, hfits⟩ := hr.wellFormed.1
    rw [hkind, hshape] at hcoherent
    rw [hkind, htype, hshape] at hfits
    exact ⟨hcoherent, hfits⟩

end Node

end ExprTree
