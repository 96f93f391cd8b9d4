/-
  Kinds of syntax nodes.

  A kind is one of the kinds listed below, which are those
  that the rules speak of or that trees of this language
  usually hold, or any other, which is kept by its name.  So
  every tree can be read and written back.  The rules never
  speak of another kind, not even if its name is listed.

  Key definitions include:
    * `NodeKind`
    * `NodeKind.ofName`
    * `NodeKind.name`
    * `NodeKind.isKnown`
    * `NodeKind.isOneOf`
    * `NodeKind.isRoot`
    * `NodeKind.isLiteral`
    * `NodeKind.isStatement`
    * `NodeKind.isImport`
    * `NodeKind.isPrimitiveType`
-/

namespace TypeGraft

namespace NodeKind

------------------------------------------------------------
-- Names
------------------------------------------------------------

/- Roots of a parse. -/
def roots : List String := ["File", "Program"]

/- Names. -/
def names : List String := ["Identifier", "PrivateName"]

/- Literals. -/
def literals : List String :=
  ["StringLiteral", "NumericLiteral", "NullLiteral",
    "BooleanLiteral", "RegExpLiteral", "BigIntLiteral",
    "DecimalLiteral", "TemplateLiteral"]

/- Statements, declarations among them. -/
def statements : List String :=
  ["BlockStatement", "BreakStatement", "ContinueStatement",
    "DebuggerStatement", "DoWhileStatement", "EmptyStatement",
    "ExpressionStatement", "ForInStatement", "ForOfStatement",
    "ForStatement", "FunctionDeclaration", "IfStatement",
    "LabeledStatement", "ReturnStatement", "SwitchStatement",
    "ThrowStatement", "TryStatement", "VariableDeclaration",
    "WhileStatement", "WithStatement", "ClassDeclaration",
    "ExportAllDeclaration", "ExportDefaultDeclaration",
    "ExportNamedDeclaration", "ImportDeclaration",
    "DeclareClass", "DeclareFunction", "DeclareInterface",
    "DeclareModule", "DeclareModuleExports",
    "DeclareTypeAlias", "DeclareOpaqueType",
    "DeclareVariable", "DeclareExportDeclaration",
    "DeclareExportAllDeclaration", "InterfaceDeclaration",
    "OpaqueType", "TypeAlias", "EnumDeclaration"]

/- Expressions and patterns. -/
def expressions : List String :=
  ["ArrayExpression", "ArrowFunctionExpression",
    "AssignmentExpression", "AwaitExpression",
    "BinaryExpression", "CallExpression", "ClassExpression",
    "ConditionalExpression", "FunctionExpression",
    "LogicalExpression", "MemberExpression", "NewExpression",
    "ObjectExpression", "OptionalCallExpression",
    "OptionalMemberExpression", "ParenthesizedExpression",
    "SequenceExpression", "TaggedTemplateExpression",
    "ThisExpression", "TypeCastExpression", "UnaryExpression",
    "UpdateExpression", "YieldExpression", "Super", "Import",
    "SpreadElement", "RestElement", "AssignmentPattern",
    "ArrayPattern", "ObjectPattern", "ObjectProperty",
    "ObjectMethod"]

/- Import declarations and what stands in them. -/
def imports : List String :=
  ["ImportDeclaration", "ImportSpecifier",
    "ImportDefaultSpecifier", "ImportNamespaceSpecifier"]

/- Parts of larger constructs. -/
def parts : List String :=
  ["ClassBody", "ClassMethod", "ClassPrivateMethod",
    "ClassProperty", "ClassPrivateProperty",
    "VariableDeclarator", "ImportSpecifier",
    "ImportDefaultSpecifier", "ImportNamespaceSpecifier",
    "ExportSpecifier", "ExportDefaultSpecifier",
    "ExportNamespaceSpecifier", "SwitchCase", "CatchClause",
    "TemplateElement", "Directive", "DirectiveLiteral",
    "Decorator"]

/- The annotation wrapper and the simple annotations. -/
def primitiveTypes : List String :=
  ["TypeAnnotation", "AnyTypeAnnotation",
    "MixedTypeAnnotation", "BooleanLiteralTypeAnnotation",
    "StringTypeAnnotation", "StringLiteralTypeAnnotation",
    "NullLiteralTypeAnnotation", "UnionTypeAnnotation",
    "VoidTypeAnnotation"]

/- Other type annotations and their parts. -/
def otherTypes : List String :=
  ["TypeParameterDeclaration", "TypeParameterInstantiation",
    "TypeParameter", "EmptyTypeAnnotation",
    "NumberTypeAnnotation", "BooleanTypeAnnotation",
    "SymbolTypeAnnotation", "NumberLiteralTypeAnnotation",
    "GenericTypeAnnotation", "QualifiedTypeIdentifier",
    "IntersectionTypeAnnotation", "NullableTypeAnnotation",
    "ArrayTypeAnnotation", "TupleTypeAnnotation",
    "FunctionTypeAnnotation", "FunctionTypeParam",
    "ObjectTypeAnnotation", "ObjectTypeProperty",
    "ObjectTypeIndexer", "ObjectTypeSpreadProperty",
    "ObjectTypeCallProperty", "TypeofTypeAnnotation",
    "ExistsTypeAnnotation", "InterfaceExtends"]

/- All names that are listed. -/
def listed : List String :=
  roots ++ names ++ literals ++ statements ++ expressions ++
    parts ++ primitiveTypes ++ otherTypes

end NodeKind

------------------------------------------------------------
-- Kinds
------------------------------------------------------------

/- The kind of a syntax node. -/
inductive NodeKind where
  | known
      (name : String)
      (isListed : NodeKind.listed.contains name = true)
  | other (name : String)
deriving DecidableEq, Repr

namespace NodeKind

/- The kind that a name stands for. -/
def ofName
    (name : String) : NodeKind :=
  if h : listed.contains name = true then .known name h
  else .other name

/- The name of a kind. -/
def name : NodeKind → String
  | .known name _ => name
  | .other name => name

@[simp]
theorem name_ofName
    (text : String) :
    (ofName text).name = text := by
  unfold ofName
  split <;> rfl

/- The kind of names of values. -/
def identifier : NodeKind := .known "Identifier" (by decide)

------------------------------------------------------------
-- Categories
------------------------------------------------------------

/- Is the kind listed at all? -/
def isKnown : NodeKind → Bool
  | .known _ _ => true
  | .other _ => false

/- Is the kind one of those with the names? -/
def isOneOf
    (k : NodeKind)
    (names : List String) : Bool :=
  match k with
  | .known name _ => names.contains name
  | .other _ => false

/- Is the kind the root of a parse? -/
def isRoot
    (k : NodeKind) : Bool :=
  k.isOneOf roots

/- Is the kind a literal? -/
def isLiteral
    (k : NodeKind) : Bool :=
  k.isOneOf literals

/- Is the kind a statement or a declaration? -/
def isStatement
    (k : NodeKind) : Bool :=
  k.isOneOf statements

/- Does the kind belong to an import? -/
def isImport
    (k : NodeKind) : Bool :=
  k.isOneOf imports

/- Is the kind a simple type annotation? -/
def isPrimitiveType
    (k : NodeKind) : Bool :=
  k.isOneOf primitiveTypes

end NodeKind

end TypeGraft
