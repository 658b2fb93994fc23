/-
# What a node is

The kinds of node that the analysis tells apart, with what a declaration, import or literal
node carries.  Names of types stand as written; `TypeRef.simpleName?` and
`Import.boundName?` say which simple name such a text means.
-/
import SpecOutline.Text.Blank
import SpecOutline.Text.Split

namespace SpecOutline

open SpecOutline.Text

/-! ## 1. Types and imports as written -/

/-- A type as written in a declaration: a plain user type such as `a.b.Body<T>`, or a
nullable, functional or otherwise decorated one. -/
inductive TypeRef where
  | user (text : String)
  | other (text : String)
deriving Repr, DecidableEq

/-- The text of a type. -/
def TypeRef.text : TypeRef → String
  | .user text => text
  | .other text => text

/-- The last name of a qualified name before its type arguments. -/
def simpleTypeName (cs : List Char) : List Char :=
  trim (afterLast '.' (trim (beforeFirst '<' cs)))

/-- The simple name that a user type refers to, without qualifier and type arguments. -/
def TypeRef.simpleName? : TypeRef → Option String
  | .user text =>
    match simpleTypeName text.toList with
    | [] => none
    | name => some (String.ofList name)
  | .other _ => none

/-- The part of a dotted name after its last dot. -/
def lastName (name : String) : String := String.ofList (afterLast '.' name.toList)

/-- An import: its path without a closing `.*`, the name after `as`, and whether it was a
star import. -/
structure Import where
  path : String
  alias? : Option String := none
  star : Bool := false
deriving Repr, DecidableEq

/-- The simple name that an import binds; a star import binds none. -/
def Import.boundName? (i : Import) : Option String :=
  if i.star then none else some (i.alias?.getD (lastName i.path))

/-! ## 2. Declarations -/

/-- What the head of a class, interface or object declares. -/
structure ClassHead where
  name : String
  supertypes : List String := []
  isAbstract : Bool := false
  isInterface : Bool := false
deriving Repr, DecidableEq

/-- What the head of a named function declares. -/
structure FunctionHead where
  name : String
  receiver? : Option TypeRef := none
deriving Repr, DecidableEq

/-! ## 3. Kinds -/

/-- The kind of a node. -/
inductive Kind where
  /-- The whole file, in the package it declares. -/
  | file (package? : Option String)
  | importing (directive : Import)
  | classLike (head : ClassHead)
  | objectLike (head : ClassHead)
  | function (head : FunctionHead)
  /-- An annotation, its type as written. -/
  | annotated (typeName : String)
  | call
  /-- A bare identifier used as an expression. -/
  | nameRef (name : String)
  /-- A selection `receiver.selector`. -/
  | dotQualified
  | valueArgument
  /-- A trailing lambda, outside the parentheses. -/
  | lambdaArgument
  | lambdaExpression
  | functionLiteral
  | block
  /-- A string literal, quotes included. -/
  | stringTemplate (text : String)
  /-- Anything the analysis does not look at. -/
  | other (name : String)
deriving Repr, DecidableEq

namespace Kind

/-- The head of a class or object. -/
def head? : Kind → Option ClassHead
  | .classLike head => some head
  | .objectLike head => some head
  | _ => none

/-- Classes, interfaces and objects. -/
def isClass (k : Kind) : Bool := k.head?.isSome

/-- Calls. -/
def isCall : Kind → Bool
  | .call => true
  | _ => false

/-- Arguments of a call, trailing lambdas included. -/
def isArgument : Kind → Bool
  | .valueArgument => true
  | .lambdaArgument => true
  | _ => false

/-- The name of a kind in stored trees and listings. -/
def label : Kind → String
  | .file _ => "file"
  | .importing _ => "import"
  | .classLike _ => "class"
  | .objectLike _ => "object"
  | .function _ => "function"
  | .annotated _ => "annotation"
  | .call => "call"
  | .nameRef _ => "name_reference"
  | .dotQualified => "dot_qualified"
  | .valueArgument => "value_argument"
  | .lambdaArgument => "lambda_argument"
  | .lambdaExpression => "lambda_expression"
  | .functionLiteral => "function_literal"
  | .block => "block"
  | .stringTemplate _ => "string_template"
  | .other name => name

/-- What a listing shows of a node beside its kind. -/
def detail : Kind → String
  | .nameRef name => " " ++ name
  | .stringTemplate text => " " ++ text
  | .classLike head => " " ++ head.name
  | .objectLike head => " " ++ head.name
  | .function head => " " ++ head.name
  | .annotated typeName => " @" ++ typeName
  | _ => ""

end Kind

end SpecOutline
