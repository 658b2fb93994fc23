/-
# Package headers and imports

Both are read from their text: the keyword goes, closing semicolons go, and blanks may stand
anywhere inside the name.
-/
import SpecOutline.Tree.Kind

namespace SpecOutline

open SpecOutline.Text

/-- What follows a keyword at the start of a phrase; all of it where the keyword is not
there. -/
def afterKeyword (keyword : String) (cs : List Char) : List Char :=
  (afterStart? keyword.toList (trim cs)).getD cs

/-- A text without closing semicolons and the blanks around it. -/
def withoutSemicolons (cs : List Char) : List Char :=
  dropEndWhile (· == ';') (trim cs)

/-- The package that a package header names (`strip_keyword`). -/
def packageOfHeader (header : String) : String :=
  String.ofList (squeeze (withoutSemicolons (afterKeyword "package" header.toList)))

/-- The path and the alias of an import, around the first `as` between two spaces. -/
def importParts (body : List Char) : List Char × Option (List Char) :=
  match cutWord? " as ".toList body with
  | some (path, name) => (squeeze path, some (squeeze name))
  | none => (squeeze body, none)

/-- The import that an import phrase names (`parse_import`).  A star import has no alias. -/
def Import.ofText (phrase : String) : Import :=
  let (path, name?) := importParts (withoutSemicolons (afterKeyword "import" phrase.toList))
  match beforeEnd? ".*".toList path with
  | some package => { path := String.ofList package, star := true }
  | none => { path := String.ofList path, alias? := name?.map String.ofList }

end SpecOutline
