/-
# Trees of texts

The tree of a text in a language: the grammar's parse tree, lowered.  A script is read by the
same grammar as a file and keeps its own language.
-/
import SpecOutline.Error
import SpecOutline.ParseTree.Lower

namespace SpecOutline

/-- The tree of a text. -/
def Grammar.read (grammar : Grammar) (text : String) (language : Language) :
    Except SourceError Tree :=
  if language.isSupported then
    match grammar text with
    | some parsed => .ok { parsed.lower with language }
    | none => .error .noParseTree
  else .error (.unsupportedLanguage language)

end SpecOutline
