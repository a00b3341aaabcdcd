import BaseWebService.Library.PyText
import BaseWebService.Library.PyRegex
import BaseWebService.Library.PyTemplate

/-!
# Fixing the imports of generated code

`scripts/fix_proto_imports.py`. `main` goes through the generated files below the output directory
and puts the package prefix before the modules that are imported from the proto roots. A text is a
list of characters. Reading a file makes every line end a line feed; writing changes nothing.

## Main definitions

* `packagePrefix` : the package that an output path stands for.
* `fixContent` : the substitutions, root by root, on the text so far.
* `main` : one run of the script.
-/

namespace BaseWebService.Proto

open Library Template

abbrev Text := List Char

def text (s : String) : Text := s.toList

/-- The characters of Python identifiers, and more of the others: beyond ASCII nothing has a
meaning in a pattern. -/
def isIdentifierChar (c : Char) : Bool := c.isAlphanum || c == '_' || 128 ≤ c.toNat

/-- A directory below the proto directory; its name stands in the patterns as it is. -/
structure ProtoRoot where
  name : Text
  identifier : ∀ c ∈ name, isIdentifierChar c

/-! ## Paths -/

/-- What stands before the parts of a path: nothing, `/`, or `//` for exactly two slashes. -/
def anchor : Text → Option Text
  | '/' :: '/' :: '/' :: _ => some ['/']
  | '/' :: '/' :: _ => some ['/', '/']
  | '/' :: _ => some ['/']
  | _ => none

/-- `Path(path).parts`. -/
def pathParts (path : Text) : List Text :=
  (anchor path).toList ++ (path.splitOn '/').filter fun part => part ≠ [] ∧ part ≠ ['.']

def joinDots (parts : List Text) : Text := ['.'].intercalate parts

def packagePrefix (path : Text) : Text :=
  let parts := pathParts path
  match [text "core", text "app"].find? (· ∈ parts) with
  | some marker => joinDots (parts.dropWhile (· ≠ marker))
  | none => joinDots (parts.filter fun part => part ≠ ['.'] ∧ part ≠ ['.', '.'])

/-! ## Substitutions -/

def isWordChar (c : Char) : Bool := c.isAlphanum || c == '_'

/-- `(?:\.[a-zA-Z0-9_]+)*`. -/
def dottedNames : Regex := .star (.seq (.char (· = '.')) (.plus (.char isWordChar)))

/-- `from (root(?:\.[a-zA-Z0-9_]+)*) import`, at the beginning of a line. -/
def fromPattern (root : ProtoRoot) : Regex :=
  .seq .lineStart <| .seq (.literal (text "from ")) <|
    .seq (.group (.seq (.literal root.name) dottedNames)) (.literal (text " import"))

/-- `import (root(?:\.[a-zA-Z0-9_]+)*_pb2)`, at the beginning of a line. -/
def importPattern (root : ProtoRoot) : Regex :=
  .seq .lineStart <| .seq (.literal (text "import ")) <|
    .group (.seq (.literal root.name) (.seq dottedNames (.literal (text "_pb2"))))

/-- `re.sub(pattern, repl, content, flags=re.MULTILINE)`; `none` is a `re.error`. -/
def reSub (pattern : Regex) (repl content : Text) : Option Text :=
  (parseTemplate repl).map fun pieces => pattern.sub (expand pieces) content

/-- The loop over the roots for one of them. -/
def fixRoot (pkg content : Text) (root : ProtoRoot) : Option Text :=
  (reSub (fromPattern root) (text "from " ++ pkg ++ text ".\\1 import") content).bind fun content =>
    reSub (importPattern root) (text "import " ++ pkg ++ text ".\\1") content

def fixContent (pkg : Text) (roots : List ProtoRoot) (content : Text) : Option Text :=
  roots.foldlM (fixRoot pkg) content

/-! ## Files -/

/-- What `read_text` makes of the line ends. -/
def universalNewlines : Text → Text
  | '\r' :: '\n' :: rest => '\n' :: universalNewlines rest
  | '\r' :: rest => '\n' :: universalNewlines rest
  | c :: rest => c :: universalNewlines rest
  | [] => []

structure ProtoFile where
  name : Text
  content : Text
deriving DecidableEq

/-- The file name matches `*` with the ending. -/
def ProtoFile.endsWith (file : ProtoFile) (ending : Text) : Bool := ending.isSuffixOf file.name

def endings : List Text := [text "_pb2.py", text "_pb2.pyi", text "_pb2_grpc.py"]

def fixFile (pkg : Text) (roots : List ProtoRoot) (ending : Text) (file : ProtoFile) :
    Option ProtoFile :=
  if file.endsWith ending then
    (fixContent pkg roots (universalNewlines file.content)).map ({ file with content := · })
  else some file

/-- The files below the output directory after a run; `none` is an exception. -/
def main (protoOutDir : Text) (roots : List ProtoRoot) (files : List ProtoFile) :
    Option (List ProtoFile) :=
  endings.foldlM (fun files ending =>
    files.mapM (fixFile (packagePrefix protoOutDir) roots ending)) files

theorem not_mem_universalNewlines (content : Text) : '\r' ∉ universalNewlines content := by
  fun_induction universalNewlines content <;> grind

theorem universalNewlines_eq_self {content : Text} (h : '\r' ∉ content) :
    universalNewlines content = content := by
  fun_induction universalNewlines content <;> grind

/-- Only carriage returns are lost. -/
theorem length_le_universalNewlines (content : Text) :
    content.length ≤ (universalNewlines content).length + content.count '\r' := by
  fun_induction universalNewlines content <;> grind

end BaseWebService.Proto
