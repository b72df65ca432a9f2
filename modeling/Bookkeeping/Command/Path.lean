import Bookkeeping.Text.Utf8
/-! Paths: parts between slashes that lead from one directory to the next. -/
namespace Bookkeeping.Command

def pathParts (path : String) : List String :=
  ((path.toList.splitOn '/').map String.ofList).filter (· != "")

def fromRoot (path : String) : Bool := path.toList.head? = some '/'

/-- A path that ends in a slash, as only that of a directory may. -/
def endsInSlash (path : String) : Bool := path.toList.getLast? = some '/'

/-- The name of what a path leads to, unless it ends by leading back. -/
def lastName? (path : String) : Option String :=
  match ((pathParts path).filter (· != ".")).getLast? with
  | some ".." => none
  | name => name

def maxNameLength : Nat := 255

def maxPathLength : Nat := 4095

end Bookkeeping.Command
