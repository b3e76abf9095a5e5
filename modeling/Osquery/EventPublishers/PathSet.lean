import Osquery.Foundation.SearchTree
import Mathlib.Data.String.Basic

/-!
# Sets of path patterns

A set of patterns is a multiset of component lists whose comparator takes a wildcard for
equal to every component. That is no order, so what a search finds depends on what else
was inserted, and when.

## Implementation notes

A multiset is a search tree that is not rebalanced. The file system is an input: the
current path put before a relative pattern, canonical paths, which are empty on an error,
and directories. Path separators are those of POSIX. A list without components has no
last component; `compare` is then as if it were no wildcard, and the reads of the source are
in the module on them.
-/

namespace Osquery.EventPublishers

open Foundation Foundation.SearchTree

abbrev Path := List String

structure FileSystem where
  absolute : String → String
  canonical : String → String
  isDirectory : String → Bool

/-! ### Patterns -/

def byteAt (s : String) (i : ℕ) : Option UInt8 := (s.toList.flatMap String.utf8EncodeChar)[i]?

def isByte (s : String) (i : ℕ) (c : Char) : Bool := byteAt s i == some c.val.toUInt8

/-- A pattern that the current path is put before. -/
def isRelative (pattern : String) : Bool :=
  (pattern == "" ||
      (!isByte pattern 0 '/' && !isByte pattern 0 '\\' &&
        ((byteAt pattern 3).isSome && !isByte pattern 1 ':' && !isByte pattern 2 '\\' &&
          !isByte pattern 2 '/'))) &&
    !isByte pattern 0 '~'

def replaceGlobWildcards (fs : FileSystem) (pattern : String) : String :=
  let pattern := String.ofList (pattern.toList.map fun c => if c = '%' then '*' else c)
  let pattern := if isRelative pattern then fs.absolute pattern else pattern
  let base := pattern.toList.takeWhile (· ≠ '*')
  let canonicalized := fs.canonical (String.ofList base)
  if base ≠ [] ∧ canonicalized ≠ "" ∧ canonicalized ≠ String.ofList base then
    canonicalized ++ (if fs.isDirectory canonicalized then "/" else "") ++
      String.ofList (pattern.toList.drop base.length)
  else pattern

/-- `boost::tokenizer` at slashes, without empty tokens. -/
def tokens (str : String) : List String :=
  ((str.toList.splitOnP (· == '/')).filter (· ≠ [])).map String.ofList

namespace PatternedPath

def createPath (str : String) : Path := (if str = "/" then [""] else []) ++ tokens str

/-- A list that ends at `**`, with the list before it. -/
def splitVPath (path : Path) : List String → List Path
  | [] => [path]
  | component :: components =>
      if component = "**" then [path, path ++ [component]]
      else splitVPath (path ++ [component]) components

def createVPath (str : String) : List Path :=
  splitVPath (if str = "/" then [""] else []) (tokens str)

/-- The loop of the comparator, with the last component on the left. -/
def compareFrom (lhsLast : String) : Path → Path → Bool
  | [], [] => false
  | [], _ :: _ => lhsLast != "*"
  | _ :: _, [] => false
  | l :: lhs, r :: rhs =>
      if l = "**" ∨ r = "**" then false
      else if l = "*" ∨ r = "*" then compareFrom l lhs rhs
      else if r < l then false
      else if l < r then true
      else compareFrom l lhs rhs

def compare (lhs rhs : Path) : Bool := compareFrom "" lhs rhs

end PatternedPath

/-! ### The set -/

abbrev PathSet := SearchTree.Tree Path

namespace PathSet

def insert (fs : FileSystem) (paths : PathSet) (str : String) : PathSet :=
  (PatternedPath.createVPath (replaceGlobWildcards fs str)).foldl
    (fun paths path => SearchTree.Tree.insert PatternedPath.compare path paths) paths

def find (paths : PathSet) (str : String) : Bool :=
  SearchTree.Tree.find PatternedPath.compare (PatternedPath.createPath str) paths

/-- The component lists that are derived from some patterns. -/
def derived (fs : FileSystem) (patterns : List String) : List Path :=
  patterns.flatMap fun pattern => PatternedPath.createVPath (replaceGlobWildcards fs pattern)

/-- The set after some patterns were inserted. -/
def insertAll (fs : FileSystem) (patterns : List String) : PathSet :=
  patterns.foldl (insert fs) .nil

end PathSet

namespace PatternedPath

/-! ### The comparator -/

end PatternedPath

namespace PathSet

/-- A component list that the comparator takes for equal to a path. -/
abbrev Matches (p : Path) (str : String) : Prop :=
  Equivalent PatternedPath.compare p (PatternedPath.createPath str)

/-- A file system where no path exists. -/
def noFiles : FileSystem := ⟨fun pattern => "/" ++ pattern, fun _ => "", fun _ => false⟩

end PathSet

end Osquery.EventPublishers
