import Bomwerk.Core.Path
import Bomwerk.Core.Text
import Bomwerk.Support.OrderedMap

/-!
# Build traces

What a recorded build says, and how a path named on a command line is resolved
against the scanned repository.  The file system is a parameter: one fixed
answer to every question the code asks it.
-/

namespace Bomwerk.Observe

open Bomwerk.Core Bomwerk.Support

structure TraceRecord where
  tool : String
  arguments : List String
  workingDirectory : String
  /-- No mapping reads it. -/
  processId : Int64 := 0
  deriving DecidableEq, Repr

structure FileSystem where
  /-- `DirectoryResolver::canonical`. -/
  canonical : FsPath → FsPath
  /-- `fs::exists` without an error. -/
  fileExists : FsPath → Bool

def compilerToolNames : List String :=
  ["cc", "c++", "gcc", "g++", "clang", "clang++"]

def isCompilerToolName (toolName : String) : Bool :=
  compilerToolNames.contains toolName

def compileOnlyOptions : List String := ["-c", "-S", "-E"]

/-- An argument `@file`, which is never opened. -/
def isResponseFile (argument : String) : Bool :=
  startsWith argument "@"

def isOperand (argument : String) : Bool :=
  !startsWith argument "-"

def isLinkModeInvocation (record : TraceRecord) : Bool :=
  if record.tool = "ld" then true
  else if !isCompilerToolName record.tool then false
  else
    (record.arguments.drop 1).all fun argument =>
      !isResponseFile argument && !compileOnlyOptions.contains argument

def absoluteArgumentPath (workingDirectory : FsPath) (argument : String) :
    FsPath :=
  let candidate := FsPath.ofString argument
  (if candidate.absolute then candidate
    else workingDirectory.append candidate).lexicallyNormal

def resolveDirectoryArgument (fileSystem : FileSystem)
    (workingDirectory : FsPath) (argument : String) : FsPath :=
  fileSystem.canonical (absoluteArgumentPath workingDirectory argument)

def resolveFileArgument (fileSystem : FileSystem) (workingDirectory : FsPath)
    (argument : String) : FsPath :=
  let candidate := absoluteArgumentPath workingDirectory argument
  (fileSystem.canonical candidate.parentPath).append
    (FsPath.ofString candidate.filename)

def recordDirectory (fileSystem : FileSystem) (record : TraceRecord) : FsPath :=
  fileSystem.canonical (FsPath.ofString record.workingDirectory)

def toRootRelative (absolutePath canonicalRoot : FsPath) : Option FsPath :=
  let relativePath := absolutePath.lexicallyRelative canonicalRoot
  if relativePath.isEmpty then none
  else if relativePath.names.head? = some ".." then none
  else some relativePath

/-- The walk of `enclosing_root` over the ancestors of a directory. -/
def enclosingRootFrom (roots : OrderedSet FsPath) : Nat → FsPath → Option FsPath
  | 0, _ => none
  | fuel + 1, candidate =>
    if candidate.isEmpty then none
    else if roots.contains candidate then some candidate
    else if candidate.parentPath = candidate then none
    else enclosingRootFrom roots fuel candidate.parentPath

/-- `enclosing_root`.  A walk from a path of `n` names ends after `n + 2`
steps. -/
def enclosingRoot (startDirectory : FsPath) (roots : OrderedSet FsPath) :
    Option FsPath :=
  enclosingRootFrom roots (startDirectory.names.length + 2) startDirectory

end Bomwerk.Observe
