import Bomwerk.Core.Path
import Bomwerk.Core.YamlSequences

/-!
# West manifests

`parsers/embedded/west.cpp`: the remotes and the projects of a manifest of the
Zephyr project.  A text of a file is its bytes.
-/

namespace Bomwerk.Embedded.West

open Bomwerk.Core Bomwerk.Core.YamlSubset

/-- `kManifestKey`, and so on. -/
def manifestKey : List Char := "manifest".toList
def defaultsKey : List Char := "defaults".toList
def remotesKey : List Char := "remotes".toList
def projectsKey : List Char := "projects".toList
def selfKey : List Char := "self".toList
def nameKey : List Char := "name".toList
def urlKey : List Char := "url".toList
def urlBaseKey : List Char := "url-base".toList
def remoteKey : List Char := "remote".toList
def repoPathKey : List Char := "repo-path".toList
def revisionKey : List Char := "revision".toList
def pathKey : List Char := "path".toList
def importKey : List Char := "import".toList

/-! ## Manifests -/

structure Frame where
  indentation : Nat
  key : List Char
  deriving DecidableEq, Repr

structure Remote where
  name : List Char := []
  urlBase : List Char := []
  deriving DecidableEq, Repr

structure Project where
  name : List Char := []
  url : List Char := []
  remote : List Char := []
  repoPath : List Char := []
  revision : List Char := []
  path : List Char := []
  imports : Bool := false
  deriving DecidableEq, Repr

structure Manifest where
  found : Bool := false
  defaultRemote : List Char := []
  defaultRevision : List Char := []
  remotes : List Remote := []
  projects : List Project := []
  selfImports : Bool := false
  malformed : Nat := 0
  deriving DecidableEq, Repr

def importValuePullsProjects (node : SequenceNode) : Bool :=
  node.opensBlock ∨
    (node.value ≠ "false".toList ∧ node.value ≠ "False".toList ∧
      node.value ≠ [])

def Remote.setField (node : SequenceNode) (remote : Remote) : Remote :=
  if node.key = nameKey then { remote with name := node.value }
  else if node.key = urlBaseKey then { remote with urlBase := node.value }
  else remote

def Project.setField (node : SequenceNode) (project : Project) : Project :=
  if node.key = nameKey then { project with name := node.value }
  else if node.key = urlKey then { project with url := node.value }
  else if node.key = remoteKey then { project with remote := node.value }
  else if node.key = repoPathKey then { project with repoPath := node.value }
  else if node.key = revisionKey then { project with revision := node.value }
  else if node.key = pathKey then { project with path := node.value }
  else if node.key = importKey then
    { project with imports := importValuePullsProjects node }
  else project

def isBareScalar (node : SequenceNode) : Bool :=
  node.key = [] ∧ node.value ≠ []

def readRemoteField (node : SequenceNode) (manifest : Manifest) : Manifest :=
  if node.startsSequenceItem = false ∧ manifest.remotes = [] then
    { manifest with malformed := manifest.malformed + 1 }
  else
    { manifest with
      remotes :=
        (if node.startsSequenceItem then manifest.remotes ++ [{}]
        else manifest.remotes).modifyLast (Remote.setField node)
      malformed :=
        if isBareScalar node then manifest.malformed + 1
        else manifest.malformed }

def readProjectField (node : SequenceNode) (manifest : Manifest) : Manifest :=
  if node.startsSequenceItem = false ∧ manifest.projects = [] then
    { manifest with malformed := manifest.malformed + 1 }
  else
    { manifest with
      projects :=
        (if node.startsSequenceItem then manifest.projects ++ [{}]
        else manifest.projects).modifyLast (Project.setField node)
      malformed :=
        if isBareScalar node then manifest.malformed + 1
        else manifest.malformed }

/-- `read_node`, at the depth of a field of a section. -/
def readSectionNode (sectionKey : List Char) (node : SequenceNode)
    (manifest : Manifest) : Manifest :=
  if sectionKey = defaultsKey then
    if node.key = remoteKey then { manifest with defaultRemote := node.value }
    else if node.key = revisionKey then
      { manifest with defaultRevision := node.value }
    else manifest
  else if sectionKey = remotesKey then readRemoteField node manifest
  else if sectionKey = projectsKey then readProjectField node manifest
  else if sectionKey = selfKey ∧ node.key = importKey then
    { manifest with selfImports := importValuePullsProjects node }
  else manifest

/-- `read_node`.  The stack has its last frame in front. -/
def readNode (node : SequenceNode) (stack : List Frame)
    (manifest : Manifest) : Manifest :=
  match stack with
  | [] =>
    if node.key = manifestKey ∧ node.opensBlock then
      { manifest with found := true }
    else manifest
  | [sectionFrame, front] =>
    if front.key = manifestKey then
      readSectionNode sectionFrame.key node manifest
    else manifest
  | _ => manifest

/-- The frames that enclose a node at an indentation. -/
def enclosing (indentation : Nat) (stack : List Frame) : List Frame :=
  stack.dropWhile fun frame => indentation ≤ frame.indentation

/-- The loop of `read_manifest`, over the nodes of the reader. -/
def manifestStep (state : List Frame × Manifest) (node : SequenceNode) :
    List Frame × Manifest :=
  let stack := enclosing node.indentation state.1
  (if node.opensBlock ∧ node.key ≠ [] then
      { indentation := node.indentation, key := node.key } :: stack
    else stack,
    readNode node stack state.2)

/-- `read_manifest`, with the count of the lines outside the subset. -/
def readManifest (bytes : List Char) : Manifest × Nat :=
  let readings := sequenceReadings bytes
  (((readings.filterMap SequenceReading.node?).foldl manifestStep
      ([], {})).2,
    readings.countP SequenceReading.unsupported)

def findRemote (manifest : Manifest) (name : List Char) : Option Remote :=
  manifest.remotes.find? fun remote => remote.name = name

/-- The name of the remote that `resolve_url` looks up. -/
def remoteName (manifest : Manifest) (project : Project) : List Char :=
  let name :=
    if project.remote = [] then manifest.defaultRemote else project.remote
  match name, manifest.remotes with
  | [], [remote] => remote.name
  | name, _ => name

/-- `resolve_url`: empty when nothing resolves. -/
def resolveUrl (manifest : Manifest) (project : Project) : List Char :=
  if project.url ≠ [] then project.url
  else
    let name := remoteName manifest project
    match if name = [] then none else findRemote manifest name with
    | none => []
    | some remote =>
      if remote.urlBase = [] then []
      else
        remote.urlBase.rdropWhile (· = '/') ++
          '/' :: (if project.repoPath = [] then project.name
            else project.repoPath)

/-- The revision that `parse_west_manifest` reports a project at. -/
def resolveRevision (manifest : Manifest) (project : Project) : List Char :=
  if project.revision = [] then manifest.defaultRevision
  else project.revision

def checkoutRoot (manifestLabel : FsPath) (project : Project) : FsPath :=
  let manifestDir := manifestLabel.parentPath
  if manifestDir.isEmpty then .empty
  else
    let checkout := if project.path = [] then project.name else project.path
    let candidate := FsPath.ofString (String.ofList checkout)
    if candidate.absolute then .empty
    else
      let root := (manifestDir.parentPath.append candidate).lexicallyNormal
      if root.isEmpty ∨ root = .dot ∨ root.elements.head? = some ".." then
        .empty
      else root

end Bomwerk.Embedded.West
