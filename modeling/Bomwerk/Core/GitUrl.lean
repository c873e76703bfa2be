import Bomwerk.Core.Purl

/-!
# Git remote URLs

`core/git_url.cpp` over byte texts: the reduction of a remote to its host,
owner and name, the resolution of a relative submodule URL, and the purl of a
component pinned at a commit.
-/

namespace Bomwerk.Core

structure GitRemote where
  host : List Char := []
  owner : List Char := []
  repo : List Char := []
  deriving DecidableEq, Repr

/-- The text behind the first `://`, if there is one. -/
def behindScheme? : List Char → Option (List Char)
  | [] => none
  | ':' :: '/' :: '/' :: rest => some rest
  | _ :: rest => behindScheme? rest

/-- Every recognised form as `host/owner/repo`. -/
def hostAndPath? (working : List Char) : Option (List Char) :=
  match behindScheme? working with
  | some rest => some rest
  | none =>
    if ':' ∈ working then
      some (working.takeWhile (· ≠ ':') ++
        '/' :: (working.dropWhile (· ≠ ':')).tail)
    else none

/-- The host less the user and the port. -/
def bareHost (hostSegment : List Char) : List Char :=
  let hostSegment :=
    if '@' ∈ hostSegment then (hostSegment.dropWhile (· ≠ '@')).tail
    else hostSegment
  hostSegment.takeWhile (· ≠ ':')

def gitSuffix : List Char := ".git".toList

/-- The path less its trailing slashes and one `.git`. -/
def barePath (pathSegment : List Char) : List Char :=
  let pathSegment := pathSegment.rdropWhile (· = '/')
  if gitSuffix.length < pathSegment.length ∧ gitSuffix <:+ pathSegment then
    pathSegment.take (pathSegment.length - gitSuffix.length)
  else pathSegment

def parseGitRemote (url : List Char) : GitRemote :=
  let working := trimmed url
  if working = [] then {}
  else
    match hostAndPath? working with
    | none => {}
    | some hostAndPath =>
      let host :=
        (bareHost (hostAndPath.takeWhile (· ≠ '/'))).map toLowerAsciiChar
      let path := barePath (hostAndPath.dropWhile (· ≠ '/')).tail
      match afterLast? '/' path with
      | none => { host := host, repo := path }
      | some repo =>
        { host := host, owner := beforeLast '/' path, repo := repo }

example : parseGitRemote " ssh://git@GitHub.com:22/a/b/lib.git/ ".toList =
    { host := "github.com".toList, owner := "a/b".toList,
      repo := "lib".toList } := by
  decide

def isRelativeUrl (url : List Char) : Bool :=
  "./".toList.isPrefixOf url || "../".toList.isPrefixOf url

/-- The loop of `resolve_relative_url`, with `resolved_base` and
`remainder`. -/
def resolveSteps (resolvedBase : List Char) : List Char → List Char × List Char
  | '.' :: '/' :: remainder => resolveSteps resolvedBase remainder
  | '.' :: '.' :: '/' :: remainder =>
    if '/' ∈ resolvedBase then
      resolveSteps (beforeLast '/' resolvedBase) remainder
    else (resolvedBase, remainder)
  | remainder => (resolvedBase, remainder)

def resolveRelativeUrl (base relative : List Char) : List Char :=
  if !isRelativeUrl relative ∨ base = [] then relative
  else
    let (resolvedBase, remainder) :=
      resolveSteps (base.rdropWhile (· = '/')) relative
    if resolvedBase = [] then remainder else resolvedBase ++ '/' :: remainder

def forgeHosts : List (List Char × List Char) :=
  [("github.com".toList, "github".toList), ("gitlab.com".toList,
    "gitlab".toList), ("bitbucket.org".toList, "bitbucket".toList)]

def forgeTypeForHost (host : List Char) : Option (List Char) :=
  forgeHosts.lookup host

def normalizedObjectId (text : List Char) : List Char :=
  if isHexObjectId (String.ofList text) then text.map toLowerAsciiChar else text

/-- `@` and the version, unless there is none. -/
def versionSuffix (version : List Char) : List Char :=
  if version = [] then [] else '@' :: percentEncodeText version

def genericName (remote : GitRemote) (fallbackName : List Char) : List Char :=
  let name := if remote.repo = [] then fallbackName else remote.repo
  if name = [] then "unknown".toList else name

def buildGitPurl (url commit fallbackName : List Char) : List Char :=
  let remote := parseGitRemote url
  let version := normalizedObjectId commit
  match forgeTypeForHost remote.host with
  | some forgeType =>
    if remote.owner ≠ [] ∧ remote.repo ≠ [] then
      "pkg:".toList ++ forgeType ++
        '/' :: percentEncodePurlNamespace
          (remote.owner.map toLowerAsciiChar) ++
        '/' :: percentEncodeText (remote.repo.map toLowerAsciiChar) ++
        versionSuffix version
    else genericPurl remote version
  | none => genericPurl remote version
where
  genericPurl (remote : GitRemote) (version : List Char) : List Char :=
    "pkg:generic/".toList ++
      percentEncodeText (genericName remote fallbackName) ++
      versionSuffix version ++
      "?vcs_url=".toList ++ percentEncodeText ("git+".toList ++ trimmed url)

end Bomwerk.Core
