import Bomwerk.Core.GitConfig
import Mathlib.Data.List.Nodup

/-!
# Repositories on a known forge

The purl of such a remote tells the repository and the commit, and nothing of
how the remote is spelled.
-/

namespace Bomwerk.Core

open Bomwerk.Support

theorem percentDecodeText_intercalate {segments : List (List Char)}
    (h : ∀ segment ∈ segments, IsByteText segment) :
    percentDecodeText (['/'].intercalate (segments.map percentEncodeText)) =
      ['/'].intercalate segments := by
  induction segments with
  | nil => rfl
  | cons segment segments ih =>
    rw [List.forall_mem_cons] at h
    obtain ⟨hsegment, hrest⟩ := h
    cases segments with
    | nil =>
      rw [List.map_singleton, List.intercalate_singleton,
        List.intercalate_singleton]
      exact percentDecodeText_percentEncodeText hsegment
    | cons next segments =>
      rw [List.map_cons, List.map_cons, List.intercalate_cons_cons,
        List.intercalate_cons_cons, List.append_assoc,
        percentDecodeText_append hsegment, List.singleton_append,
        percentDecodeText_cons (by decide) (by decide), ← List.map_cons,
        ih hrest, List.append_assoc, List.singleton_append]

theorem percentDecodeText_percentEncodePurlNamespace {text : List Char}
    (h : IsByteText text) :
    percentDecodeText (percentEncodePurlNamespace text) = text := by
  rw [percentEncodePurlNamespace, percentDecodeText_intercalate
    (fun _ hsegment => h.of_mem_splitOn hsegment), List.intercalate_splitOn]

/-! ## The remote -/

/-- A spelling of a repository on a known forge. -/
structure ForgeUrl extends RepositoryUrl where
  forge : List Char
  on_forge : forgeTypeForHost (host.map toLowerAsciiChar) = some forge
  owner_ne_nil : owner ≠ []
  owner_bytes : IsByteText owner
  repo_bytes : IsByteText repo

/-- What a forge tells apart. -/
structure RepositoryIdentity where
  host : List Char
  owner : List Char
  repo : List Char
  commit : List Char
  deriving DecidableEq

namespace ForgeUrl

variable (url : ForgeUrl)

/-- The repository up to the case of its letters, and the commit up to that of
an object id. -/
def identity (commit : List Char) : RepositoryIdentity where
  host := url.host.map toLowerAsciiChar
  owner := url.owner.map toLowerAsciiChar
  repo := url.repo.map toLowerAsciiChar
  commit := normalizedObjectId commit

def purlPath : List Char :=
  percentEncodePurlNamespace (url.owner.map toLowerAsciiChar) ++
    '/' :: percentEncodeText (url.repo.map toLowerAsciiChar)

theorem at_notMem_purlPath : '@' ∉ url.purlPath := by
  rw [purlPath, List.mem_append, List.mem_cons, not_or, not_or]
  refine ⟨fun hmem => ?_, by decide, notMem_percentEncodeText (by decide) _⟩
  exact absurd (of_mem_percentEncodePurlNamespace hmem) (by decide)

theorem buildGitPurl_text (commit fallbackName : List Char) :
    buildGitPurl url.text commit fallbackName =
      purlText url.forge (url.purlPath ++ versionMark (gitVersion? commit)) := by
  have hforge : forgeOf? url.text = some url.forge := by
    rw [forgeOf?, url.parseGitRemote_text,
      if_pos ⟨url.owner_ne_nil, url.repo_ne_nil⟩]
    exact url.on_forge
  rw [buildGitPurl_eq_gitPurlFront, vcsUrl, hforge, gitPurlFront,
    url.parseGitRemote_text, if_pos ⟨url.owner_ne_nil, url.repo_ne_nil⟩,
    url.on_forge, versionSuffix_normalizedObjectId, purlText, purlPath]
  simp only [List.append_assoc, List.cons_append, List.append_nil]

theorem host_of_forge {host host' forge : List Char}
    (h : forgeTypeForHost host = some forge)
    (h' : forgeTypeForHost host' = some forge) : host = host' := by
  have hhosts : ∀ host, forgeTypeForHost host = some forge →
      (host, forge) ∈ forgeHosts := by
    intro host hlookup
    obtain ⟨front, back, heq, -⟩ := List.lookup_eq_some_iff.mp hlookup
    rw [heq]
    simp
  have hdistinct : (forgeHosts.map Prod.snd).Nodup := by decide
  have hinj := List.inj_on_of_nodup_map hdistinct (hhosts host h)
    (hhosts host' h') rfl
  exact (Prod.mk.inj hinj).1

theorem owner_repo_of_purlPath {url url' : ForgeUrl}
    (h : url.purlPath = url'.purlPath) :
    url.owner.map toLowerAsciiChar = url'.owner.map toLowerAsciiChar ∧
      url.repo.map toLowerAsciiChar = url'.repo.map toLowerAsciiChar := by
  have hslash : ∀ url : ForgeUrl,
      '/' ∉ percentEncodeText (url.repo.map toLowerAsciiChar) :=
    fun url => notMem_percentEncodeText (by decide) _
  have hbefore := congrArg (beforeLast '/') h
  have hafter := congrArg (afterLast? '/') h
  rw [purlPath, purlPath, beforeLast_append _ (hslash url),
    beforeLast_append _ (hslash url')] at hbefore
  rw [purlPath, purlPath, afterLast?_append _ (hslash url),
    afterLast?_append _ (hslash url'), Option.some_inj] at hafter
  constructor
  · rw [← percentDecodeText_percentEncodePurlNamespace
      url.owner_bytes.map_toLowerAsciiChar, hbefore,
      percentDecodeText_percentEncodePurlNamespace
        url'.owner_bytes.map_toLowerAsciiChar]
  · rw [← percentDecodeText_percentEncodeText
      url.repo_bytes.map_toLowerAsciiChar, hafter,
      percentDecodeText_percentEncodeText url'.repo_bytes.map_toLowerAsciiChar]

/-- Two remotes have one purl exactly when they are spellings of one repository
at one commit. -/
theorem buildGitPurl_eq_iff (url url' : ForgeUrl) (commit commit' : List UInt8)
    (fallbackName fallbackName' : List Char) :
    buildGitPurl url.text (byteText commit) fallbackName =
        buildGitPurl url'.text (byteText commit') fallbackName' ↔
      url.identity (byteText commit) = url'.identity (byteText commit') := by
  constructor
  · intro h
    have hversion := percentDecodeText_purlVersionOf_buildGitPurl url.text
      fallbackName (isByteText_byteText commit)
    rw [h, percentDecodeText_purlVersionOf_buildGitPurl url'.text
      fallbackName' (isByteText_byteText commit')] at hversion
    rw [url.buildGitPurl_text, url'.buildGitPurl_text, purlText, purlText,
      List.append_assoc, List.append_assoc] at h
    obtain ⟨hforge, hrest⟩ := append_terminator_inj
      (isPurlType_of_forgeTypeForHost url.on_forge).slash_notMem
      (isPurlType_of_forgeTypeForHost url'.on_forge).slash_notMem
      (List.append_cancel_left h)
    have hpath := congrArg (beforeLast '@') hrest
    rw [beforeLast_append_versionMark url.at_notMem_purlPath,
      beforeLast_append_versionMark url'.at_notMem_purlPath] at hpath
    obtain ⟨howner, hrepo⟩ := owner_repo_of_purlPath hpath
    have hhost := host_of_forge url.on_forge (hforge ▸ url'.on_forge)
    rw [identity, identity, hhost, howner, hrepo, hversion]
  · intro h
    obtain ⟨hhost, howner, hrepo, hcommit⟩ := RepositoryIdentity.mk.inj h
    have hforge : url.forge = url'.forge := by
      have hsame := url.on_forge
      rw [hhost, url'.on_forge] at hsame
      exact (Option.some.inj hsame).symm
    rw [url.buildGitPurl_text, url'.buildGitPurl_text, purlPath, purlPath,
      gitVersion?, gitVersion?, hforge, howner, hrepo, hcommit]

end ForgeUrl

/-- A slash in front of an scp-like path, and a doubled one, stay in the
owner. -/
theorem buildGitPurl_ne_of_slash :
    buildGitPurl "git@github.com:/o/r".toList [] [] ≠
        buildGitPurl "git@github.com:o/r".toList [] [] ∧
      buildGitPurl "https://github.com/o//r".toList [] [] ≠
        buildGitPurl "https://github.com/o/r".toList [] [] := by
  decide +kernel

end Bomwerk.Core
