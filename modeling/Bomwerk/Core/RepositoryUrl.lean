import Bomwerk.Core.GitUrl
import Bomwerk.Core.PurlParts
import Bomwerk.Support.Segments

/-!
# Repository URLs

The spellings of one repository: with a scheme or scp-like, with credentials or
a port, with or without `.git` and slashes at the end.  `parse_git_remote`
reduces them all to the host in lower case, the owner and the name.
-/

namespace Bomwerk.Core

open Bomwerk.Support

/-- A part of a URL: without blanks and without the marks that end it. -/
def IsUrlPart (stops part : List Char) : Prop :=
  ∀ c ∈ part, c ∉ stops ∧ isAsciiBlank c = false

/-- A spelling of a repository; without a scheme it is scp-like. -/
structure RepositoryUrl where
  scheme? : Option (List Char)
  login? : Option (List Char)
  host : List Char
  port? : Option (List Char)
  owner : List Char
  repo : List Char
  suffixed : Bool
  slashes : Nat
  scheme_valid : ∀ scheme ∈ scheme?, IsUrlPart [':'] scheme
  login_valid : ∀ login ∈ login?, IsUrlPart ['/', '@'] login
  host_valid : IsUrlPart ['/', '@', ':'] host
  port_valid : ∀ port ∈ port?, IsUrlPart ['/', '@'] port
  owner_valid : IsUrlPart [] owner
  repo_valid : IsUrlPart ['/'] repo
  repo_ne_nil : repo ≠ []
  suffixed_valid : suffixed = false → ¬ gitSuffix <:+ repo
  scp_valid : scheme? = none → port? = none ∧
    (∀ login ∈ login?, ':' ∉ login) ∧ ':' ∉ owner ∧ ':' ∉ repo ∧
    owner.head? ≠ some '/'

namespace RepositoryUrl

def hostPart (url : RepositoryUrl) : List Char :=
  url.host ++ match url.port? with
    | some port => ':' :: port
    | none => []

def authority (url : RepositoryUrl) : List Char :=
  match url.login? with
  | some login => login ++ '@' :: url.hostPart
  | none => url.hostPart

def fullName (url : RepositoryUrl) : List Char :=
  if url.owner = [] then url.repo else url.owner ++ '/' :: url.repo

def path (url : RepositoryUrl) : List Char :=
  url.fullName ++ (if url.suffixed then gitSuffix else []) ++
    List.replicate url.slashes '/'

def text (url : RepositoryUrl) : List Char :=
  match url.scheme? with
  | some scheme => scheme ++ ':' :: '/' :: '/' :: (url.authority ++ '/' :: url.path)
  | none => url.authority ++ ':' :: url.path

variable (url : RepositoryUrl)

theorem of_mem_hostPart {c : Char} (hc : c ∈ url.hostPart) :
    c ≠ '/' ∧ c ≠ '@' ∧ isAsciiBlank c = false := by
  rw [hostPart, List.mem_append] at hc
  rcases hc with hc | hc
  · obtain ⟨hstop, hblank⟩ := url.host_valid c hc
    simp only [List.mem_cons, List.not_mem_nil, or_false, not_or] at hstop
    exact ⟨hstop.1, hstop.2.1, hblank⟩
  · cases hport : url.port? with
    | none => simp [hport] at hc
    | some port =>
      rw [hport] at hc
      rcases List.mem_cons.mp hc with rfl | hc
      · decide
      · obtain ⟨hstop, hblank⟩ := url.port_valid port hport c hc
        simp only [List.mem_cons, List.not_mem_nil, or_false, not_or] at hstop
        exact ⟨hstop.1, hstop.2, hblank⟩

theorem of_mem_authority {c : Char} (hc : c ∈ url.authority) :
    c ≠ '/' ∧ isAsciiBlank c = false := by
  rw [authority] at hc
  cases hlogin : url.login? with
  | none =>
    rw [hlogin] at hc
    obtain ⟨hslash, -, hblank⟩ := url.of_mem_hostPart hc
    exact ⟨hslash, hblank⟩
  | some login =>
    rw [hlogin] at hc
    rw [List.mem_append, List.mem_cons] at hc
    rcases hc with hc | rfl | hc
    · obtain ⟨hstop, hblank⟩ := url.login_valid login hlogin c hc
      simp only [List.mem_cons, List.not_mem_nil, or_false, not_or] at hstop
      exact ⟨hstop.1, hblank⟩
    · decide
    · obtain ⟨hslash, -, hblank⟩ := url.of_mem_hostPart hc
      exact ⟨hslash, hblank⟩

theorem of_mem_path {c : Char} (hc : c ∈ url.path) :
    c ∈ url.owner ∨ c ∈ url.repo ∨ c ∈ gitSuffix ∨ c = '/' := by
  rw [path, List.mem_append, List.mem_append, fullName] at hc
  rcases hc with (hc | hc) | hc
  · split_ifs at hc
    · exact .inr (.inl hc)
    · rw [List.mem_append, List.mem_cons] at hc
      rcases hc with hc | hc | hc
      · exact .inl hc
      · exact .inr (.inr (.inr hc))
      · exact .inr (.inl hc)
  · split_ifs at hc
    · exact .inr (.inr (.inl hc))
    · cases hc
  · exact .inr (.inr (.inr (List.eq_of_mem_replicate hc)))

theorem isAsciiBlank_of_mem_path {c : Char} (hc : c ∈ url.path) :
    isAsciiBlank c = false := by
  rcases url.of_mem_path hc with hc | hc | hc | rfl
  · exact (url.owner_valid c hc).2
  · exact (url.repo_valid c hc).2
  · have hletters : gitSuffix.all (fun c => !isAsciiBlank c) = true := by decide
    simpa using List.all_eq_true.mp hletters c hc
  · decide

theorem isAsciiBlank_of_mem_text {c : Char} (hc : c ∈ url.text) :
    isAsciiBlank c = false := by
  rw [text] at hc
  cases hscheme : url.scheme? with
  | some scheme =>
    rw [hscheme] at hc
    rw [List.mem_append, List.mem_cons, List.mem_cons, List.mem_cons,
      List.mem_append, List.mem_cons] at hc
    rcases hc with hc | rfl | rfl | rfl | hc | rfl | hc
    · exact (url.scheme_valid scheme hscheme c hc).2
    · decide
    · decide
    · decide
    · exact (url.of_mem_authority hc).2
    · decide
    · exact url.isAsciiBlank_of_mem_path hc
  | none =>
    rw [hscheme] at hc
    rw [List.mem_append, List.mem_cons] at hc
    rcases hc with hc | rfl | hc
    · exact (url.of_mem_authority hc).2
    · decide
    · exact url.isAsciiBlank_of_mem_path hc

theorem trimmed_text : trimmed url.text = url.text := by
  have hfront : url.text.dropWhile isAsciiBlank = url.text := by
    rw [List.dropWhile_eq_self_iff]
    intro hlength hblank
    rw [url.isAsciiBlank_of_mem_text (List.getElem_mem hlength)] at hblank
    cases hblank
  rw [trimmed, hfront, List.rdropWhile_eq_self_iff]
  intro hne hblank
  rw [url.isAsciiBlank_of_mem_text (List.getLast_mem hne)] at hblank
  cases hblank

/-! ## The reduction -/

theorem behindScheme?_append {front rest : List Char} (hfront : ':' ∉ front) :
    behindScheme? (front ++ ':' :: '/' :: '/' :: rest) = some rest := by
  induction front with
  | nil => rfl
  | cons c front ih =>
    rw [List.mem_cons, not_or] at hfront
    rw [List.cons_append, behindScheme?]
    · exact ih hfront.2
    · rintro _ rfl
      exact absurd rfl hfront.1

theorem behindScheme?_eq_none {text : List Char} (htext : ':' ∉ text) :
    behindScheme? text = none := by
  induction text with
  | nil => rfl
  | cons c text ih =>
    rw [List.mem_cons, not_or] at htext
    rw [behindScheme?]
    · exact ih htext.2
    · rintro _ rfl
      exact absurd rfl htext.1

theorem behindScheme?_colon {front rest : List Char} (hfront : ':' ∉ front)
    (hrest : ':' ∉ rest) (hhead : rest.head? ≠ some '/') :
    behindScheme? (front ++ ':' :: rest) = none := by
  induction front with
  | nil =>
    rw [List.nil_append, behindScheme?]
    · exact behindScheme?_eq_none hrest
    · rintro _ - rfl
      exact hhead rfl
  | cons c front ih =>
    rw [List.mem_cons, not_or] at hfront
    rw [List.cons_append, behindScheme?]
    · exact ih hfront.2
    · rintro _ rfl
      exact absurd rfl hfront.1

theorem bareHost_authority : bareHost url.authority = url.host := by
  have hcolon : ':' ∉ url.host := by
    intro hc
    exact absurd (url.host_valid _ hc).1 (by decide)
  have hhost : url.hostPart.takeWhile (· ≠ ':') = url.host := by
    rw [hostPart]
    cases url.port? with
    | none =>
      rw [List.append_nil, List.takeWhile_eq_self_iff]
      intro c hc
      simp only [decide_eq_true_eq]
      rintro rfl
      exact hcolon hc
    | some port => exact (takeWhile_append_mark hcolon port).1
  have hat : '@' ∉ url.hostPart := fun hc => (url.of_mem_hostPart hc).2.1 rfl
  rw [bareHost, authority]
  cases hlogin : url.login? with
  | none => rw [if_neg hat, hhost]
  | some login =>
    have hlogin : '@' ∉ login := by
      intro hc
      exact absurd (url.login_valid login hlogin _ hc).1 (by decide)
    rw [if_pos (by simp), (takeWhile_append_mark hlogin _).2,
      List.tail_cons, hhost]

theorem not_gitSuffix_suffix_fullName (hplain : url.suffixed = false) :
    ¬ gitSuffix <:+ url.fullName := by
  have hrepo := url.suffixed_valid hplain
  have hslash : '/' ∉ gitSuffix := by decide
  rw [fullName]
  split_ifs
  · exact hrepo
  · intro hsuffix
    rcases List.suffix_or_suffix_of_suffix hsuffix
      (List.suffix_append url.owner ('/' :: url.repo)) with h | h
    · rcases List.suffix_cons_iff.mp h with heq | h
      · exact hslash (heq ▸ List.mem_cons_self)
      · exact hrepo h
    · exact hslash (h.subset List.mem_cons_self)

theorem fullName_ne_nil : url.fullName ≠ [] := by
  rw [fullName]
  split_ifs
  · exact url.repo_ne_nil
  · simp

theorem rdropWhile_path : url.path.rdropWhile (· = '/') =
    url.fullName ++ if url.suffixed then gitSuffix else [] := by
  have hslashes : (List.replicate url.slashes '/').rdropWhile (· = '/') =
      [] := by
    rw [List.rdropWhile_eq_nil_iff]
    intro c hc
    simpa using List.eq_of_mem_replicate hc
  rw [path, rdropWhile_append, if_pos hslashes]
  cases url.suffixed with
  | true =>
    have hgit : gitSuffix.rdropWhile (· = '/') = gitSuffix := by decide
    rw [if_pos rfl, rdropWhile_append, hgit, if_neg (by decide)]
  | false =>
    have hrepo : url.repo.rdropWhile (· = '/') = url.repo := by
      rw [List.rdropWhile_eq_self_iff]
      intro hne hslash
      exact absurd (url.repo_valid _ (List.getLast_mem hne)).1
        (by simpa using hslash)
    rw [if_neg (by decide), List.append_nil, fullName]
    split_ifs
    · exact hrepo
    · rw [List.append_cons, rdropWhile_append, hrepo, if_neg url.repo_ne_nil]

theorem barePath_path : barePath url.path = url.fullName := by
  rw [barePath, url.rdropWhile_path]
  cases hsuffixed : url.suffixed with
  | true =>
    have hlength := List.length_pos_iff.mpr url.fullName_ne_nil
    rw [if_pos rfl, if_pos]
    · simp
    · refine ⟨?_, List.suffix_append _ _⟩
      rw [List.length_append]
      omega
  | false =>
    simp only [Bool.false_eq_true, if_false, List.append_nil]
    exact if_neg fun h => url.not_gitSuffix_suffix_fullName hsuffixed h.2

theorem hostAndPath?_text :
    hostAndPath? url.text = some (url.authority ++ '/' :: url.path) := by
  rw [hostAndPath?, text]
  cases hscheme : url.scheme? with
  | some scheme =>
    have hcolon : ':' ∉ scheme := by
      intro hc
      exact absurd (url.scheme_valid scheme hscheme _ hc).1 (by decide)
    rw [behindScheme?_append hcolon]
  | none =>
    obtain ⟨hport, hlogin, howner, hrepo, hhead⟩ := url.scp_valid hscheme
    have hhost : ':' ∉ url.host := by
      intro hc
      exact absurd (url.host_valid _ hc).1 (by decide)
    have hauthority : ':' ∉ url.authority := by
      rw [authority, hostPart, hport, List.append_nil]
      cases hsome : url.login? with
      | none => exact hhost
      | some login => simp [hlogin login hsome, hhost]
    have hpath : ':' ∉ url.path := by
      intro hc
      rcases url.of_mem_path hc with hc | hc | hc | hc
      · exact howner hc
      · exact hrepo hc
      · exact absurd hc (by decide)
      · exact absurd hc (by decide)
    have hfirst : url.path.head? ≠ some '/' := by
      rw [path, List.append_assoc,
        List.head?_append_of_ne_nil _ url.fullName_ne_nil, fullName]
      split_ifs with hempty
      · intro hslash
        exact absurd (url.repo_valid _ (List.mem_of_mem_head? hslash)).1
          (by decide)
      · rwa [List.head?_append_of_ne_nil _ hempty]
    rw [behindScheme?_colon hauthority hpath hfirst]
    dsimp only
    obtain ⟨htake, hdrop⟩ := takeWhile_append_mark hauthority url.path
    rw [if_pos (by simp), htake, hdrop, List.tail_cons]

/-- Every spelling is reduced to the host in lower case, the owner and the
name. -/
theorem parseGitRemote_text : parseGitRemote url.text =
    { host := url.host.map toLowerAsciiChar
      owner := url.owner
      repo := url.repo } := by
  have hslash : '/' ∉ url.authority := fun hc => (url.of_mem_authority hc).1 rfl
  have hrepo : '/' ∉ url.repo := by
    intro hc
    exact absurd (url.repo_valid _ hc).1 (by decide)
  have hne : url.text ≠ [] := by
    rw [text]
    cases url.scheme? <;> simp
  obtain ⟨htake, hdrop⟩ := takeWhile_append_mark hslash url.path
  rw [parseGitRemote, url.trimmed_text, if_neg hne, url.hostAndPath?_text]
  dsimp only
  rw [htake, hdrop, List.tail_cons, url.bareHost_authority, url.barePath_path,
    fullName]
  by_cases howner : url.owner = []
  · rw [if_pos howner, afterLast?, if_neg hrepo, howner]
  · rw [if_neg howner, afterLast?_append _ hrepo, beforeLast_append _ hrepo]

end RepositoryUrl

end Bomwerk.Core
