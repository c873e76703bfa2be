import Bomwerk.Support.Segments
import Mathlib.Data.List.Infix
import Mathlib.Data.List.TakeWhile
import Mathlib.Data.List.DropRight

/-!
# The parts of a URL

A hierarchical URL in the grammar of RFC 3986: what stands before `://`, the
authority up to the next delimiter, the path and the query.  A backslash ends
the authority too, as it does for readers that treat it as a separator.
-/

namespace Bomwerk.Support

structure UrlParts where
  scheme : List Char
  authority : List Char
  path : List Char
  query : Option (List Char)
  deriving DecidableEq, Repr

def endsAuthority (c : Char) : Bool :=
  c = '/' || c = '\\' || c = '?' || c = '#'

def endsPath (c : Char) : Bool :=
  c = '?' || c = '#'

/-- The query at the front of what stands behind the path. -/
def queryOf : List Char → Option (List Char)
  | '?' :: rest => some (rest.takeWhile (· ≠ '#'))
  | _ => none

def parseUrl (text : List Char) : Option UrlParts :=
  match text.dropWhile (· ≠ ':') with
  | ':' :: '/' :: '/' :: rest =>
    let behind := rest.dropWhile (!endsAuthority ·)
    some
      { scheme := text.takeWhile (· ≠ ':')
        authority := rest.takeWhile (!endsAuthority ·)
        path := behind.takeWhile (!endsPath ·)
        query := queryOf (behind.dropWhile (!endsPath ·)) }
  | _ => none

/-- A URL without a query: every part holds none of its delimiters. -/
structure UrlBase where
  scheme : List Char
  authority : List Char
  path : List Char
  scheme_valid : ':' ∉ scheme
  authority_valid : ∀ c ∈ authority, endsAuthority c = false
  path_valid : ∀ c ∈ path, endsPath c = false
  path_rooted : path = [] ∨ path.head? = some '/'

namespace UrlBase

def text (base : UrlBase) : List Char :=
  base.scheme ++ ':' :: '/' :: '/' :: (base.authority ++ base.path)

/-- What stands behind the base starts with a delimiter or is empty. -/
theorem parseUrl_text_append (base : UrlBase) (tail : List Char)
    (htail : ∀ c ∈ tail.head?, endsPath c = true) :
    parseUrl (base.text ++ tail) =
      some
        { scheme := base.scheme
          authority := base.authority
          path := base.path
          query := queryOf tail } := by
  have hscheme := takeWhile_append_of_stop
    (· ≠ ':') base.scheme
    (':' :: '/' :: '/' :: (base.authority ++ (base.path ++ tail)))
    (fun c hc => by
      have hne : c ≠ ':' := fun h => base.scheme_valid (h ▸ hc)
      simpa using hne)
    (by simp)
  have hauthority := takeWhile_append_of_stop
    (!endsAuthority ·) base.authority (base.path ++ tail)
    (fun c hc => by simp [base.authority_valid c hc])
    (by
      intro c hc
      rcases base.path_rooted with hnil | hrooted
      · rw [hnil, List.nil_append] at hc
        have hdelimiter := htail c hc
        simp only [endsPath, Bool.or_eq_true, decide_eq_true_eq] at hdelimiter
        rcases hdelimiter with rfl | rfl <;> decide
      · rw [List.head?_append, hrooted, Option.some_or,
          Option.mem_some_iff] at hc
        subst hc
        decide)
  have hpath := takeWhile_append_of_stop
    (!endsPath ·) base.path tail
    (fun c hc => by simp [base.path_valid c hc])
    (fun c hc => by simp [htail c hc])
  have htext : base.text ++ tail = base.scheme ++
      ':' :: '/' :: '/' :: (base.authority ++ (base.path ++ tail)) := by
    simp [text]
  rw [htext, parseUrl, hscheme.1, hscheme.2]
  simp only [hauthority.1, hauthority.2, hpath.1, hpath.2]

theorem parseUrl_text (base : UrlBase) :
    parseUrl base.text = some
        { scheme := base.scheme
          authority := base.authority
          path := base.path
          query := none } := by
  have h := base.parseUrl_text_append [] (by simp)
  rwa [List.append_nil] at h

def extend (base : UrlBase) (more : List Char) (hne : base.path ≠ [])
    (hmore : ∀ c ∈ more, endsPath c = false) : UrlBase where
  scheme := base.scheme
  authority := base.authority
  path := base.path ++ more
  scheme_valid := base.scheme_valid
  authority_valid := base.authority_valid
  path_valid := by
    intro c hc
    rcases List.mem_append.mp hc with hc | hc
    · exact base.path_valid c hc
    · exact hmore c hc
  path_rooted := by
    rw [List.head?_append_of_ne_nil _ hne]
    exact Or.inr (base.path_rooted.resolve_left hne)

theorem text_extend (base : UrlBase) (more : List Char) (hne : base.path ≠ [])
    (hmore : ∀ c ∈ more, endsPath c = false) :
    (base.extend more hne hmore).text = base.text ++ more := by
  simp [text, extend]

end UrlBase
end Bomwerk.Support
