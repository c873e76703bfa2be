import Bomwerk.Core.GitUrl
import Bomwerk.Core.PurlParts
import Bomwerk.Support.Segments

/-!
# Resolving a relative submodule URL

A remote is an authority with the segments of its path behind it, and a
relative URL is a list of steps with a tail behind them.  The rule for the
two drops a segment for each step up.  Both the loop of `resolve_relative_url`
and the one git has drop what stands behind the last slash of a flat text, which
is the same as long as there is a segment left to drop.
-/

namespace Bomwerk.Core

open Bomwerk.Support

inductive UrlStep
  | here
  | parent
  deriving DecidableEq, Repr

def UrlStep.text : UrlStep → List Char
  | .here => "./".toList
  | .parent => "../".toList

/-- The steps with the tail behind them. -/
def relativeUrl (steps : List UrlStep) (tail : List Char) : List Char :=
  steps.flatMap UrlStep.text ++ tail

def parents (steps : List UrlStep) : Nat :=
  steps.count .parent

@[simp] theorem relativeUrl_nil (tail : List Char) :
    relativeUrl [] tail = tail := rfl

theorem relativeUrl_here (steps : List UrlStep) (tail : List Char) :
    relativeUrl (.here :: steps) tail =
      '.' :: '/' :: relativeUrl steps tail := rfl

theorem relativeUrl_parent (steps : List UrlStep) (tail : List Char) :
    relativeUrl (.parent :: steps) tail =
      '.' :: '.' :: '/' :: relativeUrl steps tail := rfl

@[simp] theorem parents_nil : parents [] = 0 := rfl

@[simp] theorem parents_here (steps : List UrlStep) :
    parents (.here :: steps) = parents steps := by
  simp [parents]

@[simp] theorem parents_parent (steps : List UrlStep) :
    parents (.parent :: steps) = parents steps + 1 := by
  simp [parents]

theorem isRelativeUrl_relativeUrl {steps : List UrlStep} (hsteps : steps ≠ [])
    (tail : List Char) : isRelativeUrl (relativeUrl steps tail) = true := by
  obtain ⟨step, steps, rfl⟩ := List.exists_cons_of_ne_nil hsteps
  cases step <;> simp [relativeUrl, UrlStep.text, isRelativeUrl]

theorem length_le_length_relativeUrl (steps : List UrlStep)
    (tail : List Char) : tail.length ≤ (relativeUrl steps tail).length := by
  rw [relativeUrl, List.length_append]
  omega

def dropTrailingSlash (remote : List Char) : List Char :=
  if remote.getLast? = some '/' then remote.dropLast else remote

/-- How git takes the steps of a relative URL: each step up chops what stands
behind the last slash or, without one, behind the last colon, which is then to
be put back. -/
def gitSteps (remote : List Char) (colon : Bool) :
    List Char → List Char × Bool × List Char
  | '.' :: '/' :: url => gitSteps remote colon url
  | '.' :: '.' :: '/' :: url =>
    if '/' ∈ remote then gitSteps (beforeLast '/' remote) colon url
    else if ':' ∈ remote then gitSteps (beforeLast ':' remote) true url
    else gitSteps ['.'] colon url
  | url => (remote, colon, url)

/-- The rule git resolves a relative submodule URL by, for a remote that is no
local path. -/
def gitRelativeUrl (remote url : List Char) : List Char :=
  let (chopped, colon, behind) := gitSteps (dropTrailingSlash remote) false url
  let resolved := chopped ++ (if colon then ':' else '/') :: behind
  if behind.getLast? = some '/' then resolved.dropLast else resolved

/-! ## Remotes as authorities and segments -/

/-- A remote `scheme://host/path` or `user@host:path`. -/
inductive RemoteUrl
  | hierarchical (scheme host path : List Char) (scheme_valid : '/' ∉ scheme)
      (host_valid : host ≠ [] ∧ '/' ∉ host)
  | scpLike (login path : List Char) (login_valid : '/' ∉ login)

namespace RemoteUrl

/-- What a relative URL is to leave as it is. -/
def authority : RemoteUrl → List Char
  | hierarchical scheme host _ _ _ => scheme ++ "://".toList ++ host ++ ['/']
  | scpLike login _ _ => login ++ [':']

def path : RemoteUrl → List Char
  | hierarchical _ _ path _ _ => path
  | scpLike _ path _ => path

def text (remote : RemoteUrl) : List Char :=
  remote.authority ++ remote.path

/-- The segments of the path.  What stands behind the colon is a segment even
when it is empty. -/
def segments : RemoteUrl → List (List Char)
  | hierarchical _ _ path _ _ =>
    if path.rdropWhile (· = '/') = [] then []
    else (path.rdropWhile (· = '/')).splitOn '/'
  | scpLike _ path _ => (path.rdropWhile (· = '/')).splitOn '/'

/-- The authority, the path less one segment for each step up, and the tail. -/
def resolved (remote : RemoteUrl) (steps : Nat) (tail : List Char) :
    List Char :=
  remote.authority ++ ['/'].intercalate
    (remote.segments.take (remote.segments.length - steps) ++ [tail])

/-- Whether the steps up leave what a slash can be found in front of: behind a
host every segment has one, behind a login the first has none. -/
def Fits : RemoteUrl → Nat → Prop
  | remote@(hierarchical ..), steps => steps ≤ remote.segments.length
  | remote@(scpLike ..), steps => steps < remote.segments.length

def trailingSlashes (remote : RemoteUrl) : Nat :=
  (remote.text.rtakeWhile (· = '/')).length

/-- The segment that is the first to go is empty, a second slash at the end
being an empty segment too, and the tail is nothing but slashes: one slash too
many in front of it and one too few behind it. -/
def SlashesCancel (remote : RemoteUrl) (steps : Nat) (tail : List Char) :
    Prop :=
  remote.trailingSlashes = 2 ∧
    (remote.segments ++ [[]])[remote.segments.length - steps]? = some [] ∧
    tail ≠ [] ∧ ∀ c ∈ tail, c = '/'

/-- The steps up fit into the path, and there is no slash at an end that git
treats in another way. -/
def AgreesWithGit (remote : RemoteUrl) (steps : Nat) (tail : List Char) :
    Prop :=
  remote.Fits steps ∧ (remote.trailingSlashes ≤ 1 ∧ tail.getLast? ≠ some '/' ∨
      remote.SlashesCancel steps tail)

/-- What has no slash of its own in front of it. -/
def stem : RemoteUrl → List Char
  | hierarchical scheme host _ _ _ => scheme ++ "://".toList ++ host
  | remote@(scpLike login _ _) =>
    login ++ ':' :: remote.segments.head?.getD []

/-- The segments with a slash in front of each. -/
def led : RemoteUrl → List (List Char)
  | remote@(hierarchical ..) => remote.segments
  | remote@(scpLike ..) => remote.segments.tail

variable (remote : RemoteUrl)

theorem slash_notMem_segments : ∀ segment ∈ remote.segments, '/' ∉ segment := by
  intro segment hsegment
  cases remote with
  | hierarchical scheme host path =>
    rw [segments] at hsegment
    split_ifs at hsegment with hpath
    · cases hsegment
    · exact not_mem_of_mem_splitOn segment hsegment
  | scpLike login path => exact not_mem_of_mem_splitOn segment hsegment

theorem slash_notMem_led : ∀ segment ∈ remote.led, '/' ∉ segment := by
  intro segment hsegment
  cases remote with
  | hierarchical scheme host path hscheme hhost =>
    exact (hierarchical scheme host path hscheme hhost).slash_notMem_segments
      segment hsegment
  | scpLike login path hlogin =>
    exact (scpLike login path hlogin).slash_notMem_segments segment
      (List.mem_of_mem_tail hsegment)

theorem segments_scpLike {login : List Char} (path : List Char)
    (hlogin : '/' ∉ login) :
    ∃ first, (scpLike login path hlogin).segments =
      first :: (scpLike login path hlogin).led := by
  obtain ⟨first, rest, hsegments⟩ := List.exists_cons_of_ne_nil
    (List.splitOn_ne_nil '/' (path.rdropWhile (· = '/')))
  exact ⟨first, by simp [led, segments, hsegments]⟩

theorem fits_iff {steps : Nat} :
    remote.Fits steps ↔ steps ≤ remote.led.length := by
  cases remote with
  | hierarchical scheme host path => rfl
  | scpLike login path hlogin =>
    obtain ⟨first, hsegments⟩ := segments_scpLike path hlogin
    rw [Fits, hsegments, List.length_cons]
    omega

/-- A remote less its trailing slashes. -/
theorem rdropWhile_text : remote.text.rdropWhile (· = '/') =
    remote.stem ++ ledSegments '/' remote.led := by
  cases remote with
  | hierarchical scheme host path hscheme hhost =>
    have htext : (hierarchical scheme host path hscheme hhost).text =
        scheme ++ "://".toList ++ host ++ ['/'] ++ path := rfl
    rw [htext, rdropWhile_append, stem, led, segments]
    by_cases hpath : path.rdropWhile (· = '/') = []
    · have hlast : host.rdropWhile (· = '/') = host := by
        rw [List.rdropWhile_eq_self_iff]
        intro hne hslash
        exact hhost.2 (of_decide_eq_true hslash ▸ List.getLast_mem hne)
      rw [if_pos hpath, if_pos hpath,
        List.rdropWhile_concat_pos _ _ _ (by decide), rdropWhile_append,
        hlast, if_neg hhost.1, ledSegments_nil, List.append_nil]
    · obtain ⟨first, rest, hsegments⟩ := List.exists_cons_of_ne_nil
        (List.splitOn_ne_nil '/' (path.rdropWhile (· = '/')))
      have hjoin := append_ledSegments '/' first rest
      rw [← hsegments, List.intercalate_splitOn] at hjoin
      rw [if_neg hpath, if_neg hpath, hsegments, ledSegments_cons, hjoin,
        List.append_assoc _ ['/'], List.singleton_append]
  | scpLike login path hlogin =>
    obtain ⟨first, hsegments⟩ := segments_scpLike path hlogin
    have hjoin := append_ledSegments '/' first
      (scpLike login path hlogin).led
    rw [← hsegments, segments, List.intercalate_splitOn] at hjoin
    have htext : (scpLike login path hlogin).text =
        login ++ [':'] ++ path := rfl
    rw [htext, rdropWhile_append, stem, hsegments, List.head?_cons,
      Option.getD_some, List.append_assoc login (':' :: first),
      List.cons_append, hjoin]
    by_cases hpath : path.rdropWhile (· = '/') = []
    · rw [if_pos hpath, List.rdropWhile_concat_neg _ _ _ (by decide), hpath]
    · rw [if_neg hpath, List.append_assoc, List.singleton_append]

theorem stem_ne_nil : remote.stem ≠ [] := by
  cases remote <;> simp [stem]

end RemoteUrl

theorem resolveSteps_of_not_relative (base : List Char) {url : List Char}
    (hurl : isRelativeUrl url = false) : resolveSteps base url = (base, url) := by
  unfold resolveSteps
  split
  · simp [isRelativeUrl] at hurl
  · simp [isRelativeUrl] at hurl
  · rfl

theorem gitSteps_of_not_relative (remote : List Char) (colon : Bool)
    {url : List Char} (hurl : isRelativeUrl url = false) :
    gitSteps remote colon url = (remote, colon, url) := by
  unfold gitSteps
  split
  · simp [isRelativeUrl] at hurl
  · simp [isRelativeUrl] at hurl
  · rfl

theorem beforeLast_ledSegments_concat (stem : List Char)
    (segments : List (List Char)) {last : List Char} (hlast : '/' ∉ last) :
    beforeLast '/' (stem ++ ledSegments '/' (segments ++ [last])) =
        stem ++ ledSegments '/' segments ∧
      '/' ∈ stem ++ ledSegments '/' (segments ++ [last]) := by
  have htext : stem ++ ledSegments '/' (segments ++ [last]) =
      (stem ++ ledSegments '/' segments) ++ '/' :: last := by
    simp [ledSegments_append]
  rw [htext]
  exact ⟨beforeLast_append _ hlast, by simp⟩

/-- As long as there are segments to drop, both loops drop one for each step
up. -/
theorem steps_ledSegments (stem : List Char) {segments : List (List Char)}
    (hsegments : ∀ segment ∈ segments, '/' ∉ segment) {steps : List UrlStep}
    (hparents : parents steps ≤ segments.length) {tail : List Char}
    (htail : isRelativeUrl tail = false) :
    resolveSteps (stem ++ ledSegments '/' segments) (relativeUrl steps tail) =
        (stem ++ ledSegments '/'
          (segments.take (segments.length - parents steps)), tail) ∧
      gitSteps (stem ++ ledSegments '/' segments) false
          (relativeUrl steps tail) =
        (stem ++ ledSegments '/'
          (segments.take (segments.length - parents steps)), false, tail) := by
  induction steps generalizing segments with
  | nil =>
    rw [relativeUrl_nil, resolveSteps_of_not_relative _ htail,
      gitSteps_of_not_relative _ _ htail]
    simp
  | cons step steps ih =>
    cases step with
    | here =>
      rw [parents_here] at hparents ⊢
      rw [relativeUrl_here, resolveSteps, gitSteps]
      exact ih hsegments hparents
    | parent =>
      rw [parents_parent] at hparents ⊢
      obtain ⟨front, last, rfl⟩ : ∃ front last, segments = front ++ [last] := by
        rcases List.eq_nil_or_concat' segments with rfl | ⟨front, last, h⟩
        · simp at hparents
        · exact ⟨front, last, h⟩
      rw [List.length_append, List.length_singleton] at hparents ⊢
      obtain ⟨hbefore, hslash⟩ := beforeLast_ledSegments_concat stem front
        (hsegments last (by simp))
      rw [relativeUrl_parent, resolveSteps, gitSteps, if_pos hslash,
        if_pos hslash, hbefore, Nat.add_sub_add_right,
        List.take_append_of_le_length (Nat.sub_le _ _)]
      exact ih (fun segment hsegment =>
        hsegments segment (List.mem_append_left _ hsegment)) (by omega)

/-- With more steps up than segments, the loop goes on into the stem. -/
theorem resolveSteps_beyond (stem : List Char) {segments : List (List Char)}
    (hsegments : ∀ segment ∈ segments, '/' ∉ segment) {steps : List UrlStep}
    (hparents : segments.length < parents steps) (tail : List Char) :
    ∃ more, parents more + segments.length + 1 = parents steps ∧
      resolveSteps (stem ++ ledSegments '/' segments)
          (relativeUrl steps tail) =
        if '/' ∈ stem then
          resolveSteps (beforeLast '/' stem) (relativeUrl more tail)
        else (stem, relativeUrl more tail) := by
  induction steps generalizing segments with
  | nil => simp at hparents
  | cons step steps ih =>
    cases step with
    | here =>
      rw [parents_here] at hparents ⊢
      rw [relativeUrl_here, resolveSteps]
      exact ih hsegments hparents
    | parent =>
      rw [parents_parent] at hparents ⊢
      rw [relativeUrl_parent, resolveSteps]
      rcases List.eq_nil_or_concat' segments with rfl | ⟨front, last, rfl⟩
      · refine ⟨steps, by simp, ?_⟩
        rw [ledSegments_nil, List.append_nil]
      · rw [List.length_append, List.length_singleton] at hparents ⊢
        obtain ⟨hbefore, hslash⟩ := beforeLast_ledSegments_concat stem front
          (hsegments last (by simp))
        rw [if_pos hslash, hbefore]
        obtain ⟨more, hmore, hrun⟩ := ih (fun segment hsegment =>
          hsegments segment (List.mem_append_left _ hsegment)) (by omega)
        exact ⟨more, by omega, hrun⟩

namespace RemoteUrl

variable (remote : RemoteUrl)

/-! ## Resolving against a remote -/

theorem text_ne_nil : remote.text ≠ [] := by
  cases remote <;> simp [text, authority]

/-- What the rule gives, from the stem. -/
theorem resolved_of_fits {steps : Nat} (hfits : remote.Fits steps)
    (tail : List Char) :
    remote.resolved steps tail = remote.stem ++ ledSegments '/'
        (remote.led.take (remote.led.length - steps)) ++ '/' :: tail := by
  have hled : ∀ segments : List (List Char),
      ledSegments '/' segments ++ '/' :: tail =
        ledSegments '/' (segments ++ [tail]) := by
    intro segments
    simp [ledSegments_append]
  rw [List.append_assoc, hled]
  cases remote with
  | hierarchical scheme host path hscheme hhost =>
    rw [resolved, led, stem, authority, List.append_assoc _ ['/'],
      List.singleton_append, cons_intercalate (by simp)]
  | scpLike login path hlogin =>
    obtain ⟨first, hsegments⟩ := segments_scpLike path hlogin
    rw [fits_iff] at hfits
    rw [resolved, stem, authority, hsegments, List.length_cons,
      Nat.sub_add_comm hfits, List.take_succ_cons, List.cons_append,
      ← append_ledSegments]
    simp

theorem resolved_of_not_fits {steps : Nat} (hfits : ¬ remote.Fits steps)
    (tail : List Char) :
    remote.resolved steps tail = remote.authority ++ tail := by
  have hnone : remote.segments.length - steps = 0 := by
    cases remote with
    | hierarchical scheme host path hscheme hhost =>
      exact Nat.sub_eq_zero_of_le (Nat.le_of_not_le hfits)
    | scpLike login path hlogin =>
      exact Nat.sub_eq_zero_of_le (Nat.le_of_not_lt hfits)
  rw [resolved, hnone, List.take_zero, List.nil_append,
    List.intercalate_singleton]

variable {remote} {steps : List UrlStep} {tail : List Char}

theorem resolveRelativeUrl_text (hsteps : steps ≠ [])
    {resolvedBase remainder : List Char} (hne : resolvedBase ≠ [])
    (hrun : resolveSteps (remote.stem ++ ledSegments '/' remote.led)
      (relativeUrl steps tail) = (resolvedBase, remainder)) :
    resolveRelativeUrl remote.text (relativeUrl steps tail) =
      resolvedBase ++ '/' :: remainder := by
  have hcond : ¬ ((!isRelativeUrl (relativeUrl steps tail)) = true ∨
      remote.text = []) := by
    simp [isRelativeUrl_relativeUrl hsteps, remote.text_ne_nil]
  rw [resolveRelativeUrl, if_neg hcond, remote.rdropWhile_text, hrun]
  exact if_neg hne

theorem resolveRelativeUrl_of_fits (hsteps : steps ≠ [])
    (htail : isRelativeUrl tail = false) (hfits : remote.Fits (parents steps)) :
    resolveRelativeUrl remote.text (relativeUrl steps tail) =
      remote.resolved (parents steps) tail := by
  obtain ⟨hrun, -⟩ := steps_ledSegments remote.stem
    remote.slash_notMem_led (remote.fits_iff.mp hfits) htail
  rw [resolveRelativeUrl_text hsteps (by simp [remote.stem_ne_nil]) hrun,
    remote.resolved_of_fits hfits]

/-- Beyond the segments of the path, the host is eaten. -/
theorem resolveRelativeUrl_hierarchical_ne {scheme host path : List Char}
    {hscheme : '/' ∉ scheme} {hhost : host ≠ [] ∧ '/' ∉ host}
    (hsteps : steps ≠ []) (htail : isRelativeUrl tail = false)
    (hfits : ¬ (hierarchical scheme host path hscheme hhost).Fits
      (parents steps)) :
    resolveRelativeUrl (hierarchical scheme host path hscheme hhost).text
        (relativeUrl steps tail) ≠
      (hierarchical scheme host path hscheme hhost).authority ++ tail := by
  set remote := hierarchical scheme host path hscheme hhost with hremote
  have hauthority : remote.authority ++ tail =
      scheme ++ ':' :: '/' :: '/' :: (host ++ '/' :: tail) := by
    simp [hremote, authority]
  have hstem : remote.stem = scheme ++ ':' :: '/' :: '/' :: host := by
    simp [hremote, stem]
  rw [fits_iff, Nat.not_le] at hfits
  obtain ⟨more, -, hrun⟩ := resolveSteps_beyond remote.stem
    remote.slash_notMem_led hfits tail
  have hbefore : beforeLast '/' remote.stem =
      (scheme ++ [':']) ++ ledSegments '/' [[]] := by
    have hsplit : remote.stem = (scheme ++ [':', '/']) ++ '/' :: host := by
      simp [hstem]
    rw [hsplit, beforeLast_append _ hhost.2]
    simp
  rw [if_pos (by simp [hstem]), hbefore] at hrun
  have hempty : ∀ segment ∈ [([] : List Char)], '/' ∉ segment := by simp
  by_cases hmore : parents more ≤ 1
  · obtain ⟨hagain, -⟩ := steps_ledSegments (scheme ++ [':']) hempty
      hmore htail
    rw [resolveRelativeUrl_text hsteps (by simp) (hrun.trans hagain),
      hauthority]
    intro hsame
    have hlength := congrArg List.length hsame
    have hhostLength := List.length_pos_iff.mpr hhost.1
    rcases Nat.le_one_iff_eq_zero_or_eq_one.mp hmore with hnone | hone
    · simp [hnone] at hlength
      omega
    · simp [hone] at hlength
      omega
  · obtain ⟨rest, -, hagain⟩ := resolveSteps_beyond (scheme ++ [':']) hempty
      (Nat.not_le.mp hmore) tail
    rw [if_neg (by simp [hscheme])] at hagain
    rw [resolveRelativeUrl_text hsteps (by simp) (hrun.trans hagain),
      hauthority]
    intro hsame
    simp only [List.append_assoc, List.singleton_append,
      List.append_cancel_left_eq, List.cons.injEq, true_and] at hsame
    rcases rest with _ | ⟨step, rest⟩
    · have hlength := congrArg List.length hsame
      simp at hlength
      omega
    · cases step <;> simp [relativeUrl, UrlStep.text] at hsame

/-- Beyond the segments of the path, the last one stays. -/
theorem resolveRelativeUrl_scpLike_ne {login path : List Char}
    {hlogin : '/' ∉ login} (hsteps : steps ≠ [])
    (hfits : ¬ (scpLike login path hlogin).Fits (parents steps)) :
    resolveRelativeUrl (scpLike login path hlogin).text
        (relativeUrl steps tail) ≠
      (scpLike login path hlogin).authority ++ tail := by
  obtain ⟨first, hsegments⟩ := segments_scpLike path hlogin
  have hfirst : '/' ∉ first := (scpLike login path hlogin).slash_notMem_segments
    first (by simp [hsegments])
  have hstem : (scpLike login path hlogin).stem = login ++ ':' :: first := by
    rw [stem, hsegments]
    rfl
  rw [fits_iff, Nat.not_le] at hfits
  obtain ⟨more, -, hrun⟩ := resolveSteps_beyond
    (scpLike login path hlogin).stem
    (scpLike login path hlogin).slash_notMem_led hfits tail
  rw [if_neg (by simp [hstem, hlogin, hfirst])] at hrun
  rw [resolveRelativeUrl_text hsteps (stem_ne_nil _) hrun, hstem, authority]
  intro hsame
  have hlength := congrArg List.length hsame
  have htail := length_le_length_relativeUrl more tail
  simp only [List.length_append, List.length_cons, List.length_nil] at hlength
  omega

/-- The loop follows the rule as long as there are enough segments, and no
further. -/
theorem resolveRelativeUrl_eq_resolved_iff (hsteps : steps ≠ [])
    (htail : isRelativeUrl tail = false) :
    resolveRelativeUrl remote.text (relativeUrl steps tail) =
        remote.resolved (parents steps) tail ↔
      remote.Fits (parents steps) := by
  refine ⟨?_, resolveRelativeUrl_of_fits hsteps htail⟩
  intro hsame
  by_contra hfits
  rw [remote.resolved_of_not_fits hfits] at hsame
  cases remote with
  | hierarchical scheme host path hscheme hhost =>
    exact resolveRelativeUrl_hierarchical_ne hsteps htail hfits hsame
  | scpLike login path hlogin =>
    exact resolveRelativeUrl_scpLike_ne hsteps hfits hsame

/-! ## Resolving as git does -/

theorem dropTrailingSlash_text : dropTrailingSlash remote.text =
    remote.stem ++ ledSegments '/'
      (remote.led ++ List.replicate (remote.trailingSlashes - 1) []) := by
  have htext := rdropWhile_append_replicate '/' remote.text
  have hlast := getLast?_rdropWhile_ne '/' remote.text
  rw [ledSegments_append, ledSegments_replicate_nil, ← List.append_assoc,
    ← remote.rdropWhile_text, trailingSlashes, dropTrailingSlash]
  generalize remote.text.rdropWhile (· = '/') = kept at htext hlast ⊢
  generalize (remote.text.rtakeWhile (· = '/')).length = count at htext ⊢
  rw [← htext]
  cases count with
  | zero =>
    rw [List.replicate_zero, List.append_nil, if_neg hlast]
  | succ count =>
    rw [List.replicate_succ', ← List.append_assoc, List.getLast?_concat,
      if_pos rfl, List.dropLast_concat, Nat.add_sub_cancel]

/-- The segments git keeps that the loop drops with the slashes. -/
def extraSegments (remote : RemoteUrl) (steps : Nat) : List (List Char) :=
  ((remote.led ++ List.replicate (remote.trailingSlashes - 1) []).drop
    (remote.led.length - steps)).take (remote.trailingSlashes - 1)

theorem gitRelativeUrl_of_fits (htail : isRelativeUrl tail = false)
    (hfits : remote.Fits (parents steps)) :
    gitRelativeUrl remote.text (relativeUrl steps tail) =
      remote.stem ++ ledSegments '/'
          (remote.led.take (remote.led.length - parents steps)) ++
        if tail.getLast? = some '/' then
          (ledSegments '/' (remote.extraSegments (parents steps)) ++
            '/' :: tail).dropLast
        else
          ledSegments '/' (remote.extraSegments (parents steps)) ++
            '/' :: tail := by
  rw [fits_iff] at hfits
  have hsegments : ∀ segment ∈
      remote.led ++ List.replicate (remote.trailingSlashes - 1) [],
      '/' ∉ segment := by
    intro segment hsegment
    rcases List.mem_append.mp hsegment with hled | hempty
    · exact remote.slash_notMem_led segment hled
    · simp [List.eq_of_mem_replicate hempty]
  have htake : (remote.led ++ List.replicate (remote.trailingSlashes - 1)
      []).take ((remote.led ++ List.replicate (remote.trailingSlashes - 1)
        []).length - parents steps) =
      remote.led.take (remote.led.length - parents steps) ++
        remote.extraSegments (parents steps) := by
    rw [List.length_append, List.length_replicate, Nat.sub_add_comm hfits,
      List.take_add, List.take_append_of_le_length (Nat.sub_le _ _),
      extraSegments]
  have hparents : parents steps ≤ (remote.led ++
      List.replicate (remote.trailingSlashes - 1) []).length := by
    rw [List.length_append]
    omega
  obtain ⟨-, hrun⟩ := steps_ledSegments remote.stem hsegments hparents htail
  rw [gitRelativeUrl, dropTrailingSlash_text, hrun, htake, ledSegments_append]
  simp only [Bool.false_eq_true, if_false, List.append_assoc]
  split_ifs
  · rw [List.dropLast_append_of_ne_nil (by simp),
      List.dropLast_append_of_ne_nil (by simp)]
  · rfl

theorem forall_eq_slash_iff (front : List Char) :
    front ++ ['/'] = '/' :: front ↔ ∀ c ∈ front, c = '/' := by
  induction front with
  | nil => simp
  | cons c front ih =>
    rw [List.cons_append, List.cons.injEq, List.forall_mem_cons, ← ih]
    constructor
    · rintro ⟨rfl, hfront⟩
      exact ⟨rfl, hfront⟩
    · rintro ⟨rfl, hfront⟩
      exact ⟨rfl, hfront⟩

/-- When more segments and one slash fewer make the same text. -/
theorem cons_slash_eq_iff {extra : List (List Char)} :
    ('/' :: tail = if tail.getLast? = some '/' then
          (ledSegments '/' extra ++ '/' :: tail).dropLast
        else ledSegments '/' extra ++ '/' :: tail) ↔
      extra = [] ∧ tail.getLast? ≠ some '/' ∨
        extra = [[]] ∧ tail ≠ [] ∧ ∀ c ∈ tail, c = '/' := by
  by_cases hlast : tail.getLast? = some '/'
  · obtain ⟨front, rfl⟩ := List.getLast?_eq_some_iff.mp hlast
    rw [if_pos hlast, ← List.cons_append, ← List.append_assoc,
      List.dropLast_concat]
    constructor
    · intro hsame
      have hlength := congrArg List.length hsame
      have hextra := length_le_length_ledSegments '/' extra
      simp only [List.length_append, List.length_cons, List.length_nil]
        at hlength
      rcases extra with _ | ⟨segment, _ | ⟨other, extra⟩⟩
      · simp at hlength
      · have hone : (ledSegments '/' [segment]).length ≤ 1 := by omega
        obtain rfl := eq_nil_of_length_ledSegments_singleton '/' hone
        have hfront : front ++ ['/'] = '/' :: front := by
          simpa using hsame
        have hall := (forall_eq_slash_iff front).mp hfront
        exact .inr ⟨rfl, by simp, by simpa [or_imp, forall_and] using hall⟩
      · simp only [List.length_cons] at hextra
        omega
    · rintro (⟨-, hno⟩ | ⟨rfl, -, hall⟩)
      · exact absurd hlast hno
      · have hfront := (forall_eq_slash_iff front).mpr fun c hc =>
          hall c (List.mem_append_left _ hc)
        simp [hfront]
  · rw [if_neg hlast]
    constructor
    · intro hsame
      have hlength := congrArg List.length hsame
      have hextra := length_le_length_ledSegments '/' extra
      rw [List.length_append] at hlength
      exact .inl ⟨List.eq_nil_of_length_eq_zero (by omega), hlast⟩
    · rintro (⟨rfl, -⟩ | ⟨-, hne, hall⟩)
      · rfl
      · rw [List.getLast?_eq_some_getLast hne,
          hall _ (List.getLast_mem hne)] at hlast
        exact absurd rfl hlast

theorem length_extraSegments (hfits : remote.Fits (parents steps)) :
    (remote.extraSegments (parents steps)).length =
      remote.trailingSlashes - 1 := by
  rw [fits_iff] at hfits
  rw [extraSegments, List.length_take, List.length_drop, List.length_append,
    List.length_replicate]
  omega

theorem extraSegments_eq_singleton_iff (hfits : remote.Fits (parents steps)) :
    remote.extraSegments (parents steps) = [[]] ↔ remote.trailingSlashes = 2 ∧
        (remote.segments ++ [[]])[remote.segments.length - parents steps]? =
          some [] := by
  have hlength := length_extraSegments hfits
  have hshift : (remote.segments ++ [[]])[remote.segments.length -
        parents steps]? =
      (remote.led ++ [[]])[remote.led.length - parents steps]? := by
    rw [fits_iff] at hfits
    cases remote with
    | hierarchical scheme host path hscheme hhost => rfl
    | scpLike login path hlogin =>
      obtain ⟨first, hsegments⟩ := segments_scpLike path hlogin
      rw [hsegments, List.length_cons, Nat.sub_add_comm hfits,
        List.cons_append, List.getElem?_cons_succ]
  rw [hshift]
  by_cases htwo : remote.trailingSlashes = 2
  · rw [extraSegments, htwo, List.take_one, List.head?_drop,
      Option.toList_eq_singleton_iff]
    simp
  · have hne : remote.extraSegments (parents steps) ≠ [[]] := by
      intro hextra
      rw [hextra, List.length_singleton] at hlength
      omega
    simp [hne, htwo]

/-- A relative submodule URL is resolved by the rule, and as git resolves it,
exactly when its steps up fit into the path of the remote and no slash at the
end of the one or the other is treated differently. -/
theorem resolveRelativeUrl_resolves_iff (remote : RemoteUrl)
    (steps : List UrlStep) (hsteps : steps ≠ []) (tail : List Char)
    (htail : isRelativeUrl tail = false) :
    (resolveRelativeUrl remote.text (relativeUrl steps tail) =
        remote.resolved (parents steps) tail ∧
      resolveRelativeUrl remote.text (relativeUrl steps tail) =
        gitRelativeUrl remote.text (relativeUrl steps tail)) ↔
      remote.AgreesWithGit (parents steps) tail := by
  rw [resolveRelativeUrl_eq_resolved_iff hsteps htail, AgreesWithGit]
  apply and_congr_right
  intro hfits
  rw [resolveRelativeUrl_of_fits hsteps htail hfits,
    remote.resolved_of_fits hfits, gitRelativeUrl_of_fits htail hfits,
    List.append_cancel_left_eq, cons_slash_eq_iff,
    extraSegments_eq_singleton_iff hfits, SlashesCancel, and_assoc,
    ← List.length_eq_zero_iff, length_extraSegments hfits,
    Nat.sub_eq_zero_iff_le]

/-- A remote with one segment in its path. -/
def sampleRemote : RemoteUrl :=
  .hierarchical "https".toList "host".toList "a".toList (by decide) (by decide)

/-- One step up more than there are segments: the host is gone. -/
theorem resolveRelativeUrl_sampleRemote :
    resolveRelativeUrl sampleRemote.text
          (relativeUrl [.parent, .parent] "x".toList) = "https://x".toList ∧
      ¬ (resolveRelativeUrl sampleRemote.text
            (relativeUrl [.parent, .parent] "x".toList) =
          sampleRemote.resolved (parents [.parent, .parent]) "x".toList ∧
        resolveRelativeUrl sampleRemote.text
            (relativeUrl [.parent, .parent] "x".toList) =
          gitRelativeUrl sampleRemote.text
            (relativeUrl [.parent, .parent] "x".toList)) := by
  decide

theorem resolveRelativeUrl_resolves_iff_sampleRemote :
    (resolveRelativeUrl sampleRemote.text
          (relativeUrl [.here, .parent] "x".toList) =
        sampleRemote.resolved (parents [.here, .parent]) "x".toList ∧
      resolveRelativeUrl sampleRemote.text
          (relativeUrl [.here, .parent] "x".toList) =
        gitRelativeUrl sampleRemote.text
          (relativeUrl [.here, .parent] "x".toList)) ↔
      sampleRemote.AgreesWithGit (parents [.here, .parent]) "x".toList :=
  resolveRelativeUrl_resolves_iff sampleRemote [.here, .parent] (by simp)
    "x".toList (by decide)

end RemoteUrl

end Bomwerk.Core
