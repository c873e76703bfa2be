import Bomwerk.Vuln.Osv.Match

/-!
# The page chain of one purl

The pagination of `match_components` works on all purls of a round at once,
with side tables for the tokens, the extra advisories and the purls given up.
Seen from one purl it is a small machine that consumes that purl's pages.  This
module states the machine, lists the follow-up pages a run is served, and
proves that the side tables always hold what the machine holds.
-/

namespace Bomwerk.Vuln

open Bomwerk.Core Bomwerk.Support

/-! ## The machine -/

/-- The three side tables at one purl. -/
@[ext]
structure PageChain where
  token : Option String
  extra : Option (List Json) := none
  incomplete : Bool := false

namespace PageChain

def follow (chain : PageChain) (page : Json) : PageChain :=
  if !page.isObject then { chain with token := none, incomplete := true }
  else
    { token := (pageToken? page).filter fun token => some token ≠ chain.token
      extra :=
        match page.findArray? "vulns" with
        | some vulns => some (chain.extra.getD [] ++ vulns)
        | none => chain.extra
      incomplete := chain.incomplete ||
        (pageToken? page).any fun token => some token = chain.token }

/-- The chain still waits for a page, or was given up. -/
def unfinished (chain : PageChain) : Bool :=
  chain.incomplete || chain.token.isSome

/-- Every page is served while the chain waits for one. -/
def Serves : PageChain → List Json → Prop
  | _, [] => True
  | chain, page :: pages =>
    chain.token.isSome ∧ (chain.follow page).Serves pages

def followAll (chain : PageChain) (pages : List Json) : PageChain :=
  pages.foldl follow chain

end PageChain

/-- A page ends its chain: an object without a token to follow. -/
def endsChain (page : Json) : Bool :=
  page.isObject && (pageToken? page).isNone

/-- The extra advisories of some follow-up pages; nothing when none of them
has a `vulns` array. -/
def extraOf (pages : List Json) : Option (List Json) :=
  if pages.any fun page => (page.findArray? "vulns").isSome then
    some (pages.flatMap pageVulns)
  else none

namespace PageChain

theorem follow_unfinished {chain : PageChain}
    (hincomplete : chain.incomplete = false) (page : Json) :
    (chain.follow page).unfinished = !endsChain page := by
  unfold follow unfinished endsChain
  cases hobject : page.isObject
  · simp
  · cases htoken : pageToken? page with
    | none => simp [hincomplete]
    | some token =>
      by_cases h : chain.token = some token
      · simp [h, hincomplete]
      · simp [Ne.symm h, hincomplete]

/-- A chain that waits for a page was not given up. -/
theorem follow_incomplete_of_token {chain : PageChain}
    (hchain : chain.token.isSome = true → chain.incomplete = false)
    (htoken : chain.token.isSome = true) {page : Json}
    (hfollow : (chain.follow page).token.isSome = true) :
    (chain.follow page).incomplete = false := by
  have hincomplete := hchain htoken
  unfold follow at hfollow ⊢
  cases hobject : page.isObject
  · simp [hobject] at hfollow
  · cases hpage : pageToken? page with
    | none => simp [hincomplete]
    | some token =>
      by_cases h : chain.token = some token
      · simp [hobject, hpage, h] at hfollow
      · simp [hincomplete, Ne.symm h]

/-- The last page decides whether a chain is finished. -/
theorem followAll_unfinished {chain : PageChain} {pages : List Json}
    (hchain : chain.token.isSome = true → chain.incomplete = false)
    (hserves : chain.Serves pages) {last : Json}
    (hlast : pages.getLast? = some last) :
    (chain.followAll pages).unfinished = !endsChain last := by
  induction pages generalizing chain with
  | nil => simp at hlast
  | cons page pages ih =>
    obtain ⟨htoken, hserves⟩ := hserves
    cases pages with
    | nil =>
      obtain rfl : page = last := by simpa using hlast
      exact follow_unfinished (hchain htoken) page
    | cons next pages =>
      exact ih (follow_incomplete_of_token hchain htoken) hserves
        (by simpa using hlast)

theorem findArray?_eq_none_of_not_isObject {page : Json}
    (hobject : page.isObject = false) (key : String) :
    page.findArray? key = none := by
  cases page <;> simp_all [Json.findArray?, Json.find?, Json.isObject]

theorem follow_extra (chain : PageChain) (page : Json) :
    (chain.follow page).extra =
      match page.findArray? "vulns" with
      | some vulns => some (chain.extra.getD [] ++ vulns)
      | none => chain.extra := by
  unfold follow
  cases hobject : page.isObject
  · simp [findArray?_eq_none_of_not_isObject hobject]
  · rfl

/-- The extra advisories are those of the follow-up pages, in order. -/
theorem followAll_extra (chain : PageChain) (pages : List Json) :
    (chain.followAll pages).extra =
      match extraOf pages with
      | some vulns => some (chain.extra.getD [] ++ vulns)
      | none => chain.extra := by
  induction pages generalizing chain with
  | nil => simp [followAll, extraOf]
  | cons page pages ih =>
    rw [show chain.followAll (page :: pages) =
      (chain.follow page).followAll pages from rfl, ih, follow_extra]
    cases hpage : page.findArray? "vulns" with
    | none =>
      by_cases hany : pages.any
          (fun page => (page.findArray? "vulns").isSome) = true <;>
        simp [extraOf, hpage, hany, pageVulns]
    | some vulns =>
      by_cases hany : pages.any
          (fun page => (page.findArray? "vulns").isSome) = true
      · simp [extraOf, hpage, hany, pageVulns]
      · have hvulns : pages.flatMap pageVulns = [] := by
          simp only [List.flatMap_eq_nil_iff]
          intro page hmem
          have hnone : page.findArray? "vulns" = none := by
            simpa using fun h => hany (List.any_eq_true.mpr ⟨page, hmem, h⟩)
          simp [pageVulns, hnone]
        simp [extraOf, hpage, hany, pageVulns, hvulns]

end PageChain

/-! ## One round -/

def PaginationState.chain (state : PaginationState) (purl : String) :
    PageChain where
  token := state.nextPageTokenByPurl[purl]?
  extra := state.extraVulnsByPurl[purl]?
  incomplete := purl ∈ state.incompletePaginationPurls

def pagesOf (purl : String) (pages : List (String × Json)) : List Json :=
  (pages.filter fun served => served.1 = purl).map Prod.snd

theorem mem_pagesOf_iff {purl : String} {pages : List (String × Json)}
    {page : Json} : page ∈ pagesOf purl pages ↔ (purl, page) ∈ pages := by
  simp [pagesOf]

theorem pagesOf_append (purl : String) (left right : List (String × Json)) :
    pagesOf purl (left ++ right) = pagesOf purl left ++ pagesOf purl right := by
  simp [pagesOf]

theorem pagesOf_eq_nil {purl : String} {pages : List (String × Json)}
    (hpurl : purl ∉ pages.map Prod.fst) : pagesOf purl pages = [] := by
  simp only [pagesOf, List.map_eq_nil_iff, List.filter_eq_nil_iff,
    decide_eq_true_eq]
  intro served hserved heq
  exact hpurl (heq ▸ List.mem_map_of_mem hserved)

theorem pagesOf_eq_singleton {purl : String} {pages : List (String × Json)}
    (hnodup : (pages.map Prod.fst).Nodup) {page : Json}
    (hmem : (purl, page) ∈ pages) : pagesOf purl pages = [page] := by
  induction pages with
  | nil => simp at hmem
  | cons served pages ih =>
    rw [List.map_cons, List.nodup_cons] at hnodup
    rcases List.mem_cons.mp hmem with rfl | hmem
    · rw [← List.singleton_append, pagesOf_append, pagesOf_eq_nil hnodup.1]
      simp [pagesOf]
    · have hne : served.1 ≠ purl := fun h =>
        hnodup.1 (h ▸ List.mem_map_of_mem hmem)
      rw [← List.singleton_append, pagesOf_append, ih hnodup.2 hmem]
      simp [pagesOf, hne]

section Round

variable (sent : OrderedMap String String)

/-- A page of another purl leaves a purl's tables alone. -/
theorem followPage_chain_of_ne {purl : String} {served : String × Json}
    (hne : purl ≠ served.1) (state : PaginationState) :
    (followPage sent state served).chain purl = state.chain purl := by
  obtain ⟨other, page⟩ := served
  simp only at hne
  unfold followPage PaginationState.chain
  cases hobject : page.isObject
  · simp [hobject, hne]
  · cases hvulns : page.findArray? "vulns" <;>
      cases htoken : pageToken? page with
      | none => simp [hobject, hvulns, htoken, getElem?_insert_eq, hne]
      | some token =>
        by_cases h : sent[other]? = some token
        · simp [hobject, hvulns, htoken, h, getElem?_insert_eq, hne]
        · simp [hobject, hvulns, htoken, Ne.symm h, getElem?_insert_eq, hne]

/-- The page of a purl moves its tables as the machine does. -/
theorem followPage_chain_self (purl : String) (page : Json)
    (state : PaginationState)
    (hnext : state.nextPageTokenByPurl[purl]? = none) :
    (followPage sent state (purl, page)).chain purl =
      PageChain.follow { state.chain purl with token := sent[purl]? }
        page := by
  unfold followPage PaginationState.chain PageChain.follow
  cases hobject : page.isObject
  · simp [hobject, hnext]
  · cases hvulns : page.findArray? "vulns" <;>
      cases htoken : pageToken? page with
      | none => simp [hobject, hvulns, htoken, hnext]
      | some token =>
        by_cases h : sent[purl]? = some token
        · simp [hobject, hvulns, htoken, h, hnext, Option.filter]
        · simp [hobject, hvulns, htoken, Ne.symm h, Option.filter]

theorem foldl_followPage_chain_of_notMem {purl : String}
    {pages : List (String × Json)} (hpurl : purl ∉ pages.map Prod.fst)
    (state : PaginationState) :
    (pages.foldl (followPage sent) state).chain purl = state.chain purl := by
  induction pages generalizing state with
  | nil => rfl
  | cons served pages ih =>
    simp only [List.map_cons, List.mem_cons, not_or] at hpurl
    rw [List.foldl_cons, ih hpurl.2, followPage_chain_of_ne sent hpurl.1]

theorem foldl_followPage_chain_of_mem {purl : String}
    {pages : List (String × Json)} (hnodup : (pages.map Prod.fst).Nodup)
    {page : Json} (hmem : (purl, page) ∈ pages) (state : PaginationState)
    (hnext : state.nextPageTokenByPurl[purl]? = none) :
    (pages.foldl (followPage sent) state).chain purl =
      PageChain.follow { state.chain purl with token := sent[purl]? }
        page := by
  induction pages generalizing state with
  | nil => simp at hmem
  | cons served pages ih =>
    rw [List.map_cons, List.nodup_cons] at hnodup
    rw [List.foldl_cons]
    rcases List.mem_cons.mp hmem with rfl | hmem
    · rw [foldl_followPage_chain_of_notMem sent hnodup.1,
        followPage_chain_self sent purl page state hnext]
    · have hne : purl ≠ served.1 := fun h =>
        hnodup.1 (h ▸ List.mem_map_of_mem hmem)
      have hchain := followPage_chain_of_ne sent hne state
      have hnext' :
          (followPage sent state served).nextPageTokenByPurl[purl]? =
            none := (congrArg PageChain.token hchain).trans hnext
      rw [ih hnodup.2 hmem _ hnext', hchain]

end Round

/-- A usable round moves every waiting purl by its page. -/
theorem followPages_chain (state : PaginationState)
    {pages : List (String × Json)} (hnodup : (pages.map Prod.fst).Nodup)
    (hkeys : ∀ purl, purl ∈ pages.map Prod.fst ↔
      state.nextPageTokenByPurl[purl]?.isSome = true) (purl : String) :
    (followPages state pages).chain purl =
      (state.chain purl).followAll (pagesOf purl pages) := by
  have hstart : ∀ purl,
      ({ state with nextPageTokenByPurl := ∅ } : PaginationState).chain purl =
        { state.chain purl with token := none } := by
    intro purl
    simp [PaginationState.chain]
  unfold followPages
  by_cases hpurl : purl ∈ pages.map Prod.fst
  · obtain ⟨⟨purl, page⟩, hmem, rfl⟩ := List.mem_map.mp hpurl
    rw [foldl_followPage_chain_of_mem _ hnodup hmem _ (by simp),
      pagesOf_eq_singleton hnodup hmem, hstart]
    rfl
  · have htoken : state.nextPageTokenByPurl[purl]? = none := by
      simpa using fun h => hpurl ((hkeys purl).mpr h)
    rw [foldl_followPage_chain_of_notMem _ hpurl, pagesOf_eq_nil hpurl, hstart]
    ext1 <;> simp [PaginationState.chain, PageChain.followAll, htoken]

theorem followPages_token_congr (left right : PaginationState)
    (htokens : left.nextPageTokenByPurl = right.nextPageTokenByPurl)
    (pages : List (String × Json)) :
    (followPages left pages).nextPageTokenByPurl =
      (followPages right pages).nextPageTokenByPurl := by
  have hstep : ∀ (sent : OrderedMap String String) (l r : PaginationState)
      (served : String × Json),
      l.nextPageTokenByPurl = r.nextPageTokenByPurl →
      (followPage sent l served).nextPageTokenByPurl =
        (followPage sent r served).nextPageTokenByPurl := by
    rintro sent l r ⟨purl, page⟩ h
    simp only [followPage]
    cases page.isObject
    · exact h
    · cases pageToken? page with
      | none => exact h
      | some token => by_cases hecho : some token = sent[purl]? <;>
          simp [hecho, h]
  have hfold : ∀ (sent : OrderedMap String String) (l r : PaginationState),
      l.nextPageTokenByPurl = r.nextPageTokenByPurl →
      (pages.foldl (followPage sent) l).nextPageTokenByPurl =
        (pages.foldl (followPage sent) r).nextPageTokenByPurl := by
    intro sent
    induction pages with
    | nil => exact fun l r h => h
    | cons served pages ih =>
      exact fun l r h => ih _ _ (hstep sent l r served h)
  unfold followPages
  rw [htokens]
  exact hfold _ _ _ rfl

/-! ## All rounds -/

/-- The tokens the next round sends after a usable round. -/
def nextTokens (tokens : OrderedMap String String)
    (pages : List (String × Json)) : OrderedMap String String :=
  (followPages { nextPageTokenByPurl := tokens } pages).nextPageTokenByPurl

/-- The pages the usable rounds of a run are served, by purl. -/
def followUps (transport : Transport) :
    (roundsLeft round : Nat) → OrderedMap String String → List (String × Json)
  | 0, _, _ => []
  | roundsLeft + 1, round, tokens =>
    if tokens.isEmpty then []
    else
      match followUpPages (followUpResponse transport round tokens).value
          tokens with
      | none => []
      | some pages =>
        pages ++ followUps transport roundsLeft (round + 1)
          (nextTokens tokens pages)

theorem followUpPages_keys {response : HttpResponse}
    {tokens : OrderedMap String String} {pages : List (String × Json)}
    (hpages : followUpPages response tokens = some pages) :
    pages.map Prod.fst = tokens.toList.map Prod.fst := by
  obtain ⟨results, -, hpages⟩ := Option.bind_eq_some_iff.mp hpages
  split_ifs at hpages with hlength
  · obtain rfl := Option.some.inj hpages
    rw [List.map_fst_zip]
    simp [hlength]

variable (transport : Transport)

theorem paginationRounds_chain (purl : String) (roundsLeft round : Nat)
    (state : Result PaginationState) :
    let pages := pagesOf purl
      (followUps transport roundsLeft round state.value.nextPageTokenByPurl)
    let left := (paginationRounds transport roundsLeft round state).value
    (state.value.chain purl).Serves pages ∧ (left.chain purl).unfinished =
        ((state.value.chain purl).followAll pages).unfinished ∧
      (left.chain purl).extra =
        ((state.value.chain purl).followAll pages).extra := by
  induction roundsLeft generalizing round state with
  | zero => exact ⟨trivial, rfl, rfl⟩
  | succ roundsLeft ih =>
    simp only [paginationRounds, followUps]
    split_ifs with hempty
    · exact ⟨trivial, rfl, rfl⟩
    cases hpages : followUpPages (followUpResponse transport round
        state.value.nextPageTokenByPurl).value
        state.value.nextPageTokenByPurl with
    | none =>
      refine ⟨trivial, ?_, rfl⟩
      have hkey : purl ∈ state.value.nextPageTokenByPurl.toList.map Prod.fst ↔
          state.value.nextPageTokenByPurl[purl]?.isSome = true :=
        mem_keys_toList_iff
      simp only [PageChain.unfinished, PaginationState.chain,
        Result.absorb_value, Finset.mem_union, List.mem_toFinset, hkey,
        pagesOf, List.filter_nil, List.map_nil, PageChain.followAll,
        List.foldl_nil]
      cases state.value.nextPageTokenByPurl[purl]?.isSome <;> simp
    | some pages =>
      have hkeys := followUpPages_keys hpages
      have hnodup : (pages.map Prod.fst).Nodup :=
        hkeys ▸ nodup_keys_toList _
      have hround := followPages_chain state.value hnodup
        (fun purl => hkeys ▸ mem_keys_toList_iff) purl
      have hnext : nextTokens state.value.nextPageTokenByPurl pages =
          (followPages state.value pages).nextPageTokenByPurl :=
        followPages_token_congr
          { nextPageTokenByPurl := state.value.nextPageTokenByPurl }
          state.value rfl pages
      obtain ⟨hserves, hunfinished, hextra⟩ := ih (round + 1)
        { (state.absorb (followUpResponse transport round
            state.value.nextPageTokenByPurl).warnings) with
          value := followPages state.value pages }
      simp only [hround] at hserves hunfinished hextra
      dsimp only [Result.absorb_value]
      rw [hnext, pagesOf_append]
      refine ⟨?_, ?_, ?_⟩
      · by_cases hpurl : purl ∈ pages.map Prod.fst
        · obtain ⟨⟨purl, page⟩, hmem, rfl⟩ := List.mem_map.mp hpurl
          rw [pagesOf_eq_singleton hnodup hmem] at hserves ⊢
          exact ⟨mem_keys_toList_iff.mp (hkeys ▸ hpurl), hserves⟩
        · rw [pagesOf_eq_nil hpurl] at hserves ⊢
          exact hserves
      · rw [PageChain.followAll, List.foldl_append]
        exact hunfinished
      · rw [PageChain.followAll, List.foldl_append]
        exact hextra

def followUpPagesOf (tokens : OrderedMap String String) (purl : String) :
    List Json :=
  pagesOf purl (followUps transport maxOsvPaginationRounds 0 tokens)

/-- What the pagination knows of one purl when it ends. -/
theorem paginate_spec (tokens : OrderedMap String String) (purl : String) :
    let chain : PageChain := { token := tokens[purl]? }
    let pages := followUpPagesOf transport tokens purl
    chain.Serves pages ∧
      (purl ∈ (paginate transport tokens).value.incompletePaginationPurls ↔
        (chain.followAll pages).unfinished = true) ∧
      (paginate transport tokens).value.extraVulnsByPurl[purl]? =
        extraOf pages := by
  have hstart : PaginationState.chain { nextPageTokenByPurl := tokens } purl =
      { token := tokens[purl]? } := by
    simp [PaginationState.chain]
  obtain ⟨hserves, hunfinished, hextra⟩ := paginationRounds_chain transport
    purl maxOsvPaginationRounds 0 { value := { nextPageTokenByPurl := tokens } }
  rw [hstart] at hserves hunfinished hextra
  refine ⟨hserves, ?_, ?_⟩
  · rw [followUpPagesOf, ← hunfinished]
    simp [paginate, PageChain.unfinished, PaginationState.chain]
  · have hall := PageChain.followAll_extra { token := tokens[purl]? }
      (followUpPagesOf transport tokens purl)
    simp only [paginate, Result.warnIf_value]
    refine hextra.trans (hall.trans ?_)
    cases extraOf (followUpPagesOf transport tokens purl) <;> simp

theorem followUpPagesOf_eq_nil {tokens : OrderedMap String String}
    {purl : String} (htoken : tokens[purl]? = none) :
    followUpPagesOf transport tokens purl = [] := by
  have hserves := (paginate_spec transport tokens purl).1
  cases hpages : followUpPagesOf transport tokens purl with
  | nil => rfl
  | cons page pages =>
    rw [hpages] at hserves
    exact absurd hserves.1 (by simp [htoken])

/-- A purl is given up exactly when its last page does not end its chain. -/
theorem mem_incompletePaginationPurls_iff (tokens : OrderedMap String String)
    {purl : String} {firstPage : Json} (hobject : firstPage.isObject = true)
    (htoken : tokens[purl]? = pageToken? firstPage) :
    purl ∈ (paginate transport tokens).value.incompletePaginationPurls ↔
      endsChain ((followUpPagesOf transport tokens purl).getLast?.getD
        firstPage) = false := by
  obtain ⟨hserves, hincomplete, -⟩ := paginate_spec transport tokens purl
  rw [hincomplete]
  cases hlast : (followUpPagesOf transport tokens purl).getLast? with
  | none =>
    rw [List.getLast?_eq_none_iff.mp hlast]
    simp [PageChain.followAll, PageChain.unfinished, htoken, endsChain, hobject]
  | some last =>
    rw [PageChain.followAll_unfinished (fun _ => rfl) hserves hlast]
    simp

end Bomwerk.Vuln
