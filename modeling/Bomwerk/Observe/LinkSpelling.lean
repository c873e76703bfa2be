import Bomwerk.Observe.LinkMap

/-!
# Spellings of a link line

A compiler driver hands a token to the linker bare, behind `-Xlinker`, or with
others in one `-Wl,` argument.  Flattening undoes every such spelling, so the
scan of a link line depends on the tokens only.
-/

namespace Bomwerk.Observe

open Bomwerk.Core

/-- A token that a `-Wl,` argument can carry. -/
structure LinkerToken where
  text : String
  nonempty : text ≠ ""
  noComma : ',' ∉ text.toList

/-- One or two arguments that hand tokens to the linker. -/
inductive Spelling
  | bare (token : LinkerToken) (plain : isOperand token.text = true)
  | behindXlinker (token : LinkerToken)
  | group (tokens : List LinkerToken)

namespace Spelling

def arguments : Spelling → List String
  | bare token _ => [token.text]
  | behindXlinker token => ["-Xlinker", token.text]
  | group tokens =>
    [String.ofList ("-Wl,".toList ++
      [','].intercalate (tokens.map fun token => token.text.toList))]

def tokens : Spelling → List String
  | bare token _ => [token.text]
  | behindXlinker token => [token.text]
  | group tokens => tokens.map LinkerToken.text

end Spelling

/-- A command with every token spelled out. -/
def spelledRecord (tool command workingDirectory : String)
    (spellings : List Spelling) : TraceRecord where
  tool := tool
  arguments := command :: spellings.flatMap Spelling.arguments
  workingDirectory := workingDirectory

/-! ## Flattening -/

theorem wlSegments_group (tokens : List LinkerToken) :
    wlSegments (String.ofList ("-Wl,".toList ++
        [','].intercalate (tokens.map fun token => token.text.toList))) =
      tokens.map LinkerToken.text := by
  have hsplit : (tokens.map fun token => token.text.toList) ≠ [] →
      ([','].intercalate (tokens.map fun token =>
        token.text.toList)).splitOn ',' =
      tokens.map fun token => token.text.toList := by
    intro hne
    refine List.splitOn_intercalate _ ?_ hne
    intro piece hpiece
    obtain ⟨token, -, rfl⟩ := List.mem_map.mp hpiece
    exact token.noComma
  have hkept : (tokens.map fun token => token.text.toList).filter (· ≠ []) =
      tokens.map fun token => token.text.toList := by
    rw [List.filter_eq_self]
    intro piece hpiece
    obtain ⟨token, -, rfl⟩ := List.mem_map.mp hpiece
    simpa using token.nonempty
  rw [wlSegments, String.toList_ofList, List.drop_left' (by rfl)]
  by_cases hnil : tokens = []
  · simp [hnil, List.intercalate]
  · rw [hsplit (by simpa using hnil), hkept, List.map_map]
    refine List.map_congr_left fun token _ => ?_
    simp

theorem flattenLinkerArguments_cons {argument : String}
    (hargument : argument ≠ "-Xlinker") (rest : List String) :
    flattenLinkerArguments (argument :: rest) =
      (if startsWith argument "-Wl," then wlSegments argument
        else [argument]) ++ flattenLinkerArguments rest := by
  rw [flattenLinkerArguments.eq_def]
  by_cases hwrapper : startsWith argument "-Wl," = true <;>
    simp [hargument, hwrapper]

theorem flattenLinkerArguments_xlinker (token : String) (rest : List String) :
    flattenLinkerArguments ("-Xlinker" :: token :: rest) =
      token :: flattenLinkerArguments rest := by
  rw [flattenLinkerArguments.eq_def]
  simp

/-- One spelling is flattened to its tokens, whatever stands behind it. -/
theorem flattenLinkerArguments_spelling (spelling : Spelling)
    (rest : List String) :
    flattenLinkerArguments (spelling.arguments ++ rest) =
      spelling.tokens ++ flattenLinkerArguments rest := by
  cases spelling with
  | bare token plain =>
    have hwrapper : token.text ≠ "-Xlinker" ∧
        startsWith token.text "-Wl," = false := by
      constructor
      · intro htext
        rw [htext] at plain
        exact absurd plain (by decide)
      · simp only [isOperand, startsWith, Bool.not_eq_true',
          Bool.eq_false_iff, ne_eq, List.isPrefixOf_iff_prefix] at plain ⊢
        intro hprefix
        exact plain (List.IsPrefix.trans ⟨"Wl,".toList, rfl⟩ hprefix)
    rw [Spelling.arguments, List.singleton_append,
      flattenLinkerArguments_cons hwrapper.1, hwrapper.2]
    rfl
  | behindXlinker token =>
    exact flattenLinkerArguments_xlinker token.text rest
  | group tokens =>
    have hwrapper : startsWith (String.ofList ("-Wl,".toList ++
        [','].intercalate (tokens.map fun token => token.text.toList)))
        "-Wl," = true := by
      simp [startsWith]
    have hother : String.ofList ("-Wl,".toList ++
        [','].intercalate (tokens.map fun token => token.text.toList)) ≠
        "-Xlinker" := by
      intro htext
      rw [htext] at hwrapper
      exact absurd hwrapper (by decide)
    rw [Spelling.arguments, List.singleton_append,
      flattenLinkerArguments_cons hother, if_pos hwrapper, wlSegments_group]
    rfl

theorem flattenLinkerArguments_spellings (spellings : List Spelling) :
    flattenLinkerArguments (spellings.flatMap Spelling.arguments) =
      spellings.flatMap Spelling.tokens := by
  induction spellings with
  | nil => rfl
  | cons spelling spellings ih =>
    rw [List.flatMap_cons, List.flatMap_cons,
      flattenLinkerArguments_spelling, ih]

/-- However its tokens are spelled, a link line flattens to them and scans as
they do. -/
theorem scanLinkLine_spelled (tool command workingDirectory : String)
    (spellings : List Spelling) :
    flattenLinkerTokens
        (spelledRecord tool command workingDirectory spellings) =
      spellings.flatMap Spelling.tokens ∧
    scanLinkLine (spelledRecord tool command workingDirectory spellings) =
      scanLinkTokens (spellings.flatMap Spelling.tokens) := by
  have hflat : flattenLinkerTokens
      (spelledRecord tool command workingDirectory spellings) =
        spellings.flatMap Spelling.tokens :=
    flattenLinkerArguments_spellings spellings
  exact ⟨hflat, congrArg scanLinkTokens hflat⟩

end Bomwerk.Observe
