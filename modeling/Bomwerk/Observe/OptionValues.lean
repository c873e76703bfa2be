import Bomwerk.Observe.LinkMap
import Bomwerk.Support.OptionWalk

/-!
# Values of options

Both argument scans skip the value of an option they know to take one.  What a
tool really consumes is a parameter: a scan reports exactly the tool's operands
as long as the two agree on the options of the line.
-/

namespace Bomwerk.Observe

open Bomwerk.Core Bomwerk.Support

def isOptionToken (argument : String) : Bool :=
  startsWith argument "-"

theorem isOperand_eq (argument : String) :
    isOperand argument = !isOptionToken argument := rfl

theorem startsWith_of_startsWith {text literal front : String}
    (htext : startsWith text literal = true)
    (hliteral : startsWith literal front = true) :
    startsWith text front = true := by
  rw [startsWith, List.isPrefixOf_iff_prefix] at htext hliteral ⊢
  exact hliteral.trans htext

theorem startsWith_eq_false {text literal front : String}
    (htext : startsWith text front = false)
    (hliteral : startsWith literal front = true) :
    startsWith text literal = false := by
  by_contra h
  rw [Bool.not_eq_false] at h
  rw [startsWith_of_startsWith h hliteral] at htext
  exact absurd htext (by decide)

theorem isOptionToken_of_isResponseFile {argument : String}
    (hresponse : isResponseFile argument = true) :
    isOptionToken argument = false := by
  by_contra h
  rw [Bool.not_eq_false] at h
  rw [isResponseFile, startsWith, List.isPrefixOf_iff_prefix] at hresponse
  rw [isOptionToken, startsWith, List.isPrefixOf_iff_prefix] at h
  obtain ⟨rest, hrest⟩ := hresponse
  obtain ⟨rest', hrest'⟩ := h
  simp [← hrest] at hrest'

/-- The compile scan skips the argument behind this one. -/
def compileTakesNext (argument : String) : Bool :=
  includePathOptions.contains argument ||
    optionsConsumingNextArgument.contains argument

/-- An operand that the compile scan reports. -/
def isSourceOperand (argument : String) : Bool :=
  !isResponseFile argument && hasSourceFileExtension argument

theorem includePathValue_consumed (argument nextArgument : String) :
    (includePathValue argument nextArgument).2 =
      includePathOptions.contains argument := by
  by_cases hI : argument = "-I"
  · subst hI
    rfl
  by_cases hsystem : argument = "-isystem"
  · subst hsystem
    rfl
  by_cases hquote : argument = "-iquote"
  · subst hquote
    rfl
  by_cases hafter : argument = "-idirafter"
  · subst hafter
    rfl
  have hcontains : includePathOptions.contains argument = false := by
    simp [includePathOptions, hI, hsystem, hquote, hafter]
  rw [hcontains, includePathValue]
  simp only [includePathOptions, List.findSome?_cons, List.findSome?_nil,
    optionValue, hI, hsystem, hquote, hafter, if_false]
  split_ifs <;> rfl

theorem compileTakesNext_eq (argument nextArgument : String) :
    ((includePathValue argument nextArgument).2 ||
      optionsConsumingNextArgument.contains argument) =
      compileTakesNext argument := by
  rw [includePathValue_consumed, compileTakesNext]

theorem sourceArguments_scanCompileArguments (arguments : List String)
    (line : CompileLine) :
    (scanCompileArguments arguments line).sourceArguments =
      line.sourceArguments ++
        (operands isOptionToken compileTakesNext arguments).filter
          isSourceOperand := by
  have hkept : ∀ (line : CompileLine) (value : String × Bool),
      (if value.1 ≠ "" then
        { line with
          includePathArguments := line.includePathArguments ++ [value.1] }
      else line).sourceArguments = line.sourceArguments := by
    intro line value
    split <;> rfl
  fun_induction scanCompileArguments arguments line with
  | case1 line => simp [operands]
  | case2 argument rest line hskipped ih =>
    rcases hskipped with rfl | rfl
    · rw [ih, operands_operand (by decide), List.filter_cons_of_neg (by decide)]
    · rw [ih, operands_option (by decide) (by decide)]
  | case3 argument rest line hnonempty hresponse ih =>
    rw [ih, operands_operand (isOptionToken_of_isResponseFile hresponse),
      List.filter_cons_of_neg (by simp [isSourceOperand, hresponse])]
  | case4 argument rest line hnonempty hresponse hoperand ih =>
    have hoption : isOptionToken argument = false := by
      simpa [isOperand_eq] using hoperand
    rw [ih, operands_operand hoption]
    by_cases hsource : hasSourceFileExtension argument = true <;>
      simp [isSourceOperand, hresponse, hsource]
  | case5 argument line hnonempty hresponse hoperand value line' htakes =>
    have hoption : isOptionToken argument = true := by
      simpa [isOperand_eq] using hoperand
    rw [operands_option_last hoption, hkept]
    simp
  | case6 argument line hnonempty hresponse hoperand next rest value line'
      htakes ih =>
      have hoption : isOptionToken argument = true := by
        simpa [isOperand_eq] using hoperand
      rw [compileTakesNext_eq] at htakes
      rw [ih, operands_option_value hoption htakes, hkept]
  | case7 argument rest line hnonempty hresponse hoperand value line' htakes
      ih =>
      have hoption : isOptionToken argument = true := by
        simpa [isOperand_eq] using hoperand
      rw [compileTakesNext_eq] at htakes
      rw [ih, operands_option hoption (by simpa using htakes), hkept]

/-! ## Link lines -/

/-- The link scan skips the token behind this one. -/
def linkTakesNext (token : String) : Bool :=
  ["-o", "--output", "-Map", "-L", "-l"].contains token ||
    linkOptionsConsumingNextArgument.contains token

def isLinkOperand (token : String) : Bool :=
  !isResponseFile token && hasLinkInputExtension token

theorem outputPathValue_operand {token : String}
    (hoption : isOptionToken token = false) (nextToken : String) :
    outputPathValue token nextToken = none := by
  have hlong : startsWith token "--output=" = false :=
    startsWith_eq_false hoption (by decide)
  have hshort : startsWith token "-o" = false :=
    startsWith_eq_false hoption (by decide)
  have hne : token ≠ "-o" ∧ token ≠ "--output" := by
    constructor <;> rintro rfl <;> exact absurd hoption (by decide)
  simp [outputPathValue, hlong, hshort, hne]

theorem mapFileValue_operand {token : String}
    (hoption : isOptionToken token = false) (nextToken : String) :
    mapFileValue token nextToken = none := by
  have hjoined : startsWith token "-Map=" = false :=
    startsWith_eq_false hoption (by decide)
  have hne : token ≠ "-Map" := by
    rintro rfl
    exact absurd hoption (by decide)
  simp [mapFileValue, hjoined, hne]

theorem namedValue_operand {option token : String}
    (hname : startsWith option "-" = true)
    (hoption : isOptionToken token = false) (nextToken : String) :
    namedValue option token nextToken = none := by
  have hjoined : startsWith token option = false :=
    startsWith_eq_false hoption hname
  have hne : token ≠ option := by
    rintro rfl
    rw [isOptionToken, hname] at hoption
    exact absurd hoption (by decide)
  simp [namedValue, optionValue, hjoined, hne]

/-- An operand is an input or nothing, and consumes nothing. -/
theorem classifyLinkToken_operand {token : String}
    (hoption : isOptionToken token = false) (nextToken : String) :
    (classifyLinkToken token nextToken).2 = false ∧
      ((classifyLinkToken token nextToken).1 = .input ↔
        isLinkOperand token = true) := by
  have hwhole : token ≠ "--whole-archive" ∧ token ≠ "--no-whole-archive" := by
    constructor <;> rintro rfl <;> exact absurd hoption (by decide)
  by_cases hempty : token = ""
  · subst hempty
    have hnone : isLinkOperand "" = false := by decide
    simp [classifyLinkToken, hnone]
  by_cases hresponse : isResponseFile token = true
  · simp [classifyLinkToken, hempty, hwhole, hresponse, isLinkOperand]
  · simp only [classifyLinkToken, hempty, hwhole, hresponse, if_false,
      outputPathValue_operand hoption, mapFileValue_operand hoption,
      namedValue_operand (by decide : startsWith "-L" "-" = true) hoption,
      namedValue_operand (by decide : startsWith "-l" "-" = true) hoption,
      isOperand_eq, hoption]
    by_cases hextension : hasLinkInputExtension token = true <;>
      simp [isLinkOperand, hresponse, hextension]

theorem linkTakesNext_of_outputPathValue {token nextToken value : String}
    (hvalue : outputPathValue token nextToken = some (value, true)) :
    linkTakesNext token = true := by
  unfold outputPathValue at hvalue
  split_ifs at hvalue with hjoined hname
  · simp at hvalue
  · rcases hname.1 with rfl | rfl <;> decide
  · simp at hvalue

theorem linkTakesNext_of_mapFileValue {token nextToken value : String}
    (hvalue : mapFileValue token nextToken = some (value, true)) :
    linkTakesNext token = true := by
  unfold mapFileValue at hvalue
  split_ifs at hvalue with hjoined hname
  · simp at hvalue
  · rw [hname.1]
    decide

theorem eq_of_namedValue {option token nextToken value : String}
    (hvalue : namedValue option token nextToken = some (value, true)) :
    token = option := by
  unfold namedValue optionValue at hvalue
  split_ifs at hvalue with hname
  · exact hname
  · simp [Option.filter] at hvalue
  · simp at hvalue

/-- An option is no input, and consumes the following token only when it takes
a value. -/
theorem classifyLinkToken_option {token : String}
    (hoption : isOptionToken token = true) (nextToken : String) :
    (classifyLinkToken token nextToken).1 ≠ .input ∧
      ((classifyLinkToken token nextToken).2 = true →
        linkTakesNext token = true) := by
  have hempty : token ≠ "" := by
    rintro rfl
    exact absurd hoption (by decide)
  have hresponse : isResponseFile token = false := by
    by_contra h
    rw [Bool.not_eq_false] at h
    rw [isOptionToken_of_isResponseFile h] at hoption
    exact absurd hoption (by decide)
  by_cases hwhole : token = "--whole-archive"
  · simp [classifyLinkToken, hwhole]
  by_cases hnoWhole : token = "--no-whole-archive"
  · simp [classifyLinkToken, hnoWhole]
  simp only [classifyLinkToken, hempty, hwhole, hnoWhole, hresponse, if_false,
    isOperand_eq, hoption, Bool.not_true, Bool.false_eq_true]
  split
  · rename_i value consumed hvalue
    refine ⟨by simp, ?_⟩
    rintro rfl
    exact linkTakesNext_of_outputPathValue hvalue
  split
  · rename_i value consumed hvalue
    refine ⟨by simp, ?_⟩
    rintro rfl
    exact linkTakesNext_of_mapFileValue hvalue
  split
  · rename_i value consumed hvalue
    refine ⟨by simp, ?_⟩
    rintro rfl
    rw [eq_of_namedValue hvalue]
    decide
  split
  · rename_i value consumed hvalue
    refine ⟨by simp, ?_⟩
    rintro rfl
    rw [eq_of_namedValue hvalue]
    decide
  · refine ⟨by simp, ?_⟩
    intro htakes
    rw [linkTakesNext, Bool.or_eq_true]
    exact Or.inr htakes

/-- An option that takes a value consumes the following token, unless that is
empty. -/
theorem consumed_of_linkTakesNext {token nextToken : String}
    (htakes : linkTakesNext token = true) (hnext : nextToken ≠ "") :
    (classifyLinkToken token nextToken).2 = true := by
  simp only [linkTakesNext, linkOptionsConsumingNextArgument, Bool.or_eq_true,
    List.contains_iff_mem, List.mem_cons, List.not_mem_nil, or_false]
    at htakes
  rcases htakes with (rfl | rfl | rfl | rfl | rfl) |
    (rfl | rfl | rfl | rfl | rfl | rfl | rfl | rfl | rfl | rfl | rfl) <;>
  simp [classifyLinkToken, isResponseFile, startsWith, outputPathValue,
    mapFileValue, namedValue, optionValue, isOperand, hnext, Option.filter,
    linkOptionsConsumingNextArgument]

theorem isOptionToken_of_consumed {token nextToken : String}
    (hconsumed : (classifyLinkToken token nextToken).2 = true) :
    isOptionToken token = true := by
  by_contra hoption
  rw [Bool.not_eq_true] at hoption
  rw [(classifyLinkToken_operand hoption nextToken).1] at hconsumed
  exact absurd hconsumed (by decide)

theorem directInputs_add (line : LinkLine) (insideWholeArchive : Bool)
    (token : String) (kind : LinkToken) :
    (line.add insideWholeArchive token kind).directInputs.map
        LinkInput.argument =
      line.directInputs.map LinkInput.argument ++
        if kind = .input then [token] else [] := by
  cases kind <;> simp [LinkLine.add]

theorem directInputs_scanLinkTokensFrom (tokens : List String)
    (insideWholeArchive : Bool) (line : LinkLine) :
    (scanLinkTokensFrom tokens insideWholeArchive line).directInputs.map
        LinkInput.argument =
      line.directInputs.map LinkInput.argument ++
        (operands isOptionToken linkTakesNext tokens).filter
          isLinkOperand := by
  fun_induction scanLinkTokensFrom tokens insideWholeArchive line with
  | case1 inside line => simp [operands]
  | case2 token inside line kind line' hclassify =>
    have hoption := isOptionToken_of_consumed (congrArg Prod.snd hclassify)
    have hkind := (classifyLinkToken_option hoption
      (([] : List String).head?.getD "")).1
    rw [hclassify] at hkind
    rw [operands_option_last hoption, directInputs_add, if_neg hkind]
    simp
  | case3 token inside line kind line' inside' next rest hclassify ih =>
    have hconsumed := congrArg Prod.snd hclassify
    have hoption := isOptionToken_of_consumed hconsumed
    obtain ⟨hkind, htakes⟩ := classifyLinkToken_option hoption next
    rw [List.head?_cons, Option.getD_some] at hclassify hconsumed
    rw [hclassify] at hkind
    rw [ih, operands_option_value hoption (htakes hconsumed),
      directInputs_add, if_neg hkind, List.append_nil]
  | case4 token rest inside line kind consumed hclassify line' inside'
      hconsumed ih =>
      rw [ih, directInputs_add, List.append_assoc]
      congr 1
      by_cases hoption : isOptionToken token = true
      · obtain ⟨hkind, htakes⟩ :=
          classifyLinkToken_option hoption (rest.head?.getD "")
        rw [hclassify] at hkind
        rw [if_neg hkind, List.nil_append]
        by_cases hskips : linkTakesNext token = true
        · -- A value that was not consumed is empty, and is passed over next.
          have hnext : rest.head?.getD "" = "" := by
            by_contra hnext
            have h := consumed_of_linkTakesNext hskips hnext
            rw [hclassify] at h
            exact hconsumed h
          cases rest with
          | nil => rw [operands_option_last hoption, operands]
          | cons value rest =>
            obtain rfl : value = "" := hnext
            rw [operands_option_value hoption hskips,
              operands_operand (by decide),
              List.filter_cons_of_neg (by decide)]
        · rw [operands_option hoption (by simpa using hskips)]
      · have hoperand : isOptionToken token = false := by simpa using hoption
        have hinput := (classifyLinkToken_operand hoperand
          (rest.head?.getD "")).2
        rw [hclassify] at hinput
        rw [operands_operand hoperand]
        by_cases hreported : isLinkOperand token = true
        · have hkind : kind = .input := hinput.mpr hreported
          simp [hkind, hreported]
        · have hkind : kind ≠ .input := fun h => hreported (hinput.mp h)
          simp [hkind, hreported]

/-! ## Against the tools -/

/-- The compile scan reports exactly the sources among what a compiler, whose
options take values so, reads as operands. -/
def CompileScanExact (takesValue : String → Bool) (record : TraceRecord) :
    Prop :=
  (scanCompileLine record).sourceArguments =
    (operands isOptionToken takesValue (record.arguments.drop 1)).filter
      isSourceOperand

/-- The link scan reports exactly the link inputs among what the linker reads
as operands, once the wrappers around its tokens are taken off. -/
def LinkScanExact (takesValue : String → Bool) (record : TraceRecord) : Prop :=
  (scanLinkLine record).directInputs.map LinkInput.argument =
    (operands isOptionToken takesValue (flattenLinkerTokens record)).filter
      isLinkOperand

/-- Every option of a compile line, as the compiler reads it, is one of
these. -/
def CompileLineUses (takesValue : String → Bool) (vocabulary : Set String)
    (record : TraceRecord) : Prop :=
  ∀ option ∈ optionsOf isOptionToken takesValue (record.arguments.drop 1),
    option ∈ vocabulary

/-- Every option of a link line, as the linker reads it, is one of these. -/
def LinkLineUses (takesValue : String → Bool) (vocabulary : Set String)
    (record : TraceRecord) : Prop :=
  ∀ option ∈ optionsOf isOptionToken takesValue (flattenLinkerTokens record),
    option ∈ vocabulary

theorem compileScanExact_of_agrees {takesValue : String → Bool}
    {record : TraceRecord}
    (hagree : ∀ option ∈ optionsOf isOptionToken takesValue
      (record.arguments.drop 1), takesValue option = compileTakesNext option) :
    CompileScanExact takesValue record := by
  rw [CompileScanExact, scanCompileLine,
    sourceArguments_scanCompileArguments, operands_congr hagree]
  rfl

theorem linkScanExact_of_agrees {takesValue : String → Bool}
    {record : TraceRecord}
    (hagree : ∀ option ∈ optionsOf isOptionToken takesValue
      (flattenLinkerTokens record), takesValue option = linkTakesNext option) :
    LinkScanExact takesValue record := by
  rw [LinkScanExact, scanLinkLine, scanLinkTokens,
    directInputs_scanLinkTokensFrom, operands_congr hagree]
  rfl

/-- A scanner and a tool that differ on an option differ on a line of that
option and one operand. -/
theorem operands_pair {takesValue : String → Bool} {option : String}
    (hoption : isOptionToken option = true) {operand : String}
    (hoperand : isOptionToken operand = false) :
    operands isOptionToken takesValue [option, operand] =
      if takesValue option then [] else [operand] := by
  by_cases htakes : takesValue option = true
  · rw [operands_option_value hoption htakes, if_pos htakes, operands]
  · rw [operands_option hoption (by simpa using htakes), if_neg htakes,
      operands_operand hoperand, operands]

theorem optionsOf_pair {takesValue : String → Bool} {option : String}
    (hoption : isOptionToken option = true) {operand : String}
    (hoperand : isOptionToken operand = false) :
    optionsOf isOptionToken takesValue [option, operand] = [option] := by
  by_cases htakes : takesValue option = true
  · rw [optionsOf_option_value hoption htakes, optionsOf]
  · rw [optionsOf_option hoption (by simpa using htakes),
      optionsOf_operand hoperand, optionsOf]

theorem takesNext_eq_of_compileScanExact {takesValue : String → Bool}
    {option : String} (hoption : isOptionToken option = true)
    (hexact : CompileScanExact takesValue
      ⟨"cc", ["cc", option, "x.c"], "/", 0⟩) :
    takesValue option = compileTakesNext option := by
  have hoperand : isOptionToken "x.c" = false := by decide
  have hsource : isSourceOperand "x.c" = true := by decide
  rw [CompileScanExact, scanCompileLine,
    sourceArguments_scanCompileArguments] at hexact
  simp only [List.drop_succ_cons, List.drop_zero, List.nil_append,
    operands_pair hoption hoperand] at hexact
  by_cases htakes : takesValue option = true <;>
    by_cases hskips : compileTakesNext option = true <;>
    simp_all

theorem flattenLinkerTokens_pair (option : String) :
    flattenLinkerTokens ⟨"ld", ["ld", "-Xlinker", option, "x.o"], "/", 0⟩ =
      [option, "x.o"] := by
  simp [flattenLinkerTokens, flattenLinkerArguments, startsWith]

theorem takesNext_eq_of_linkScanExact {takesValue : String → Bool}
    {option : String} (hoption : isOptionToken option = true)
    (hexact : LinkScanExact takesValue
      ⟨"ld", ["ld", "-Xlinker", option, "x.o"], "/", 0⟩) :
    takesValue option = linkTakesNext option := by
  have hoperand : isOptionToken "x.o" = false := by decide
  have hinput : isLinkOperand "x.o" = true := by decide
  rw [LinkScanExact, scanLinkLine, scanLinkTokens,
    directInputs_scanLinkTokensFrom, flattenLinkerTokens_pair] at hexact
  simp only [List.map_nil, List.nil_append,
    operands_pair hoption hoperand] at hexact
  by_cases htakes : takesValue option = true <;>
    by_cases hskips : linkTakesNext option = true <;>
    simp_all

/-- The scans are exact on every line over a set of options exactly when they
skip the values of those options that the tools consume, and no others. -/
theorem scansExact_iff (compilerTakes linkerTakes : String → Bool)
    (compileOptions linkOptions : Set String) :
    ((∀ record, CompileLineUses compilerTakes compileOptions record →
        CompileScanExact compilerTakes record) ∧
      (∀ record, LinkLineUses linkerTakes linkOptions record →
        LinkScanExact linkerTakes record)) ↔
      (∀ option ∈ compileOptions, isOptionToken option = true →
        compilerTakes option = compileTakesNext option) ∧
      (∀ option ∈ linkOptions, isOptionToken option = true →
        linkerTakes option = linkTakesNext option) := by
  refine and_congr ?_ ?_
  · constructor
    · intro hexact option hmem hoption
      refine takesNext_eq_of_compileScanExact hoption (hexact _ ?_)
      intro used hused
      simp only [List.drop_succ_cons, List.drop_zero,
        optionsOf_pair hoption (by decide : isOptionToken "x.c" = false),
        List.mem_singleton] at hused
      rwa [hused]
    · intro hagree record huses
      refine compileScanExact_of_agrees fun option hused => ?_
      exact hagree option (huses option hused) (isOption_of_mem_optionsOf hused)
  · constructor
    · intro hexact option hmem hoption
      refine takesNext_eq_of_linkScanExact hoption (hexact _ ?_)
      intro used hused
      rw [flattenLinkerTokens_pair, optionsOf_pair hoption
        (by decide : isOptionToken "x.o" = false),
        List.mem_singleton] at hused
      rwa [hused]
    · intro hagree record huses
      refine linkScanExact_of_agrees fun option hused => ?_
      exact hagree option (huses option hused) (isOption_of_mem_optionsOf hused)

/-- GNU ld, which takes `--dynamic-linker` in either dash spelling. -/
def gnuLinkerTakes (option : String) : Bool :=
  linkTakesNext option || option = "--dynamic-linker"

/-- GCC, whose `-dumpbase` takes a name. -/
def gccTakes (option : String) : Bool :=
  compileTakesNext option || option = "-dumpbase"

def dynamicLinkerRecord : TraceRecord where
  tool := "ld"
  arguments :=
    ["ld", "--dynamic-linker", "/lib64/ld-linux-x86-64.so.2", "main.o", "-o",
      "app"]
  workingDirectory := "/w"

def dumpbaseRecord : TraceRecord where
  tool := "gcc"
  arguments := ["gcc", "-c", "gen.i", "-dumpbase", "main.c", "-o", "gen.o"]
  workingDirectory := "/w"

/-- The program interpreter is reported as an input of the link, and the dump
name as a source. -/
theorem not_scansExact :
    ¬ LinkScanExact gnuLinkerTakes dynamicLinkerRecord ∧
      ¬ CompileScanExact gccTakes dumpbaseRecord := by
  constructor
  · unfold LinkScanExact
    decide +kernel
  · unfold CompileScanExact
    decide +kernel

end Bomwerk.Observe
