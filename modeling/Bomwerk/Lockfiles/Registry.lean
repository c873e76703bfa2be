import Bomwerk.Core.PurlParts
import Bomwerk.Core.YamlWriting
import Bomwerk.Lockfiles.Npm

/-!
# Installed packages

A set of packages out of the npm registry, as a package manager installs it,
and the lockfiles the four package managers write for it.
-/

namespace Bomwerk.Lockfiles.Registry

open Bomwerk.Core Bomwerk.Support

structure RegistryName where
  scope? : Option (List Char) := none
  base : List Char
  base_ne_nil : base ≠ []
  isUnreserved_scope : ∀ scope ∈ scope?, ∀ c ∈ scope, isUnreserved c = true
  isUnreserved_base : ∀ c ∈ base, isUnreserved c = true
  deriving DecidableEq

def RegistryName.text (name : RegistryName) : List Char :=
  match name.scope? with
  | some scope => '@' :: (scope ++ '/' :: name.base)
  | none => name.base

def isVersionCharacter (c : Char) : Bool :=
  isUnreserved c || c = '+'

def isRangeCharacter (c : Char) : Bool :=
  isUnreserved c || [' ', '^', '<', '>', '=', '|', '*', '+'].contains c

def isIntegrityCharacter (c : Char) : Bool :=
  isUnreserved c || ['+', '/', '='].contains c

/-- A package under the name it is installed with; another real name makes it
an alias. -/
structure RegistryPackage where
  installName : RegistryName
  realName : RegistryName
  version : List Char
  /-- The version range it was asked for with. -/
  range : List Char
  integrity : List Char
  version_ne_nil : version ≠ []
  isVersionCharacter_version : ∀ c ∈ version, isVersionCharacter c = true
  isRangeCharacter_range : ∀ c ∈ range, isRangeCharacter c = true
  integrity_ne_nil : integrity ≠ []
  isIntegrityCharacter_integrity :
    ∀ c ∈ integrity, isIntegrityCharacter c = true

namespace RegistryPackage

variable (package : RegistryPackage)

def isAlias : Bool :=
  package.installName ≠ package.realName

/-- The purl of the package under one of its names. -/
def purl (name : RegistryName) : String :=
  String.ofList (Npm.buildNpmPurl name.text package.version)

def installPurl : String := package.purl package.installName

def realPurl : String := package.purl package.realName

end RegistryPackage

/-- The purls of a set of packages under the names they are installed with. -/
def installPurls (packages : List RegistryPackage) : Set String :=
  {purl | ∃ package ∈ packages, package.installPurl = purl}

/-- The purls of a set of packages under their real names. -/
def realPurls (packages : List RegistryPackage) : Set String :=
  {purl | ∃ package ∈ packages, package.realPurl = purl}

def lockKey (package : RegistryPackage) : String :=
  String.ofList ("node_modules/".toList ++ package.installName.text)

/-- The entry of a package; an alias has its real name in it. -/
def lockEntry (package : RegistryPackage) : Json :=
  .object
    (("integrity", .string (String.ofList package.integrity)) ::
      (if package.isAlias then
        [("name", .string (String.ofList package.realName.text))]
      else []) ++
      [("version", .string (String.ofList package.version))])

/-- The document, with the empty key of the root project. -/
def packageLockDocument (packages : List RegistryPackage) : Json :=
  .object
    [("lockfileVersion", .integer 3),
      ("packages", .object (("", .object []) ::
        packages.map fun package => (lockKey package, lockEntry package)))]

/-- The bytes hold the document, in whatever layout. -/
structure IsPackageLock (parseJson : List UInt8 → Option Json)
    (packages : List RegistryPackage) (bytes : List UInt8) : Prop where
  value : parseJson (Npm.withoutUtf8Bom bytes) =
    some (packageLockDocument packages)
  shallow : JsonUtils.exceedsJsonNestingDepth (Npm.withoutUtf8Bom bytes)
    maxJsonNestingDepth = false

def asciiBytes (lines : List (List Char)) : List UInt8 :=
  textBytes (joinTerminated '\n' lines)

/-- Yarn Classic puts a key in quotes when it does not start with a letter, or
holds a character of its own syntax. -/
def classicQuote? (descriptor : List Char) : Option Char :=
  if descriptor.head?.any Char.isAlpha &&
      !descriptor.any fun c => c = ':' || isAsciiBlank c then none
  else some '"'

/-- What a package asks for, in Yarn Classic. -/
def classicDescriptor (package : RegistryPackage) : List Char :=
  package.installName.text ++ '@' :: (if package.isAlias then
      "npm:".toList ++ package.realName.text ++ '@' :: package.range
    else package.range)

def classicLines (package : RegistryPackage) : List (List Char) :=
  [YamlSubset.spelled (classicQuote? (classicDescriptor package))
      (classicDescriptor package) ++ [':'],
    "  version \"".toList ++ package.version ++ ['"'],
    "  integrity ".toList ++ package.integrity,
    []]

def classicHeader : List (List Char) :=
  ["# THIS IS AN AUTOGENERATED FILE. DO NOT EDIT THIS FILE DIRECTLY.".toList,
    "# yarn lockfile v1".toList, [], []]

def classicLock (packages : List RegistryPackage) : List UInt8 :=
  asciiBytes (classicHeader ++ packages.flatMap classicLines)

/-- What a package asks for, in Yarn Berry. -/
def berryDescriptor (package : RegistryPackage) : List Char :=
  package.installName.text ++ "@npm:".toList ++
    (if package.isAlias then
      package.realName.text ++ '@' :: package.range
    else package.range)

def berryLines (package : RegistryPackage) : List (List Char) :=
  ['"' :: (berryDescriptor package ++ "\":".toList),
    "  version: ".toList ++ package.version,
    "  resolution: \"".toList ++ package.realName.text ++ "@npm:".toList ++
      package.version ++ ['"'],
    []]

def berryHeader : List (List Char) :=
  [("# This file is generated by running \"yarn install\" inside your " ++
      "project.").toList,
    "# Manual changes might be lost - proceed with caution!".toList, [],
    "__metadata:".toList, "  version: 8".toList, []]

def berryLock (packages : List RegistryPackage) : List UInt8 :=
  asciiBytes (berryHeader ++ packages.flatMap berryLines)

def pnpmKey (package : RegistryPackage) : List Char :=
  package.realName.text ++ '@' :: package.version

/-- pnpm puts a key in quotes when it does not start with a letter or a
digit. -/
def pnpmQuote? (key : List Char) : Option Char :=
  if key.head?.any Char.isAlphanum then none else some '\''

def pnpmLines (package : RegistryPackage) : List (List Char) :=
  ["  ".toList ++ YamlSubset.spelled (pnpmQuote? (pnpmKey package))
      (pnpmKey package) ++ [':'],
    "    resolution: \x7bintegrity: ".toList ++ package.integrity ++
      ['}'],
    []]

def pnpmHeader : List (List Char) :=
  ["lockfileVersion: '9.0'".toList, [], "packages:".toList, []]

def pnpmLock (packages : List RegistryPackage) : List UInt8 :=
  asciiBytes (pnpmHeader ++ packages.flatMap pnpmLines)

end Bomwerk.Lockfiles.Registry

/-!
## The texts of installed packages

Which characters the texts of a registry package are free of, and what a
lockfile that is made of them splits into.
-/

namespace Bomwerk.Lockfiles.Registry

open Bomwerk.Core Bomwerk.Support

theorem ne_of_test {test : Char → Bool} {c d : Char} (hc : test c = true)
    (hd : test d = false) : c ≠ d := by
  rintro rfl
  rw [hc] at hd
  exact absurd hd (by simp)

theorem toNat_lt_of_isUnreserved {c : Char} (hc : isUnreserved c = true) :
    c.toNat < 128 := by
  simp only [isUnreserved, decide_eq_true_eq, Char.le_def,
    UInt32.le_iff_toNat_le] at hc
  have hnat : c.toNat = c.val.toNat := rfl
  rcases hc with ⟨-, h⟩ | ⟨-, h⟩ | ⟨-, h⟩ | rfl | rfl | rfl | rfl
  · have : 'Z'.val.toNat = 90 := rfl
    omega
  · have : 'z'.val.toNat = 122 := rfl
    omega
  · have : '9'.val.toNat = 57 := rfl
    omega
  all_goals decide

def isLineCharacter (c : Char) : Bool :=
  c.toNat < 128 && c ≠ '\n'

theorem isLineCharacter_of_isUnreserved {c : Char}
    (hc : isUnreserved c = true) : isLineCharacter c = true := by
  have hne : c ≠ '\n' := ne_of_test hc (by decide)
  simp [isLineCharacter, toNat_lt_of_isUnreserved hc, hne]

theorem isLineCharacter_of_isVersionCharacter {c : Char}
    (hc : isVersionCharacter c = true) : isLineCharacter c = true := by
  rcases Bool.or_eq_true_iff.mp hc with h | h
  · exact isLineCharacter_of_isUnreserved h
  · obtain rfl := of_decide_eq_true h
    decide

theorem isLineCharacter_of_isRangeCharacter {c : Char}
    (hc : isRangeCharacter c = true) : isLineCharacter c = true := by
  rcases Bool.or_eq_true_iff.mp hc with h | h
  · exact isLineCharacter_of_isUnreserved h
  · have hmem := List.contains_iff_mem.mp h
    simp only [List.mem_cons, List.not_mem_nil, or_false] at hmem
    rcases hmem with rfl | rfl | rfl | rfl | rfl | rfl | rfl | rfl <;> decide

theorem isLineCharacter_of_isIntegrityCharacter {c : Char}
    (hc : isIntegrityCharacter c = true) : isLineCharacter c = true := by
  rcases Bool.or_eq_true_iff.mp hc with h | h
  · exact isLineCharacter_of_isUnreserved h
  · have hmem := List.contains_iff_mem.mp h
    simp only [List.mem_cons, List.not_mem_nil, or_false] at hmem
    rcases hmem with rfl | rfl | rfl <;> decide

namespace RegistryName

variable (name : RegistryName)

def isNameCharacter (c : Char) : Bool :=
  isUnreserved c || c = '@' || c = '/'

theorem text_ne_nil : name.text ≠ [] := by
  rw [text]
  cases name.scope? with
  | none => exact name.base_ne_nil
  | some scope => simp

theorem isNameCharacter_of_mem_text {c : Char} (hc : c ∈ name.text) :
    isNameCharacter c = true := by
  rw [text] at hc
  cases hscope : name.scope? with
  | none =>
    rw [hscope] at hc
    simp [isNameCharacter, name.isUnreserved_base c hc]
  | some scope =>
    rw [hscope, List.mem_cons, List.mem_append, List.mem_cons] at hc
    rcases hc with rfl | hc | rfl | hc
    · decide
    · simp [isNameCharacter, name.isUnreserved_scope scope hscope c hc]
    · decide
    · simp [isNameCharacter, name.isUnreserved_base c hc]

theorem isLineCharacter_of_mem_text {c : Char} (hc : c ∈ name.text) :
    isLineCharacter c = true := by
  have hname := name.isNameCharacter_of_mem_text hc
  simp only [isNameCharacter, Bool.or_eq_true, decide_eq_true_eq] at hname
  rcases hname with (h | rfl) | rfl
  · exact isLineCharacter_of_isUnreserved h
  · decide
  · decide

/-- A `@` stands at the start of a name only. -/
theorem exists_text_eq_cons : ∃ first rest, name.text = first :: rest ∧
    isNameCharacter first = true ∧ first ≠ '/' ∧ '@' ∉ rest := by
  have hbase : '@' ∉ name.base := fun hmem =>
    absurd (name.isUnreserved_base _ hmem) (by decide)
  cases hscope : name.scope? with
  | none =>
    obtain ⟨first, rest, hcons⟩ :=
      List.exists_cons_of_ne_nil name.base_ne_nil
    have hfirst := name.isUnreserved_base first (by simp [hcons])
    refine ⟨first, rest, ?_, ?_, ne_of_test hfirst (by decide), ?_⟩
    · rw [text, hscope, hcons]
    · simp [isNameCharacter, hfirst]
    · rw [hcons] at hbase
      exact fun hmem => hbase (List.mem_cons_of_mem _ hmem)
  | some scope =>
    have hscopeAt : '@' ∉ scope := fun hmem =>
      absurd (name.isUnreserved_scope scope hscope _ hmem) (by decide)
    refine ⟨'@', scope ++ '/' :: name.base, ?_, by decide, by decide, ?_⟩
    · rw [text, hscope]
    · simp [hscopeAt, hbase]

end RegistryName

/-- A line of a lockfile: ASCII characters within one line. -/
def isLine (line : List Char) : Bool :=
  line.all isLineCharacter

theorem isLine_append (left right : List Char) :
    isLine (left ++ right) = (isLine left && isLine right) :=
  List.all_append

theorem isLine_cons (c : Char) (line : List Char) :
    isLine (c :: line) = (isLineCharacter c && isLine line) :=
  List.all_cons

theorem forall_isLine_lock {header : List (List Char)}
    {linesOf : RegistryPackage → List (List Char)}
    (hheader : header.all isLine = true)
    (hlines : ∀ package, ∀ line ∈ linesOf package, isLine line = true)
    (packages : List RegistryPackage) :
    ∀ line ∈ header ++ packages.flatMap linesOf, isLine line = true := by
  intro line hline
  rcases List.mem_append.mp hline with h | h
  · exact List.all_eq_true.mp hheader line h
  · obtain ⟨package, -, hmem⟩ := List.mem_flatMap.mp h
    exact hlines package line hmem

theorem isLine_text (name : RegistryName) : isLine name.text = true :=
  List.all_eq_true.mpr fun _ => name.isLineCharacter_of_mem_text

theorem isLine_spelled {quote? : Option Char}
    (hquote : ∀ quote ∈ quote?, isLineCharacter quote = true)
    {text : List Char} (htext : isLine text = true) :
    isLine (YamlSubset.spelled quote? text) = true := by
  cases hquote? : quote? with
  | none => exact htext
  | some quote =>
    have h := hquote quote hquote?
    rw [YamlSubset.spelled, isLine_cons, isLine_append, h, htext, isLine,
      List.all_cons, h]
    rfl

namespace RegistryPackage

variable (package : RegistryPackage)

theorem isLine_version : isLine package.version = true :=
  List.all_eq_true.mpr fun c hc => isLineCharacter_of_isVersionCharacter
    (package.isVersionCharacter_version c hc)

theorem isLine_range : isLine package.range = true :=
  List.all_eq_true.mpr fun c hc => isLineCharacter_of_isRangeCharacter
    (package.isRangeCharacter_range c hc)

theorem isLine_integrity : isLine package.integrity = true :=
  List.all_eq_true.mpr fun c hc => isLineCharacter_of_isIntegrityCharacter
    (package.isIntegrityCharacter_integrity c hc)

end RegistryPackage

theorem isLine_classicDescriptor (package : RegistryPackage) :
    isLine (classicDescriptor package) = true := by
  have hnpm : isLine "npm:".toList = true := by decide
  have hat : isLineCharacter '@' = true := by decide
  unfold classicDescriptor
  split_ifs
  · rw [isLine_append, isLine_cons, isLine_append, isLine_append, isLine_cons,
      isLine_text, isLine_text, hat, hnpm, package.isLine_range]
    rfl
  · rw [isLine_append, isLine_cons, isLine_text, hat, package.isLine_range]
    rfl

theorem isLine_berryDescriptor (package : RegistryPackage) :
    isLine (berryDescriptor package) = true := by
  have hnpm : isLine "@npm:".toList = true := by decide
  have hat : isLineCharacter '@' = true := by decide
  unfold berryDescriptor
  split_ifs
  · rw [isLine_append, isLine_append, isLine_append, isLine_cons, isLine_text,
      isLine_text, hat, hnpm, package.isLine_range]
    rfl
  · rw [isLine_append, isLine_append, isLine_text, hnpm, package.isLine_range]
    rfl

theorem byteText_asciiBytes {lines : List (List Char)}
    (hlines : ∀ line ∈ lines, isLine line = true) :
    byteText (asciiBytes lines) = joinTerminated '\n' lines := by
  apply byteText_textBytes
  intro c hc
  obtain ⟨line, hline, hmem⟩ := List.mem_flatMap.mp hc
  rw [List.mem_append, List.mem_singleton] at hmem
  rcases hmem with h | rfl
  · have hline := List.all_eq_true.mp (hlines line hline) c h
    simp only [isLineCharacter, Bool.and_eq_true, decide_eq_true_eq] at hline
    omega
  · decide

theorem splitOn_byteText_asciiBytes {lines : List (List Char)}
    (hlines : ∀ line ∈ lines, isLine line = true) :
    (byteText (asciiBytes lines)).splitOn '\n' = lines ++ [[]] := by
  rw [byteText_asciiBytes hlines]
  apply splitOn_joinTerminated
  intro line hline hmem
  exact absurd (List.all_eq_true.mp (hlines line hline) _ hmem) (by decide)

end Bomwerk.Lockfiles.Registry
