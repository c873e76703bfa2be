import Bomwerk.Core.Path
import Bomwerk.Support.OrderedMap

/-!
# Warnings and results

The error policy every producer shares: a value, the warnings raised on the
way to it, and whether something was left out; and what silences a warning.
-/

namespace Bomwerk.Core

open Bomwerk.Support

/-- The cause behind a warning, whatever its text. -/
inductive WarningCode
  | jsonNestingDepthExceeded
  | invalidJson
  | invalidToml
  | entryLimitReached
  | fileLimitReached
  | fileSizeLimitExceeded
  | unreadableFile
  | purlValidationFailed
  | entriesSkippedUnresolved
  | malformedEntrySkipped
  | lockfileFormatUnsupported
  | selfIdentityUnresolvable
  | unresolvedVariableOrInterpolation
  | dependencyMissingSource
  | unpinnedOrUnresolvedRef
  | manifestNoLockfileAlongside
  | manifestUnsupportedLockfile
  | directoryWalkError
  | buildOutputDirectoryHoldsManifest
  | purlMalformed
  | nameListUnreadable
  | nameListEmpty
  | configNotValidToml
  | configFileUnreadable
  | configFileTooLarge
  | configKeyWrongType
  | configArrayEntryInvalid
  | configUnknownKey
  | configUnknownTable
  | configTopLevelKeyNotTable
  | configValueInvalidFormat
  | configDeprecatedKeyRemoved
  | configSecretRejected
  | configSectionIncomplete
  | configFileNotWritten
  | gitConfigStructureInvalid
  | submoduleMissingPath
  | submoduleUnsafePath
  | submoduleNotInitialized
  | submoduleNoUrl
  | observeTraceNotWritten
  | observeTraceMalformedLines
  | observeTraceExceedsLimit
  | observeTraceRewriteFailed
  | observeShimBinaryMissing
  | observeShimDirectoryUnwritable
  | observeShimCreationFailed
  | observeNoToolchainFound
  | observeNoCompilerInvocations
  | observeEvidenceOutsideRoot
  | observeResponseFilesUnexpanded
  | observeUnresolvedLinkArgument
  | observeAutoDetectedTraceUnusable
  | observeNoRootedComponents
  | binaryUnreadable
  | binaryTooLarge
  | binaryMalformedHeader
  | binaryEvidenceLimited
  | fingerprintIndexUnreadable
  | fingerprintIndexSchemaUnsupported
  | fingerprintIndexEntrySkipped
  | fingerprintVersionDisagreement
  | fingerprintMatchWithoutComponent
  | fingerprintFileBudgetReached
  | sbomDocumentInvalid
  | sbomWrongFormat
  | sbomComponentEntrySkipped
  | reportConfigFieldInvalid
  | vulnCacheOpenFailed
  | vulnHttpEndpointNotAllowlisted
  | vulnHttpRequestFailed
  | vulnHttpUnexpectedStatus
  | vulnResponseMalformed
  | vulnCoverageIncomplete
  | licenseFallbackIncomplete
  | externallyDefined
  deriving DecidableEq, Repr

/-- A cause's permanent identity, as far as more than its title goes. -/
structure WarningCodeInfo where
  id : String := ""
  deriving DecidableEq, Repr

/-- The registered ids, one for a cause. -/
def warningCodeInfo : WarningCode → WarningCodeInfo
  | .jsonNestingDepthExceeded => ⟨"BW-CORE-001"⟩
  | .invalidJson => ⟨"BW-CORE-002"⟩
  | .invalidToml => ⟨"BW-CORE-003"⟩
  | .entryLimitReached => ⟨"BW-CORE-006"⟩
  | .fileLimitReached => ⟨"BW-CORE-007"⟩
  | .fileSizeLimitExceeded => ⟨"BW-CORE-008"⟩
  | .unreadableFile => ⟨"BW-CORE-009"⟩
  | .purlValidationFailed => ⟨"BW-CORE-010"⟩
  | .entriesSkippedUnresolved => ⟨"BW-CORE-011"⟩
  | .malformedEntrySkipped => ⟨"BW-CORE-012"⟩
  | .lockfileFormatUnsupported => ⟨"BW-CORE-013"⟩
  | .selfIdentityUnresolvable => ⟨"BW-CORE-014"⟩
  | .unresolvedVariableOrInterpolation => ⟨"BW-CORE-015"⟩
  | .dependencyMissingSource => ⟨"BW-CORE-016"⟩
  | .unpinnedOrUnresolvedRef => ⟨"BW-CORE-017"⟩
  | .manifestNoLockfileAlongside => ⟨"BW-CORE-004"⟩
  | .manifestUnsupportedLockfile => ⟨"BW-CORE-005"⟩
  | .directoryWalkError => ⟨"BW-CORE-018"⟩
  | .buildOutputDirectoryHoldsManifest => ⟨"BW-CORE-019"⟩
  | .purlMalformed => ⟨"BW-CORE-020"⟩
  | .nameListUnreadable => ⟨"BW-CORE-021"⟩
  | .nameListEmpty => ⟨"BW-CORE-022"⟩
  | .configNotValidToml => ⟨"BW-CONFIG-001"⟩
  | .configFileUnreadable => ⟨"BW-CONFIG-002"⟩
  | .configFileTooLarge => ⟨"BW-CONFIG-003"⟩
  | .configKeyWrongType => ⟨"BW-CONFIG-004"⟩
  | .configArrayEntryInvalid => ⟨"BW-CONFIG-005"⟩
  | .configUnknownKey => ⟨"BW-CONFIG-006"⟩
  | .configUnknownTable => ⟨"BW-CONFIG-007"⟩
  | .configTopLevelKeyNotTable => ⟨"BW-CONFIG-008"⟩
  | .configValueInvalidFormat => ⟨"BW-CONFIG-009"⟩
  | .configDeprecatedKeyRemoved => ⟨"BW-CONFIG-010"⟩
  | .configSecretRejected => ⟨"BW-CONFIG-011"⟩
  | .configSectionIncomplete => ⟨"BW-CONFIG-012"⟩
  | .configFileNotWritten => ⟨"BW-CONFIG-013"⟩
  | .gitConfigStructureInvalid => ⟨"BW-GIT-001"⟩
  | .submoduleMissingPath => ⟨"BW-GIT-002"⟩
  | .submoduleUnsafePath => ⟨"BW-GIT-003"⟩
  | .submoduleNotInitialized => ⟨"BW-GIT-004"⟩
  | .submoduleNoUrl => ⟨"BW-GIT-005"⟩
  | .observeTraceNotWritten => ⟨"BW-OBSERVE-001"⟩
  | .observeTraceMalformedLines => ⟨"BW-OBSERVE-002"⟩
  | .observeTraceExceedsLimit => ⟨"BW-OBSERVE-003"⟩
  | .observeTraceRewriteFailed => ⟨"BW-OBSERVE-004"⟩
  | .observeShimBinaryMissing => ⟨"BW-OBSERVE-005"⟩
  | .observeShimDirectoryUnwritable => ⟨"BW-OBSERVE-006"⟩
  | .observeShimCreationFailed => ⟨"BW-OBSERVE-007"⟩
  | .observeNoToolchainFound => ⟨"BW-OBSERVE-008"⟩
  | .observeNoCompilerInvocations => ⟨"BW-OBSERVE-009"⟩
  | .observeEvidenceOutsideRoot => ⟨"BW-OBSERVE-010"⟩
  | .observeResponseFilesUnexpanded => ⟨"BW-OBSERVE-011"⟩
  | .observeUnresolvedLinkArgument => ⟨"BW-OBSERVE-012"⟩
  | .observeAutoDetectedTraceUnusable => ⟨"BW-OBSERVE-013"⟩
  | .observeNoRootedComponents => ⟨"BW-OBSERVE-014"⟩
  | .binaryUnreadable => ⟨"BW-BINSCAN-001"⟩
  | .binaryTooLarge => ⟨"BW-BINSCAN-002"⟩
  | .binaryMalformedHeader => ⟨"BW-BINSCAN-003"⟩
  | .binaryEvidenceLimited => ⟨"BW-BINSCAN-004"⟩
  | .fingerprintIndexUnreadable => ⟨"BW-FINGERPRINT-001"⟩
  | .fingerprintIndexSchemaUnsupported => ⟨"BW-FINGERPRINT-002"⟩
  | .fingerprintIndexEntrySkipped => ⟨"BW-FINGERPRINT-003"⟩
  | .fingerprintVersionDisagreement => ⟨"BW-FINGERPRINT-004"⟩
  | .fingerprintMatchWithoutComponent => ⟨"BW-FINGERPRINT-005"⟩
  | .fingerprintFileBudgetReached => ⟨"BW-FINGERPRINT-006"⟩
  | .sbomDocumentInvalid => ⟨"BW-SBOM-001"⟩
  | .sbomWrongFormat => ⟨"BW-SBOM-002"⟩
  | .sbomComponentEntrySkipped => ⟨"BW-SBOM-003"⟩
  | .reportConfigFieldInvalid => ⟨"BW-OUTPUT-001"⟩
  | .vulnCacheOpenFailed => ⟨"BW-VULN-001"⟩
  | .vulnHttpEndpointNotAllowlisted => ⟨"BW-VULN-002"⟩
  | .vulnHttpRequestFailed => ⟨"BW-VULN-003"⟩
  | .vulnHttpUnexpectedStatus => ⟨"BW-VULN-004"⟩
  | .vulnResponseMalformed => ⟨"BW-VULN-005"⟩
  | .vulnCoverageIncomplete => ⟨"BW-VULN-006"⟩
  | .licenseFallbackIncomplete => ⟨"BW-VULN-008"⟩
  | .externallyDefined => ⟨"BW-EXT-000"⟩

/-- One diagnostic.  Of `affected_path` only the text is ever asked for; every
modelled producer leaves it empty. -/
structure Warning where
  code : WarningCode
  message : String
  ecosystem : String := ""
  affectedPath : String := ""
  /-- Set only when `code` is `externallyDefined`. -/
  externalCode : WarningCodeInfo := {}
  deriving DecidableEq, Repr

/-- `code_info_of`: a code owned by a composed module brings its own id. -/
def codeInfoOf (warning : Warning) : WarningCodeInfo :=
  if warning.code = .externallyDefined then warning.externalCode
  else warningCodeInfo warning.code

/-! ## Suppression -/

/-- `is_warning_suppressed` of an id in an ecosystem: a bare code or a
`CODE:ecosystem` entry. -/
def isCodeSuppressed (codeId ecosystem : String)
    (suppressedEntries : OrderedSet String) : Bool :=
  suppressedEntries.contains codeId ||
    suppressedEntries.contains (codeId ++ ":" ++ ecosystem)

/-- `is_warning_suppressed` of a warning. -/
def isWarningSuppressed (warning : Warning)
    (suppressedEntries : OrderedSet String) : Bool :=
  isCodeSuppressed (codeInfoOf warning).id warning.ecosystem suppressedEntries

/-- `Result<T>`. -/
structure Result (α : Type*) where
  value : α
  warnings : List Warning := []
  complete : Bool := true

namespace Result

variable {α : Type*}

/-- `warn(code, message)`. -/
def warn (result : Result α) (code : WarningCode) (message : String) :
    Result α :=
  { result with
    warnings := result.warnings ++ [{ code := code, message := message }] }

/-- The loop that re-records the warnings of another result. -/
def absorb (result : Result α) (warnings : List Warning) : Result α :=
  { result with warnings := result.warnings ++ warnings }

/-- `warn` under a condition. -/
def warnIf (result : Result α) (condition : Bool) (code : WarningCode)
    (message : String) : Result α :=
  if condition then result.warn code message else result

@[simp] theorem warn_value (result : Result α) (code : WarningCode)
    (message : String) : (result.warn code message).value = result.value := rfl

@[simp] theorem absorb_value (result : Result α) (warnings : List Warning) :
    (result.absorb warnings).value = result.value := rfl

@[simp] theorem warnIf_value (result : Result α) (condition : Bool)
    (code : WarningCode) (message : String) :
    (result.warnIf condition code message).value = result.value := by
  cases condition <;> rfl

@[simp] theorem warnIf_complete (result : Result α) (condition : Bool)
    (code : WarningCode) (message : String) :
    (result.warnIf condition code message).complete = result.complete := by
  cases condition <;> rfl

@[simp] theorem absorb_complete (result : Result α)
    (warnings : List Warning) :
    (result.absorb warnings).complete = result.complete := rfl

@[simp] theorem absorb_warnings (result : Result α) (warnings : List Warning) :
    (result.absorb warnings).warnings = result.warnings ++ warnings := rfl

@[simp] theorem warn_warnings (result : Result α) (code : WarningCode)
    (message : String) :
    (result.warn code message).warnings =
      result.warnings ++ [{ code := code, message := message }] := rfl

theorem warnIf_warnings (result : Result α) (condition : Bool)
    (code : WarningCode) (message : String) :
    (result.warnIf condition code message).warnings = result.warnings ++
        if condition then [{ code := code, message := message }] else [] := by
  cases condition <;> simp [warnIf]

end Result
end Bomwerk.Core
