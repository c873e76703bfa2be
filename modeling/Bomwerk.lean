import Bomwerk.Core.GitConfigWriting
import Bomwerk.Core.Base64
import Bomwerk.Core.RelativeUrl
import Bomwerk.Core.SubmodulePaths
import Bomwerk.Observe.TraceCheck
import Bomwerk.Observe.LinkSpelling
import Bomwerk.Observe.ArchiveCommand
import Bomwerk.Observe.OptionValues
import Bomwerk.Output.Reproducible
import Bomwerk.Output.ReportCounts
import Bomwerk.Output.SpdxClosed
import Bomwerk.Binscan.ArtifactScan
import Bomwerk.Binscan.TraceAgreement
import Bomwerk.Binscan.StrippedImage
import Bomwerk.Binscan.ArchiveBookkeeping
import Bomwerk.Binscan.ArchiveSymbols
import Bomwerk.Cli.Monotonicity
import Bomwerk.Cli.Evidence
import Bomwerk.Cli.WarningRecorder
import Bomwerk.Vuln.Migration
import Bomwerk.Vuln.Osv.Refresh
import Bomwerk.Vuln.License.Accounting
import Bomwerk.Lockfiles.ComposerAccounts
import Bomwerk.Lockfiles.NpmSurvival
import Bomwerk.Lockfiles.Pub
import Bomwerk.Lockfiles.MavenLines
import Bomwerk.Lockfiles.WellIdentified
import Bomwerk.Lockfiles.Agreement
import Bomwerk.Lockfiles.PnpmRegistry
import Bomwerk.Binscan.ElfArithmetic
import Bomwerk.Cpp.CmakeRoundTrip
import Bomwerk.Cpp.CmakeWellFormed
import Bomwerk.Cpp.CmakeKeywords
import Bomwerk.Cpp.CmakeArchive
import Bomwerk.Cpp.Conan
import Bomwerk.Heuristics.VersionDirectives
import Bomwerk.Heuristics.FingerprintPrefilter
import Bomwerk.Heuristics.FingerprintBudget
import Bomwerk.Core.ForgeUrl
import Bomwerk.Embedded.WestRoots
import Bomwerk.Embedded.WestResolved
import Bomwerk.Ci.UsesFound
import Bomwerk.Ci.WorkflowScan
