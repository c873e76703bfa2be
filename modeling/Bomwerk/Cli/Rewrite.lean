import Bomwerk.Cli.Binscan
import Bomwerk.Observe.Order
import Bomwerk.Sbom.RoundTrip

/-!
# Rewriting a document

`trim` and `binscan` both read a document and write another one.  Whatever
they do to the evidence and the CPEs, they write the components they read one
by one and in order, without the ones trim drops, and under the product
identity the reader returned.
-/

namespace Bomwerk.Cli

open Bomwerk.Core Bomwerk.Support Bomwerk.Observe Bomwerk.Output Bomwerk.Sbom
open Bomwerk.Vuln Bomwerk.Binscan

inductive RewriteTool
  | trim
  | binscan (mapBinariesToRoots : BinaryMapper)

/-- A rewriting command and what it is given beside the document. -/
structure RewriteCommand where
  tool : RewriteTool
  options : RewriteOptions
  trace : Result (List TraceRecord)
  fileSystem : FileSystem
  version : String
  timestamp : String

namespace RewriteCommand

variable (uuid : String → String) (command : RewriteCommand)
  (bytes : JsonText)

/-- What the writer is given while the command runs. -/
def environment : WriterEnvironment where
  uuid := uuid
  timestamp := command.timestamp

def run : CommandRun :=
  match command.tool with
  | .trim =>
    runTrim (command.environment uuid) command.version command.fileSystem
      command.options (readCyclonedx bytes) command.trace
  | .binscan mapBinariesToRoots =>
    runBinscan (command.environment uuid) command.version command.fileSystem
      mapBinariesToRoots command.options (readCyclonedx bytes) command.trace

/-- The document the command writes, if it writes one. -/
def rewrite : Option JsonText :=
  (command.run uuid bytes).written

/-- The components of the document as the command leaves them, before any is
dropped. -/
def processed : List Component :=
  match command.tool with
  | .trim =>
    (judgedComponents command.fileSystem command.options
      (readCyclonedx bytes).value command.trace).value.components
  | .binscan mapBinariesToRoots =>
    (applyBinaryEvidence
      (populatedComponents command.options (readCyclonedx bytes).value)
      (readBinaries command.fileSystem mapBinariesToRoots command.options
        (readCyclonedx bytes).value command.trace.value).value).1

def writtenComponents : List Component :=
  match command.tool with
  | .trim => keptComponents (command.processed bytes)
  | .binscan _ => command.processed bytes

/-- A command that writes a document writes these components, under the
product identity it read. -/
theorem eq_of_rewrite {rewritten : JsonText}
    (hrewrite : command.rewrite uuid bytes = some rewritten) :
    rewritten = writeCyclonedx (command.environment uuid)
      (command.writtenComponents bytes) (bomwerkTool command.version)
      (releaseMetaOf (readCyclonedx bytes).value) {} := by
  rw [rewrite, run] at hrewrite
  rw [writtenComponents, processed]
  cases htool : command.tool with
  | trim =>
    rw [htool] at hrewrite
    simp only [runTrim] at hrewrite
    split at hrewrite
    · simp [refused] at hrewrite
    split at hrewrite
    · simp [refused] at hrewrite
    split at hrewrite
    · simp [refused] at hrewrite
    simp only [finished] at hrewrite
    split at hrewrite
    · exact (Option.some.inj hrewrite).symm
    · simp at hrewrite
  | binscan mapBinariesToRoots =>
    rw [htool] at hrewrite
    simp only [runBinscan] at hrewrite
    split at hrewrite
    · simp [refused] at hrewrite
    split at hrewrite
    · simp [refused] at hrewrite
    split at hrewrite
    · simp [refused] at hrewrite
    simp only [finished] at hrewrite
    split at hrewrite
    · exact (Option.some.inj hrewrite).symm
    · simp at hrewrite

end RewriteCommand

/-! ## Metadata -/

/-- A member of the `metadata` of a document. -/
def metadataMember (key : String) (bytes : JsonText) : Option Json :=
  bytes.bind fun document =>
    (document.find? "metadata").bind fun metadata => metadata.find? key

/-- The product and the manufacturer are described the same way. -/
def SameMetadata (original rewritten : JsonText) : Prop :=
  metadataMember "component" rewritten = metadataMember "component" original ∧
    metadataMember "manufacturer" rewritten =
      metadataMember "manufacturer" original

section Metadata

variable (environment : WriterEnvironment) (components : List Component)
  (tool : ToolInfo) (releaseMeta : ReleaseMeta) (craMetadata : CraMetadata)

theorem metadataMember_writeCyclonedx (key : String) :
    metadataMember key (writeCyclonedx environment components tool releaseMeta
      craMetadata) =
      (documentMetadata environment components tool releaseMeta
        craMetadata).find? key := by
  simp [metadataMember, writeCyclonedx, Json.dump, cyclonedxDocument]

theorem metadataMember_component :
    metadataMember "component" (writeCyclonedx environment components tool
      releaseMeta craMetadata) =
      if releaseMeta.productId ≠ "" then
        some (productComponent environment releaseMeta craMetadata)
      else none := by
  rw [metadataMember_writeCyclonedx]
  simp [documentMetadata]

theorem metadataMember_manufacturer :
    metadataMember "manufacturer" (writeCyclonedx environment components tool
      releaseMeta craMetadata) =
      if craMetadata.manufacturerName ≠ "" then
        some (manufacturer craMetadata)
      else none := by
  rw [metadataMember_writeCyclonedx]
  simp [documentMetadata]

/-- The product identity survives the reader, except for the version of a
product without a name, which no writer mentions. -/
theorem releaseMetaOf_writeCyclonedx :
    releaseMetaOf (readCyclonedx (writeCyclonedx environment components tool
      releaseMeta craMetadata)).value =
      { productId := releaseMeta.productId
        version :=
          if releaseMeta.productId = "" then "" else releaseMeta.version } := by
  rw [readCyclonedx_writeCyclonedx, documentHeader_cyclonedxDocument]
  rfl

/-- Without a manufacturer, the product is described by its name and, if it has
a name, its version. -/
theorem productComponent_congr (timestamp : String)
    (hmanufacturer : craMetadata.manufacturerName = "")
    (hproduct : releaseMeta.productId ≠ "") :
    productComponent { environment with timestamp := timestamp }
        { productId := releaseMeta.productId
          version :=
            if releaseMeta.productId = "" then "" else releaseMeta.version }
        {} =
      productComponent environment releaseMeta craMetadata := by
  simp [productComponent, productBomRefFor, hmanufacturer, hproduct]

end Metadata

/-- Neither command passes the manufacturer it read on to the writer, so the
description of the product survives exactly when none is named. -/
theorem sameMetadata_iff (environment : WriterEnvironment)
    (components : List Component) (tool : ToolInfo) (releaseMeta : ReleaseMeta)
    (craMetadata : CraMetadata) (command : RewriteCommand)
    {rewritten : JsonText}
    (hrewrite : command.rewrite environment.uuid
      (writeCyclonedx environment components tool releaseMeta craMetadata) =
        some rewritten) :
    SameMetadata
        (writeCyclonedx environment components tool releaseMeta craMetadata)
        rewritten ↔
      craMetadata.manufacturerName = "" := by
  rw [command.eq_of_rewrite _ _ hrewrite, SameMetadata,
    metadataMember_component, metadataMember_component,
    metadataMember_manufacturer, metadataMember_manufacturer,
    releaseMetaOf_writeCyclonedx]
  by_cases hmanufacturer : craMetadata.manufacturerName = ""
  · refine iff_of_true ⟨?_, by simp [hmanufacturer]⟩ hmanufacturer
    by_cases hproduct : releaseMeta.productId = ""
    · simp [hproduct]
    · have hcongr := productComponent_congr environment releaseMeta craMetadata
        command.timestamp hmanufacturer hproduct
      simpa [hproduct, RewriteCommand.environment] using hcongr
  · simp [hmanufacturer]

/-- Trimming by the compile of `zlib/inflate.c`. -/
def sampleTrim : RewriteCommand where
  tool := .trim
  options :=
    { rootDirectory := .ofString "/src"
      writesOutput := true
      allCpes := false }
  trace := { value := sampleRecords }
  fileSystem := sampleFileSystem
  version := "1"
  timestamp := "2026-01-02T00:00:00Z"

/-- The document of a product made by `manufacturerName`. -/
def manufacturedDocument (manufacturerName : String) : JsonText :=
  writeCyclonedx sampleEnvironment [sampleComponent] ⟨"bomwerk", "1"⟩
    { productId := "gateway", version := "2.0" }
    { manufacturerName := manufacturerName }

theorem sameMetadata_iff_sample :
    ∃ rewritten, sampleTrim.rewrite sampleEnvironment.uuid
        (manufacturedDocument "") = some rewritten ∧
      (SameMetadata (manufacturedDocument "") rewritten ↔ "" = "") := by
  have hwritten : (sampleTrim.rewrite sampleEnvironment.uuid
      (manufacturedDocument "")).isSome = true := by
    decide +kernel
  obtain ⟨rewritten, hrewrite⟩ := Option.isSome_iff_exists.mp hwritten
  exact ⟨rewritten, hrewrite,
    sameMetadata_iff sampleEnvironment _ _ _ _ sampleTrim hrewrite⟩

/-- The trimmed document no longer says who made the product. -/
theorem not_sameMetadata_of_manufacturer :
    ∃ rewritten, sampleTrim.rewrite sampleEnvironment.uuid
        (manufacturedDocument "Acme") = some rewritten ∧
      ¬ SameMetadata (manufacturedDocument "Acme") rewritten := by
  have hwritten : (sampleTrim.rewrite sampleEnvironment.uuid
      (manufacturedDocument "Acme")).isSome = true := by
    decide +kernel
  obtain ⟨rewritten, hrewrite⟩ := Option.isSome_iff_exists.mp hwritten
  refine ⟨rewritten, hrewrite, fun hsame => ?_⟩
  have hmanufacturer := hsame.2
  rw [sampleTrim.eq_of_rewrite _ _ hrewrite, manufacturedDocument,
    metadataMember_manufacturer, metadataMember_manufacturer] at hmanufacturer
  simp at hmanufacturer

end Bomwerk.Cli
