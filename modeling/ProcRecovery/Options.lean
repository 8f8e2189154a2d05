/-!
# Analysis options

The parts of the analysis that can be switched off, and the bound on the number
of discovery passes.
-/

namespace ProcRecovery

/-- The parts of the analysis that can be switched off. -/
inductive Switch where
  | registerCacheSubstitution
  | symbolicReplay
  | stringLiteralMaterialization
  | unrecognizedIdiomReports
  | stackAnnotationInListing
  deriving Repr, DecidableEq

namespace Switch

/-- All switches. -/
def all : List Switch :=
  [registerCacheSubstitution, symbolicReplay, stringLiteralMaterialization,
    unrecognizedIdiomReports, stackAnnotationInListing]

/-- The word that turns a switch off on the command line. -/
def flag : Switch → String
  | registerCacheSubstitution => "disable-register-cache-rewrite"
  | symbolicReplay => "disable-symbolic-replay"
  | stringLiteralMaterialization => "disable-string-literal-materialization"
  | unrecognizedIdiomReports => "disable-unrecognized-idiom-reports"
  | stackAnnotationInListing => "disable-stack-annotation-in-listing"

/-- The switch that a word turns off. -/
def ofFlag? (flag : String) : Option Switch :=
  all.find? (fun switch => switch.flag = flag)

end Switch

/-- What an analysis does beyond the necessary. -/
structure Options where
  /--
  Put the values of registers loaded once after the prologue in place of their
  later uses.
  -/
  substitutesCachedRegisters : Bool := true
  /--
  Replay every block on a symbolic stack to recover call arguments and strings.
  -/
  replaysBlocks : Bool := true
  /--
  Label recovered strings in the image and comment on the places that build
  them.
  -/
  materializesStrings : Bool := true
  /-- Report loop, trap and check instructions that no idiom accounts for. -/
  reportsLeftovers : Bool := true
  /-- Show the symbolic stack next to each node of a report. -/
  showsStacks : Bool := true
  /-- Bound on the number of discovery passes. -/
  maxPasses : Nat := 256
  deriving Repr, DecidableEq

namespace Options

/-- Turn one switch off. -/
def without (options : Options) : Switch → Options
  | .registerCacheSubstitution =>
      { options with substitutesCachedRegisters := false }
  | .symbolicReplay => { options with replaysBlocks := false }
  | .stringLiteralMaterialization =>
      { options with materializesStrings := false }
  | .unrecognizedIdiomReports => { options with reportsLeftovers := false }
  | .stackAnnotationInListing => { options with showsStacks := false }

/-- The default options with some switches turned off. -/
def disabling (switches : List Switch) : Options := switches.foldl without {}

end Options

end ProcRecovery
