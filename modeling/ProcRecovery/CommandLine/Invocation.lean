import ProcRecovery.Options

/-!
# Invocations

What the arguments of the command line ask for.  There is one command, which
takes the path of a listing and options.  Options that take a value have it in
the next argument, after an equals sign, or, for the short one, right behind
it.  Options are given once, apart from the level of detail and the switches.
-/

namespace ProcRecovery.CommandLine

/-- What a command line asks for. -/
structure Invocation where
  /-- Path of the listing to read. -/
  listing : Option String := none
  /-- Path of the report, which is printed otherwise. -/
  outputListing : Option String := none
  /-- Path of the block graphs, if they are wanted. -/
  outputGraphviz : Option String := none
  /-- Path of the log, if it is wanted. -/
  logFile : Option String := none
  /-- How often more detail in the log was asked for. -/
  detail : Nat := 0
  /-- The parts of the analysis that are switched off. -/
  switches : List Switch := []
  /-- Whether the terminal stays quiet. -/
  quietTerminal : Bool := false
  /-- Whether the terminal may hold up the program. -/
  blockingTerminal : Bool := false
  deriving Repr, DecidableEq

/-- The options that take a value. -/
inductive ValueOption where
  | outputListing
  | outputGraphviz
  | logFile
  | advancedConfig
  deriving Repr, DecidableEq

/-- The options that take no value. -/
inductive FlagOption where
  | detail
  | quietTerminal
  | blockingTerminal
  deriving Repr, DecidableEq

/-- The option with a value that a long name stands for. -/
def ValueOption.ofName? (name : String) : Option ValueOption :=
  if name = "output-listing" then some outputListing
  else if name = "output-graphviz" then some outputGraphviz
  else if name = "log" then some logFile
  else if name = "advanced-config" then some advancedConfig
  else none

/-- The option without a value that a long name stands for. -/
def FlagOption.ofName? (name : String) : Option FlagOption :=
  if name = "debug" then some detail
  else if name = "debug-disable-terminal-logging" then some quietTerminal
  else if name = "debug-forced-blocking-terminal-logging"
    then some blockingTerminal
  else none

namespace Invocation

/-- Set a path that has not been set. -/
def setOnce
    (current : Option String)
    (value : String) :
    Option (Option String) :=
  match current with
  | none => some (some value)
  | some _ => none

/-- Give an option its value. -/
def setValue
    (invocation : Invocation)
    (value : String) :
    ValueOption → Option Invocation
  | .outputListing => do
    return { invocation with
      outputListing := ← setOnce invocation.outputListing value }
  | .outputGraphviz => do
    return { invocation with
      outputGraphviz := ← setOnce invocation.outputGraphviz value }
  | .logFile => do
    return { invocation with
      logFile := ← setOnce invocation.logFile value }
  | .advancedConfig => do
    let switch ← Switch.ofFlag? value
    return { invocation with switches := invocation.switches ++ [switch] }

/-- Set an option without a value. -/
def setFlag (invocation : Invocation) : FlagOption → Option Invocation
  | .detail => some { invocation with detail := invocation.detail + 1 }
  | .quietTerminal =>
    if invocation.quietTerminal then none
    else some { invocation with quietTerminal := true }
  | .blockingTerminal =>
    if invocation.blockingTerminal then none
    else some { invocation with blockingTerminal := true }

/-- Set the path of the listing. -/
def setListing
    (invocation : Invocation)
    (path : String) :
    Option Invocation := do
  return { invocation with listing := ← setOnce invocation.listing path }

end Invocation

/-- An argument by its form. -/
inductive Argument where
  /-- Everything after this one is a path. -/
  | separator
  /-- A long option, with a value if there is an equals sign. -/
  | long (name : String) (value : Option String)
  /-- Short options. -/
  | short (letters : List Char)
  | plain (text : String)

/-- The form of an argument. -/
def Argument.classify (text : String) : Argument :=
  match text.toList with
  | ['-', '-'] => separator
  | '-' :: '-' :: rest =>
    match rest.span (· ≠ '=') with
    | (name, _ :: value) =>
        long (String.ofList name) (some (String.ofList value))
    | (name, []) => long (String.ofList name) none
  | '-' :: letter :: letters => short (letter :: letters)
  | _ => plain text

/--
Read a run of short options.  The answer names the option that still waits for
its value, if any does.
-/
def readShort
    (invocation : Invocation) :
    List Char → Option (Invocation × Option ValueOption)
  | [] => some (invocation, none)
  | 'd' :: later => do readShort (← invocation.setFlag .detail) later
  | ['Z'] => some (invocation, some .advancedConfig)
  | 'Z' :: '=' :: value => do
    return (← invocation.setValue (String.ofList value) .advancedConfig, none)
  | 'Z' :: value => do
    return (← invocation.setValue (String.ofList value) .advancedConfig, none)
  | _ => none

/-- Read arguments, given the option that waits for its value, if any does. -/
def readArguments (invocation : Invocation) (waiting : Option ValueOption) :
    List String → Option Invocation
  | [] => if waiting.isNone then some invocation else none
  | argument :: later =>
    match waiting, Argument.classify argument with
    | some option, .plain value => do
      readArguments (← invocation.setValue value option) none later
    | some _, _ => none
    | none, .plain path =>
        do readArguments (← invocation.setListing path) none later
    | none, .separator => later.foldlM Invocation.setListing invocation
    | none, .short letters => do
      let (next, waits) ← readShort invocation letters
      readArguments next waits later
    | none, .long name value =>
      match ValueOption.ofName? name, FlagOption.ofName? name, value with
      | some option, _, some text => do
        readArguments (← invocation.setValue text option) none later
      | some option, _, none => readArguments invocation (some option) later
      | none, some flag, none =>
          do readArguments (← invocation.setFlag flag) none later
      | none, _, _ => none

/-- What some arguments ask for, if they are in order: a listing is needed. -/
def Invocation.parse? : List String → Option Invocation
  | "from-listing" :: arguments => do
    let invocation ← readArguments {} none arguments
    if invocation.listing.isSome then some invocation else none
  | _ => none

end ProcRecovery.CommandLine
