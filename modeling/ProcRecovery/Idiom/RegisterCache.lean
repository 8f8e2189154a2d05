import ProcRecovery.Idiom.Shape
import ProcRecovery.Journal.Event
import ProcRecovery.Node
import ProcRecovery.Options

/-!
# Cached registers

Right after the prologue a procedure may load registers with literals or
addresses that it uses throughout.  A register is cached if it is loaded there
and written nowhere else in the body.  The loads become one node, and later
uses of a cached register are replaced by what it holds.
-/

namespace ProcRecovery.Idiom

/--
The register and the value of an instruction that could load a cached register.
-/
def cacheLoad? (instruction : Instruction) : Option (Register × Int) :=
  match instruction.mnemonic, instruction.operands with
  | .mov, [.immediate value, destination] =>
    if instruction.isWord
      then destination.general?.map (fun register => (register, value))
    else none
  | .lea, [.absolute address, destination] =>
    if FitsSigned address then
      destination.general?.map (fun register => (register, (address : Int)))
    else none
  | _, _ => none

/-- How often some instructions write a register. -/
def totalWrites (register : Register) : List Instruction → Nat
  | [] => 0
  | instruction :: later =>
      instruction.registerWrites register + totalWrites register later

/-- How often the instructions of a body write a register. -/
def bodyWrites (body : List Node) (register : Register) : Nat :=
  totalWrites register (body.flatMap Node.instructions)

/--
The loads of cached registers at the start of some nodes of a body, after those
already found.
-/
def cacheLoads
    (body : List Node) :
    List (Register × Int) → List Node → List (Register × Int)
  | found, [] => found
  | found, node :: later =>
    match node.raw?.bind cacheLoad? with
    | some (register, value) =>
      if bodyWrites body register = 1 ∧ register ∉ found.map Prod.fst then
        cacheLoads body (found ++ [(register, value)]) later
      else found
    | none => found

/-- The value of a cached register. -/
def cachedValue?
    (cached : List (Register × Int))
    (register : Register) :
    Option Int :=
  (cached.find? (fun load => load.1 = register)).map Prod.snd

/-- The memory at an address, if there is such an address. -/
def absoluteAt? (address : Int) : Option Operand :=
  if 0 ≤ address ∧ FitsSigned address then some (.absolute address.toNat)
    else none

/--
What an operand stands for, given the values of cached registers.  A register
that is stored into stays a register.
-/
def substituteOperand
    (cached : List (Register × Int))
    (isDestination : Bool)
    (operand : Operand) :
    Operand :=
  let known : Option Operand :=
    match operand with
    | .register base =>
      if isDestination then none
        else (cachedValue? cached base).map Operand.immediate
    | .deferred base => (cachedValue? cached base).bind absoluteAt?
    | .indexed displacement base =>
      (cachedValue? cached base).bind (fun value =>
        absoluteAt? (value + displacement))
    | _ => none
  known.getD operand

/--
An instruction with the values of cached registers in place of their uses.
-/
def substituteCached
    (cached : List (Register × Int))
    (instruction : Instruction) :
    Instruction :=
  instruction.withOperands (instruction.operands.zipIdx.map (fun operand =>
    substituteOperand cached (instruction.destinationIndex? = some operand.2)
      operand.1))

/-- A node after the loads of cached registers. -/
def substituteNode
    (options : Options)
    (cached : List (Register × Int))
    (node : Node) :
    Node :=
  match node.raw? with
  | some instruction =>
    if options.substitutesCachedRegisters
      then Node.raw (substituteCached cached instruction)
    else node
  | none => node

/--
Gather the loads of cached registers after the first node of a body, and put
the values in place of later uses.
-/
def registerCache
    (options : Options)
    (body : List Node) :
    Traced (List Node) :=
  let cached := cacheLoads body [] (body.drop 1)
  match cached with
  | [] => return body
  | _ => do
    let loads := ((body.drop 1).take cached.length).flatMap Node.instructions
    Traced.note (.registersCached ((loads.head?.map Instruction.lo).getD 0)
      cached.length)
    let node ← Traced.ofExcept (Node.wrap (some (.registerCache cached)) loads)
    let later :=
      (body.drop (1 + cached.length)).map (substituteNode options cached)
    return body.take 1 ++ node :: later

end ProcRecovery.Idiom
