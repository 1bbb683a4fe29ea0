import DualInit.Il.Decoding

/-!
# Running code

A machine that runs the code bytes of a method.  It knows the arguments of the method and, of
every method that the code calls, how many values a call takes and leaves; it records each call
with the values it was made with.  What callees do is not its concern: the values they leave
are known by where they come from and by nothing else.

The machine stops when the method returns.  It gets stuck on bytes that are no instruction, on
a stack that is too shallow, on a missing argument, and on a condition whose truth it does not
know.
-/

namespace DualInit

/-- A value on the evaluation stack. -/
inductive Value where
  | object
  | flag (isSet : Bool)
  | null
  | one
  /-- A string, by its token. -/
  | text (token : Token)
  /-- What a call has left. -/
  | resultOf (method : Token)
deriving DecidableEq, Repr, Inhabited

/-- Whether a value counts as true, if that is known. -/
def Value.truth? : Value → Option Bool
  | object | one | text _ => some true
  | null => some false
  | flag isSet => some isSet
  | resultOf _ => none

/-- A call that was made. -/
structure Call where
  method : Token
  /-- The values it was called with, the last one first. -/
  arguments : List Value
deriving DecidableEq, Repr, Inhabited

/-- What a machine is told about a method and its callees. -/
structure Surroundings where
  arguments : List Value
  /-- How many values a call of a method takes. -/
  pops : Token → Nat
  /-- How many values a call of a method leaves. -/
  pushes : Token → Nat

/-- A machine between two instructions. -/
structure Machine where
  offset : Nat
  /-- The evaluation stack, the topmost value first. -/
  stack : List Value
  /-- The calls made so far, in order. -/
  calls : List Call
deriving DecidableEq, Repr, Inhabited

namespace Machine

/-- A machine in front of the first instruction. -/
def start : Machine :=
  ⟨0, [], []⟩

/-- What an instruction leads to. -/
inductive Progress where
  | running (m : Machine)
  | returned (m : Machine)
deriving DecidableEq, Repr

/-- The machine behind an instruction that has put a value on the stack. -/
def push (d : Decoded) (v : Value) (m : Machine) : Progress :=
  .running { m with offset := d.endOffset, stack := v :: m.stack }

/-- The machine behind an instruction that loads an argument. -/
def loadArgument (s : Surroundings) (d : Decoded) (index : Nat) (m : Machine) : Option Progress :=
  (s.arguments[index]?).map (m.push d ·)

/-- The machine behind a call. -/
def call (s : Surroundings) (d : Decoded) (method : Token) (m : Machine) : Option Progress :=
  let taken := s.pops method
  if taken ≤ m.stack.length then
    some (.running
      { offset := d.endOffset
        stack := List.replicate (s.pushes method) (.resultOf method) ++ m.stack.drop taken
        calls := m.calls ++ [⟨method, m.stack.take taken⟩] })
  else none

/-- The machine at the target of a branch. -/
def jump (d : Decoded) (m : Machine) : Option Progress :=
  match d.targetOffset? with
  | some (.ofNat offset) => some (.running { m with offset })
  | _ => none

/-- The machine behind a branch that is taken if the topmost value is as `wanted`. -/
def jumpIf (wanted : Bool) (d : Decoded) (m : Machine) : Option Progress :=
  match m.stack with
  | [] => none
  | v :: stack => do
    let m := { m with stack }
    if (← v.truth?) = wanted then m.jump d
    else return .running { m with offset := d.endOffset }

/-- What an instruction leads to, unless the machine gets stuck. -/
def perform (s : Surroundings) (d : Decoded) (m : Machine) : Option Progress :=
  match d.opcode, d.operand with
  | .nop, .none => some (.running { m with offset := d.endOffset })
  | .ldarg0, .none => m.loadArgument s d 0
  | .ldarg1, .none => m.loadArgument s d 1
  | .ldarg2, .none => m.loadArgument s d 2
  | .ldarg3, .none => m.loadArgument s d 3
  | .ldargS, .uint8 index => m.loadArgument s d index.toNat
  | .ldnull, .none => some (m.push d .null)
  | .ldcI4One, .none => some (m.push d .one)
  | .ldstr, .token token => some (m.push d (.text token))
  | .pop, .none =>
    match m.stack with
    | [] => none
    | _ :: stack => some (.running { m with offset := d.endOffset, stack })
  | .call, .token method | .callvirt, .token method => m.call s d method
  | .ret, .none => some (.returned m)
  | .br, _ | .brS, _ => m.jump d
  | .brfalse, _ | .brfalseS, _ => m.jumpIf false d
  | .brtrue, _ | .brtrueS, _ => m.jumpIf true d
  | _, _ => none

/-- What the next instruction of the code leads to. -/
def step (s : Surroundings) (code : List UInt8) (m : Machine) : Option Progress := do
  m.perform s (← Decoded.fetch code m.offset)

/-- Runs code for at most so many instructions; answers the machine at the return. -/
def runFor (s : Surroundings) (code : List UInt8) : (count : Nat) → Machine → Option Machine
  | 0, _ => none
  | count + 1, m =>
    match m.step s code with
    | none => none
    | some (.returned final) => some final
    | some (.running next) => runFor s code count next

/-- Runs code whose branches all go forward, so that no instruction is run twice. -/
def run (s : Surroundings) (code : List UInt8) : Option Machine :=
  runFor s code code.length .start

end Machine
end DualInit
