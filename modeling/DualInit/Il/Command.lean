import DualInit.Il.Builder

/-!
# Histories of a builder

A request to a builder as a value, so that a whole history of requests can be spoken of: what
each of them answers, and which builder is left after any list of them.  After a request that
fails the history goes on.

What a history comes to is read off the requests in it that succeed, without a look at the
builder: `History.emissions` lists what they emit and `History.Binds` says where they bind a label.
-/

namespace DualInit

/-- A request to a builder. -/
inductive Command where
  | emit (opcode : OpCode)
  | emitWith (opcode : OpCode) (operand : Operand)
  | emitCall (opcode : OpCode) (site : CallSite)
  /-- Emit a call on an object, without arguments and without a result. -/
  | emitInstanceCall (opcode : OpCode) (method : Token)
  /-- Emit the shortest operation that loads an argument. -/
  | emitLdarg (index : Nat)
  | newLabel
  | branch (opcode : OpCode) (label : Label)
  | bind (label : Label) (target : Position)
deriving DecidableEq, Repr, Inhabited

/-- What a request answers. -/
inductive Answer where
  | position (position : Position)
  | label (label : Label)
  /-- Nothing but that it succeeded. -/
  | done
deriving DecidableEq, Repr, Inhabited

namespace Command

/-- Carries out a request. -/
def perform : Command → Build Answer
  | emit opcode => .position <$> Build.emit opcode
  | emitWith opcode operand => .position <$> Build.emitWith opcode operand
  | emitCall opcode site => .position <$> Build.emitCall opcode site
  | emitInstanceCall opcode method => .position <$> Build.emitInstanceCall opcode method
  | emitLdarg index => .position <$> Build.emitLdarg index
  | newLabel => .label <$> Build.newLabel
  | branch opcode label => .position <$> Build.branch opcode label
  | bind label target => (fun _ => .done) <$> Build.bind label target

/-- The answer to a request, or why there is none, and the builder that the request has left. -/
def step (b : Builder) (c : Command) : Except Error Answer × Builder :=
  match c.perform b with
  | .ok answer next => (.ok answer, next)
  | .error e next => (.error e, next)

end Command

/-- The builder left after a history of requests. -/
def Builder.after (history : List Command) : Builder :=
  history.foldl (fun b c => (c.step b).2) .empty

@[simp] theorem Builder.after_nil : Builder.after [] = Builder.empty := rfl

/-- One more request acts on what the history before it has left. -/
theorem Builder.after_concat (history : List Command) (c : Command) :
    Builder.after (history ++ [c]) = (c.step (Builder.after history)).2 := by
  simp [Builder.after]

/-! ## What a history comes to -/

/-- The shortest operation that loads an argument, with its operand. -/
def argumentLoad : (index : Nat) → OpCode × Slot
  | 0 => (.ldarg0, .ready .none)
  | 1 => (.ldarg1, .ready .none)
  | 2 => (.ldarg2, .ready .none)
  | 3 => (.ldarg3, .ready .none)
  | index => (.ldargS, .ready (.uint8 (UInt8.ofNat index)))

/-- The operation that a request emits if it succeeds, with its operand or its label. -/
def Command.emission? : Command → Option (OpCode × Slot)
  | emit opcode => some (opcode, .ready .none)
  | emitWith opcode operand => some (opcode, .ready operand)
  | emitCall opcode site => some (opcode, .ready (.call site))
  | emitInstanceCall opcode method => some (opcode, .ready (.call (.instanceVoid method)))
  | emitLdarg index => some (argumentLoad index)
  | branch opcode label => some (opcode, .pending label)
  | newLabel | bind .. => none

/-- The requests that succeed, of some that are made to a builder one after the other. -/
def Builder.served (b : Builder) : List Command → List Command
  | [] => []
  | c :: rest =>
    match c.step b with
    | (.ok _, next) => c :: next.served rest
    | (.error _, next) => next.served rest

namespace History

/-- The operations that a history has emitted, in order, each with its operand or its label. -/
def emissions (history : List Command) : List (OpCode × Slot) :=
  (Builder.empty.served history).filterMap (·.emission?)

/-- A history has bound a label to a position. -/
def Binds (history : List Command) (label : Label) (target : Position) : Prop :=
  .bind label target ∈ Builder.empty.served history

/-- A history has bound the label of the branch at a position to an operation that it has emitted
behind the branch. -/
def LeadsAhead (history : List Command) (index : Nat) (label : Label) : Prop :=
  ∃ target, Binds history label target ∧ index < target.index ∧
    target.index < (emissions history).length

/-- What becomes of an operand or a label: the position that the label was bound to takes the place
of the label. -/
inductive Settles (history : List Command) : Slot → Operand → Prop where
  | ready (operand : Operand) : Settles history (.ready operand) operand
  | bound {label : Label} {target : Position} (h : Binds history label target) :
      Settles history (.pending label) (.target target)

/-- Why the branch at a position cannot be settled: its label is not bound, or it is bound to an
operation that is not behind the branch. -/
inductive Offends (history : List Command) (index : Nat) (opcode : OpCode) (label : Label) :
    Error → Prop where
  | unbound (h : ∀ target, ¬ Binds history label target) :
      Offends history index opcode label (.unboundLabel label)
  | notForward {target : Position} (h : Binds history label target) (hle : target.index ≤ index) :
      Offends history index opcode label (.invalidBranch (.notForward opcode ⟨index⟩ target))

end History

/-- The sequences that bodies are made of: those that a builder has finished after some history,
and the body that returns at once. -/
def Sequence.IsFinished (s : Sequence) : Prop :=
  (∃ history : List Command, (Builder.after history).finish = .ok s) ∨ s = .emptyBody

end DualInit
