import DualInit.Il.Encoding
import DualInit.Il.StoredBody
import DualInit.Page.FlagConstructor
import DualInit.Proofs.Endings
import DualInit.Proofs.Il.Machine
import DualInit.Proofs.Il.Sizing
import DualInit.Proofs.Il.Tally

/-!
# The body that dispatches

The body of a flag constructor is one sequence, `dispatchSequence`, whatever it calls.  It can be
encoded exactly if both initializers take no more than the object and leave what the constructor
returns (`encode_dispatch`); its code is `dispatchCode` then, behind a tiny header.

`run_dispatchCode` runs this code: the base constructor is called on the object, and after it one
of the initializers, the precompiled one exactly if the flag is set.

For a constructor that returns nothing all of this is put together in
`dispatchBody_encodes_and_dispatches`, whatever the tokens are and whatever the initializers do to
the stack.
-/

namespace DualInit

/-! ## The sequence -/

/-- The instructions of a dispatch body. -/
def dispatchSequence (base : Token) (precompiled runtime : CallSite) : Sequence :=
  ⟨[⟨.ldarg0, .none⟩, ⟨.call, .call (.instanceVoid base)⟩, ⟨.nop, .none⟩, ⟨.ldarg1, .none⟩,
    ⟨.brfalse, .target ⟨8⟩⟩, ⟨.ldarg0, .none⟩, ⟨.callvirt, .call precompiled⟩,
    ⟨.br, .target ⟨10⟩⟩, ⟨.ldarg0, .none⟩, ⟨.callvirt, .call runtime⟩, ⟨.ret, .none⟩]⟩

/-- Building a dispatch body never fails. -/
theorem dualDispatchBody_eq (base : Token) (precompiled runtime : CallSite) :
    dualDispatchBody base precompiled runtime = .ok (dispatchSequence base precompiled runtime) :=
  rfl

/-- The forms of the instructions of a dispatch body: both branches are short. -/
def dispatchForms : List OpCode :=
  [.ldarg0, .call, .nop, .ldarg1, .brfalseS, .ldarg0, .callvirt, .brS, .ldarg0, .callvirt, .ret]

/-- The code of a dispatch body. -/
def dispatchCode (base precompiled runtime : Token) : List UInt8 :=
  [0x02, 0x28] ++ Words.encode 4 base.value.toNat ++ [0x00, 0x03, 0x2C, 0x08, 0x02, 0x6F] ++
    Words.encode 4 precompiled.value.toNat ++ [0x2B, 0x06, 0x02, 0x6F] ++
    Words.encode 4 runtime.value.toNat ++ [0x2A]

variable {base : Token} {precompiled runtime : CallSite} {returnsValue : Bool}

/-- What is called makes no difference to the forms. -/
theorem forms_dispatch :
    Layout.forms (dispatchSequence base precompiled runtime).instructions = dispatchForms := by
  have hcallees : Layout.forms (dispatchSequence base precompiled runtime).instructions =
      Layout.forms (dispatchSequence .null default default).instructions :=
    Layout.forms_congr rfl rfl
  rw [hcallees]
  decide +kernel

theorem checkTargets_dispatch :
    Encoding.checkTargets 11 0 (dispatchSequence base precompiled runtime).instructions =
      .ok () :=
  rfl

theorem bytesFrom_dispatch :
    Encoding.bytesFrom (Layout.offsets dispatchForms) 0 (dispatchSequence base precompiled runtime).instructions
      dispatchForms = .ok (dispatchCode base precompiled.method runtime.method) :=
  rfl

/-! ## The stack -/

/-- How many values a method returns. -/
def returnCount (returnsValue : Bool) : Nat :=
  if returnsValue then 1 else 0

/-- A call that takes no more than the object and leaves as much as a method returns. -/
def CallSite.Leaves (returnsValue : Bool) (site : CallSite) : Prop :=
  site.pops.toNat ≤ 1 ∧ 1 - site.pops.toNat + site.pushes.toNat = returnCount returnsValue

namespace Stack.Tally

variable {t : Tally} {position : Position} {site : CallSite} {op : OpCode}

/-- A call on a single value is refused only if it takes more. -/
theorem step_call {peak : Nat} {noted : List (Position × Nat)} (hop : op.flow = .call)
    (hnoted : noted.lookup position = none) :
    step returnsValue position ⟨op, .call site⟩ ⟨1, true, peak, noted⟩ = some t ↔
      site.pops.toNat ≤ 1 ∧
        t = ⟨1 - site.pops.toNat + site.pushes.toNat, true,
          max peak (1 - site.pops.toNat + site.pushes.toNat), noted⟩ := by
  simp only [step, arrive, hnoted, take, Instruction.effect, depart, hop, bind, Option.bind]
  by_cases hpops : site.pops.toNat ≤ 1
  · simp [hpops, leave, eq_comm]
  · simp [hpops]

/-- A return that can be reached, and that a branch goes to, finds what the method returns and
nothing else. -/
theorem follow_ret {index depth noted peak : Nat} {rest : List (Position × Nat)} :
    follow returnsValue index [⟨.ret, .none⟩] ⟨depth, true, peak, (⟨index⟩, noted) :: rest⟩ =
        some t ↔
      noted = depth ∧ depth = returnCount returnsValue ∧
        t = ⟨0, false, max peak 0, (⟨index⟩, noted) :: rest⟩ := by
  have heffect : Instruction.effect returnsValue ⟨.ret, .none⟩ = (returnCount returnsValue, 0) :=
    rfl
  have hflow : OpCode.ret.flow = .leaving := rfl
  simp only [follow, step, arrive, List.lookup_cons, beq_self_eq_true, heffect, take, leave, depart,
    hflow, bind, Option.bind, Bool.true_and]
  by_cases hnoted : noted = depth
  · subst hnoted
    by_cases hdepth : returnCount returnsValue ≤ noted
    · by_cases hleft : noted = returnCount returnsValue
      · simp [hleft]
        exact eq_comm
      · have hne : noted - returnCount returnsValue ≠ 0 := by omega
        simp [hdepth, hleft, hne]
    · have hne : noted ≠ returnCount returnsValue := by omega
      simp [hdepth, hne]
  · simp [hnoted]

end Stack.Tally

/-- The pass over a dispatch body gets to its end exactly if each initializer leaves what the
constructor returns. -/
theorem follow_dispatch {t : Stack.Tally} :
    Stack.Tally.follow returnsValue 0 (dispatchSequence base precompiled runtime).instructions
        .start = some t ↔
      precompiled.Leaves returnsValue ∧ runtime.Leaves returnsValue ∧
        t = ⟨0, false, 1, [(⟨10⟩, returnCount returnsValue), (⟨8⟩, 0)]⟩ := by
  -- up to the first initializer nothing depends on what is called
  have hstart : Stack.Tally.follow returnsValue 0
      (dispatchSequence base precompiled runtime).instructions .start =
      (do let t ← Stack.Tally.step returnsValue ⟨6⟩ ⟨.callvirt, .call precompiled⟩
            ⟨1, true, 1, [(⟨8⟩, 0)]⟩
          Stack.Tally.follow returnsValue 7 [⟨.br, .target ⟨10⟩⟩, ⟨.ldarg0, .none⟩,
            ⟨.callvirt, .call runtime⟩, ⟨.ret, .none⟩] t) := rfl
  -- between the initializers the depth is noted for the end
  have hmiddle : ∀ depth peak : Nat, Stack.Tally.follow returnsValue 7
      [⟨.br, .target ⟨10⟩⟩, ⟨.ldarg0, .none⟩, ⟨.callvirt, .call runtime⟩, ⟨.ret, .none⟩]
      ⟨depth, true, peak, [(⟨8⟩, 0)]⟩ =
      (do let t ← Stack.Tally.step returnsValue ⟨9⟩ ⟨.callvirt, .call runtime⟩
            ⟨1, true, max (max peak depth) 1, [(⟨10⟩, depth), (⟨8⟩, 0)]⟩
          Stack.Tally.follow returnsValue 10 [⟨.ret, .none⟩] t) := fun _ _ => rfl
  have hcall : OpCode.callvirt.flow = .call := rfl
  have hfirst : List.lookup (⟨6⟩ : Position) [(⟨8⟩, 0)] = none := rfl
  rw [hstart]
  simp only [Option.bind_eq_bind, Option.bind_eq_some_iff, Stack.Tally.step_call hcall hfirst]
  constructor
  · rintro ⟨_, ⟨hp, rfl⟩, hrest⟩
    rw [hmiddle, Option.bind_eq_bind, Option.bind_eq_some_iff] at hrest
    obtain ⟨_, hsecond, hret⟩ := hrest
    obtain ⟨hr, rfl⟩ := (Stack.Tally.step_call hcall rfl).mp hsecond
    obtain ⟨hsame, hcount, rfl⟩ := Stack.Tally.follow_ret.mp hret
    refine ⟨⟨hp, hsame.trans hcount⟩, ⟨hr, hcount⟩, ?_⟩
    rw [hsame, hcount]
    cases returnsValue <;> rfl
  · rintro ⟨⟨hp, hpcount⟩, ⟨hr, hrcount⟩, rfl⟩
    refine ⟨_, ⟨hp, rfl⟩, ?_⟩
    rw [hmiddle, Option.bind_eq_bind, Option.bind_eq_some_iff]
    refine ⟨_, (Stack.Tally.step_call hcall rfl).mpr ⟨hr, rfl⟩,
      Stack.Tally.follow_ret.mpr ⟨hpcount.trans hrcount.symm, hrcount, ?_⟩⟩
    rw [hpcount, hrcount]
    cases returnsValue <;> rfl

/-- A dispatch body keeps to the discipline of the stack exactly if each initializer leaves what
the constructor returns, and then there is never more than one value. -/
theorem maxDepth_dispatch {n : Nat} :
    Stack.maxDepth returnsValue (dispatchSequence base precompiled runtime) = .ok n ↔
      precompiled.Leaves returnsValue ∧ runtime.Leaves returnsValue ∧ n = 1 := by
  rw [Stack.maxDepth_eq_ok, Stack.Tally.maxDepth, Option.bind_eq_some_iff]
  simp only [follow_dispatch]
  constructor
  · rintro ⟨_, ⟨hp, hr, rfl⟩, hn⟩
    exact ⟨hp, hr, (Option.some.inj hn).symm⟩
  · rintro ⟨hp, hr, rfl⟩
    exact ⟨_, ⟨hp, hr, rfl⟩, rfl⟩

/-! ## The bytes -/

/-- A dispatch body as it is encoded. -/
def dispatchEncoded (base precompiled runtime : Token) : EncodedBody :=
  ⟨dispatchCode base precompiled runtime, 1, Layout.offsets dispatchForms⟩

/-- A dispatch body can be encoded exactly if each initializer leaves what the constructor
returns, and its code depends on nothing but the three tokens. -/
theorem encode_dispatch {body : EncodedBody} :
    encode (dispatchSequence base precompiled runtime) returnsValue = .ok body ↔
      precompiled.Leaves returnsValue ∧ runtime.Leaves returnsValue ∧
        body = dispatchEncoded base precompiled.method runtime.method := by
  have htargets : Encoding.checkTargets (dispatchSequence base precompiled runtime).length 0
      (dispatchSequence base precompiled runtime).instructions = .ok () := checkTargets_dispatch
  simp only [encode, htargets, forms_dispatch, bytesFrom_dispatch, except_bind_ok,
    maxDepth_dispatch]
  constructor
  · rintro ⟨_, -, _, ⟨hp, hr, rfl⟩, _, hcode, hbody⟩
    obtain rfl := Except.ok.inj hcode
    exact ⟨hp, hr, (Except.ok.inj hbody).symm⟩
  · rintro ⟨hp, hr, rfl⟩
    exact ⟨(), trivial, 1, ⟨hp, hr, rfl⟩, _, rfl, rfl⟩

/-- A dispatch body is stored behind a tiny header. -/
theorem methodBytes_dispatch (base precompiled runtime : Token) :
    (dispatchEncoded base precompiled runtime).methodBytes false =
      .ok (0x66 :: dispatchCode base precompiled runtime) :=
  rfl

/-- The stored body is read back as its code. -/
theorem read_dispatch (base precompiled runtime : Token) :
    StoredBody.read (0x66 :: dispatchCode base precompiled runtime) =
      some ⟨.tiny, dispatchCode base precompiled runtime⟩ :=
  rfl

/-! ## The run -/

namespace Machine

variable {known : Surroundings} {code : List UInt8} {base precompiled runtime method : Token}
  {d : Decoded} {m : Machine} {isSet : Bool}

/-- What a call leaves of a stack. -/
def leftBy (known : Surroundings) (method : Token) (stack : List Value) : List Value :=
  List.replicate (known.pushes method) (.resultOf method) ++ stack.drop (known.pops method)

theorem step_call {op : OpCode} {offset : Nat} {stack : List Value} {calls : List Call}
    (hfetch : Decoded.fetch code offset = some ⟨offset, op, .token method⟩)
    (hop : op = .call ∨ op = .callvirt) (htaken : known.pops method ≤ stack.length) :
    step known code ⟨offset, stack, calls⟩ = some (.running
      ⟨offset + op.size, leftBy known method stack,
        calls ++ [⟨method, stack.take (known.pops method)⟩]⟩) := by
  rw [step_of_fetch hfetch]
  rcases hop with rfl | rfl
  · exact if_pos htaken
  · exact if_pos htaken

theorem step_ldarg0 {offset : Nat} {stack : List Value} {calls : List Call}
    (hfetch : Decoded.fetch code offset = some ⟨offset, .ldarg0, .none⟩)
    (hargument : known.arguments[0]? = some .object) :
    step known code ⟨offset, stack, calls⟩ =
      some (.running ⟨offset + 1, .object :: stack, calls⟩) := by
  rw [step_of_fetch hfetch]
  show (known.arguments[0]?).map _ = _
  rw [hargument]
  rfl

theorem fetch_dispatch_base : Decoded.fetch (dispatchCode base precompiled runtime) 1 =
    some ⟨1, .call, .token base⟩ := by
  rw [← Decoded.operandOf_token]
  rfl

theorem fetch_dispatch_precompiled : Decoded.fetch (dispatchCode base precompiled runtime) 11 =
    some ⟨11, .callvirt, .token precompiled⟩ := by
  rw [← Decoded.operandOf_token]
  rfl

theorem fetch_dispatch_runtime : Decoded.fetch (dispatchCode base precompiled runtime) 19 =
    some ⟨19, .callvirt, .token runtime⟩ := by
  rw [← Decoded.operandOf_token]
  rfl

/-- What the base constructor leaves of the object it is called on. -/
theorem leftBy_base (hbase : known.pops base = 1) :
    leftBy known base [.object] = List.replicate (known.pushes base) (.resultOf base) := by
  rw [leftBy, hbase]
  exact List.append_nil _

/-- Up to the branch a dispatch body does the same whatever the flag. -/
theorem runFor_dispatch_base {count : Nat} (harguments : known.arguments = [.object, .flag isSet])
    (hbase : known.pops base = 1) :
    runFor known (dispatchCode base precompiled runtime) (count + 5) start =
      runFor known (dispatchCode base precompiled runtime) count
        ⟨if isSet then 10 else 18, leftBy known base [.object], [⟨base, [.object]⟩]⟩ := by
  have hobject : known.arguments[0]? = some .object := by rw [harguments]; rfl
  have hflag : known.arguments[1]? = some (.flag isSet) := by rw [harguments]; rfl
  have hload : step known (dispatchCode base precompiled runtime) ⟨0, [], []⟩ =
      some (.running ⟨1, [.object], []⟩) := step_ldarg0 rfl hobject
  have hcall : step known (dispatchCode base precompiled runtime) ⟨1, [.object], []⟩ =
      some (.running ⟨6, leftBy known base [.object], [⟨base, [.object]⟩]⟩) := by
    rw [step_call fetch_dispatch_base (Or.inl rfl) (Nat.le_of_eq hbase), hbase]
    rfl
  generalize leftBy known base [.object] = results at hcall ⊢
  have hnop : step known (dispatchCode base precompiled runtime) ⟨6, results, [⟨base, [.object]⟩]⟩ =
      some (.running ⟨7, results, [⟨base, [.object]⟩]⟩) := rfl
  have hloadFlag : step known (dispatchCode base precompiled runtime)
      ⟨7, results, [⟨base, [.object]⟩]⟩ =
      some (.running ⟨8, .flag isSet :: results, [⟨base, [.object]⟩]⟩) := by
    show (known.arguments[1]?).map _ = _
    rw [hflag]
    rfl
  have hbranch : step known (dispatchCode base precompiled runtime)
      ⟨8, .flag isSet :: results, [⟨base, [.object]⟩]⟩ =
      some (.running ⟨if isSet then 10 else 18, results, [⟨base, [.object]⟩]⟩) := by
    cases isSet <;> rfl
  rw [start, runFor_of_running hload, runFor_of_running hcall, runFor_of_running hnop,
    runFor_of_running hloadFlag, runFor_of_running hbranch]

/-- Code that loads the object and calls an initializer that takes no more. -/
theorem runFor_initializer {offset count : Nat} {results : List Value} {calls : List Call}
    (hobject : known.arguments[0]? = some .object)
    (hload : Decoded.fetch code offset = some ⟨offset, .ldarg0, .none⟩)
    (hcall : Decoded.fetch code (offset + 1) = some ⟨offset + 1, .callvirt, .token method⟩)
    (htaken : known.pops method ≤ 1) :
    runFor known code (count + 2) ⟨offset, results, calls⟩ = runFor known code count
      ⟨offset + 6, leftBy known method (.object :: results),
        calls ++ [⟨method, [Value.object].take (known.pops method)⟩]⟩ := by
  have hlength : known.pops method ≤ (Value.object :: results).length :=
    Nat.le_trans htaken (Nat.succ_le_succ (Nat.zero_le _))
  have htake : (Value.object :: results).take (known.pops method) =
      [Value.object].take (known.pops method) := by
    obtain h | h : known.pops method = 0 ∨ known.pops method = 1 := by omega
    · rw [h]; rfl
    · rw [h]; rfl
  rw [runFor_of_running (step_ldarg0 hload hobject),
    runFor_of_running (step_call hcall (Or.inr rfl) hlength), htake]
  rfl

/-- A dispatch body calls the base constructor on the object and after it one of the initializers:
the precompiled one if the flag is set, and the other one otherwise. -/
theorem run_dispatchCode (harguments : known.arguments = [.object, .flag isSet])
    (hbase : known.pops base = 1) {chosen : Token}
    (hchosen : chosen = if isSet then precompiled else runtime) (htaken : known.pops chosen ≤ 1) :
    run known (dispatchCode base precompiled runtime) = some
      ⟨24, leftBy known chosen (.object :: leftBy known base [.object]),
        [⟨base, [.object]⟩, ⟨chosen, [Value.object].take (known.pops chosen)⟩]⟩ := by
  have hobject : known.arguments[0]? = some .object := by rw [harguments]; rfl
  show runFor known (dispatchCode base precompiled runtime) (20 + 5) start = _
  rw [runFor_dispatch_base harguments hbase]
  cases isSet with
  | true =>
    obtain rfl : chosen = precompiled := hchosen
    show runFor known _ (18 + 2) ⟨10, _, _⟩ = _
    rw [runFor_initializer hobject rfl fetch_dispatch_precompiled htaken]
    rfl
  | false =>
    obtain rfl : chosen = runtime := hchosen
    show runFor known _ (18 + 2) ⟨18, _, _⟩ = _
    rw [runFor_initializer hobject rfl fetch_dispatch_runtime htaken]
    rfl

/-- If no callee leaves anything, nothing is left at the end. -/
theorem run_dispatchCode_of_void (harguments : known.arguments = [.object, .flag isSet])
    (hcallees : ∀ method ∈ [base, precompiled, runtime],
      known.pops method = 1 ∧ known.pushes method = 0) :
    run known (dispatchCode base precompiled runtime) = some
      ⟨24, [], [⟨base, [.object]⟩, ⟨if isSet then precompiled else runtime, [.object]⟩]⟩ := by
  have hleft {method : Token} {stack : List Value} (h : method ∈ [base, precompiled, runtime]) :
      leftBy known method (.object :: stack) = stack := by
    rw [leftBy, (hcallees method h).1, (hcallees method h).2]
    rfl
  have hchosen : (if isSet then precompiled else runtime) ∈ [base, precompiled, runtime] := by
    cases isSet <;> simp
  have hpops := (hcallees _ hchosen).1
  rw [run_dispatchCode harguments (hcallees base List.mem_cons_self).1 rfl (Nat.le_of_eq hpops),
    hleft hchosen, hleft List.mem_cons_self, hpops]
  rfl

end Machine

/-! ## All of it -/

/-- What is left of the object in a method that returns nothing. -/
theorem CallSite.leaves_false_iff {site : CallSite} :
    site.Leaves false ↔ site.pops = 1 ∧ site.pushes = 0 := by
  have hcount : returnCount false = 0 := rfl
  rw [Leaves, hcount, ← UInt8.toNat_inj, ← UInt8.toNat_inj]
  show _ ↔ site.pops.toNat = 1 ∧ site.pushes.toNat = 0
  omega

/-- **A dispatch body as bytes.**  Building it never fails, whatever the tokens and the effects of
the two initializers are.  It can be encoded for a method that returns nothing exactly if each of
them takes one value and leaves none.  Then it is 25 bytes of code behind a tiny header, with one
value on the stack at most, and these bytes call the base constructor on the object and after it the
precompiled initializer if the flag is set and the other one if it is not, again on the object, and
return with nothing on the stack. -/
theorem dispatchBody_encodes_and_dispatches (base : Token) (precompiled runtime : CallSite) :
    ∃ s, dualDispatchBody base precompiled runtime = .ok s ∧
      ((∃ body, encode s false = .ok body) ↔
        precompiled.pops = 1 ∧ precompiled.pushes = 0 ∧ runtime.pops = 1 ∧ runtime.pushes = 0) ∧
      ∀ body, encode s false = .ok body →
        body.code.length = 25 ∧ body.maxStack = 1 ∧
        (∃ bytes, body.methodBytes false = .ok bytes ∧
          StoredBody.read bytes = some ⟨.tiny, body.code⟩) ∧
        ∀ (known : Surroundings) (isSet : Bool), known.arguments = [.object, .flag isSet] →
          (∀ method ∈ [base, precompiled.method, runtime.method],
            known.pops method = 1 ∧ known.pushes method = 0) →
          Machine.run known body.code = some ⟨24, [], [⟨base, [.object]⟩,
            ⟨if isSet then precompiled.method else runtime.method, [.object]⟩]⟩ := by
  refine ⟨_, dualDispatchBody_eq base precompiled runtime, ?_, fun body hbody => ?_⟩
  · simp only [encode_dispatch, CallSite.leaves_false_iff]
    refine ⟨fun ⟨_, hp, hr, _⟩ => ⟨hp.1, hp.2, hr⟩, fun ⟨hpops, hpushes, hr⟩ =>
      ⟨_, ⟨hpops, hpushes⟩, hr, rfl⟩⟩
  · obtain ⟨-, -, rfl⟩ := encode_dispatch.mp hbody
    exact ⟨rfl, rfl, ⟨_, methodBytes_dispatch _ _ _, read_dispatch _ _ _⟩,
      fun known isSet harguments hcallees => Machine.run_dispatchCode_of_void harguments hcallees⟩

/-- All bits of a token are in the bytes. -/
theorem dispatchBody_encodes_and_dispatches_sample :
    ∃ body, encode (dispatchSequence ⟨0x0A000001⟩ ⟨⟨0xFFFFFFFE⟩, 1, 0⟩ ⟨⟨0x06000002⟩, 1, 0⟩) false =
        .ok body ∧
      Machine.run ⟨[.object, .flag true], fun _ => 1, fun _ => 0⟩ body.code =
        some ⟨24, [], [⟨⟨0x0A000001⟩, [.object]⟩, ⟨⟨0xFFFFFFFE⟩, [.object]⟩]⟩ ∧
      ¬ ∃ body, encode (dispatchSequence ⟨0x0A000001⟩ ⟨⟨0xFFFFFFFE⟩, 0, 0⟩ ⟨⟨0x06000002⟩, 2, 1⟩)
        false = .ok body := by
  obtain ⟨_, hbuilt, hencodes, hall⟩ := dispatchBody_encodes_and_dispatches ⟨0x0A000001⟩
    ⟨⟨0xFFFFFFFE⟩, 1, 0⟩ ⟨⟨0x06000002⟩, 1, 0⟩
  obtain rfl := Except.ok.inj (hbuilt.symm.trans (dualDispatchBody_eq _ _ _))
  obtain ⟨body, hbody⟩ := hencodes.mpr ⟨rfl, rfl, rfl, rfl⟩
  obtain ⟨_, hbuilt', hrefused, -⟩ := dispatchBody_encodes_and_dispatches ⟨0x0A000001⟩
    ⟨⟨0xFFFFFFFE⟩, 0, 0⟩ ⟨⟨0x06000002⟩, 2, 1⟩
  obtain rfl := Except.ok.inj (hbuilt'.symm.trans (dualDispatchBody_eq _ _ _))
  refine ⟨body, hbody, (hall body hbody).2.2.2 _ true rfl fun _ _ => ⟨rfl, rfl⟩, fun h => ?_⟩
  exact absurd (hrefused.mp h).1 (by decide)

end DualInit
