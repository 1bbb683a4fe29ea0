import DualInit.Proofs.Page.Writability
import DualInit.Proofs.Run.Frame

/-!
# What a rewritten class does

The flag constructor that a run leaves is stored as bytes.  `run_dispatches` says what these bytes
do when they are run: they call the constructor of the base type on the object and after it one of
the two initializers, the precompiled one if the flag is set, and they return.

Only the base constructor can leave anything behind.  Initializers are called for what they return,
which `encode` holds against what the flag constructor returns; what the base constructor returns
nobody looks at, and it is still there at the end (`exists_run_leaving_result`).
-/

namespace DualInit

/-- A machine is told what a call of a method takes and leaves. -/
def Surroundings.Knows (known : Surroundings) (method : Token) (signature : Signature) : Prop :=
  known.pops method = signature.callPops ∧ known.pushes method = returnCount signature.returnsValue

section

variable {known : Surroundings} {s : Section} {external : Resolver} {t : TypeDef}
  {p q c m : MethodDef} {base : Token} {signature : Signature} {isSet returnsValue : Bool}

/-! ## The code of a flag constructor -/

theorem CallsBase.callPops (h : CallsBase external s t base signature) :
    signature.callPops = 1 := by
  obtain ⟨hthis, hparams⟩ := h.shape
  rw [Signature.callPops, hthis, hparams]
  rfl

/-- A method that leaves what is to be returned takes the object or leaves it there. -/
theorem length_of_leaves (hleaves : m.callSite.Leaves returnsValue)
    (hpops : m.signature.callPops ≤ 1) :
    returnCount m.signature.returnsValue + (1 - m.signature.callPops) = returnCount returnsValue := by
  have htoNat : (UInt8.ofNat m.signature.callPops).toNat = m.signature.callPops := by
    rw [UInt8.toNat_ofNat']
    omega
  have hpushes : m.callSite.pushes.toNat = returnCount m.signature.returnsValue := by
    rw [MethodDef.callSite, returnCount]
    split <;> rfl
  obtain ⟨-, hcount⟩ := hleaves
  rw [hpushes, MethodDef.callSite, htoNat] at hcount
  omega

/-- What a call of an initializer leaves above the values that were there before the object. -/
theorem leftBy_object {method : Token} {stack : List Value} (hpops : known.pops method ≤ 1) :
    Machine.leftBy known method (.object :: stack) =
      (List.replicate (known.pushes method) (.resultOf method) ++
        [Value.object].drop (known.pops method)) ++ stack := by
  rw [Machine.leftBy, List.append_assoc]
  obtain h | h : known.pops method = 0 ∨ known.pops method = 1 := by omega
  · rw [h]; rfl
  · rw [h]; rfl

/-- Running the code of a type that serves calls the base constructor and the chosen initializer. -/
theorem TypeDef.Serves.run_dispatchCode (h : t.Serves external s p q c base signature)
    (hp : p.callSite.Leaves returnsValue) (hq : q.callSite.Leaves returnsValue)
    (harguments : known.arguments = [.object, .flag isSet]) (hbase : known.Knows base signature)
    (hknownp : known.Knows p.token p.signature) (hknownq : known.Knows q.token q.signature) :
    ∃ m returned, Machine.run known (dispatchCode base p.token q.token) = some m ∧
      m.calls = [⟨base, [.object]⟩, ⟨(if isSet then p else q).token,
        [Value.object].take (if isSet then p else q).signature.callPops⟩] ∧
      m.stack = returned ++ List.replicate (returnCount signature.returnsValue) (.resultOf base) ∧
      returned.length = returnCount returnsValue := by
  -- the initializer that is called takes no more than the object and leaves what is returned
  obtain ⟨chosen, hchosen, hleaves, hpops, hknown⟩ : ∃ chosen, (if isSet then p else q) = chosen ∧
      chosen.callSite.Leaves returnsValue ∧ chosen.signature.callPops ≤ 1 ∧
      known.Knows chosen.token chosen.signature := by
    cases isSet with
    | true => exact ⟨p, rfl, hp, callPops_of_initializer? h.precompiled_found, hknownp⟩
    | false => exact ⟨q, rfl, hq, callPops_of_initializer? h.runtime_found, hknownq⟩
  have htoken : chosen.token = if isSet then p.token else q.token := by
    rw [← hchosen]
    split <;> rfl
  have hbasePops : known.pops base = 1 := hbase.1.trans h.calls_base.callPops
  have hchosenPops : known.pops chosen.token ≤ 1 := hknown.1.symm ▸ hpops
  have hrun : Machine.run known (dispatchCode base p.token q.token) = some _ :=
    Machine.run_dispatchCode harguments hbasePops htoken hchosenPops
  rw [leftBy_object hchosenPops, Machine.leftBy_base hbasePops, hbase.2, hknown.1] at hrun
  rw [hchosen]
  refine ⟨_, _, hrun, rfl, rfl, ?_⟩
  rw [List.length_append, List.length_replicate, List.length_drop, hknown.2]
  exact length_of_leaves hleaves hpops

/-- Behind an entry of a report there is a type that serves. -/
theorem exists_serves {resources : List Resource} {findings : List Finding} {e : EquippedType}
    (h : List.Forall₂ (Settled external s) resources findings) (he : .equipped e ∈ findings) :
    ∃ t p q c base signature, t.Serves external s p q c base signature ∧ e.StandsFor s t ∧
      p.token = e.precompiled ∧ q.token = e.runtime ∧ c.token = e.flagConstructor := by
  induction h with
  | nil => exact absurd he List.not_mem_nil
  | cons hfirst _ ih =>
    rcases List.mem_cons.mp he with rfl | he
    · cases hfirst with
      | equipped _ _ _ hfind hserves =>
        exact ⟨_, _, _, _, _, _, hserves, ⟨rfl, _, hfind, rfl⟩, rfl, rfl, rfl⟩
    · exact ih he

/-! ## Runs -/

variable {store store' : Store} {config : Config} {report : Report} {before : Image}

/-- For every entry of the report of a successful run: the entry stands for a type of the stored
section that has the three methods under their names and shapes, and `base` is the token of a
parameterless constructor of its base type (`CallsBase`).  The stored bytes of the flag constructor,
run on an object and a flag, call the base constructor on the object and then, if the flag is set,
the precompiled initializer, and the other one otherwise.  When they return there is on the stack
what the flag constructor returns, and below it what the base constructor has returned. -/
theorem run_dispatches (hrun : (run config : Edit Store Report).Ends store (.ok report) store')
    (hbefore : store.image? config.assembly = some before)
    (hadmits : before.assembly.Admits report.findings)
    (hone : before.assembly.HasOneInitializer) {k : Nat} {findings : List Finding}
    (hfindings : report.findings[k]? = some findings) {e : EquippedType}
    (he : .equipped e ∈ findings) :
    ∃ after s t p q c base signature bytes stored, store'.image? config.assembly = some after ∧
      after.assembly.sections[k]? = some s ∧ e.StandsFor s t ∧
      (p ∈ t.methods ∧ p.token = e.precompiled ∧ p.isInitializer precompiledName = true) ∧
      (q ∈ t.methods ∧ q.token = e.runtime ∧ q.isInitializer runtimeName = true) ∧
      (c ∈ t.methods ∧ c.token = e.flagConstructor ∧ c.isFlagConstructor = true) ∧
      CallsBase (Codec.resolver store config.assembly config.searchDirectories) s t base
        signature ∧
      store'.methodBytes? config.assembly k e.flagConstructor = some bytes ∧
      StoredBody.read bytes = some stored ∧
      ∀ (known : Surroundings) (isSet : Bool), known.arguments = [.object, .flag isSet] →
        known.Knows base signature → known.Knows e.precompiled p.signature →
        known.Knows e.runtime q.signature →
        ∃ m returned, Machine.run known stored.code = some m ∧
          m.calls = [⟨base, [.object]⟩, ⟨if isSet then e.precompiled else e.runtime,
            [Value.object].take (if isSet then p else q).signature.callPops⟩] ∧
          m.stack = returned ++
            List.replicate (returnCount signature.returnsValue) (.resultOf base) ∧
          returned.length = returnCount c.signature.returnsValue := by
  obtain ⟨after, hafter, hpassed⟩ := passed_of_ends_run hrun hbefore hadmits
  have hk : k < before.assembly.sections.length := by
    rw [← hpassed.findings_length]
    exact (List.getElem?_eq_some_iff.mp hfindings).1
  have hs₀ := List.getElem?_eq_getElem hk
  obtain ⟨found, s, hfound, hs, hsection⟩ := hpassed.sections k _ hs₀
  obtain rfl := Option.some.inj (hfindings.symm.trans hfound)
  have hmem := List.mem_of_getElem? hs₀
  have hdistinct := hsection.tokensDistinct (hadmits.distinct _ hmem)
  obtain ⟨t, p, q, c, base, signature, hserves, hstands, hp, hq, hc⟩ :=
    exists_serves (hsection.settled (hone _ hmem)) he
  -- the bytes that are stored for the flag constructor
  have hcmem := List.mem_of_find?_eq_some hserves.constructor_found
  have hcmethods : c ∈ s.methods :=
    List.mem_flatMap.mpr ⟨t, Section.mem_of_typeDef? hserves.found, hcmem⟩
  obtain ⟨bytes, hencoded, hlookup⟩ :=
    Image.lookup_of_encodeBodies hpassed.bodies hs hdistinct.methods hcmethods
  obtain ⟨hpleaves, hqleaves, rfl⟩ := encoded_dispatchBody hserves.body_eq hencoded
  have hbytes : store'.methodBytes? config.assembly k e.flagConstructor =
      some (0x66 :: dispatchCode base p.token q.token) := by
    rw [Store.methodBytes?, hafter, ← hc]
    exact hlookup
  refine ⟨after, s, t, p, q, c, base, signature, _, _, hafter, hs, hstands,
    ⟨mem_of_initializer? hserves.precompiled_found, hp,
      isInitializer_of_initializer? hserves.precompiled_found⟩,
    ⟨mem_of_initializer? hserves.runtime_found, hq,
      isInitializer_of_initializer? hserves.runtime_found⟩,
    ⟨hcmem, hc, isFlagConstructor_of_flagConstructor? hserves.constructor_found⟩,
    hserves.calls_base, hbytes, read_dispatch .., ?_⟩
  intro known isSet harguments hknownBase hknownp hknownq
  rw [← hp] at hknownp ⊢
  rw [← hq] at hknownq ⊢
  obtain ⟨m, returned, hm, hcalls, hstack, hlength⟩ :=
    hserves.run_dispatchCode hpleaves hqleaves harguments hknownBase hknownp hknownq
  refine ⟨m, returned, hm, ?_, hstack, hlength⟩
  rw [hcalls]
  cases isSet <;> rfl

end

/-! ## Samples -/

namespace Sample

/-- Nothing that is stored returns a value, and there is no reference to a method. -/
theorem void_rewritten : ∀ s ∈ (((rewritten .void).image? config.assembly).bind
    (·.assembly.sections[0]?)).toList, s.memberRefs = [] ∧
      ∀ m ∈ s.methods, m.signature.hasThis = true ∧ m.signature.returnsValue = false := by
  decide +kernel

/-- What a machine is told where initializers return nothing. -/
def surroundings (baseReturns : Nat) (isSet : Bool) : Surroundings :=
  ⟨[.object, .flag isSet], fun _ => 1, fun method => if method = ⟨0x06000001⟩ then baseReturns else 0⟩

end Sample

theorem run_dispatches_sample : ∃ bytes stored base,
    (Sample.rewritten .void).methodBytes? Sample.config.assembly 0 ⟨0x06000004⟩ = some bytes ∧
      StoredBody.read bytes = some stored ∧ ∀ isSet, ∃ m,
        Machine.run (Sample.surroundings 0 isSet) stored.code = some m ∧
          m.calls = [⟨base, [.object]⟩,
            ⟨if isSet then ⟨0x06000003⟩ else ⟨0x06000002⟩, [.object]⟩] ∧
          m.stack = [] := by
  obtain ⟨after, s, t, p, q, c, base, signature, bytes, stored, hafter, hs, hstands,
    ⟨hp, -, hpinit⟩, ⟨hq, -, hqinit⟩, ⟨hc, -⟩, hbase, hbytes, hstored, hruns⟩ :=
    run_dispatches Sample.ends_run_void rfl (Sample.admits .void) (Sample.hasOneInitializer .void)
      (rfl : Sample.report.findings[0]? = some _) (List.mem_singleton_self _)
  have hsection : s ∈ (((Sample.rewritten .void).image? Sample.config.assembly).bind
      (·.assembly.sections[0]?)).toList := by
    rw [hafter, Option.bind_some, hs]
    exact List.mem_singleton_self _
  obtain ⟨hrefs, hvoid⟩ := Sample.void_rewritten s hsection
  obtain ⟨_, hfind, -⟩ := hstands.typeName
  have ht : ∀ m ∈ t.methods, m ∈ s.methods := fun m hm =>
    List.mem_flatMap.mpr ⟨t, Section.mem_of_findType hfind, hm⟩
  have hbaseVoid : signature.returnsValue = false := by
    cases hbase with
    | defined _ _ hb hc =>
      exact (hvoid _ (List.mem_flatMap.mpr ⟨_, Section.mem_of_typeDef? hb,
        (shape_of_parameterlessConstructor? hc).1⟩)).2
    | referred _ _ _ _ hr =>
      rw [hrefs] at hr
      exact absurd hr (by simp)
  have hinitializer (m : MethodDef) (name : String) (hm : m ∈ t.methods)
      (hinit : m.isInitializer name = true) :
      m.signature.callPops = 1 ∧ returnCount m.signature.returnsValue = 0 := by
    obtain ⟨hthis, hreturns⟩ := hvoid m (ht m hm)
    have hparams := List.isEmpty_iff.mp (MethodDef.isInitializer_iff.mp hinit).2
    rw [Signature.callPops, hparams, hthis, hreturns]
    exact ⟨rfl, rfl⟩
  obtain ⟨hppops, hppushes⟩ := hinitializer p _ hp hpinit
  obtain ⟨hqpops, hqpushes⟩ := hinitializer q _ hq hqinit
  refine ⟨bytes, stored, base, hbytes, hstored, fun isSet => ?_⟩
  obtain ⟨m, returned, hm, hcalls, hstack, hlength⟩ :=
    hruns (Sample.surroundings 0 isSet) isSet rfl ⟨hbase.callPops.symm, by
      rw [hbaseVoid]
      exact ite_self _⟩ ⟨hppops.symm, hppushes.symm⟩ ⟨hqpops.symm, hqpushes.symm⟩
  have hpops : (if isSet then p else q).signature.callPops = 1 := by
    cases isSet with
    | true => exact hppops
    | false => exact hqpops
  refine ⟨m, hm, ?_, ?_⟩
  · rw [hcalls, hpops]
    rfl
  · rw [(hvoid c (ht c hc)).2] at hlength
    rw [hstack, hbaseVoid, List.length_eq_zero_iff.mp hlength]
    rfl

/-- A constructor of the base type that returns a value has it on the stack when the flag
constructor returns, although initializers return nothing. -/
theorem exists_run_leaving_result :
    (run Sample.config : Edit Store Report).Ends (Sample.store .int32) (.ok Sample.report)
        (Sample.rewritten .int32) ∧
      (Sample.assembly .int32).Admits Sample.report.findings ∧
      (Sample.assembly .int32).HasOneInitializer ∧
      ∃ bytes stored m,
        (Sample.rewritten .int32).methodBytes? Sample.config.assembly 0 ⟨0x06000004⟩ = some bytes ∧
        StoredBody.read bytes = some stored ∧
        (Sample.surroundings 1 true).Knows ⟨0x06000001⟩ (.instanceReturning .int32) ∧
        (Sample.surroundings 1 true).Knows ⟨0x06000002⟩ .instanceVoid ∧
        (Sample.surroundings 1 true).Knows ⟨0x06000003⟩ .instanceVoid ∧
        Machine.run (Sample.surroundings 1 true) stored.code = some m ∧
        m.stack = [.resultOf ⟨0x06000001⟩] := by
  have hbytes : (Sample.rewritten .int32).methodBytes? Sample.config.assembly 0 ⟨0x06000004⟩ =
      some (0x66 :: dispatchCode ⟨0x06000001⟩ ⟨0x06000003⟩ ⟨0x06000002⟩) := by decide +kernel
  exact ⟨Sample.ends_run_int32, Sample.admits .int32, Sample.hasOneInitializer .int32, _, _, _,
    hbytes, read_dispatch .., ⟨rfl, rfl⟩, ⟨rfl, rfl⟩, ⟨rfl, rfl⟩, rfl, rfl⟩

end DualInit
