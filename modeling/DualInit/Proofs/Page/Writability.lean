import DualInit.Proofs.Page.Progress
import DualInit.Proofs.Storage.Bodies

/-!
# When equipped types can be written

Equipping a type brings in two bodies: an empty one, in the place of an initializer that has moved,
and one that calls two initializers, in the flag constructor.  The first can be encoded if it has
nothing to return, and the second if what it calls leaves what the constructor returns
(`encode_dispatch`).  `TypeDef.Dispatches` says so of a type before any resource has selected it.

The body of a flag constructor is written over whenever another resource selects its type, so only
the last one counts.  `Equipping.writable_iff` follows this through one step, and
`ResourceSteps.writable_iff` through a pass: the types that are left can be encoded exactly if those
that were there were `Writable`, each for the number of its visits.
-/

namespace DualInit

/-! ## What a pass needs -/

namespace TypeDef

/-- Whether the flag constructor of a type returns a value; one that is added returns none. -/
def flagReturns (t : TypeDef) : Bool :=
  (t.flagConstructor?.map (·.signature.returnsValue)).getD false

/-- What the flag constructor of a type calls after a number of visits, as it stands in the type
before them.  An initializer that has to move is called under both names, as long as the empty one
in its place is the first of the name it had; if there is another one behind it, the second visit
finds that. -/
def called (visits : Nat) (t : TypeDef) : List MethodDef :=
  match t.initializer? runtimeName with
  | some runtime => (t.initializer? precompiledName).toList ++ [runtime]
  | none => (t.methods.filter (·.isInitializer precompiledName)).take (min visits 2)

/-- An initializer that has to move returns nothing, as the empty one in its place cannot. -/
def MovesVoid (t : TypeDef) : Prop :=
  t.initializer? runtimeName = none → ∀ whole, t.initializer? precompiledName = some whole →
    whole.signature.returnsValue = false

/-- What the flag constructor calls takes no more than the object and leaves what the constructor
returns. -/
def CallsLeave (visits : Nat) (t : TypeDef) : Prop :=
  ∀ m ∈ t.called visits, m.callSite.Leaves t.flagReturns

/-- The bodies that a number of visits bring into a type can be encoded. -/
structure Dispatches (visits : Nat) (t : TypeDef) : Prop where
  movesVoid : t.MovesVoid
  callsLeave : t.CallsLeave visits

/-- All methods of a type can be encoded. -/
def Encodes (t : TypeDef) : Prop :=
  ∀ m ∈ t.methods, m.Encodes

/-- All methods of a type but its flag constructor can be encoded. -/
def RestEncodes (t : TypeDef) : Prop :=
  ∀ m ∈ t.methods, t.flagConstructor?.map (·.token) ≠ some m.token → m.Encodes

/-- A type can be encoded after a number of visits. -/
def Writable : (visits : Nat) → TypeDef → Prop
  | 0, t => t.Encodes
  | visits + 1, t => t.RestEncodes ∧ t.Dispatches (visits + 1)

end TypeDef

variable {external : Resolver} {s s' : Section} {t u : TypeDef} {m p q c whole : MethodDef}
  {fresh base : Token} {body : MethodBody} {initializers : Initializers}
  {constructor : FlagConstructor} {r : Resource} {visits : Nat} {returnsValue : Bool}

/-! ## The two bodies -/

/-- The bytes of a dispatch body, if it can be encoded. -/
theorem encoded_dispatchBody {bytes : Option (List UInt8)}
    (hbody : c.body = some (dispatchBody base p q)) (hencoded : c.encoded = .ok bytes) :
    p.callSite.Leaves c.signature.returnsValue ∧ q.callSite.Leaves c.signature.returnsValue ∧
      bytes = some (0x66 :: dispatchCode base p.token q.token) := by
  rw [MethodDef.encoded, hbody] at hencoded
  obtain ⟨body, hbody, hbytes⟩ := except_bind_ok.mp hencoded
  obtain ⟨hp, hq, rfl⟩ := encode_dispatch.mp hbody
  obtain ⟨_, hmethodBytes, hbytes⟩ := except_bind_ok.mp hbytes
  obtain rfl := Except.ok.inj ((methodBytes_dispatch ..).symm.trans hmethodBytes)
  exact ⟨hp, hq, (Except.ok.inj hbytes).symm⟩

/-- A dispatch body can be encoded exactly if what it calls leaves what is returned. -/
theorem encodes_dispatchBody (hbody : c.body = some (dispatchBody base p q)) :
    c.Encodes ↔
      p.callSite.Leaves c.signature.returnsValue ∧ q.callSite.Leaves c.signature.returnsValue := by
  constructor
  · rintro ⟨bytes, hbytes⟩
    obtain ⟨hp, hq, -⟩ := encoded_dispatchBody hbody hbytes
    exact ⟨hp, hq⟩
  · rintro ⟨hp, hq⟩
    refine ⟨some (0x66 :: dispatchCode base p.token q.token), ?_⟩
    rw [MethodDef.encoded, hbody]
    exact except_bind_ok.mpr ⟨_, encode_dispatch.mpr ⟨hp, hq, rfl⟩,
      except_bind_ok.mpr ⟨_, methodBytes_dispatch .., rfl⟩⟩

/-- An empty method can be encoded exactly if it has nothing to return. -/
theorem encodes_placeholder :
    MethodDef.Encodes { m.placeholder with token := fresh } ↔ m.signature.returnsValue = false := by
  have hencoded : MethodDef.encoded { m.placeholder with token := fresh } =
      (do let encoded ← encode .emptyBody m.signature.returnsValue
          return some (← encoded.methodBytes false)) := rfl
  rw [MethodDef.Encodes, hencoded]
  cases m.signature.returnsValue with
  | false => exact ⟨fun _ => rfl, fun _ => ⟨_, rfl⟩⟩
  | true =>
    constructor
    · rintro ⟨bytes, hbytes⟩
      cases hbytes
    · intro h
      exact absurd h (by simp)

/-- The empty method in the place of an initializer is called like the initializer. -/
theorem leaves_placeholder {name : String} (h : m.isInitializer name = true) :
    (MethodDef.callSite { m.placeholder with token := fresh }).Leaves returnsValue ↔
      m.callSite.Leaves returnsValue := by
  have hparams := (MethodDef.isInitializer_iff.mp h).2
  rw [MethodDef.isParameterless, Signature.isParameterless, List.isEmpty_iff] at hparams
  have hsignature : m.placeholder.signature = m.signature := by
    rw [MethodDef.placeholder, ← hparams]
  rw [MethodDef.callSite, MethodDef.callSite, hsignature]
  exact Iff.rfl

/-- An initializer that has moved is called as it was. -/
theorem leaves_moved :
    m.moved.callSite.Leaves returnsValue ↔ m.callSite.Leaves returnsValue :=
  Iff.rfl

/-! ## Fitting -/

namespace TypeDef

/-- What holds of all methods after a replacement holds of the new one and of the others. -/
theorem forall_mem_setMethod {P : MethodDef → Prop} (hold : m.token ∈ t.methods.map (·.token)) :
    (∀ r ∈ (t.setMethod m).methods, P r) ↔ P m ∧ ∀ r ∈ t.methods, r.token ≠ m.token → P r :=
  Rows.forall_mem_set hold

/-- A type can be encoded if its flag constructor and the rest of it can. -/
theorem encodes_iff (hdistinct : (t.methods.map (·.token)).Nodup)
    (hc : t.flagConstructor? = some c) : t.Encodes ↔ t.RestEncodes ∧ c.Encodes := by
  have hmem := List.mem_of_find?_eq_some hc
  constructor
  · intro h
    exact ⟨fun m hm _ => h m hm, h c hmem⟩
  · rintro ⟨hrest, hflag⟩ m hm
    by_cases htoken : c.token = m.token
    · rw [← eq_of_mem_of_token hdistinct hmem hm htoken]
      exact hflag
    · refine hrest m hm ?_
      rw [hc]
      exact fun heq => htoken (Option.some.inj heq)

/-- Nothing but the flag constructor of a type is changed by fitting it. -/
theorem Fitted.restEncodes_iff (h : t.Fitted fresh body constructor u)
    (hdistinct : (t.methods.map (·.token)).Nodup) (hdistinct' : (u.methods.map (·.token)).Nodup) :
    u.RestEncodes ↔ t.RestEncodes := by
  obtain ⟨c, hc, htoken, -⟩ := h.flagConstructor? hdistinct
  unfold RestEncodes
  rw [hc, Option.map_some, htoken]
  cases h with
  | @replaced old hold =>
    have hmem : (old.withBody body).token ∈ t.methods.map (·.token) :=
      List.mem_map.mpr ⟨old, List.mem_of_find?_eq_some hold, rfl⟩
    rw [hold, Option.map_some, forall_mem_setMethod hmem]
    constructor
    · rintro ⟨-, h⟩ m hm hne
      exact h m hm (fun heq => hne (congrArg some heq.symm)) hne
    · intro h
      exact ⟨fun hne => absurd rfl hne, fun m hm _ hne => h m hm hne⟩
  | added hnone =>
    have hnew := notMem_of_append hdistinct'
    rw [hnone, Option.map_none, methods_append, List.forall_mem_append, List.forall_mem_singleton]
    constructor
    · rintro ⟨h, -⟩ m hm -
      refine h m hm fun heq => hnew ?_
      exact List.mem_map.mpr ⟨m, hm, (Option.some.inj heq).symm⟩
    · intro h
      exact ⟨fun m hm _ => h m hm (by simp), fun hne => absurd rfl hne⟩

/-- Fitting a type does not change what its flag constructor returns. -/
theorem Fitted.flagReturns_eq (h : t.Fitted fresh body constructor u)
    (hdistinct : (t.methods.map (·.token)).Nodup) (hdistinct' : (u.methods.map (·.token)).Nodup) :
    u.flagReturns = t.flagReturns := by
  obtain ⟨c, hc, htoken, -⟩ := h.flagConstructor? hdistinct
  have hmem := List.mem_of_find?_eq_some hc
  rw [flagReturns, flagReturns, hc]
  cases h with
  | @replaced old hold =>
    rw [hold]
    rcases Rows.mem_set.mp hmem with ⟨-, hne⟩ | ⟨-, -, -, rfl⟩
    · exact absurd htoken hne
    · rfl
  | added hnone =>
    rw [hnone]
    rcases List.mem_append.mp hmem with hmem | hmem
    · exact absurd (List.mem_map.mpr ⟨c, hmem, htoken⟩) (notMem_of_append hdistinct')
    · rw [List.mem_singleton.mp hmem]
      rfl

/-- A fitted type can be encoded exactly if the rest of it can and its constructor calls what
leaves what it returns. -/
theorem Fitted.encodes_iff (h : t.Fitted fresh (dispatchBody base p q) constructor u)
    (hdistinct : (t.methods.map (·.token)).Nodup) (hdistinct' : (u.methods.map (·.token)).Nodup) :
    u.Encodes ↔ t.RestEncodes ∧ p.callSite.Leaves t.flagReturns ∧
      q.callSite.Leaves t.flagReturns := by
  obtain ⟨c, hc, -, hbody⟩ := h.flagConstructor? hdistinct
  have hreturns := h.flagReturns_eq hdistinct hdistinct'
  rw [flagReturns, hc, Option.map_some, Option.getD_some] at hreturns
  rw [TypeDef.encodes_iff hdistinct' hc, h.restEncodes_iff hdistinct hdistinct',
    encodes_dispatchBody hbody, hreturns]

/-! ## Halving -/

theorem Halved.flagReturns_eq (h : t.Halved fresh initializers u)
    (hdistinct : (t.methods.map (·.token)).Nodup) : u.flagReturns = t.flagReturns := by
  rw [flagReturns, flagReturns, h.flagConstructor? hdistinct]

/-- Halving a type adds a method that can be encoded exactly if what was moved returns nothing. -/
theorem Halved.restEncodes_iff (h : t.Halved fresh initializers u)
    (hdistinct : (t.methods.map (·.token)).Nodup) (hdistinct' : (u.methods.map (·.token)).Nodup) :
    u.RestEncodes ↔ t.RestEncodes ∧ t.MovesVoid := by
  have hflag := h.flagConstructor? hdistinct
  unfold RestEncodes
  rw [hflag]
  cases h with
  | kept _ hruntime =>
    exact ⟨fun h => ⟨h, fun hnone => absurd (hruntime.symm.trans hnone) (by simp)⟩, And.left⟩
  | @split whole hwhole hnone =>
    have hmem := mem_of_initializer? hwhole
    have hmoves : t.MovesVoid ↔ whole.signature.returnsValue = false := by
      constructor
      · intro h
        exact h hnone whole hwhole
      · rintro h - whole' hwhole'
        rw [← Option.some.inj (hwhole.symm.trans hwhole')]
        exact h
    -- the moved method can be encoded if it could before
    have hold : whole.moved.token ∈ t.methods.map (·.token) :=
      List.mem_map.mpr ⟨whole, hmem, rfl⟩
    have hmoved : (∀ m ∈ (t.setMethod whole.moved).methods,
          t.flagConstructor?.map (·.token) ≠ some m.token → m.Encodes) ↔
        ∀ m ∈ t.methods, t.flagConstructor?.map (·.token) ≠ some m.token → m.Encodes := by
      rw [forall_mem_setMethod hold]
      exact (Rows.forall_mem_of_mem (p := fun m =>
        t.flagConstructor?.map (·.token) ≠ some m.token → m.Encodes) hdistinct hmem).symm
    -- and the new one is no constructor
    have hnew : t.flagConstructor?.map (·.token) ≠ some fresh := by
      intro heq
      obtain ⟨c, hc, rfl⟩ := Option.map_eq_some_iff.mp heq
      have hfresh := notMem_of_append hdistinct'
      rw [map_token_setMethod] at hfresh
      exact hfresh (List.mem_map.mpr ⟨c, List.mem_of_find?_eq_some hc, rfl⟩)
    rw [methods_append, List.forall_mem_append, List.forall_mem_singleton, hmoved, hmoves]
    exact and_congr_right fun _ =>
      ⟨fun h => encodes_placeholder.mp (h hnew), fun h _ => encodes_placeholder.mpr h⟩

/-- A type, its two initializers once it is halved, and the type with both; a method that is added
takes the token `fresh`. -/
inductive Halves (fresh : Token) (t : TypeDef) : MethodDef → MethodDef → TypeDef → Prop where
  /-- Both were there. -/
  | kept {p q : MethodDef} (hwhole : t.initializer? precompiledName = some p)
      (hruntime : t.initializer? runtimeName = some q) : Halves fresh t p q t
  /-- One has moved, and an empty one is in its place. -/
  | split {whole : MethodDef} (hwhole : t.initializer? precompiledName = some whole)
      (hnone : t.initializer? runtimeName = none) :
      Halves fresh t { whole.placeholder with token := fresh } whole.moved
        ((t.setMethod whole.moved).append { whole.placeholder with token := fresh })

/-- The methods that have the tokens of the initializers are the initializers. -/
theorem Halved.halves (h : t.Halved fresh initializers u)
    (hdistinct : (u.methods.map (·.token)).Nodup) (hp : p ∈ u.methods)
    (hptoken : p.token = initializers.precompiled) (hq : q ∈ u.methods)
    (hqtoken : q.token = initializers.runtime) : t.Halves fresh p q u := by
  cases h with
  | @kept whole runtime hwhole hruntime =>
    obtain rfl := eq_of_mem_of_token hdistinct hp (mem_of_initializer? hwhole) hptoken
    obtain rfl := eq_of_mem_of_token hdistinct hq (mem_of_initializer? hruntime) hqtoken
    exact .kept hwhole hruntime
  | @split whole hwhole hnone =>
    have hmoved : whole.moved ∈ (t.setMethod whole.moved).methods :=
      Rows.mem_set.mpr (Or.inr ⟨whole, mem_of_initializer? hwhole, rfl, rfl⟩)
    obtain rfl := eq_of_mem_of_token hdistinct hp
      (List.mem_append_right _ (List.mem_singleton_self _)) hptoken
    obtain rfl := eq_of_mem_of_token hdistinct hq (List.mem_append_left _ hmoved) hqtoken
    exact .split hwhole hnone

/-! ## What is called -/

theorem called_of_runtime (h : t.initializer? runtimeName = some q) :
    t.called visits = (t.initializer? precompiledName).toList ++ [q] := by
  rw [called, h]

/-- The first initializer of a name, and the ones behind it. -/
theorem exists_filter_eq_cons {name : String} (h : t.initializer? name = some m) :
    ∃ rest, t.methods.filter (·.isInitializer name) = m :: rest := by
  have hhead : (t.methods.filter (·.isInitializer name)).head? = some m :=
    List.head?_filter.trans h
  exact List.head?_eq_some_iff.mp hhead

/-- Where an initializer has moved, the first of the name it had is the next one or the empty one
in its place. -/
theorem initializer?_append_placeholder {rest : List MethodDef}
    (hdistinct : (t.methods.map (·.token)).Nodup)
    (hwhole : t.methods.filter (·.isInitializer precompiledName) = whole :: rest) :
    ((t.setMethod whole.moved).append { whole.placeholder with token := fresh }).initializer?
        precompiledName = some (rest.head?.getD { whole.placeholder with token := fresh }) := by
  have hfirst : t.initializer? precompiledName = some whole := by
    rw [initializer?, ← List.head?_filter, hwhole, List.head?_cons]
  have hname : whole.moved.isInitializer precompiledName = false := by
    have hne : (runtimeName == precompiledName) = false := by decide
    rw [MethodDef.isInitializer, MethodDef.moved, hne, Bool.false_and]
  have hrest : (t.setMethod whole.moved).methods.filter (·.isInitializer precompiledName) = rest := by
    have htail : (t.setMethod whole.moved).methods.filter (·.isInitializer precompiledName) =
        (t.methods.filter (·.isInitializer precompiledName)).tail :=
      Rows.filter_set_eq_tail hdistinct hfirst rfl hname
    rw [htail, hwhole, List.tail_cons]
  have hnew : MethodDef.isInitializer precompiledName
      { whole.placeholder with token := fresh } = true :=
    MethodDef.isInitializer_iff.mpr ⟨rfl, rfl⟩
  rw [initializer?, methods_append, List.find?_append, ← List.head?_filter, hrest,
    List.find?_singleton, if_pos hnew]
  cases rest <;> rfl

/-- After one visit the two initializers are called. -/
theorem Halves.forall_called_one (h : t.Halves fresh p q u) :
    (∀ m ∈ t.called 1, m.callSite.Leaves returnsValue) ↔
      p.callSite.Leaves returnsValue ∧ q.callSite.Leaves returnsValue := by
  cases h with
  | kept hwhole hruntime =>
    rw [called_of_runtime hruntime, hwhole]
    simp
  | split hwhole hnone =>
    -- both call sites are those of the initializer that has moved
    obtain ⟨rest, hfilter⟩ := exists_filter_eq_cons hwhole
    rw [called, hnone, leaves_placeholder (isInitializer_of_initializer? hwhole), leaves_moved,
      and_self]
    simp [hfilter]

/-- After more visits the same is called as if the first one had been made already. -/
theorem Halves.forall_called_succ (h : t.Halves fresh p q u)
    (hdistinct : (t.methods.map (·.token)).Nodup) :
    (∀ m ∈ t.called (visits + 2), m.callSite.Leaves returnsValue) ↔
      ∀ m ∈ (u.initializer? precompiledName).toList ++ [q], m.callSite.Leaves returnsValue := by
  cases h with
  | kept hwhole hruntime => rw [called_of_runtime hruntime]
  | split hwhole hnone =>
    obtain ⟨rest, hfilter⟩ := exists_filter_eq_cons hwhole
    have htwo : min (visits + 2) 2 = 2 := by omega
    rw [called, hnone, htwo, hfilter, initializer?_append_placeholder hdistinct hfilter]
    cases rest with
    | nil => simp [leaves_placeholder (isInitializer_of_initializer? hwhole), leaves_moved]
    | cons second rest => simp [leaves_moved, and_comm]

end TypeDef

/-! ## A step -/

namespace Equipping

variable (e : Equipping external s)

theorem after_distinct (hs' : e.result.TokensDistinct) :
    (e.after.methods.map (·.token)).Nodup :=
  hs'.of_mem (Section.mem_of_typeDef? e.typeDef?_result_self)

theorem before_halves :
    e.before.Halves s.nextMethodToken e.precompiled e.runtime e.halves :=
  e.halved.halves e.halves_distinct e.precompiled_mem rfl e.runtime_mem rfl

theorem initializer?_after_runtime : e.after.initializer? runtimeName = some e.runtime := by
  obtain ⟨q, hq, htoken⟩ := e.halved.initializer?_runtime
  obtain rfl := TypeDef.eq_of_mem_of_token e.halves_distinct (mem_of_initializer? hq)
    e.runtime_mem htoken
  exact (e.fitted.initializer? e.halves_distinct _).trans hq

/-- An equipped type can be visited again if what is called then leaves what is returned. -/
theorem dispatches_after_iff (hs : s.TokensDistinct) (hs' : e.result.TokensDistinct) :
    e.after.Dispatches (visits + 1) ↔ e.before.CallsLeave (visits + 2) := by
  have hbefore := hs.of_mem e.before_mem
  have hreturns : e.after.flagReturns = e.before.flagReturns :=
    (e.fitted.flagReturns_eq e.halves_distinct (e.after_distinct hs')).trans
      (e.halved.flagReturns_eq hbefore)
  have hmoves : e.after.MovesVoid := fun hnone =>
    absurd (e.initializer?_after_runtime.symm.trans hnone) (by simp)
  have hcalls : e.after.CallsLeave (visits + 1) ↔ e.before.CallsLeave (visits + 2) := by
    rw [TypeDef.CallsLeave, TypeDef.CallsLeave, hreturns,
      TypeDef.called_of_runtime e.initializer?_after_runtime,
      e.fitted.initializer? e.halves_distinct]
    exact (e.before_halves.forall_called_succ hbefore).symm
  exact ⟨fun h => hcalls.mp h.callsLeave, fun h => ⟨hmoves, hcalls.mpr h⟩⟩

/-- A type can be encoded after its visits exactly if it can after the ones that are left, once the
first one is made. -/
theorem writable_iff (hs : s.TokensDistinct) (hs' : e.result.TokensDistinct) :
    e.before.Writable (visits + 1) ↔ e.after.Writable visits := by
  have hbefore := hs.of_mem e.before_mem
  have hhalves := e.halves_distinct
  have hafter := e.after_distinct hs'
  have hrest := e.halved.restEncodes_iff hbefore hhalves
  have hwritable : e.before.Writable (visits + 1) ↔
      (e.before.RestEncodes ∧ e.before.MovesVoid) ∧ e.before.CallsLeave (visits + 1) :=
    ⟨fun h => ⟨⟨h.1, h.2.movesVoid⟩, h.2.callsLeave⟩, fun h => ⟨h.1.1, h.1.2, h.2⟩⟩
  rw [hwritable]
  cases visits with
  | zero =>
    have hcalled : e.before.CallsLeave 1 ↔ e.precompiled.callSite.Leaves e.before.flagReturns ∧
        e.runtime.callSite.Leaves e.before.flagReturns :=
      e.before_halves.forall_called_one
    have hencodes := e.fitted.encodes_iff hhalves hafter
    rw [hrest, e.halved.flagReturns_eq hbefore, ← hcalled] at hencodes
    exact hencodes.symm
  | succ visits =>
    have hagain : e.after.Writable (visits + 1) ↔
        e.after.RestEncodes ∧ e.after.Dispatches (visits + 1) := Iff.rfl
    rw [hagain, e.fitted.restEncodes_iff hhalves hafter, hrest, e.dispatches_after_iff hs hs']

end Equipping

/-! ## A pass -/

/-- The types that a pass leaves can be encoded exactly if those that were there were writable,
each for as many visits as there are resources that select it. -/
theorem ResourceSteps.writable_iff {resources : List Resource} {findings : List Finding}
    (h : ResourceSteps external s resources findings s') :
    (∀ t ∈ s.types, t.Writable (s.visits resources t.token)) ↔ ∀ t ∈ s'.types, t.Encodes := by
  induction h with
  | nil s => exact Iff.rfl
  | @cons s u s' r rest finding findings hs hends hstep ht hrest ih =>
    cases finding with
    | skipped skip =>
      obtain ⟨hnone, rfl⟩ := hstep.selected?_eq_none
      simp only [Section.visits_cons_none hnone]
      exact ih
    | equipped e =>
      obtain ⟨q, hselected, rfl⟩ := hstep.exists_equipping
      have hu : q.result.types = Rows.set TypeDef.token q.after s.types := q.types_result
      have hafter : q.after.token ∈ s.types.map (·.token) :=
        List.mem_map.mpr ⟨q.before, q.before_mem, q.token_after.symm⟩
      rw [← ih, hu, Rows.forall_mem_set hafter, Rows.forall_mem_of_mem hs.types q.before_mem,
        q.token_after]
      simp only [q.visits_result hs ht, Section.visits_cons_some hselected]
      refine and_congr ?_ (forall₃_congr fun t _ hne => ?_)
      · rw [if_pos trivial]
        exact q.writable_iff hs ht
      · rw [if_neg hne.symm, Nat.add_zero]

end DualInit
