import DualInit.Proofs.Endings
import DualInit.Storage.Image

/-!
# The bodies that were encoded

Writing an assembly lists the bytes of every body under its section and its method.  Where the
methods of a section have distinct tokens, what is found under one of them are the bytes of that
method's own body (`lookup_of_encodeBodies`): nothing that is listed later hides it.  Under
anything else nothing is found (`lookup_eq_none_of_encodeBodies`).

The list comes about exactly if every body can be encoded (`exists_encodeBodies`).  If some of
them cannot, the first of these says what is wrong (`encodeBodies_error`).
-/

namespace DualInit

/-- A method has no body, or its body can be encoded. -/
def MethodDef.Encodes (m : MethodDef) : Prop :=
  ∃ bytes, m.encoded = .ok bytes

/-- A body is stored as its header with its code behind. -/
theorem MethodDef.encoded_ok_of_body {m : MethodDef} {body : MethodBody} {bytes : Option (List UInt8)}
    (hbody : m.body = some body) : m.encoded = .ok bytes ↔ ∃ b header,
      encode body.instructions m.signature.returnsValue = .ok b ∧
      b.header body.initLocals = .ok header ∧ bytes = some (header ++ b.code) := by
  simp only [encoded, hbody, EncodedBody.methodBytes, except_bind_ok, pure, Except.pure]
  constructor
  · rintro ⟨b, hb, stored, ⟨header, hheader, hstored⟩, hbytes⟩
    rw [← Except.ok.inj hbytes, ← Except.ok.inj hstored]
    exact ⟨b, header, hb, hheader, rfl⟩
  · rintro ⟨b, header, hb, hheader, rfl⟩
    exact ⟨b, hb, _, ⟨header, hheader, rfl⟩, rfl⟩

/-- Nothing is stored of a method without a body. -/
theorem MethodDef.encoded_of_no_body {m : MethodDef} (hbody : m.body = none) :
    m.encoded = .ok none := by
  rw [encoded, hbody]

namespace Image

variable {sofar bodies : List ((Nat × Token) × List UInt8)} {index i : Nat} {methods : List MethodDef}
  {sections : List Section} {s : Section} {m : MethodDef} {token : Token}

theorem encodeMethods_cons_ok :
    encodeMethods index (m :: methods) sofar = .ok bodies ↔ ∃ bytes, m.encoded = .ok bytes ∧
      encodeMethods index methods
        ((bytes.map fun b => ((index, m.token), b)).toList ++ sofar) = .ok bodies := by
  rw [encodeMethods, except_bind_ok]
  constructor
  · rintro ⟨bytes, hbytes, h⟩
    cases bytes <;> exact ⟨_, hbytes, h⟩
  · rintro ⟨bytes, hbytes, h⟩
    cases bytes <;> exact ⟨_, hbytes, h⟩

/-- What is listed for one method is not found under another one. -/
theorem lookup_listed_of_ne {key other : Nat × Token} (bytes : Option (List UInt8))
    (hne : key ≠ other) : ((bytes.map fun b => (other, b)).toList ++ sofar).lookup key =
      sofar.lookup key := by
  cases bytes with
  | none => rfl
  | some b =>
    show List.lookup key ((other, b) :: sofar) = _
    rw [List.lookup_cons, beq_false_of_ne hne]

/-- The bodies of methods are listed under these methods only. -/
theorem lookup_encodeMethods_of_ne (h : encodeMethods index methods sofar = .ok bodies)
    (hne : i ≠ index ∨ token ∉ methods.map (·.token)) :
    bodies.lookup (i, token) = sofar.lookup (i, token) := by
  induction methods generalizing sofar with
  | nil => rw [Except.ok.inj h]
  | cons m methods ih =>
    obtain ⟨bytes, -, hrest⟩ := encodeMethods_cons_ok.mp h
    have hkey : (i, token) ≠ (index, m.token) := by
      rintro heq
      obtain ⟨hi, htoken⟩ := Prod.mk.inj heq
      rcases hne with hne | hne
      · exact hne hi
      · exact hne (htoken ▸ List.mem_cons_self)
    rw [ih hrest (hne.imp_right fun hne hmem => hne (List.mem_cons_of_mem _ hmem)),
      lookup_listed_of_ne bytes hkey]

/-- The bytes of a method's body are found under the method. -/
theorem lookup_encodeMethods (h : encodeMethods index methods sofar = .ok bodies)
    (hdistinct : (methods.map (·.token)).Nodup) (hm : m ∈ methods)
    (hnew : sofar.lookup (index, m.token) = none) :
    ∃ bytes, m.encoded = .ok bytes ∧ bodies.lookup (index, m.token) = bytes := by
  induction methods generalizing sofar with
  | nil => exact absurd hm List.not_mem_nil
  | cons first methods ih =>
    obtain ⟨bytes, hbytes, hrest⟩ := encodeMethods_cons_ok.mp h
    rw [List.map_cons, List.nodup_cons] at hdistinct
    rcases List.mem_cons.mp hm with rfl | hm
    · refine ⟨bytes, hbytes, ?_⟩
      rw [lookup_encodeMethods_of_ne hrest (Or.inr hdistinct.1)]
      cases bytes with
      | none => exact hnew
      | some b =>
        show List.lookup _ ((_, b) :: sofar) = _
        rw [List.lookup_cons, beq_self_eq_true]
    · have hne : (index, m.token) ≠ (index, first.token) := fun heq =>
        hdistinct.1 ((Prod.mk.inj heq).2 ▸ List.mem_map_of_mem hm)
      exact ih hrest hdistinct.2 hm ((lookup_listed_of_ne bytes hne).trans hnew)

theorem encodeSections_cons_ok :
    encodeSections index (s :: sections) sofar = .ok bodies ↔ ∃ between,
      encodeMethods index s.methods sofar = .ok between ∧
      encodeSections (index + 1) sections between = .ok bodies := by
  rw [encodeSections, except_bind_ok]

/-- Sections leave alone what is listed for those before them. -/
theorem lookup_encodeSections_of_lt (h : encodeSections index sections sofar = .ok bodies)
    (hi : i < index) : bodies.lookup (i, token) = sofar.lookup (i, token) := by
  induction sections generalizing index sofar with
  | nil => rw [Except.ok.inj h]
  | cons s sections ih =>
    obtain ⟨between, hfirst, hrest⟩ := encodeSections_cons_ok.mp h
    rw [ih hrest (by omega), lookup_encodeMethods_of_ne hfirst (Or.inl (by omega))]

theorem lookup_encodeSections (h : encodeSections index sections sofar = .ok bodies)
    (hs : sections[i]? = some s) (hdistinct : (s.methods.map (·.token)).Nodup)
    (hm : m ∈ s.methods) (hnew : sofar.lookup (index + i, m.token) = none) :
    ∃ bytes, m.encoded = .ok bytes ∧ bodies.lookup (index + i, m.token) = bytes := by
  induction sections generalizing index sofar i with
  | nil => simp at hs
  | cons first sections ih =>
    obtain ⟨between, hfirst, hrest⟩ := encodeSections_cons_ok.mp h
    cases i with
    | zero =>
      obtain rfl := Option.some.inj hs
      obtain ⟨bytes, hbytes, hlookup⟩ := lookup_encodeMethods hfirst hdistinct hm hnew
      exact ⟨bytes, hbytes, (lookup_encodeSections_of_lt hrest (by omega)).trans hlookup⟩
    | succ i =>
      have hindex : index + (i + 1) = index + 1 + i := by omega
      rw [hindex] at hnew ⊢
      refine ih hrest hs ?_
      rw [lookup_encodeMethods_of_ne hfirst (Or.inl (by omega)), hnew]

/-- Under a section and one of its methods stand the bytes of the method's body. -/
theorem lookup_of_encodeBodies {a : Assembly} (h : encodeBodies a = .ok bodies)
    (hs : a.sections[i]? = some s) (hdistinct : (s.methods.map (·.token)).Nodup)
    (hm : m ∈ s.methods) :
    ∃ bytes, m.encoded = .ok bytes ∧ bodies.lookup (i, m.token) = bytes := by
  have hfound := lookup_encodeSections h hs hdistinct hm rfl
  rwa [Nat.zero_add] at hfound

/-- Where a section has no method of a token, nothing is listed for it. -/
theorem lookup_encodeSections_of_notMem (h : encodeSections index sections sofar = .ok bodies)
    (hout : ∀ s, sections[i]? = some s → token ∉ s.methods.map (·.token)) :
    bodies.lookup (index + i, token) = sofar.lookup (index + i, token) := by
  induction sections generalizing index sofar i with
  | nil => rw [Except.ok.inj h]
  | cons first sections ih =>
    obtain ⟨between, hfirst, hrest⟩ := encodeSections_cons_ok.mp h
    cases i with
    | zero =>
      rw [Nat.add_zero, lookup_encodeSections_of_lt hrest (by omega),
        lookup_encodeMethods_of_ne hfirst (Or.inr (hout first rfl))]
    | succ i =>
      have hindex : index + (i + 1) = index + 1 + i := by omega
      rw [hindex, ih hrest hout, lookup_encodeMethods_of_ne hfirst (Or.inl (by omega))]

/-- Nothing is found under a section and a token that is none of a method with a body in it. -/
theorem lookup_eq_none_of_encodeBodies {a : Assembly} (h : encodeBodies a = .ok bodies)
    (hdistinct : ∀ s ∈ a.sections, (s.methods.map (·.token)).Nodup)
    (hout : ∀ s, a.sections[i]? = some s → ∀ m ∈ s.methods, m.token = token → m.body = none) :
    bodies.lookup (i, token) = none := by
  by_cases hsome : ∃ s, a.sections[i]? = some s ∧ ∃ m ∈ s.methods, m.token = token
  · obtain ⟨s, hs, m, hm, rfl⟩ := hsome
    obtain ⟨bytes, hbytes, hlookup⟩ :=
      lookup_of_encodeBodies h hs (hdistinct s (List.mem_of_getElem? hs)) hm
    rw [MethodDef.encoded_of_no_body (hout s hs m hm rfl)] at hbytes
    rw [hlookup, ← Except.ok.inj hbytes]
  · have hnone : ∀ s, a.sections[i]? = some s → token ∉ s.methods.map (·.token) := by
      intro s hs hmem
      obtain ⟨m, hm, htoken⟩ := List.mem_map.mp hmem
      exact hsome ⟨s, hs, m, hm, htoken⟩
    have hlisted := lookup_encodeSections_of_notMem h hnone
    rwa [Nat.zero_add] at hlisted

/-! ## When all bodies can be encoded -/

theorem exists_encodeMethods :
    (∃ bodies, encodeMethods index methods sofar = .ok bodies) ↔ ∀ m ∈ methods, m.Encodes := by
  induction methods generalizing sofar with
  | nil => exact ⟨fun _ _ hm => absurd hm List.not_mem_nil, fun _ => ⟨sofar, rfl⟩⟩
  | cons m methods ih =>
    simp only [encodeMethods_cons_ok, List.forall_mem_cons]
    constructor
    · rintro ⟨bodies, bytes, hbytes, hrest⟩
      exact ⟨⟨bytes, hbytes⟩, ih.mp ⟨bodies, hrest⟩⟩
    · rintro ⟨⟨bytes, hbytes⟩, hrest⟩
      obtain ⟨bodies, hbodies⟩ := ih.mpr hrest
      exact ⟨bodies, bytes, hbytes, hbodies⟩

theorem exists_encodeSections : (∃ bodies, encodeSections index sections sofar = .ok bodies) ↔
    ∀ s ∈ sections, ∀ m ∈ s.methods, m.Encodes := by
  induction sections generalizing index sofar with
  | nil => exact ⟨fun _ _ hs => absurd hs List.not_mem_nil, fun _ => ⟨sofar, rfl⟩⟩
  | cons s sections ih =>
    simp only [encodeSections_cons_ok, List.forall_mem_cons]
    constructor
    · rintro ⟨bodies, between, hfirst, hrest⟩
      exact ⟨exists_encodeMethods.mp ⟨between, hfirst⟩, ih.mp ⟨bodies, hrest⟩⟩
    · rintro ⟨hfirst, hrest⟩
      obtain ⟨between, hbetween⟩ := exists_encodeMethods.mpr hfirst
      obtain ⟨bodies, hbodies⟩ := ih.mpr hrest
      exact ⟨bodies, between, hbetween, hbodies⟩

/-- The bodies of an assembly can be encoded if each of them can. -/
theorem exists_encodeBodies {a : Assembly} :
    (∃ bodies, encodeBodies a = .ok bodies) ↔ ∀ s ∈ a.sections, ∀ m ∈ s.methods, m.Encodes :=
  exists_encodeSections

/-! ## When some body cannot be encoded -/

/-- The first of some methods whose body cannot be encoded, and what is wrong with it. -/
def FirstFault (methods : List MethodDef) (e : Error) : Prop :=
  ∃ front m back, methods = front ++ m :: back ∧ (∀ x ∈ front, x.Encodes) ∧ m.encoded = .error e

variable {e : Error}

theorem firstFault_cons :
    FirstFault (m :: methods) e ↔ m.encoded = .error e ∨ m.Encodes ∧ FirstFault methods e := by
  constructor
  · rintro ⟨front, x, back, hsplit, hfront, hx⟩
    cases front with
    | nil =>
      obtain ⟨rfl, rfl⟩ := List.cons.inj hsplit
      exact Or.inl hx
    | cons first front =>
      obtain ⟨rfl, hrest⟩ := List.cons.inj hsplit
      rw [List.forall_mem_cons] at hfront
      exact Or.inr ⟨hfront.1, front, x, back, hrest, hfront.2, hx⟩
  · rintro (hm | ⟨hm, front, x, back, rfl, hfront, hx⟩)
    · exact ⟨[], m, methods, rfl, fun _ h => absurd h List.not_mem_nil, hm⟩
    · exact ⟨m :: front, x, back, rfl, List.forall_mem_cons.mpr ⟨hm, hfront⟩, hx⟩

theorem not_firstFault_nil : ¬ FirstFault [] e := by
  rintro ⟨front, x, back, hsplit, -, -⟩
  exact absurd hsplit (by simp)

theorem firstFault_append {others : List MethodDef} :
    FirstFault (methods ++ others) e ↔
      FirstFault methods e ∨ (∀ m ∈ methods, m.Encodes) ∧ FirstFault others e := by
  induction methods with
  | nil => simp [not_firstFault_nil]
  | cons m methods ih =>
    rw [List.cons_append, firstFault_cons, firstFault_cons, ih, List.forall_mem_cons, and_or_left,
      or_assoc, and_assoc]

theorem encodeMethods_error :
    encodeMethods index methods sofar = .error e ↔ FirstFault methods e := by
  induction methods generalizing sofar with
  | nil => exact ⟨(nomatch ·), fun h => absurd h not_firstFault_nil⟩
  | cons m methods ih =>
    rw [firstFault_cons, encodeMethods, MethodDef.Encodes]
    rcases m.encoded with e' | _ | bytes
    · simp [bind, Except.bind]
    · simp [bind, Except.bind, ih]
    · simp [bind, Except.bind, ih]

theorem encodeSections_error : encodeSections index sections sofar = .error e ↔
    FirstFault (sections.flatMap Section.methods) e := by
  induction sections generalizing index sofar with
  | nil => exact ⟨(nomatch ·), fun h => absurd h not_firstFault_nil⟩
  | cons s sections ih =>
    rw [encodeSections, except_bind_error, encodeMethods_error, List.flatMap_cons, firstFault_append]
    simp only [ih, exists_and_right, exists_encodeMethods]

/-- The bodies of an assembly cannot be encoded exactly if there is a first one that cannot, in the
order of sections, types and methods; it says what is wrong. -/
theorem encodeBodies_error {a : Assembly} :
    encodeBodies a = .error e ↔ FirstFault (a.sections.flatMap Section.methods) e :=
  encodeSections_error

/-! ## Symbols are not encoded -/

theorem encodeSections_congr {others : List Section}
    (h : others.map Section.withoutSymbols = sections.map Section.withoutSymbols) :
    encodeSections index others sofar = encodeSections index sections sofar := by
  induction others generalizing sections index sofar with
  | nil => rw [List.map_eq_nil_iff.mp h.symm]
  | cons s' others ih =>
    obtain ⟨s, rest, rfl, hfirst, hrest⟩ := List.map_eq_cons_iff.mp h.symm
    have hmethods : s.withoutSymbols.methods = s'.withoutSymbols.methods := by rw [hfirst]
    change s.methods = s'.methods at hmethods
    rw [encodeSections, encodeSections, hmethods]
    exact bind_congr fun between => ih hrest.symm

/-- Assemblies that differ in nothing but symbols have the same bodies. -/
theorem encodeBodies_congr {a b : Assembly} (h : a.withoutSymbols = b.withoutSymbols) :
    encodeBodies a = encodeBodies b :=
  encodeSections_congr (congrArg Assembly.sections h)

end Image
end DualInit
