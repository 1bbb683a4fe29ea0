import DualInit.Proofs.Page.Failures
import DualInit.Proofs.Storage.Requests

/-!
# What the token of a base constructor stands for

Every constructor that a run writes begins with a call of a token, and nothing but the section says
what this token stands for.  `baseConstructor_resolves` says it of all tokens that are answered: by
`NamesBase`, the token is the one under which the section has the constructor of its own base type,
or the one under which it refers to the constructor of a type that the store has for the base type.
Asking again, of the section that was left, answers the same token and leaves everything.

A token is looked up among the references of a section, and so it has to stand for one of them only.
This is where the numbers come in: a new reference takes a number that is not in use, as long as
there are numbers left (`nextMemberRefToken_notMem`), and so it is found under its token
(`memberRef?_importMethod`).

If there is no constructor to call, nothing is left behind, and the error tells which of the reasons
in `LacksBase` it is; of those, a store has one for a reference that leads nowhere.
-/

namespace DualInit

variable {external : Resolver} {s s' : Section} {t : TypeDef} {type token : Token}

/-! ## References under their tokens -/

/-- A new reference takes a token of its own as long as the last number is not in use. -/
theorem nextMemberRefToken_notMem (hroom : ∀ r ∈ s.memberRefs, r.token.row < Token.rowLimit - 1) :
    s.nextMemberRefToken ∉ s.memberRefs.map (·.token) := by
  have hgreatest : Rows.greatest (s.memberRefs.map (·.token)) ≤ Token.rowLimit - 2 := by
    refine Rows.greatest_le_iff.mpr fun token htoken => ?_
    obtain ⟨r, hr, rfl⟩ := List.mem_map.mp htoken
    have := hroom r hr
    omega
  have hlimit : 2 < Token.rowLimit := by decide
  refine Rows.ofParts_next_notMem (by decide) ?_
  rw [Rows.next]
  omega

/-- The reference that an import answers is the one that the section has under its token; an import
adds this reference if there was none like it, and nothing otherwise. -/
theorem memberRef?_importMethod (hdistinct : (s.memberRefs.map (·.token)).Nodup)
    (hroom : ∀ r ∈ s.memberRefs, r.token.row < Token.rowLimit - 1) (parent : Token) (name : String)
    (signature : Signature) :
    ∃ r, (s.importMethod parent name signature).2.memberRef?
        (s.importMethod parent name signature).1 = some r ∧
      r.parent = parent ∧ r.name = name ∧ r.signature = signature ∧
      ((s.importMethod parent name signature).2 = s ∨
        (s.importMethod parent name signature).2 = s.withRefs [r] ∧
          ∀ old ∈ s.memberRefs,
            ¬ (old.parent = parent ∧ old.name = name ∧ old.signature = signature)) := by
  rcases importMethod_eq parent name signature s with ⟨r, hr, himport⟩ | ⟨hnone, himport⟩
  · rw [himport]
    obtain ⟨⟨hparent, hname⟩, hsignature⟩ :
        (r.parent = parent ∧ r.name = name) ∧ r.signature = signature := by
      simpa [MemberRef.isTo] using List.find?_some hr
    have hfound : s.memberRef? r.token = some r :=
      Rows.find?_of_mem hdistinct (List.mem_of_find?_eq_some hr)
    exact ⟨r, hfound, hparent, hname, hsignature, Or.inl rfl⟩
  · rw [himport]
    have hfresh := nextMemberRefToken_notMem hroom
    refine ⟨s.newMemberRef parent name signature, ?_, rfl, rfl, rfl, Or.inr ⟨rfl, fun old hold => ?_⟩⟩
    · have hmissing : s.memberRefs.find? (·.token == s.nextMemberRefToken) = none :=
        List.find?_eq_none.mpr fun r hr htoken =>
          hfresh (beq_iff_eq.mp htoken ▸ List.mem_map_of_mem hr)
      show (s.memberRefs ++ [_]).find? _ = _
      rw [List.find?_append, hmissing, Option.none_or]
      exact List.find?_cons_of_pos (by simp [Section.newMemberRef])
    · have hold := List.find?_eq_none.mp hnone old hold
      simpa [MemberRef.isTo, and_assoc] using hold

/-! ## What a token stands for -/

/-- What an answered token stands for in the section that is left. -/
inductive NamesBase (external : Resolver) (s : Section) (t : TypeDef) (token : Token) :
    Section → Prop where
  /-- The section defines the base type.  The token is that of its first parameterless constructor,
  and of no other method. -/
  | defined {base : Token} {b : TypeDef} {c : MethodDef} (hbase : t.extends? = some base)
      (htable : base.table = Token.typeDefTable) (hb : s.typeDef? base = some b)
      (hc : b.parameterlessConstructor? = some c) (htoken : token = c.token)
      (hmethod : s.method? token = some (b, c)) : NamesBase external s t token s
  /-- Another assembly defines the base type.  The token is that of a reference to its first
  parameterless constructor, which is new only if there was none. -/
  | referred {base : Token} {reference : TypeRef} {b : TypeDef} {c : MethodDef} {r : MemberRef}
      {s' : Section} (hbase : t.extends? = some base) (htable : base.table = Token.typeRefTable)
      (href : s.typeRef? base = some reference)
      (hresolve : (external.resolve reference.scope reference.qualifiedName).1 = .ok (some b))
      (hc : b.parameterlessConstructor? = some c) (hr : s'.memberRef? token = some r)
      (hparent : r.parent = base) (hname : r.name = constructorName)
      (hsignature : r.signature = c.signature)
      (hleft : s' = s ∨ s' = s.withRefs [r] ∧ ∀ old ∈ s.memberRefs,
        ¬ (old.parent = base ∧ old.name = constructorName ∧ old.signature = c.signature)) :
      NamesBase external s t token s'

/-- An answered token stands for a base constructor. -/
theorem namesBase_of_ends (hs : s.TokensDistinct) (hdistinct : (s.memberRefs.map (·.token)).Nodup)
    (hroom : ∀ r ∈ s.memberRefs, r.token.row < Token.rowLimit - 1)
    (h : (baseConstructor external type).Ends s (.ok token) s') :
    ∃ t, s.typeDef? type = some t ∧ NamesBase external s t token s' := by
  cases ends_baseConstructor_iff.mp h with
  | defined ht hbase htable hb hc =>
    have hmethod := Section.method?_of_mem hs (Section.mem_of_typeDef? hb)
      (List.mem_of_find?_eq_some hc)
    exact ⟨_, ht, .defined hbase htable hb hc rfl hmethod⟩
  | @referred _ _ base _ c ht hbase htable href hresolve hc =>
    obtain ⟨r, hr, hparent, hname, hsignature, hleft⟩ :=
      memberRef?_importMethod hdistinct hroom base constructorName c.signature
    exact ⟨_, ht, .referred hbase htable href hresolve hc hr hparent hname hsignature hleft⟩

/-- Asking again for a base constructor answers the same, and changes nothing. -/
theorem ends_baseConstructor_again (h : (baseConstructor external type).Ends s (.ok token) s') :
    (baseConstructor external type).Ends s' (.ok token) s' := by
  obtain ⟨t, refs, signature, ht, rfl, hcalls, -⟩ := callsBase_of_ends h
  have ht' : (s.withRefs refs).typeDef? type = some t := ht
  exact ends_baseConstructor ht' hcalls

/-- **The base constructor that is answered is the right one, and stays it.**  Whatever a store has
and wherever it is searched, for a section whose types, methods and references to methods have
distinct tokens, with a number left for one more reference:

* a token that is answered stands for the constructor of the base type, and asking again answers the
  same token and changes nothing;
* an error changes nothing, and arises exactly if the type is not there or has no constructor to
  call, for the reason that the error tells;
* a reference leads nowhere exactly if no file that it may mean is stored. -/
theorem baseConstructor_resolves (storage : Store) (origin : Path) (directories : List Path)
    (s : Section) (type : Token) (hs : s.TokensDistinct)
    (hdistinct : (s.memberRefs.map (·.token)).Nodup)
    (hroom : ∀ r ∈ s.memberRefs, r.token.row < Token.rowLimit - 1) :
    (∀ token s', (baseConstructor (Codec.resolver storage origin directories) type).Ends s
        (.ok token) s' →
      (∃ t, s.typeDef? type = some t ∧
        NamesBase (Codec.resolver storage origin directories) s t token s') ∧
      (baseConstructor (Codec.resolver storage origin directories) type).Ends s' (.ok token) s') ∧
    (∀ e s', (baseConstructor (Codec.resolver storage origin directories) type).Ends s (.error e) s' ↔
      s' = s ∧ (s.typeDef? type = none ∧ e = .typeNotFound type ∨
        ∃ t, s.typeDef? type = some t ∧
          LacksBase (Codec.resolver storage origin directories) s t e)) ∧
    ∀ (r : TypeRef) (e : Error),
      ((Codec.resolver storage origin directories).resolve r.scope r.qualifiedName).1 = .error e ↔
        e = .referenceNotFound r.scope ∧
          ∀ path ∈ Store.candidates origin r.scope directories, storage.image? path = none := by
  refine ⟨fun token s' h => ⟨namesBase_of_ends hs hdistinct hroom h, ends_baseConstructor_again h⟩,
    fun e s' => ?_, fun r e => Store.resolveType_error⟩
  rw [ends_baseConstructor_iff]
  refine ⟨fun h => ?_, fun h => ?_⟩
  · cases h with
    | undefined ht => exact ⟨rfl, Or.inl ⟨ht, rfl⟩⟩
    | lacks ht h => exact ⟨rfl, Or.inr ⟨_, ht, h⟩⟩
  · obtain ⟨rfl, ⟨ht, rfl⟩ | ⟨t, ht, h⟩⟩ := h
    · exact .undefined ht
    · exact .lacks ht h

namespace Sample

/-- The section with a reference to another method of the base type. -/
def referring : Section :=
  derived.withRefs [⟨⟨0x0A000005⟩, ⟨0x01000001⟩, "Load", .instanceVoid⟩]

/-- The section that refers to the base constructor, too. -/
def referringToBase : Section :=
  referring.withRefs [⟨⟨0x0A000006⟩, ⟨0x01000001⟩, constructorName, .instanceVoid⟩]

end Sample

theorem baseConstructor_resolves_referring :
    (baseConstructor Sample.library ⟨0x02000001⟩).Ends Sample.referring (.ok ⟨0x0A000006⟩)
        Sample.referringToBase ∧
      (∃ t, Sample.referring.typeDef? ⟨0x02000001⟩ = some t ∧
        NamesBase Sample.library Sample.referring t ⟨0x0A000006⟩ Sample.referringToBase) ∧
      (baseConstructor Sample.library ⟨0x02000001⟩).Ends Sample.referringToBase
        (.ok ⟨0x0A000006⟩) Sample.referringToBase ∧
      (baseConstructor Sample.library ⟨0x02000002⟩).Ends Sample.referring
        (.error (.typeNotFound ⟨0x02000002⟩)) Sample.referring := by
  have hends : (baseConstructor Sample.library ⟨0x02000001⟩).Ends Sample.referring
      (.ok ⟨0x0A000006⟩) Sample.referringToBase := ⟨rfl, rfl⟩
  have htokens : Sample.referring.TokensDistinct := ⟨by decide, by decide⟩
  have hdistinct : (Sample.referring.memberRefs.map (·.token)).Nodup := by decide
  have hroom : ∀ r ∈ Sample.referring.memberRefs, r.token.row < Token.rowLimit - 1 := by decide
  obtain ⟨hnames, hagain⟩ :=
    (baseConstructor_resolves _ _ _ _ _ htokens hdistinct hroom).1 _ _ hends
  exact ⟨hends, hnames, hagain,
    ((baseConstructor_resolves _ _ _ _ _ htokens hdistinct hroom).2.1 _ _).mpr
      ⟨rfl, Or.inl ⟨rfl, rfl⟩⟩⟩

end DualInit
