import DualInit.Metadata.Section
import DualInit.Proofs.Endings
import DualInit.Proofs.Metadata.Rows

/-!
# Changing one type of a section

A section whose types and methods have distinct tokens is changed through tokens: a change of a
method, or a new one, goes to a single type.  `Section.setType` puts a type in the place of the
one with its token, and `updateMethod_ok` and `addMethod_ok` say that the requests of a section do
nothing else.

A method of a new number keeps the tokens distinct while numbers are left
(`TokensDistinct.setType`), and one number is used up by each (`HasRoom.setType`).
-/

namespace DualInit

/-! ## Types -/

namespace TypeDef

/-- The type with a method in the place of the one that has the same token. -/
def setMethod (m : MethodDef) (t : TypeDef) : TypeDef :=
  { t with methods := Rows.set MethodDef.token m t.methods }

/-- The type with one more method. -/
def append (m : MethodDef) (t : TypeDef) : TypeDef :=
  { t with methods := t.methods ++ [m] }

/-- What is left of a type without its methods. -/
def shell (t : TypeDef) : TypeDef :=
  { t with methods := [] }

variable {t u : TypeDef} {m : MethodDef} {token : Token}

@[simp] theorem token_setMethod : (t.setMethod m).token = t.token := rfl

@[simp] theorem token_shell : t.shell.token = t.token := rfl

@[simp] theorem methods_append : (t.append m).methods = t.methods ++ [m] := rfl

theorem map_token_setMethod :
    (t.setMethod m).methods.map (·.token) = t.methods.map (·.token) :=
  Rows.map_key_set

theorem token_of_method? (h : t.method? token = some m) : m.token = token :=
  Rows.key_eq_of_find? h

theorem setMethod_self (hdistinct : (t.methods.map (·.token)).Nodup) (hm : m ∈ t.methods) :
    t.setMethod m = t := by
  rw [setMethod, Rows.set_of_find? hdistinct hm]

theorem method?_of_mem (hdistinct : (t.methods.map (·.token)).Nodup) (hm : m ∈ t.methods) :
    t.method? m.token = some m :=
  Rows.find?_of_mem hdistinct hm

/-- A method of a type is determined by its token. -/
theorem eq_of_mem_of_token {m' : MethodDef} (hdistinct : (t.methods.map (·.token)).Nodup)
    (hm : m ∈ t.methods) (hm' : m' ∈ t.methods) (h : m.token = m'.token) : m = m' := by
  have hfound := method?_of_mem hdistinct hm
  rw [h, method?_of_mem hdistinct hm'] at hfound
  exact (Option.some.inj hfound).symm

theorem method?_setMethod_eq_none :
    (t.setMethod m).method? token = none ↔ t.method? token = none := by
  rw [setMethod, method?, method?, Rows.find?_set]
  split
  · exact Option.map_eq_none_iff
  · exact Iff.rfl

theorem updateMethod_ok {change : MethodDef → MethodDef}
    (hdistinct : (t.methods.map (·.token)).Nodup) (hchange : ∀ m, (change m).token = m.token) :
    t.updateMethod token change = .ok u ↔
      ∃ m, t.method? token = some m ∧ u = t.setMethod (change m) := by
  rw [updateMethod]
  cases hm : t.method? token with
  | none =>
    have hnone : Rows.updateFirst (ε := Error) (·.token == token) (fun m => .ok (change m))
        t.methods = none :=
      Rows.updateFirst_eq_none_iff.mpr (List.find?_eq_none.mp hm)
    simp [hnone]
  | some m =>
    rw [Rows.updateFirst_of_find? hdistinct
      (fun r hr => by rw [← Except.ok.inj hr, hchange]) hm]
    simp [bind, Except.bind, pure, Except.pure, setMethod, eq_comm]

/-- What a change keeps of a method, changing a method of a type keeps of all of them. -/
theorem map_of_updateMethod {β : Type} {f : MethodDef → β} {change : MethodDef → MethodDef}
    (hf : ∀ m, f (change m) = f m) (h : t.updateMethod token change = .ok u) :
    u.methods.map f = t.methods.map f := by
  unfold updateMethod at h
  cases hupdate : Rows.updateFirst (ε := Error) (·.token == token)
      (fun m => .ok (change m)) t.methods with
  | none => rw [hupdate] at h; cases h
  | some changed =>
    rw [hupdate] at h
    obtain ⟨methods, rfl, h⟩ := except_bind_ok.mp h
    cases h
    refine Rows.map_of_updateFirst (fun m m' hm => ?_) hupdate
    rw [← Except.ok.inj hm, hf]

/-- A method that a type owns can be changed. -/
theorem updateMethod_ne_error {change : MethodDef → MethodDef} {e : Error} (hm : m ∈ t.methods) :
    t.updateMethod m.token change ≠ .error e := by
  have hsome : (t.methods.find? (·.token == m.token)).isSome = true :=
    List.find?_isSome.mpr ⟨m, hm, beq_self_eq_true _⟩
  obtain ⟨old, hold⟩ := Option.isSome_iff_exists.mp hsome
  intro h
  unfold updateMethod at h
  split at h
  · next hnone => exact absurd (beq_self_eq_true _) (Rows.updateFirst_eq_none_iff.mp hnone m hm)
  · next hupdate =>
    rcases except_bind_error.mp h with rfl | ⟨_, -, h⟩
    · exact absurd ((Rows.updateFirst_error hold).mp hupdate) (by simp)
    · cases h

theorem shell_of_updateMethod {change : MethodDef → MethodDef}
    (h : t.updateMethod token change = .ok u) : u.shell = t.shell := by
  unfold updateMethod at h
  split at h
  · cases h
  · obtain ⟨methods, -, h⟩ := except_bind_ok.mp h
    cases h
    rfl

theorem pushMethod_ok : t.pushMethod m = .ok u ↔ t.method? m.token = none ∧ u = t.append m := by
  unfold pushMethod
  cases h : t.method? m.token with
  | none => simp [append, eq_comm]
  | some m' => simp

theorem shell_of_pushMethod (h : t.pushMethod m = .ok u) : u.shell = t.shell := by
  rw [(pushMethod_ok.mp h).2]
  rfl

theorem token_of_shell (h : u.shell = t.shell) : u.token = t.token :=
  (congrArg TypeDef.token h : u.shell.token = t.shell.token)

end TypeDef

/-! ## Sections -/

namespace Section

/-- The section with a type in the place of the one that has the same token. -/
def setType (t : TypeDef) (s : Section) : Section :=
  { s with types := Rows.set TypeDef.token t s.types }

/-- No two types of a section have one token, and no two methods do. -/
structure TokensDistinct (s : Section) : Prop where
  /-- The tokens of the types. -/
  types : (s.types.map (·.token)).Nodup
  /-- The tokens of the methods of all types. -/
  methods : (s.methods.map (·.token)).Nodup

variable {s s' : Section} {t u : TypeDef} {m : MethodDef} {token : Token}

theorem token_of_typeDef? (h : s.typeDef? token = some t) : t.token = token :=
  Rows.key_eq_of_find? h

theorem mem_of_typeDef? (h : s.typeDef? token = some t) : t ∈ s.types :=
  List.mem_of_find?_eq_some h

theorem typeDef?_of_mem (hs : s.TokensDistinct) (ht : t ∈ s.types) : s.typeDef? t.token = some t :=
  Rows.find?_of_mem hs.types ht

theorem typeDef?_setType_self (h : s.typeDef? token = some t) (hu : u.token = token) :
    (s.setType u).typeDef? token = some u := by
  subst hu
  exact Rows.find?_set_self h

theorem typeDef?_setType_of_ne (h : u.token ≠ token) :
    (s.setType u).typeDef? token = s.typeDef? token :=
  Rows.find?_set_of_ne h

theorem setType_self (hs : s.TokensDistinct) (h : s.typeDef? token = some t) : s.setType t = s := by
  rw [setType, Rows.set_of_find? hs.types (mem_of_typeDef? h)]

theorem setType_setType (h : t.token = u.token) : (s.setType t).setType u = s.setType u := by
  rw [setType, setType, setType, Rows.set_set h]

theorem updateType_ok {change : TypeDef → Except Error TypeDef} (hs : s.TokensDistinct)
    (hchange : ∀ t u, change t = .ok u → u.token = t.token) :
    s.updateType token change = .ok s' ↔
      ∃ t u, s.typeDef? token = some t ∧ change t = .ok u ∧ s' = s.setType u := by
  rw [updateType]
  cases ht : s.typeDef? token with
  | none =>
    have hnone : Rows.updateFirst (·.token == token) change s.types = none :=
      Rows.updateFirst_eq_none_iff.mpr (List.find?_eq_none.mp ht)
    simp [hnone]
  | some t =>
    rw [Rows.updateFirst_of_find? hs.types (hchange t) ht]
    cases hu : change t with
    | error e => simp [bind, Except.bind, hu]
    | ok u => simp [bind, Except.bind, pure, Except.pure, setType, hu, eq_comm]

/-- A change of a type that is there fails as it does on this type, whether or not tokens are
distinct. -/
theorem updateType_error {change : TypeDef → Except Error TypeDef} {e : Error}
    (ht : s.typeDef? token = some t) :
    s.updateType token change = .error e ↔ change t = .error e := by
  rw [← Rows.updateFirst_error ht]
  unfold updateType
  rcases hupdate : Rows.updateFirst (·.token == token) change s.types with _ | _ | _
  · have hnone := Rows.updateFirst_eq_none_iff.mp hupdate t (mem_of_typeDef? ht)
    exact absurd (beq_iff_eq.mpr (token_of_typeDef? ht)) hnone
  · simp [hupdate, bind, Except.bind]
  · simp [hupdate, bind, Except.bind, pure, Except.pure]

/-- A method of a type that is there can be changed, whether or not tokens are distinct. -/
theorem updateMethod_ne_error {change : MethodDef → MethodDef} {e : Error}
    (ht : s.typeDef? token = some t) (hm : m ∈ t.methods) :
    s.updateMethod token m.token change ≠ .error e := fun h =>
  TypeDef.updateMethod_ne_error hm ((updateType_error ht).mp h)

/-- Changing a type changes the types and nothing else. -/
theorem updateType_eq_ok {change : TypeDef → Except Error TypeDef} :
    s.updateType token change = .ok s' ↔ ∃ types,
      Rows.updateFirst (·.token == token) change s.types = some (.ok types) ∧
        s' = { s with types } := by
  unfold updateType
  rcases hupdate : Rows.updateFirst (·.token == token) change s.types with _ | _ | types
  · simp [hupdate]
  · simp [hupdate, bind, Except.bind]
  · simp [hupdate, bind, Except.bind, pure, Except.pure, eq_comm]

/-- A change of a type that leaves its shell is made to the type that is found under the token, and
every other type is found where it was, whether or not tokens are distinct. -/
theorem exists_of_updateType {change : TypeDef → Except Error TypeDef}
    (hshell : ∀ t u, change t = .ok u → u.shell = t.shell)
    (h : s.updateType token change = .ok s') :
    ∃ t u, s.typeDef? token = some t ∧ change t = .ok u ∧
      (∀ other, s'.typeDef? other = if other = token then some u else s.typeDef? other) ∧
      s'.types.map (·.shell) = s.types.map (·.shell) ∧ s'.typeRefs = s.typeRefs ∧
      s'.name = s.name := by
  obtain ⟨types, hupdate, rfl⟩ := updateType_eq_ok.mp h
  obtain ⟨t, u, ht, htu, hfound⟩ :=
    Rows.exists_of_updateFirst (fun t u htu => TypeDef.token_of_shell (hshell t u htu)) hupdate
  exact ⟨t, u, ht, htu, hfound, Rows.map_of_updateFirst hshell hupdate, rfl, rfl⟩

/-- The methods of one type of a section have distinct tokens too. -/
theorem TokensDistinct.of_mem (hs : s.TokensDistinct) (ht : t ∈ s.types) :
    (t.methods.map (·.token)).Nodup := by
  have h := hs.methods
  rw [Section.methods, List.map_flatMap, List.nodup_flatMap] at h
  exact h.1 t ht

/-- A method that a type owns is found by its token, and no other type's is. -/
theorem method?_of_mem (hs : s.TokensDistinct) (ht : t ∈ s.types) (hm : m ∈ t.methods) :
    s.method? m.token = some (t, m) := by
  obtain ⟨front, back, hsplit⟩ := List.append_of_mem ht
  refine List.findSome?_eq_some_iff.mpr ⟨front, t, back, hsplit, ?_, fun u hu => ?_⟩
  · rw [TypeDef.method?_of_mem (hs.of_mem ht) hm]
    rfl
  · have hmethods := hs.methods
    rw [methods, hsplit, List.flatMap_append, List.flatMap_cons, List.map_append,
      List.map_append] at hmethods
    have hfront := (List.nodup_append.mp hmethods).2.2
    rw [Option.map_eq_none_iff]
    refine List.find?_eq_none.mpr fun m' hm' htoken => ?_
    refine hfront m'.token (List.mem_map_of_mem (List.mem_flatMap.mpr ⟨u, hu, hm'⟩)) m.token ?_
      (beq_iff_eq.mp htoken)
    exact List.mem_append_left _ (List.mem_map_of_mem hm)

/-- Changing a method of a section is replacing it in the type that owns it. -/
theorem updateMethod_ok (change : MethodDef → MethodDef) {method : Token} (hs : s.TokensDistinct)
    (hchange : ∀ m, (change m).token = m.token) :
    s.updateMethod token method change = .ok s' ↔
      ∃ t m, s.typeDef? token = some t ∧ t.method? method = some m ∧
        s' = s.setType (t.setMethod (change m)) := by
  have htoken : ∀ t u, TypeDef.updateMethod method change t = .ok u → u.token = t.token :=
    fun _ _ h => TypeDef.token_of_shell (TypeDef.shell_of_updateMethod h)
  rw [updateMethod, updateType_ok hs htoken]
  constructor
  · rintro ⟨t, u, ht, hu, rfl⟩
    obtain ⟨m, hm, rfl⟩ := (TypeDef.updateMethod_ok (hs.of_mem (mem_of_typeDef? ht)) hchange).mp hu
    exact ⟨t, m, ht, hm, rfl⟩
  · rintro ⟨t, m, ht, hm, rfl⟩
    exact ⟨t, _, ht,
      (TypeDef.updateMethod_ok (hs.of_mem (mem_of_typeDef? ht)) hchange).mpr ⟨m, hm, rfl⟩, rfl⟩

/-- Giving a type a method is appending the method, under the next token, to the type. -/
theorem addMethod_ok {method : Token} (hs : s.TokensDistinct) :
    s.addMethod token m = .ok (method, s') ↔
      ∃ t, s.typeDef? token = some t ∧ t.method? s.nextMethodToken = none ∧
        method = s.nextMethodToken ∧
        s' = s.setType (t.append { m with token := s.nextMethodToken }) := by
  have htoken : ∀ t u, TypeDef.pushMethod { m with token := s.nextMethodToken } t = .ok u →
      u.token = t.token :=
    fun _ _ h => TypeDef.token_of_shell (TypeDef.shell_of_pushMethod h)
  simp only [addMethod, except_bind_ok, updateType_ok hs htoken, TypeDef.pushMethod_ok]
  constructor
  · rintro ⟨_, ⟨t, _, ht, ⟨hm, rfl⟩, rfl⟩, h⟩
    obtain ⟨rfl, rfl⟩ := Prod.mk.inj (Except.ok.inj h)
    exact ⟨t, ht, hm, rfl, rfl⟩
  · rintro ⟨t, ht, hm, rfl, rfl⟩
    exact ⟨_, ⟨t, _, ht, ⟨hm, rfl⟩, rfl⟩, rfl⟩

/-! ## Tokens in use -/

/-- So many more methods can be numbered. -/
def HasRoom (s : Section) (count : Nat) : Prop :=
  Rows.greatest (s.methods.map (·.token)) + count < Token.rowLimit

theorem HasRoom.mono {count fewer : Nat} (h : s.HasRoom count) (hle : fewer ≤ count) :
    s.HasRoom fewer :=
  Nat.lt_of_le_of_lt (Nat.add_le_add_left hle _) h

/-- There is room for no methods. -/
theorem hasRoom_zero (s : Section) : s.HasRoom 0 :=
  Rows.greatest_lt

/-- While there is room, the next method gets a new token. -/
theorem nextMethodToken_notMem (h : s.HasRoom 1) :
    s.nextMethodToken ∉ s.methods.map (·.token) :=
  Rows.ofParts_next_notMem (by decide) h

/-- While there is room, no type has a method under the next token. -/
theorem method?_nextMethodToken (hroom : s.HasRoom 1) (ht : s.typeDef? token = some t) :
    t.method? s.nextMethodToken = none := by
  refine List.find?_eq_none.mpr fun m hm htoken => nextMethodToken_notMem hroom ?_
  rw [← beq_iff_eq.mp htoken]
  exact List.mem_map_of_mem (List.mem_flatMap.mpr ⟨t, mem_of_typeDef? ht, hm⟩)

/-- A type that is there is refused a method only if no number is left. -/
theorem addMethod_error {e : Error} (ht : s.typeDef? token = some t)
    (h : s.addMethod token m = .error e) :
    ¬ s.HasRoom 1 ∧ e = .duplicateMethod s.nextMethodToken := by
  have hupdate : s.updateType token (·.pushMethod { m with token := s.nextMethodToken }) = .error e := by
    rcases except_bind_error.mp h with hupdate | ⟨_, -, h⟩
    · exact hupdate
    · cases h
  have hpush := (updateType_error ht).mp hupdate
  unfold TypeDef.pushMethod at hpush
  split at hpush
  · next hused =>
    refine ⟨fun hroom => ?_, (Except.error.inj hpush).symm⟩
    rw [method?_nextMethodToken hroom ht] at hused
    cases hused
  · cases hpush

/-- The tokens of all methods after a type was given more of them, whether or not tokens are
distinct. -/
theorem tokens_of_updateType {change : TypeDef → Except Error TypeDef} {added : List Token}
    (hchange : ∀ t u, change t = .ok u →
      u.methods.map (·.token) = t.methods.map (·.token) ++ added)
    (h : s.updateType token change = .ok s') :
    (s'.methods.map (·.token)).Perm (s.methods.map (·.token) ++ added) := by
  obtain ⟨types, hupdate, rfl⟩ := updateType_eq_ok.mp h
  obtain ⟨front, t, u, back, hsplit, -, -, htu, rfl⟩ := Rows.exists_split_of_updateFirst hupdate
  simp only [methods, hsplit, List.flatMap_append, List.flatMap_cons, List.map_append,
    List.append_assoc, hchange t u htu]
  exact (List.perm_append_comm.append_left _).append_left _

/-- The tokens of all methods after a type was replaced by one with more of them. -/
theorem tokens_setType (added : List Token) (hs : s.TokensDistinct)
    (ht : s.typeDef? u.token = some t)
    (hu : u.methods.map (·.token) = t.methods.map (·.token) ++ added) :
    ((s.setType u).methods.map (·.token)).Perm (s.methods.map (·.token) ++ added) := by
  rw [methods, methods, List.map_flatMap, List.map_flatMap]
  exact Rows.flatMap_set_perm hs.types ht hu

/-- Replacing methods of a type by methods of the same tokens uses up no tokens. -/
theorem tokens_setType_of_eq (hs : s.TokensDistinct) (ht : s.typeDef? u.token = some t)
    (hu : u.methods.map (·.token) = t.methods.map (·.token)) :
    ((s.setType u).methods.map (·.token)).Perm (s.methods.map (·.token)) := by
  have h := tokens_setType [] hs ht (by rw [hu, List.append_nil])
  rwa [List.append_nil] at h

theorem TokensDistinct.setType (added : List Token) (hs : s.TokensDistinct)
    (ht : s.typeDef? u.token = some t)
    (hu : u.methods.map (·.token) = t.methods.map (·.token) ++ added)
    (hadded : (s.methods.map (·.token) ++ added).Nodup) : (s.setType u).TokensDistinct where
  types := by
    rw [Section.setType, Rows.map_key_set]
    exact hs.types
  methods := (tokens_setType added hs ht hu).nodup_iff.mpr hadded

/-- The tokens that a change of a type takes up: the next one if a method is added. -/
def newTokens (s : Section) (isNew : Bool) : List Token :=
  if isNew then [s.nextMethodToken] else []

/-- Adding a method to a type keeps the tokens distinct while there is room. -/
theorem TokensDistinct.setType_newTokens {isNew : Bool} (hs : s.TokensDistinct)
    (ht : s.typeDef? u.token = some t)
    (hu : u.methods.map (·.token) = t.methods.map (·.token) ++ s.newTokens isNew)
    (hroom : isNew = true → s.HasRoom 1) : (s.setType u).TokensDistinct := by
  refine hs.setType (s.newTokens isNew) ht hu ?_
  cases isNew with
  | false =>
    rw [newTokens, if_neg Bool.false_ne_true, List.append_nil]
    exact hs.methods
  | true =>
    have hnew := nextMethodToken_notMem (hroom rfl)
    exact hs.methods.append (List.nodup_singleton _) (List.disjoint_singleton.mpr hnew)

/-- Adding a method to a type takes up one number. -/
theorem HasRoom.setType {isNew : Bool} {count : Nat} (hs : s.TokensDistinct)
    (ht : s.typeDef? u.token = some t)
    (hu : u.methods.map (·.token) = t.methods.map (·.token) ++ s.newTokens isNew)
    (hroom : s.HasRoom ((if isNew then 1 else 0) + count)) : (s.setType u).HasRoom count := by
  have hperm := tokens_setType (s.newTokens isNew) hs ht hu
  rw [HasRoom, Rows.greatest_perm hperm]
  cases isNew with
  | false =>
    rw [newTokens, if_neg Bool.false_ne_true, List.append_nil]
    exact hroom.mono (Nat.le_add_left _ _)
  | true =>
    have hone : s.HasRoom 1 := hroom.mono (Nat.le_add_right _ _)
    rw [newTokens, if_pos rfl, nextMethodToken, Rows.greatest_append_next (by decide) hone,
      Nat.add_assoc]
    exact hroom

end Section
end DualInit
