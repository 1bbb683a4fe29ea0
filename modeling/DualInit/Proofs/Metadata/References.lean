import DualInit.Proofs.Metadata.Growth

/-!
# References are used again

A section refers to what other assemblies define by rows, and code refers to the rows by their
tokens.  So two rows must not share a token, or a call would go to another type's method; and no
two rows should stand for the same thing.  `Section.Interned` says both, for the references to
types and for those to methods.

Whatever rows a section is asked for, this stays so while there are numbers left
(`Section.Interned.after`): a reference is looked up by what it stands for, and only one that is
not found takes a new token, which is above all tokens in use.  Rows are never taken back
(`Section.Refers.after`), so what a token was answered for is what it stands for ever after.

`references_interned` puts this together for histories of requests, in which requests for types and
methods of the section's own may occur as well.
-/

namespace DualInit

/-! ## Tables of references -/

/-- What a reference to a type stands for. -/
def TypeRef.target (r : TypeRef) : String × String × String :=
  (r.scope, r.spaceName, r.name)

/-- What a reference to a method stands for. -/
def MemberRef.target (r : MemberRef) : Token × String × Signature :=
  (r.parent, r.name, r.signature)

namespace Rows

variable {α κ : Type}

/-- No two rows have the same token, and no two stand for the same thing. -/
structure Interned (token : α → Token) (target : α → κ) (rows : List α) : Prop where
  tokens : (rows.map token).Nodup
  targets : (rows.map target).Nodup

/-- There are the rows that there were, and at most one more: for something that no row stood for,
under the next token of the table. -/
inductive Extends (token : α → Token) (target : α → κ) (table : Nat) (rows : List α) :
    List α → Prop where
  | same : Extends token target table rows rows
  | more {row : α} (htarget : target row ∉ rows.map target)
      (htoken : token row = .ofParts table (next (rows.map token))) :
      Extends token target table rows (rows ++ [row])

variable {token : α → Token} {target : α → κ} {table : Nat} {rows rows' : List α} {r r' : α}

/-- Rows are told apart by their tokens as they are by what they stand for. -/
theorem Interned.token_eq_iff (h : Interned token target rows) (hr : r ∈ rows) (hr' : r' ∈ rows) :
    token r = token r' ↔ target r = target r' :=
  ⟨fun heq => congrArg target (List.inj_on_of_nodup_map h.tokens hr hr' heq),
    fun heq => congrArg token (List.inj_on_of_nodup_map h.targets hr hr' heq)⟩

/-- While there are numbers left, a new row keeps all rows apart. -/
theorem Interned.extends (h : Interned token target rows) (htable : table < 256)
    (hext : Extends token target table rows rows')
    (hroom : rows.length < rows'.length → next (rows.map token) < Token.rowLimit) :
    Interned token target rows' := by
  cases hext with
  | same => exact h
  | @more row htarget htoken =>
    have hfresh : token row ∉ rows.map token := by
      rw [htoken]
      exact ofParts_next_notMem htable (hroom (by simp))
    refine ⟨?_, ?_⟩
    · rw [List.map_append, List.map_singleton, ← List.concat_eq_append]
      exact h.tokens.concat hfresh
    · rw [List.map_append, List.map_singleton, ← List.concat_eq_append]
      exact h.targets.concat htarget

/-- A row that is found under its token is still found when there are more rows. -/
theorem Extends.find? {t : Token} (hext : Extends token target table rows rows')
    (h : rows.find? (token · == t) = some r) : rows'.find? (token · == t) = some r := by
  cases hext with
  | same => exact h
  | more => rw [List.find?_append, h, Option.some_or]

/-- Looking for what rows stand for finds a row that stands for it, or there is none. -/
theorem found_or_new {p : α → Bool} {wanted : κ} (hp : ∀ row, p row = true ↔ target row = wanted)
    (rows : List α) :
    (∃ row ∈ rows, target row = wanted ∧ rows.find? p = some row) ∨
      wanted ∉ rows.map target ∧ rows.find? p = none := by
  cases hfound : rows.find? p with
  | some row =>
    exact Or.inl ⟨row, List.mem_of_find?_eq_some hfound, (hp row).mp (List.find?_some hfound), rfl⟩
  | none =>
    refine Or.inr ⟨fun hmem => ?_, rfl⟩
    obtain ⟨row, hrow, htarget⟩ := List.mem_map.mp hmem
    exact List.find?_eq_none.mp hfound row hrow ((hp row).mpr htarget)

end Rows

/-! ## One request -/

/-- A request that adds to the references, if it adds anything. -/
def RowRequest.IsReference (r : RowRequest) : Prop :=
  r.kind = .typeRef ∨ r.kind = .memberRef

namespace Section

variable {s : Section} {token token' : Token} {r r' : RowRequest} {history : List RowRequest}

/-- References have tokens of their own, and each of them stands for something of its own. -/
structure Interned (s : Section) : Prop where
  types : Rows.Interned TypeRef.token TypeRef.target s.typeRefs
  members : Rows.Interned MemberRef.token MemberRef.target s.memberRefs

/-- A token leads to the row with exactly what a request has asked for. -/
inductive Refers (s : Section) (token : Token) : RowRequest → Prop where
  | type {scope spaceName name : String}
      (h : s.typeRef? token = some ⟨token, scope, spaceName, name⟩) :
      Refers s token (.typeRef scope spaceName name)
  | member {parent : Token} {name : String} {signature : Signature}
      (h : s.memberRef? token = some ⟨token, parent, name, signature⟩) :
      Refers s token (.memberRef parent name signature)

/-- Of the tokens that lead to references of one kind, those are the same that lead to the same
thing. -/
theorem Refers.token_eq_iff (hs : s.Interned) (h : s.Refers token r) (h' : s.Refers token' r')
    (hkind : r'.kind = r.kind) : token' = token ↔ r' = r := by
  cases h with
  | type h =>
    cases h' with
    | type h' =>
      refine (hs.types.token_eq_iff (List.mem_of_find?_eq_some h')
        (List.mem_of_find?_eq_some h)).trans ?_
      simp [TypeRef.target]
    | member => cases hkind
  | member h =>
    cases h' with
    | type => cases hkind
    | member h' =>
      refine (hs.members.token_eq_iff (List.mem_of_find?_eq_some h')
        (List.mem_of_find?_eq_some h)).trans ?_
      simp [MemberRef.target]

/-- Referring to a type finds the reference that there is, or adds one. -/
theorem addTypeRef_cases (scope spaceName name : String) (s : Section) :
    (∃ token, ⟨token, scope, spaceName, name⟩ ∈ s.typeRefs ∧
      s.addTypeRef scope spaceName name = (token, s)) ∨
    (scope, spaceName, name) ∉ s.typeRefs.map TypeRef.target ∧
      s.addTypeRef scope spaceName name = (s.nextToken .typeRef,
        { s with typeRefs := s.typeRefs ++ [⟨s.nextToken .typeRef, scope, spaceName, name⟩] }) := by
  have hsame : ∀ r : TypeRef, (r.scope == scope && r.spaceName == spaceName && r.name == name) = true ↔
      r.target = (scope, spaceName, name) := by
    simp [TypeRef.target, and_assoc]
  unfold addTypeRef
  rcases Rows.found_or_new hsame s.typeRefs with ⟨row, hrow, htarget, hfound⟩ | ⟨hnew, hfound⟩
  · simp only [TypeRef.target, Prod.mk.injEq] at htarget
    obtain ⟨rfl, rfl, rfl⟩ := htarget
    simp only [hfound]
    exact Or.inl ⟨row.token, hrow, rfl⟩
  · simp only [hfound]
    exact Or.inr ⟨hnew, rfl⟩

/-- Referring to a method finds the reference that there is, or adds one. -/
theorem importMethod_cases (parent : Token) (name : String) (signature : Signature) (s : Section) :
    (∃ token, ⟨token, parent, name, signature⟩ ∈ s.memberRefs ∧
      s.importMethod parent name signature = (token, s)) ∨
    (parent, name, signature) ∉ s.memberRefs.map MemberRef.target ∧
      s.importMethod parent name signature = (s.nextToken .memberRef,
        { s with
          memberRefs := s.memberRefs ++ [⟨s.nextToken .memberRef, parent, name, signature⟩] }) := by
  have hsame : ∀ r : MemberRef, r.isTo parent name signature = true ↔
      r.target = (parent, name, signature) := by
    simp [MemberRef.target, MemberRef.isTo, and_assoc]
  unfold importMethod
  rcases Rows.found_or_new hsame s.memberRefs with ⟨row, hrow, htarget, hfound⟩ | ⟨hnew, hfound⟩
  · simp only [MemberRef.target, Prod.mk.injEq] at htarget
    obtain ⟨rfl, rfl, rfl⟩ := htarget
    simp only [hfound]
    exact Or.inl ⟨row.token, hrow, rfl⟩
  · simp only [hfound]
    exact Or.inr ⟨hnew, rfl⟩

/-- Types and methods of the section's own are no references. -/
theorem refs_after_of_not_isReference (hr : ¬ r.IsReference) :
    (r.after s).typeRefs = s.typeRefs ∧ (r.after s).memberRefs = s.memberRefs := by
  unfold RowRequest.after
  split
  · next token grown hgrown =>
    cases r with
    | type spaceName name extends? =>
      cases hgrown
      exact ⟨rfl, rfl⟩
    | nestedType enclosing name extends? =>
      simp only [RowRequest.perform, defineNestedType] at hgrown
      split at hgrown
      · cases hgrown
      · cases hgrown
        exact ⟨rfl, rfl⟩
    | method owner m =>
      simp only [RowRequest.perform, addMethod, except_bind_ok] at hgrown
      obtain ⟨t, ht, hgrown⟩ := hgrown
      obtain ⟨types, -, rfl⟩ := updateType_eq_ok.mp ht
      cases hgrown
      exact ⟨rfl, rfl⟩
    | typeRef => exact absurd (Or.inl rfl) hr
    | memberRef => exact absurd (Or.inr rfl) hr
  · exact ⟨rfl, rfl⟩

/-- A request adds at most one reference, for something that nothing referred to. -/
theorem refs_after (r : RowRequest) (s : Section) :
    Rows.Extends TypeRef.token TypeRef.target Token.typeRefTable s.typeRefs (r.after s).typeRefs ∧
      Rows.Extends MemberRef.token MemberRef.target Token.memberRefTable s.memberRefs
        (r.after s).memberRefs := by
  have hother := refs_after_of_not_isReference (s := s) (r := r)
  cases r with
  | typeRef scope spaceName name =>
    have hafter : (RowRequest.typeRef scope spaceName name).after s =
        (s.addTypeRef scope spaceName name).2 := rfl
    rcases addTypeRef_cases scope spaceName name s with ⟨token, -, hadd⟩ | ⟨hnew, hadd⟩
    · rw [hafter, hadd]
      exact ⟨.same, .same⟩
    · rw [hafter, hadd]
      exact ⟨.more hnew rfl, .same⟩
  | memberRef parent name signature =>
    have hafter : (RowRequest.memberRef parent name signature).after s =
        (s.importMethod parent name signature).2 := rfl
    rcases importMethod_cases parent name signature s with ⟨token, -, hadd⟩ | ⟨hnew, hadd⟩
    · rw [hafter, hadd]
      exact ⟨.same, .same⟩
    · rw [hafter, hadd]
      exact ⟨.same, .more hnew rfl⟩
  | type | nestedType | method =>
    obtain ⟨htypes, hmembers⟩ := hother (by rintro (h | h) <;> cases h)
    rw [htypes, hmembers]
    exact ⟨.same, .same⟩

/-- What a token leads to is not lost. -/
theorem Refers.after (h : s.Refers token r) (q : RowRequest) : (q.after s).Refers token r := by
  cases h with
  | type h => exact .type ((refs_after q s).1.find? h)
  | member h => exact .member ((refs_after q s).2.find? h)

/-- A request for a reference succeeds, and its token leads to what it has asked for. -/
theorem exists_refers (hs : (r.after s).Interned) (hr : r.IsReference) :
    ∃ token, r.perform s = .ok (token, r.after s) ∧ (r.after s).Refers token r := by
  cases r with
  | typeRef scope spaceName name =>
    refine ⟨(s.addTypeRef scope spaceName name).1, rfl, .type ?_⟩
    have hrow : ⟨(s.addTypeRef scope spaceName name).1, scope, spaceName, name⟩ ∈
        (s.addTypeRef scope spaceName name).2.typeRefs := by
      rcases addTypeRef_cases scope spaceName name s with ⟨token, hrow, hadd⟩ | ⟨-, hadd⟩
      · rw [hadd]
        exact hrow
      · rw [hadd]
        exact List.mem_append_right _ (List.mem_singleton_self _)
    exact Rows.find?_of_mem hs.types.tokens hrow
  | memberRef parent name signature =>
    refine ⟨(s.importMethod parent name signature).1, rfl, .member ?_⟩
    have hrow : ⟨(s.importMethod parent name signature).1, parent, name, signature⟩ ∈
        (s.importMethod parent name signature).2.memberRefs := by
      rcases importMethod_cases parent name signature s with ⟨token, hrow, hadd⟩ | ⟨-, hadd⟩
      · rw [hadd]
        exact hrow
      · rw [hadd]
        exact List.mem_append_right _ (List.mem_singleton_self _)
    exact Rows.find?_of_mem hs.members.tokens hrow
  | type | nestedType | method => exact absurd hr (by rintro (h | h) <;> cases h)

/-! ## Histories of requests -/

/-- The numbers of a kind of rows suffice for a history: those that it takes, after the greatest one
in use, have 24 bits. -/
def HasNumbers (kind : RowKind) (history : List RowRequest) (s : Section) : Prop :=
  Rows.greatest (s.tokensOf kind) + s.added kind history < Token.rowLimit

variable {kind : RowKind} {front back : List RowRequest}

theorem grown_append (s : Section) (front back : List RowRequest) :
    s.grown (front ++ back) = (s.grown front).grown back :=
  List.foldl_append

/-- Numbers that suffice for a history suffice for its beginning, and then for the rest of it. -/
theorem HasNumbers.of_append (h : s.HasNumbers kind (front ++ back)) :
    s.HasNumbers kind front ∧ (s.grown front).HasNumbers kind back := by
  obtain ⟨count, hlength, hgreatest⟩ := s.exists_added front kind
  obtain ⟨count', hlength', -⟩ := (s.grown front).exists_added back kind
  unfold HasNumbers added at h ⊢
  rw [grown_append] at h
  omega

/-- A request that adds a row takes one of the numbers. -/
theorem HasNumbers.next_lt (h : s.HasNumbers kind [r])
    (hlength : (s.tokensOf kind).length < ((r.after s).tokensOf kind).length) :
    Rows.next (s.tokensOf kind) < Token.rowLimit := by
  have hgrown : s.grown [r] = r.after s := rfl
  unfold HasNumbers added at h
  rw [hgrown] at h
  unfold Rows.next
  omega

/-- A request keeps references apart while there are numbers left. -/
theorem Interned.after (hs : s.Interned) (htypes : s.HasNumbers .typeRef [r])
    (hmembers : s.HasNumbers .memberRef [r]) : (r.after s).Interned := by
  obtain ⟨hmoreTypes, hmoreMembers⟩ := refs_after r s
  refine ⟨hs.types.extends (by decide) hmoreTypes fun hlength => htypes.next_lt ?_,
    hs.members.extends (by decide) hmoreMembers fun hlength => hmembers.next_lt ?_⟩
  · simpa only [tokensOf, List.length_map] using hlength
  · simpa only [tokensOf, List.length_map] using hlength

theorem Interned.grown (hs : s.Interned) (htypes : s.HasNumbers .typeRef history)
    (hmembers : s.HasNumbers .memberRef history) : (s.grown history).Interned := by
  induction history generalizing s with
  | nil => exact hs
  | cons r history ih =>
    rw [← List.singleton_append] at htypes hmembers
    obtain ⟨htype, htypes⟩ := htypes.of_append
    obtain ⟨hmember, hmembers⟩ := hmembers.of_append
    exact ih (hs.after htype hmember) htypes hmembers

theorem Refers.grown (h : s.Refers token r) (history : List RowRequest) :
    (s.grown history).Refers token r := by
  induction history generalizing s with
  | nil => exact h
  | cons q history ih => exact ih (h.after q)

/-- A request is answered as the section answers it that the requests before it have left. -/
theorem getElem?_answers (s : Section) (history : List RowRequest) (i : Nat) :
    (s.answers history)[i]? =
      history[i]?.map fun r => (r.perform (s.grown (history.take i))).map Prod.fst := by
  induction history generalizing s i with
  | nil => rfl
  | cons q history ih =>
    cases i with
    | zero => rfl
    | succ i => exact ih (q.after s) i

end Section

/-- **References are used again, and only for what they stand for.**  Let the references of a section
have tokens of their own, each for something of its own, and let the section be asked for rows of any
kind, for as long as there are numbers for the references.  Then

* after every request the references have tokens of their own, each for something of its own;
* every request for a reference is answered a token, from then on this token leads to the row with
  exactly what was asked for, and of the requests for references of this kind, whether earlier or
  later ones, the same token is answered to those that ask for the same, and to no others. -/
theorem references_interned {s : Section} {history : List RowRequest} (hs : s.Interned)
    (htypes : s.HasNumbers .typeRef history) (hmembers : s.HasNumbers .memberRef history) :
    (∀ k, (s.grown (history.take k)).Interned) ∧
    ∀ (i : Nat) (r : RowRequest), history[i]? = some r → r.IsReference →
      ∃ token, (s.answers history)[i]? = some (.ok token) ∧
        (∀ k, i < k → (s.grown (history.take k)).Refers token r) ∧
        ∀ (j : Nat) (r' : RowRequest), history[j]? = some r' → r'.kind = r.kind →
          ((s.answers history)[j]? = some (.ok token) ↔ r' = r) := by
  have hinterned : ∀ k, (s.grown (history.take k)).Interned := fun k => by
    rw [← List.take_append_drop k history] at htypes hmembers
    exact hs.grown htypes.of_append.1 hmembers.of_append.1
  have hanswered : ∀ (i : Nat) (r : RowRequest), history[i]? = some r → r.IsReference →
      ∃ token, (s.answers history)[i]? = some (.ok token) ∧
        ∀ k, i < k → (s.grown (history.take k)).Refers token r := by
    intro i r hr href
    have hnext : s.grown (history.take (i + 1)) = r.after (s.grown (history.take i)) := by
      rw [List.take_add_one, hr, Section.grown_append]
      rfl
    obtain ⟨token, hperform, hrefers⟩ := Section.exists_refers (hnext ▸ hinterned (i + 1)) href
    refine ⟨token, ?_, fun k hk => ?_⟩
    · rw [Section.getElem?_answers, hr, Option.map_some, hperform]
      rfl
    · obtain ⟨n, rfl⟩ := Nat.exists_eq_add_of_le (Nat.succ_le_of_lt hk)
      rw [← hnext] at hrefers
      rw [List.take_add, Section.grown_append]
      exact hrefers.grown _
  refine ⟨hinterned, fun i r hr href => ?_⟩
  obtain ⟨token, htoken, hrefers⟩ := hanswered i r hr href
  refine ⟨token, htoken, hrefers, fun j r' hr' hkind => ?_⟩
  have href' : r'.IsReference := by
    rw [RowRequest.IsReference, hkind]
    exact href
  obtain ⟨token', htoken', hrefers'⟩ := hanswered j r' hr' href'
  -- Both tokens lead somewhere once both requests are answered.
  have hlast := (hrefers (max i j + 1) (by omega)).token_eq_iff (hinterned _)
    (hrefers' (max i j + 1) (by omega)) hkind
  rw [htoken', ← hlast]
  simp

/-! ## A sample -/

namespace Sample

/-- A section whose references have numbers with gaps, and not in order. -/
def scattered : Section :=
  ⟨"App.dll", [], [],
    [⟨⟨0x01000009⟩, "Forms", "Xamarin.Forms", "ContentPage"⟩,
      ⟨⟨0x01000002⟩, "mscorlib", "System", "Object"⟩],
    [⟨⟨0x0A000004⟩, ⟨0x01000009⟩, ".ctor", .instanceVoid⟩], none⟩

/-- Requests for references that are there, that are new, and that are new no longer. -/
def referrals : List RowRequest :=
  [.typeRef "Forms" "Xamarin.Forms" "ContentView", .memberRef ⟨0x0100000A⟩ ".ctor" .instanceVoid,
    .typeRef "mscorlib" "System" "Object", .type "App" "Page" (some ⟨0x01000009⟩),
    .memberRef ⟨0x01000009⟩ ".ctor" .instanceVoid,
    .typeRef "Forms" "Xamarin.Forms" "ContentView"]

end Sample

theorem references_interned_scattered :
    Sample.scattered.Interned ∧ Sample.scattered.HasNumbers .typeRef Sample.referrals ∧
      Sample.scattered.HasNumbers .memberRef Sample.referrals ∧
      (Sample.scattered.answers Sample.referrals)[0]? = some (.ok ⟨0x0100000A⟩) ∧
      (Sample.scattered.answers Sample.referrals)[5]? = some (.ok ⟨0x0100000A⟩) ∧
      (Sample.scattered.answers Sample.referrals)[2]? ≠ some (.ok ⟨0x0100000A⟩) ∧
      (Sample.scattered.grown (Sample.referrals.take 3)).Refers ⟨0x0100000A⟩
        (.typeRef "Forms" "Xamarin.Forms" "ContentView") := by
  have hs : Sample.scattered.Interned :=
    ⟨⟨by decide, by decide⟩, ⟨by decide, by decide⟩⟩
  have htypes : Sample.scattered.HasNumbers .typeRef Sample.referrals := by
    show _ + _ < _
    decide +kernel
  have hmembers : Sample.scattered.HasNumbers .memberRef Sample.referrals := by
    show _ + _ < _
    decide +kernel
  obtain ⟨token, htoken, hrefers, hsame⟩ :=
    (references_interned hs htypes hmembers).2 0 _ rfl (Or.inl rfl)
  obtain rfl : token = ⟨0x0100000A⟩ := by
    have hfirst : (Sample.scattered.answers Sample.referrals)[0]? = some (.ok ⟨0x0100000A⟩) := by
      decide +kernel
    exact (Except.ok.inj (Option.some.inj (hfirst.symm.trans htoken))).symm
  refine ⟨hs, htypes, hmembers, htoken, (hsame 5 _ rfl rfl).mpr rfl, ?_, hrefers 3 (by decide)⟩
  exact fun h => absurd ((hsame 2 _ rfl rfl).mp h) (by decide)

end DualInit
