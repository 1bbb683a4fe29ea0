import DualInit.Metadata.Growth
import DualInit.Proofs.Metadata.Sections

/-!
# Numbers of new rows

A row that is added takes the number after the greatest one in use, whichever numbers those are:
they may have gaps, and the rows may be out of order or even share tokens.  Numbers have 24 bits,
so the row after the last number is row 0, and from then on every new row of the kind is row 0.

* `RowRequest.perform_ok`: what a request does to the tokens of each kind of rows;
* `exists_added`: after a history of requests the greatest number in use has gone up by the number
  of rows that were added, but not beyond the last number;
* `new_token_fresh_iff`: a new row has a token of its own, and a row number, exactly as long as the
  numbers have sufficed.
-/

namespace DualInit

/-! ## Kinds of rows -/

/-- The kinds of rows that a section is given. -/
inductive RowKind where
  | type
  | typeRef
  | method
  | memberRef
deriving DecidableEq, Repr

/-- The table that rows of a kind stand in. -/
def RowKind.table : RowKind → Nat
  | type => Token.typeDefTable
  | typeRef => Token.typeRefTable
  | method => Token.methodDefTable
  | memberRef => Token.memberRefTable

theorem RowKind.table_lt (kind : RowKind) : kind.table < 256 := by
  cases kind <;> decide

/-- The kind of row that is requested. -/
def RowRequest.kind : RowRequest → RowKind
  | type .. => .type
  | nestedType .. => .type
  | typeRef .. => .typeRef
  | method .. => .method
  | memberRef .. => .memberRef

namespace Section

/-- The tokens of all rows of a kind, those of methods over all types. -/
def tokensOf (kind : RowKind) (s : Section) : List Token :=
  match kind with
  | .type => s.types.map (·.token)
  | .typeRef => s.typeRefs.map (·.token)
  | .method => s.methods.map (·.token)
  | .memberRef => s.memberRefs.map (·.token)

/-- The token that the next row of a kind takes. -/
def nextToken (kind : RowKind) (s : Section) : Token :=
  .ofParts kind.table (Rows.next (s.tokensOf kind))

variable {s s' : Section} {owner token : Token} {m : MethodDef} {kind : RowKind}

theorem row_nextToken : (s.nextToken kind).row = Rows.next (s.tokensOf kind) % Token.rowLimit :=
  Token.row_ofParts _ kind.table_lt

/-! ## Numbers in use -/

/-- The next row takes up one more number, unless the last one is in use. -/
theorem greatest_append_nextToken : Rows.greatest (s.tokensOf kind ++ [s.nextToken kind]) =
    min (Rows.greatest (s.tokensOf kind) + 1) (Token.rowLimit - 1) := by
  by_cases hroom : Rows.next (s.tokensOf kind) < Token.rowLimit
  · rw [nextToken, Rows.greatest_append_next kind.table_lt hroom]
    exact (Nat.min_eq_left (Nat.le_pred_of_lt hroom)).symm
  · have hlt : Rows.greatest (s.tokensOf kind) < Token.rowLimit := Rows.greatest_lt
    have hfull : Rows.greatest (s.tokensOf kind) = Token.rowLimit - 1 := by
      unfold Rows.next at hroom
      omega
    have hrow : (s.nextToken kind).row = 0 := by
      rw [row_nextToken, Rows.next, hfull]
      rfl
    refine Nat.le_antisymm (Rows.greatest_le_iff.mpr fun t ht => ?_) ?_
    · rw [hfull]
      rcases List.mem_append.mp ht with ht | ht
      · exact Nat.le_trans (Rows.row_le_greatest ht) (by rw [hfull]; decide)
      · rw [List.mem_singleton.mp ht, hrow]
        exact Nat.zero_le _
    · rw [hfull, Nat.min_eq_right (by decide), ← hfull]
      exact Rows.greatest_le_iff.mpr fun t ht =>
        Rows.row_le_greatest (List.mem_append_left _ ht)

/-- The next token is a token of its own, and has a row number, exactly if a number is left. -/
theorem nextToken_fresh_iff : s.nextToken kind ∉ s.tokensOf kind ∧ (s.nextToken kind).row ≠ 0 ↔
    Rows.next (s.tokensOf kind) < Token.rowLimit := by
  constructor
  · rintro ⟨-, hrow⟩
    have hle : Rows.next (s.tokensOf kind) ≤ Token.rowLimit := Rows.greatest_lt
    refine Nat.lt_of_le_of_ne hle fun hfull => hrow ?_
    rw [row_nextToken, hfull, Nat.mod_self]
  · intro hroom
    refine ⟨Rows.ofParts_next_notMem kind.table_lt hroom, ?_⟩
    rw [row_nextToken, Nat.mod_eq_of_lt hroom]
    exact Nat.succ_ne_zero _

/-! ## One request -/

/-- A type without methods adds nothing but its own token. -/
theorem tokensOf_addType {t : TypeDef} (hmethods : t.methods = []) :
    tokensOf kind { s with types := s.types ++ [t] } =
      if kind = .type then s.tokensOf kind ++ [t.token] else s.tokensOf kind := by
  cases kind with
  | type => exact List.map_append
  | typeRef => rfl
  | method => simp [tokensOf, methods, hmethods]
  | memberRef => rfl

/-- A method that is added to a type adds nothing but its own token, wherever the type stands. -/
theorem tokensOf_updateType_pushMethod (h : s.updateType owner (·.pushMethod m) = .ok s') :
    ((s'.tokensOf .method).Perm (s.tokensOf .method ++ [m.token])) ∧
      ∀ kind, kind ≠ .method → s'.tokensOf kind = s.tokensOf kind := by
  have hpush : ∀ t u : TypeDef, t.pushMethod m = .ok u → u = t.append m :=
    fun _ _ h => (TypeDef.pushMethod_ok.mp h).2
  refine ⟨tokens_of_updateType (fun t u h => ?_) h, fun kind hkind => ?_⟩
  · rw [hpush t u h, TypeDef.methods_append, List.map_append, List.map_singleton]
  · obtain ⟨types, hupdate, rfl⟩ := updateType_eq_ok.mp h
    cases kind with
    | type => exact Rows.map_of_updateFirst (fun t u h => by rw [hpush t u h]; rfl) hupdate
    | typeRef => rfl
    | method => exact absurd rfl hkind
    | memberRef => rfl

end Section

namespace RowRequest

variable {s s' : Section} {token : Token} {r : RowRequest} {kind : RowKind}

/-- The section has one more row of a kind, under the next token, and its other rows have the tokens
that they had. -/
def Adds (kind : RowKind) (s s' : Section) : Prop :=
  (s'.tokensOf kind).Perm (s.tokensOf kind ++ [s.nextToken kind]) ∧
    ∀ other, other ≠ kind → s'.tokensOf other = s.tokensOf other

theorem Adds.of_addType {t : TypeDef} (hmethods : t.methods = [])
    (htoken : t.token = s.nextToken .type) : Adds .type s { s with types := s.types ++ [t] } := by
  constructor
  · rw [Section.tokensOf_addType hmethods, if_pos rfl, htoken]
  · intro other hother
    rw [Section.tokensOf_addType hmethods, if_neg hother]

/-- A request that succeeds finds the row that there is, and leaves the section, or adds a row under
the next token. -/
theorem perform_ok (h : r.perform s = .ok (token, s')) :
    token ∈ s.tokensOf r.kind ∧ s' = s ∨ token = s.nextToken r.kind ∧ Adds r.kind s s' := by
  cases r with
  | type spaceName name extends? =>
    cases h
    exact Or.inr ⟨rfl, .of_addType rfl rfl⟩
  | nestedType enclosing name extends? =>
    simp only [perform, Section.defineNestedType] at h
    split at h
    · cases h
    · cases h
      exact Or.inr ⟨rfl, .of_addType rfl rfl⟩
  | typeRef scope spaceName name =>
    simp only [perform, Section.addTypeRef] at h
    split at h
    · next old hold =>
      cases h
      exact Or.inl ⟨List.mem_map_of_mem (List.mem_of_find?_eq_some hold), rfl⟩
    · cases h
      refine Or.inr ⟨rfl, .of_eq List.map_append, fun other hother => ?_⟩
      cases other with
      | typeRef => exact absurd rfl hother
      | type | method | memberRef => rfl
  | method owner m =>
    simp only [perform, Section.addMethod, except_bind_ok] at h
    obtain ⟨grown, hgrown, h⟩ := h
    obtain ⟨rfl, rfl⟩ := Prod.mk.inj (Except.ok.inj h)
    exact Or.inr ⟨rfl, Section.tokensOf_updateType_pushMethod hgrown⟩
  | memberRef parent name signature =>
    simp only [perform, Section.importMethod] at h
    split at h
    · next old hold =>
      cases h
      exact Or.inl ⟨List.mem_map_of_mem (List.mem_of_find?_eq_some hold), rfl⟩
    · cases h
      refine Or.inr ⟨rfl, .of_eq List.map_append, fun other hother => ?_⟩
      cases other with
      | memberRef => exact absurd rfl hother
      | type | typeRef | method => rfl

/-- A request succeeds with a token and adds a row of its kind. -/
def Creates (r : RowRequest) (s : Section) (token : Token) : Prop :=
  ∃ s', r.perform s = .ok (token, s') ∧ (s.tokensOf r.kind).length < (s'.tokensOf r.kind).length

/-- A row that is added stands under the next token. -/
theorem Creates.token_eq (h : r.Creates s token) : token = s.nextToken r.kind := by
  obtain ⟨s', hperform, hlength⟩ := h
  rcases perform_ok hperform with ⟨-, rfl⟩ | ⟨htoken, -⟩
  · exact absurd hlength (Nat.lt_irrefl _)
  · exact htoken

/-- After a request there are the rows of a kind that there were, and at most one more, under the
next token. -/
theorem tokensOf_after (r : RowRequest) (s : Section) (kind : RowKind) :
    ((r.after s).tokensOf kind).Perm (s.tokensOf kind) ∨
      ((r.after s).tokensOf kind).Perm (s.tokensOf kind ++ [s.nextToken kind]) := by
  unfold after
  split
  · next token grown hperform =>
    rcases perform_ok hperform with ⟨-, rfl⟩ | ⟨-, hadded, hothers⟩
    · exact Or.inl (.refl _)
    · by_cases hkind : kind = r.kind
      · exact Or.inr (hkind ▸ hadded)
      · exact Or.inl (.of_eq (hothers kind hkind))
  · exact Or.inl (.refl _)

end RowRequest

/-! ## Histories of requests -/

namespace Section

variable {s : Section} {history : List RowRequest} {kind : RowKind}

/-- How many rows of a kind a history of requests adds. -/
def added (kind : RowKind) (history : List RowRequest) (s : Section) : Nat :=
  ((s.grown history).tokensOf kind).length - (s.tokensOf kind).length

/-- Every row that is added takes up one number, until the last one is in use. -/
theorem exists_added (s : Section) (history : List RowRequest) (kind : RowKind) :
    ∃ count, ((s.grown history).tokensOf kind).length = (s.tokensOf kind).length + count ∧
      Rows.greatest ((s.grown history).tokensOf kind) =
        min (Rows.greatest (s.tokensOf kind) + count) (Token.rowLimit - 1) := by
  induction history generalizing s with
  | nil => exact ⟨0, rfl, (Nat.min_eq_left (Nat.le_pred_of_lt Rows.greatest_lt)).symm⟩
  | cons r history ih =>
    obtain ⟨count, hlength, hgreatest⟩ := ih (r.after s)
    rcases RowRequest.tokensOf_after r s kind with hperm | hperm
    · exact ⟨count, hperm.length_eq ▸ hlength, Rows.greatest_perm hperm ▸ hgreatest⟩
    · refine ⟨count + 1, ?_, ?_⟩
      · rw [hperm.length_eq, List.length_append, List.length_singleton] at hlength
        exact hlength.trans (by omega)
      · rw [Rows.greatest_perm hperm, greatest_append_nextToken] at hgreatest
        exact hgreatest.trans (by omega)

theorem greatest_grown : Rows.greatest ((s.grown history).tokensOf kind) =
    min (Rows.greatest (s.tokensOf kind) + s.added kind history) (Token.rowLimit - 1) := by
  obtain ⟨count, hlength, hgreatest⟩ := s.exists_added history kind
  rw [hgreatest, added, hlength, Nat.add_sub_cancel_left]

end Section

/-- A row that is added, after whatever history, stands in the table of its kind.  Its token differs
from those of all rows of the kind that are there, and its number is not 0, exactly if the numbers
have sufficed: the greatest one that was in use at first, one more for every row of the kind that
was added since, and one for the new row. -/
theorem new_token_fresh_iff {s : Section} {history : List RowRequest} {r : RowRequest} {token : Token}
    (h : r.Creates (s.grown history) token) :
    token.table = r.kind.table ∧
    (token ∉ (s.grown history).tokensOf r.kind ∧ token.row ≠ 0 ↔
      Rows.greatest (s.tokensOf r.kind) + s.added r.kind history + 1 < Token.rowLimit) := by
  rw [h.token_eq]
  refine ⟨Token.table_ofParts _ r.kind.table_lt, ?_⟩
  rw [Section.nextToken_fresh_iff, Rows.next, Section.greatest_grown]
  omega

/-! ## Samples -/

namespace Sample

/-- A section with two types, of which the first one has a method of the given token. -/
def neighbours (token : Token) : Section :=
  ⟨"App.dll", [],
    [⟨⟨0x02000001⟩, "", "First", 0, none, none, [⟨token, "Main", 0, 0, .instanceVoid, [], none⟩]⟩,
      ⟨⟨0x02000002⟩, "", "Second", 0, none, none, []⟩], [], [], none⟩

/-- A method to add. -/
def addition : MethodDef :=
  ⟨.null, "Added", 0, 0, .instanceVoid, [], none⟩

end Sample

theorem new_token_fresh_iff_sample :
    (RowRequest.method ⟨0x02000002⟩ Sample.addition).Creates
        ((Sample.neighbours ⟨0x06000007⟩).grown [.method ⟨0x02000001⟩ Sample.addition])
        ⟨0x06000009⟩ ∧
      (⟨0x06000009⟩ : Token) ∉ ((Sample.neighbours ⟨0x06000007⟩).grown
        [.method ⟨0x02000001⟩ Sample.addition]).tokensOf .method := by
  have hcreates : (RowRequest.method ⟨0x02000002⟩ Sample.addition).Creates
      ((Sample.neighbours ⟨0x06000007⟩).grown [.method ⟨0x02000001⟩ Sample.addition])
      ⟨0x06000009⟩ := ⟨_, rfl, by decide +kernel⟩
  exact ⟨hcreates, ((new_token_fresh_iff hcreates).2.mpr (by decide +kernel)).1⟩

/-- Once the last number is in use, methods that are given to different types share a token. -/
theorem exists_growth_repeating :
    (RowRequest.method ⟨0x02000002⟩ Sample.addition).Creates
        ((Sample.neighbours ⟨0x06FFFFFF⟩).grown [.method ⟨0x02000001⟩ Sample.addition])
        ⟨0x06000000⟩ ∧
      (⟨0x06000000⟩ : Token) ∈ ((Sample.neighbours ⟨0x06FFFFFF⟩).grown
        [.method ⟨0x02000001⟩ Sample.addition]).tokensOf .method ∧
      (⟨0x06000000⟩ : Token).row = 0 :=
  ⟨⟨_, rfl, by decide +kernel⟩, by decide +kernel, rfl⟩

end DualInit
