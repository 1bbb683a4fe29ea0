/-!
# Cutting text at a separator

Path lists, paths and the full names of nested types are texts whose pieces stand between
occurrences of one character.  `Split.pieces sep cs` lists these pieces.  There is always one
more piece than there are separators, so pieces may be empty, and joining them again with the
separator gives back the text (`join_pieces`): nothing is trimmed here, callers decide which
pieces count.
-/

namespace DualInit
namespace Split

/-! ## Pieces of a list of characters -/

/-- Puts one more character in front of the first piece. -/
def extend (c : Char) : List (List Char) → List (List Char)
  | [] => [[c]]
  | piece :: rest => (c :: piece) :: rest

/-- The pieces between the occurrences of `sep`, empty ones included. -/
def pieces (sep : Char) : List Char → List (List Char)
  | [] => [[]]
  | c :: cs => if c = sep then [] :: pieces sep cs else extend c (pieces sep cs)

/-- The pieces put back together, with the separator between any two of them. -/
def join (sep : Char) : List (List Char) → List Char
  | [] => []
  | [piece] => piece
  | piece :: next :: rest => piece ++ sep :: join sep (next :: rest)

theorem pieces_ne_nil (sep : Char) : ∀ cs : List Char, pieces sep cs ≠ []
  | [] => by simp [pieces]
  | c :: cs => by
    unfold pieces
    split
    · simp
    · cases pieces sep cs <;> simp [extend]

theorem join_extend (sep c : Char) :
    ∀ ps : List (List Char), ps ≠ [] → join sep (extend c ps) = c :: join sep ps
  | [], h => absurd rfl h
  | [_], _ => rfl
  | _ :: _ :: _, _ => rfl

/-- Cutting loses nothing but the separators, which joining puts back. -/
theorem join_pieces (sep : Char) : ∀ cs : List Char, join sep (pieces sep cs) = cs
  | [] => rfl
  | c :: cs => by
    have ih := join_pieces sep cs
    have hne := pieces_ne_nil sep cs
    unfold pieces
    split
    · next h =>
      revert ih hne
      cases pieces sep cs with
      | nil => intro _ hne; exact absurd rfl hne
      | cons p ps => intro ih _; simp [join, ih, h]
    · rw [join_extend sep c _ hne, ih]

/-- No piece holds the separator. -/
theorem sep_notMem_of_mem_pieces (sep : Char) :
    ∀ cs : List Char, ∀ p ∈ pieces sep cs, sep ∉ p
  | [], p, hp => by
    rw [pieces, List.mem_singleton] at hp
    simp [hp]
  | c :: cs, p, hp => by
    have ih := sep_notMem_of_mem_pieces sep cs
    unfold pieces at hp
    split at hp
    · rcases List.mem_cons.mp hp with rfl | hp
      · simp
      · exact ih p hp
    · next h =>
      revert hp ih
      cases pieces sep cs with
      | nil => intro _ hp; simp [extend] at hp; simp [hp, Ne.symm h]
      | cons q qs =>
        intro ih hp
        rcases List.mem_cons.mp hp with rfl | hp
        · have := ih q (List.mem_cons_self ..)
          simp [this, Ne.symm h]
        · exact ih p (List.mem_cons_of_mem _ hp)

/-- A separator ends a piece and begins the next one. -/
theorem pieces_append_sep (sep : Char) (ds : List Char) :
    ∀ cs : List Char, pieces sep (cs ++ sep :: ds) = pieces sep cs ++ pieces sep ds
  | [] => by simp [pieces]
  | c :: cs => by
    have ih := pieces_append_sep sep ds cs
    have hne := pieces_ne_nil sep cs
    rw [List.cons_append, pieces, pieces, ih]
    split
    · rfl
    · revert hne
      cases pieces sep cs with
      | nil => intro hne; exact absurd rfl hne
      | cons p ps => intro _; rfl

/-- Without separators there is a single piece. -/
theorem pieces_of_notMem {sep : Char} : ∀ {cs : List Char}, sep ∉ cs → pieces sep cs = [cs]
  | [], _ => rfl
  | c :: cs, h => by
    have ih := pieces_of_notMem fun hmem => h (List.mem_cons_of_mem c hmem)
    have hne : c ≠ sep := fun heq => h (heq ▸ List.mem_cons_self)
    rw [pieces, if_neg hne, ih]
    rfl

/-- Cutting undoes joining. -/
theorem pieces_join {sep : Char} : ∀ {ps : List (List Char)}, ps ≠ [] → (∀ p ∈ ps, sep ∉ p) →
    pieces sep (join sep ps) = ps
  | [], hne, _ => absurd rfl hne
  | [p], _, h => pieces_of_notMem (h p (List.mem_singleton_self p))
  | p :: q :: rest, _, h => by
    obtain ⟨hp, hrest⟩ := List.forall_mem_cons.mp h
    rw [join, pieces_append_sep, pieces_of_notMem hp, pieces_join (List.cons_ne_nil q rest) hrest]
    rfl

/-! ## Pieces of a text -/

/-- The pieces of a text between the occurrences of `sep`. -/
def texts (sep : Char) (s : String) : List String :=
  (pieces sep s.toList).map String.ofList

theorem texts_ne_nil (sep : Char) (s : String) : texts sep s ≠ [] :=
  fun h => pieces_ne_nil sep s.toList (List.map_eq_nil_iff.mp h)

/-- A text without separators is its only piece. -/
theorem texts_of_notMem {sep : Char} {s : String} (h : sep ∉ s.toList) : texts sep s = [s] := by
  rw [texts, pieces_of_notMem h, List.map_singleton, String.ofList_toList]

/-- A text without separators becomes the last piece of the text it is added to. -/
theorem texts_push_append {sep : Char} {last : String} (h : sep ∉ last.toList) (s : String) :
    texts sep (s.push sep ++ last) = texts sep s ++ [last] := by
  have htext : (s.push sep ++ last).toList = s.toList ++ sep :: last.toList := by simp
  rw [texts, htext, pieces_append_sep, List.map_append]
  show _ ++ texts sep last = _
  rw [texts_of_notMem h]
  rfl

/-- The pieces of a text that are not empty. -/
def nonempty (sep : Char) (s : String) : List String :=
  (texts sep s).filter (· ≠ "")

/-! ## Pairs -/

/-- Replaces each pair of equal characters `c` by a single one, from left to right; a pair is
used up before the next one is looked for, so three in a row leave two. -/
def halvePairs (c : Char) : List Char → List Char
  | a :: b :: rest =>
    if a = c ∧ b = c then c :: halvePairs c rest else a :: halvePairs c (b :: rest)
  | rest => rest

theorem halvePairs_cons_of_ne {a c : Char} (h : a ≠ c) (rest : List Char) :
    halvePairs c (a :: rest) = a :: halvePairs c rest := by
  cases rest with
  | nil => rfl
  | cons b rest => rw [halvePairs, if_neg fun hpair => h hpair.1]

/-- A run of the character is cut in half, and one that cannot be keeps the odd one. -/
theorem halvePairs_run {c : Char} {rest : List Char} (h : rest.head? ≠ some c) : ∀ n,
    halvePairs c (List.replicate n c ++ rest) =
      List.replicate ((n + 1) / 2) c ++ halvePairs c rest
  | 0 => rfl
  | 1 => by
    cases rest with
    | nil => rfl
    | cons b rest =>
      have hb : b ≠ c := fun heq => h (congrArg some heq)
      show halvePairs c (c :: b :: rest) = c :: halvePairs c (b :: rest)
      rw [halvePairs, if_neg fun hpair => hb hpair.2]
  | n + 2 => by
    have hhalf : (n + 2 + 1) / 2 = (n + 1) / 2 + 1 := by omega
    rw [hhalf, List.replicate_succ, List.replicate_succ, List.replicate_succ]
    show halvePairs c (c :: c :: (List.replicate n c ++ rest)) = _
    rw [halvePairs, if_pos ⟨rfl, rfl⟩, halvePairs_run h n]
    rfl

/-- Another character keeps what is in front of it from what is behind it. -/
theorem halvePairs_append_cons {c sep : Char} (h : sep ≠ c) (behind : List Char) :
    ∀ front, halvePairs c (front ++ sep :: behind) = halvePairs c front ++ sep :: halvePairs c behind
  | [] => halvePairs_cons_of_ne h behind
  | [a] => by
    show halvePairs c (a :: sep :: behind) = a :: sep :: halvePairs c behind
    rw [halvePairs, if_neg fun hpair => h hpair.2, halvePairs_cons_of_ne h]
  | a :: b :: front => by
    show halvePairs c (a :: b :: (front ++ sep :: behind)) = _
    rw [halvePairs, halvePairs]
    split
    · rw [halvePairs_append_cons h behind front]
      rfl
    · exact congrArg (a :: ·) (halvePairs_append_cons h behind (b :: front))

theorem halvePairs_join {c sep : Char} (h : sep ≠ c) : ∀ ps : List (List Char),
    halvePairs c (join sep ps) = join sep (ps.map (halvePairs c))
  | [] => rfl
  | [_] => rfl
  | p :: q :: rest => by
    rw [join, halvePairs_append_cons h, halvePairs_join h (q :: rest)]
    rfl

theorem mem_of_mem_halvePairs {c a : Char} : ∀ {cs : List Char}, a ∈ halvePairs c cs → a ∈ cs
  | [], ha => ha
  | [_], ha => ha
  | b :: d :: rest, ha => by
    rw [halvePairs] at ha
    split at ha
    · next hpair =>
      rcases List.mem_cons.mp ha with rfl | ha
      · rw [← hpair.1]
        exact List.mem_cons_self
      · exact List.mem_cons_of_mem _ (List.mem_cons_of_mem _ (mem_of_mem_halvePairs ha))
    · rcases List.mem_cons.mp ha with rfl | ha
      · exact List.mem_cons_self
      · exact List.mem_cons_of_mem _ (mem_of_mem_halvePairs ha)

theorem halvePairs_eq_nil {c : Char} {cs : List Char} : halvePairs c cs = [] ↔ cs = [] := by
  cases cs with
  | nil => exact Iff.rfl
  | cons a cs =>
    cases cs with
    | nil => exact Iff.rfl
    | cons b cs =>
      rw [halvePairs]
      split
      · simp
      · simp

end Split
end DualInit
