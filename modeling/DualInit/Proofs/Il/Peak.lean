import DualInit.Proofs.Il.Discipline

/-!
# The greatest depth on all paths

The pass over a sequence keeps the greatest depth that it has come across, and this is the depth that
a header says.  It goes over the sequence once, and paths may be many: `maxStack_sound_and_tight` says
what the number has to do with them.  Behind no instruction of a path is the stack deeper, and if
there is no instruction that paths leave out, one path gets this deep.

What carries over from one instruction to the next is `Peaks`: the peak bounds the depths with which
paths have left the instructions so far, and is one of these depths as long as all of them have been
reached.  Code that cannot be reached counts towards the peak, so the second half needs its condition.

A path is given by the indices it passes through.  Its instructions are left with depths that
`Sequence.Departs` speaks of (`Walk.departs`), and every such depth is that of a path
(`exists_walk_of_departs`).
-/

namespace DualInit

variable {s : Sequence} {returnsValue : Bool} {index next depth : Nat} {i : Instruction}

/-! ## Paths and the depths behind their instructions -/

namespace Sequence

/-- An instruction that finds what it takes, as a change of depth. -/
theorem depthBehind_of_le (hi : s.instructions[index]? = some i)
    (htakes : (i.effect returnsValue).1 ≤ depth) :
    s.depthBehind returnsValue depth index =
      (depth - (i.effect returnsValue).1 + (i.effect returnsValue).2 : Nat) := by
  rw [depthBehind, hi]
  show (depth : Int) - (i.effect returnsValue).1 + (i.effect returnsValue).2 = _
  omega

/-- In a disciplined sequence a path that comes to an instruction leaves it, with the depth that
adding up gives. -/
theorem Reaches.departs (hs : s.Regular) (hdisciplined : s.Disciplined returnsValue)
    (h : s.Reaches returnsValue index depth) : ∃ left : Nat, s.Departs returnsValue index left ∧
      s.depthBehind returnsValue depth index = left ∧
      ∀ next, s.Leads index next → s.Reaches returnsValue next left := by
  have hinside : index < s.instructions.length := h.lt_length hs
  obtain ⟨i, hi⟩ : ∃ i, s.instructions[index]? = some i := ⟨_, List.getElem?_eq_getElem hinside⟩
  have htakes := hdisciplined.takes h hi
  exact ⟨_, ⟨depth, i, h, hi, htakes, rfl⟩, depthBehind_of_le hi htakes,
    fun next hl => h.step hi htakes hl⟩

/-- A path of a disciplined sequence leaves each of its instructions with the depth that adding up
gives. -/
theorem Walk.departs {path : List Nat} (hs : s.Regular) (hdisciplined : s.Disciplined returnsValue)
    (h : s.Walk index path) (hreaches : s.Reaches returnsValue index depth) {passed : List Nat}
    {last : Nat} (hpassed : passed ++ [last] <+: path) : ∃ left : Nat,
      s.Departs returnsValue last left ∧
        (passed ++ [last]).foldl (s.depthBehind returnsValue) depth = left := by
  induction h generalizing depth passed with
  | stay index =>
    obtain ⟨left, hdeparts, hleft, -⟩ := hreaches.departs hs hdisciplined
    have hlength := hpassed.length_le
    rw [List.length_append, List.length_singleton, List.length_singleton] at hlength
    obtain rfl : passed = [] := List.eq_nil_of_length_eq_zero (by omega)
    obtain ⟨rfl, -⟩ := List.cons_prefix_cons.mp hpassed
    exact ⟨left, hdeparts, hleft⟩
  | @go index next rest hl _ ih =>
    obtain ⟨left, hdeparts, hleft, hnext⟩ := hreaches.departs hs hdisciplined
    cases passed with
    | nil =>
      obtain ⟨rfl, -⟩ := List.cons_prefix_cons.mp hpassed
      exact ⟨left, hdeparts, hleft⟩
    | cons first passed =>
      obtain ⟨rfl, hrest⟩ := List.cons_prefix_cons.mp hpassed
      rw [List.cons_append, List.foldl_cons, hleft]
      exact ih (hnext next hl) hrest

theorem Walk.snoc {path : List Nat} {start : Nat} (h : s.Walk start (path ++ [index]))
    (hl : s.Leads index next) : s.Walk start (path ++ [index] ++ [next]) := by
  induction path generalizing start with
  | nil =>
    cases h with
    | stay => exact .go hl (.stay next)
    | go _ h => cases h
  | cons first path ih =>
    generalize hrest : path ++ [index] = rest at h ih
    rw [List.cons_append, hrest] at h ⊢
    cases h with
    | stay => exact absurd hrest (by simp)
    | go hfirst h => exact .go hfirst (ih h)

/-- What paths come to, some list of indices leads to, and adding up along it gives the depth. -/
theorem exists_walk_of_reaches (h : s.Reaches returnsValue index depth) :
    ∃ path, s.Walk 0 (path ++ [index]) ∧ s.depthAfter returnsValue path = depth := by
  induction h with
  | start => exact ⟨[], .stay 0, rfl⟩
  | @step index next depth i _ hi htakes hl ih =>
    obtain ⟨path, hpath, hdepth⟩ := ih
    refine ⟨path ++ [index], hpath.snoc hl, ?_⟩
    rw [depthAfter, List.foldl_append, ← depthAfter, hdepth]
    exact depthBehind_of_le hi htakes

theorem exists_walk_of_departs (h : s.Departs returnsValue index depth) :
    ∃ path, s.Walk 0 path ∧ s.depthAfter returnsValue path = depth := by
  obtain ⟨found, i, hreaches, hi, htakes, rfl⟩ := h
  obtain ⟨path, hpath, hdepth⟩ := exists_walk_of_reaches hreaches
  refine ⟨path ++ [index], hpath, ?_⟩
  rw [depthAfter, List.foldl_append, ← depthAfter, hdepth]
  exact depthBehind_of_le hi htakes

end Sequence

/-! ## The peak of a tally -/

namespace Stack

variable {t t' : Tally}

/-- What a part of the pass gets to know if it does not end is known of the tally it answers. -/
theorem known_of_eq_some {x : Option Tally} {Known : Tally → Prop} {Refuted : Prop}
    (h : (∃ t, x = some t ∧ Known t) ∨ x = none ∧ Refuted) (hsome : x = some t) : Known t := by
  rcases h with ⟨_, hsome', hknown⟩ | ⟨hnone, -⟩
  · exact Option.some.inj (hsome'.symm.trans hsome) ▸ hknown
  · cases hsome.symm.trans hnone

/-- A step raises the peak to the depth with which paths leave its instruction, if any do. -/
theorem peak_of_step (hs : s.Regular) (hi : s.instructions[index]? = some i)
    (h : Knows returnsValue s index t) (hok : t.step returnsValue ⟨index⟩ i = some t') :
    ∃ left, t'.peak = max t.peak left ∧
      (∀ depth, s.Departs returnsValue index depth → depth = left) ∧
      ∀ depth, s.Reaches returnsValue index depth → s.Departs returnsValue index left := by
  obtain ⟨arrived, harrive, hok⟩ := Option.bind_eq_some_iff.mp hok
  obtain ⟨taken, htake, hdepart⟩ := Option.bind_eq_some_iff.mp hok
  have hat := known_of_eq_some (arrive_knows hs h) harrive
  obtain ⟨-, hdepth, hreachable, hnoted⟩ := known_of_eq_some (take_knows hi hat) htake
  have hafter := leave_knows hi hat hdepth hreachable hnoted
  refine ⟨_, ?_, fun depth hdeparts => ((hafter.here depth).mp hdeparts).2,
    fun depth hreaches => (hafter.here _).mpr ⟨?_, rfl⟩⟩
  · rw [Tally.peak_of_depart hdepart, ← Tally.peak_of_arrive harrive, ← Tally.peak_of_take htake]
    rfl
  · exact hreachable.trans ((hat.here depth).mp hreaches).1

/-- What the peak says in front of the instruction at an index about those in front of it. -/
structure Peaks (returnsValue : Bool) (s : Sequence) (index : Nat) (t : Tally) : Prop where
  /-- Paths leave none of them with a deeper stack. -/
  bounds : ∀ earlier depth, earlier < index → s.Departs returnsValue earlier depth → depth ≤ t.peak
  /-- If all of them are reached, paths leave one with a stack as deep, unless nothing has been left
  on the stack so far. -/
  attained : (∀ earlier < index, ∃ depth, s.Reaches returnsValue earlier depth) →
    t.peak = 0 ∨ ∃ earlier, s.Departs returnsValue earlier t.peak

theorem peaks_start (returnsValue : Bool) (s : Sequence) : Peaks returnsValue s 0 .start :=
  ⟨fun _ _ hearlier => absurd hearlier (Nat.not_lt_zero _), fun _ => Or.inl rfl⟩

theorem Peaks.step (hs : s.Regular) (hi : s.instructions[index]? = some i)
    (hknows : Knows returnsValue s index t) (h : Peaks returnsValue s index t)
    (hok : t.step returnsValue ⟨index⟩ i = some t') : Peaks returnsValue s (index + 1) t' := by
  obtain ⟨left, hpeak, hleft, hdeparts⟩ := peak_of_step hs hi hknows hok
  refine ⟨fun earlier depth hearlier hdepth => ?_, fun hreached => ?_⟩
  · rcases Nat.lt_or_eq_of_le (Nat.le_of_lt_succ hearlier) with hlt | rfl
    · have := h.bounds earlier depth hlt hdepth
      omega
    · have := hleft depth hdepth
      omega
  · obtain ⟨found, hfound⟩ := hreached index (Nat.lt_succ_self index)
    rcases Nat.le_total t.peak left with hle | hle
    · rw [hpeak, Nat.max_eq_right hle]
      exact Or.inr ⟨index, hdeparts found hfound⟩
    · rw [hpeak, Nat.max_eq_left hle]
      exact h.attained fun earlier hearlier => hreached earlier (Nat.lt_succ_of_lt hearlier)

theorem Peaks.follow (hs : s.Regular) {code : List Instruction}
    (hcode : s.instructions.drop index = code) (hknows : Knows returnsValue s index t)
    (h : Peaks returnsValue s index t) (hok : t.follow returnsValue index code = some t') :
    Peaks returnsValue s (index + code.length) t' := by
  induction code generalizing index t with
  | nil =>
    cases hok
    exact h
  | cons i code ih =>
    obtain ⟨hi, hrest⟩ := head_and_tail_of_drop hcode
    obtain ⟨next, hstep, hok⟩ := Option.bind_eq_some_iff.mp hok
    obtain ⟨hknows', -⟩ := known_of_eq_some (step_knows hs hi hknows) hstep
    rw [List.length_cons, show index + (code.length + 1) = index + 1 + code.length by omega]
    exact ih hrest hknows' (h.step hs hi hknows hstep) hok

/-- A sequence with a greatest depth is disciplined, and the greatest depth is that of a tally that
has come to the end. -/
theorem peaks_of_maxDepth (hs : s.Regular) (hok : maxDepth returnsValue s = .ok depth) :
    s.Disciplined returnsValue ∧ depth ≤ depthLimit ∧
      ∃ t : Tally, t.peak = depth ∧ Peaks returnsValue s s.length t := by
  obtain ⟨t, hfollow, hresult⟩ := Option.bind_eq_some_iff.mp (maxDepth_eq_ok.mp hok)
  have hpeaks := (peaks_start returnsValue s).follow hs List.drop_zero
    (knows_start returnsValue s) hfollow
  rw [Nat.zero_add] at hpeaks
  have hall := known_of_eq_some (follow_knows hs List.drop_zero (knows_start returnsValue s)) hfollow
  unfold Tally.result at hresult
  split at hresult
  · next hlimit =>
    cases hresult
    exact ⟨Sequence.disciplined_of_forall fun index => hall index (Nat.zero_le _), hlimit, t, rfl,
      hpeaks⟩
  · cases hresult

end Stack

/-! ## The depth in the header -/

/-- **The greatest depth of a body is a sound and tight bound.**  Behind no instruction of a path from
the first instruction is the stack deeper than the body says, whichever way conditional branches go.
If every instruction is on some path, there is a path behind whose last instruction the stack is
exactly this deep. -/
theorem maxStack_sound_and_tight (s : Sequence) (returnsValue : Bool) (body : EncodedBody)
    (hs : s.IsFinished) (hbody : encode s returnsValue = .ok body) :
    (∀ path, s.Walk 0 path → ∀ passed, passed <+: path →
      s.depthAfter returnsValue passed ≤ body.maxStack.toNat) ∧
    ((∀ index < s.length, ∃ path, s.Walk 0 path ∧ index ∈ path) →
      ∃ path, s.Walk 0 path ∧ s.depthAfter returnsValue path = body.maxStack.toNat) := by
  obtain ⟨-, peak, hdepth, -, hstack, -⟩ := encode_ok.mp hbody
  obtain ⟨hdisciplined, hlimit, t, rfl, hpeaks⟩ := Stack.peaks_of_maxDepth hs.regular hdepth
  have hstack : body.maxStack.toNat = t.peak := by
    rw [hstack]
    exact UInt16.toNat_ofNat_of_lt' (Nat.lt_succ_of_le hlimit)
  rw [hstack]
  have hinside {index left : Nat} (h : s.Departs returnsValue index left) : left ≤ t.peak := by
    obtain ⟨_, i, hreaches, -⟩ := id h
    exact hpeaks.bounds index left (hreaches.lt_length hs.regular) h
  refine ⟨fun path hpath passed hpassed => ?_, fun hall => ?_⟩
  · rcases List.eq_nil_or_concat passed with rfl | ⟨passed, last, rfl⟩
    · exact Int.natCast_nonneg _
    · rw [List.concat_eq_append] at hpassed ⊢
      obtain ⟨left, hdeparts, hleft⟩ :=
        hpath.departs hs.regular hdisciplined (.start : s.Reaches returnsValue 0 0) hpassed
      have hdepth : s.depthAfter returnsValue (passed ++ [last]) = left := hleft
      have hle := hinside hdeparts
      omega
  · have hreached : ∀ index < s.length, ∃ depth, s.Reaches returnsValue index depth := by
      intro index hindex
      obtain ⟨path, hpath, hmem⟩ := hall index hindex
      obtain ⟨before, after, rfl⟩ := List.append_of_mem hmem
      have hpassed : before ++ [index] <+: before ++ index :: after := ⟨after, by simp⟩
      obtain ⟨_, ⟨depth, _, hreaches, -⟩, -⟩ :=
        hpath.departs hs.regular hdisciplined (.start : s.Reaches returnsValue 0 0) hpassed
      exact ⟨depth, hreaches⟩
    rcases hpeaks.attained hreached with hzero | ⟨index, hdeparts⟩
    · -- nothing is ever left on the stack, so the first instruction attains the bound
      obtain ⟨left, hdeparts, -⟩ :=
        (.start : s.Reaches returnsValue 0 0).departs hs.regular hdisciplined
      have hle := hinside hdeparts
      obtain rfl : left = t.peak := by omega
      exact Sequence.exists_walk_of_departs hdeparts
    · exact Sequence.exists_walk_of_departs hdeparts

/-- Goes one of two ways to the return, and leaves values on the stack on one of them only. -/
def Sequence.deeperWay : Sequence :=
  ⟨[⟨.ldarg1, .none⟩, ⟨.brfalse, .target ⟨6⟩⟩, ⟨.ldnull, .none⟩, ⟨.ldnull, .none⟩, ⟨.pop, .none⟩,
    ⟨.pop, .none⟩, ⟨.ret, .none⟩]⟩

/-- The longer way is the deeper one. -/
theorem maxStack_sound_and_tight_deeperWay :
    Sequence.deeperWay.IsFinished ∧ Sequence.deeperWay.Walk 0 [0, 1, 6] ∧
      encode .deeperWay false =
        .ok ⟨[0x03, 0x2C, 0x04, 0x14, 0x14, 0x26, 0x26, 0x2A], 2, [0, 1, 3, 4, 5, 6, 7]⟩ ∧
      (∀ passed, passed <+: [0, 1, 6] → Sequence.deeperWay.depthAfter false passed ≤ 2) ∧
      ∃ path, Sequence.deeperWay.Walk 0 path ∧ Sequence.deeperWay.depthAfter false path = 2 := by
  have hfinished : Sequence.deeperWay.IsFinished :=
    Or.inl ⟨[.newLabel, .emitLdarg 1, .branch .brfalse ⟨0⟩, .emit .ldnull, .emit .ldnull,
      .emit .pop, .emit .pop, .emit .ret, .bind ⟨0⟩ ⟨6⟩], rfl⟩
  have hencode : encode .deeperWay false =
      .ok ⟨[0x03, 0x2C, 0x04, 0x14, 0x14, 0x26, 0x26, 0x2A], 2, [0, 1, 3, 4, 5, 6, 7]⟩ := rfl
  have hshort : Sequence.deeperWay.Walk 0 [0, 1, 6] :=
    .go (.next rfl rfl) (.go (.jump rfl rfl) (.stay 6))
  have hlong : Sequence.deeperWay.Walk 0 [0, 1, 2, 3, 4, 5, 6] :=
    .go (.next rfl rfl) (.go (.next rfl rfl) (.go (.next rfl rfl) (.go (.next rfl rfl)
      (.go (.next rfl rfl) (.go (.next rfl rfl) (.stay 6))))))
  have hall : ∀ index < Sequence.deeperWay.length,
      ∃ path, Sequence.deeperWay.Walk 0 path ∧ index ∈ path := by
    intro index hindex
    have hmem : index ∈ List.range 7 := List.mem_range.mpr hindex
    exact ⟨_, hlong, hmem⟩
  obtain ⟨hsound, htight⟩ := maxStack_sound_and_tight .deeperWay false _ hfinished hencode
  exact ⟨hfinished, hshort, hencode, hsound _ hshort, htight hall⟩

end DualInit
