import DualInit.Edit

/-!
# How edits end

What an edit tells is of no concern to the theory; what it answers and the state it leaves are.
`m.Ends s r t` says that the edit `m`, on the state `s`, comes to the result `r` and leaves the
state `t`.  Every step of the language of edits has a rule here that says when it ends how, so a
composed edit is taken apart by rewriting and its definition is never unfolded:

* `ends_bind_ok`, `ends_bind_error`: two edits in a row succeed exactly if both do, and fail
  where the first of them fails that does;
* `ends_attempt_ok`, `ends_attempt_error`: a step that fails leaves the state as it was;
* `ends_catching`, `ends_focus`: failures as answers, and edits of a part of the state;
* `ends_each_cons_ok`, `getElem?_of_ends_each_ok`, `ends_each_of_total`: edits of the elements of
  a list.
-/

namespace DualInit

/-- Two computations in a row succeed exactly if the first one does and the second one does on its
answer. -/
theorem except_bind_ok {ε α β : Type} {x : Except ε α} {f : α → Except ε β} {b : β} :
    x >>= f = .ok b ↔ ∃ a, x = .ok a ∧ f a = .ok b := by
  cases x with
  | error e => simp [bind, Except.bind]
  | ok a => simp [bind, Except.bind]

/-- Two computations in a row fail exactly if the first one does or the second one does on its
answer. -/
theorem except_bind_error {ε α β : Type} {x : Except ε α} {f : α → Except ε β} {e : ε} :
    x >>= f = .error e ↔ x = .error e ∨ ∃ a, x = .ok a ∧ f a = .error e := by
  cases x with
  | error e' => simp [bind, Except.bind]
  | ok a => simp [bind, Except.bind]

namespace Edit

variable {σ τ α β : Type}

/-- The edit comes to a result on a state, and leaves a state. -/
def Ends (m : Edit σ α) (s : σ) (r : Except Error α) (t : σ) : Prop :=
  (m.run s).result = r ∧ (m.run s).state = t

variable {m : Edit σ α} {f : α → Edit σ β} {s t : σ} {a : α} {b : β} {e : Error}

theorem ends_iff {r : Except Error α} :
    m.Ends s r t ↔ (m.run s).result = r ∧ (m.run s).state = t :=
  Iff.rfl

theorem ends_run (m : Edit σ α) (s : σ) : m.Ends s (m.run s).result (m.run s).state :=
  ⟨rfl, rfl⟩

/-- An edit ends in one way only. -/
theorem Ends.unique {r r' : Except Error α} {t' : σ} (h : m.Ends s r t) (h' : m.Ends s r' t') :
    r = r' ∧ t = t' :=
  ⟨h.1.symm.trans h'.1, h.2.symm.trans h'.2⟩

/-! ## Steps -/

@[simp] theorem ends_pure {r : Except Error α} :
    (pure a : Edit σ α).Ends s r t ↔ r = .ok a ∧ t = s := by
  simp [ends_iff, eq_comm]

@[simp] theorem ends_fail {r : Except Error α} :
    (fail e : Edit σ α).Ends s r t ↔ r = .error e ∧ t = s := by
  simp [ends_iff, eq_comm]

@[simp] theorem ends_current {r : Except Error σ} :
    (current : Edit σ σ).Ends s r t ↔ r = .ok s ∧ t = s := by
  simp [ends_iff, eq_comm]

@[simp] theorem ends_replace {u : σ} {r : Except Error Unit} :
    (replace u).Ends s r t ↔ r = .ok () ∧ t = u := by
  simp [ends_iff, eq_comm]

@[simp] theorem ends_change {g : σ → σ} {r : Except Error Unit} :
    (change g).Ends s r t ↔ r = .ok () ∧ t = g s := by
  simp [ends_iff, eq_comm]

@[simp] theorem ends_tell {event : Event} {r : Except Error Unit} :
    (tell event : Edit σ Unit).Ends s r t ↔ r = .ok () ∧ t = s := by
  simp [ends_iff, eq_comm]

@[simp] theorem ends_tellAll {events : List Event} {r : Except Error Unit} :
    (tellAll events : Edit σ Unit).Ends s r t ↔ r = .ok () ∧ t = s := by
  simp [ends_iff, eq_comm]

@[simp] theorem ends_ofExcept {x r : Except Error α} :
    (ofExcept x : Edit σ α).Ends s r t ↔ r = x ∧ t = s := by
  cases x with
  | error e => exact ends_fail
  | ok a => exact ends_pure

@[simp] theorem ends_consult {found : Except Error α × List Event} {r : Except Error α} :
    (consult found : Edit σ α).Ends s r t ↔ r = found.1 ∧ t = s := by
  simp [ends_iff, consult, run, eq_comm]

theorem ends_attempt_ok {g : σ → Except Error (α × σ)} :
    (attempt g).Ends s (.ok a) t ↔ g s = .ok (a, t) := by
  cases h : g s with
  | error e => simp [ends_iff, run_attempt_of_error h]
  | ok x =>
    obtain ⟨a', t'⟩ := x
    simp [ends_iff, run_attempt_of_ok h]

/-- A step that fails leaves the state as it was. -/
theorem ends_attempt_error {g : σ → Except Error (α × σ)} :
    (attempt g).Ends s (.error e) t ↔ g s = .error e ∧ t = s := by
  cases h : g s with
  | error e' => simp [ends_iff, run_attempt_of_error h, eq_comm]
  | ok x =>
    obtain ⟨a', t'⟩ := x
    simp [ends_iff, run_attempt_of_ok h]

theorem ends_attemptChange_ok {g : σ → Except Error σ} {u : Unit} :
    (attemptChange g).Ends s (.ok u) t ↔ g s = .ok t := by
  rw [attemptChange, ends_attempt_ok]
  cases g s <;> simp [bind, Except.bind, pure, Except.pure]

theorem ends_attemptChange_error {g : σ → Except Error σ} :
    (attemptChange g).Ends s (.error e) t ↔ g s = .error e ∧ t = s := by
  rw [attemptChange, ends_attempt_error]
  cases g s <;> simp [bind, Except.bind, pure, Except.pure]

/-! ## Composed edits -/

/-- Two edits in a row succeed exactly if the first one does and the second one does on what it
leaves. -/
theorem ends_bind_ok :
    (m >>= f).Ends s (.ok b) t ↔ ∃ a u, m.Ends s (.ok a) u ∧ (f a).Ends u (.ok b) t := by
  constructor
  · intro h
    cases hm : (m.run s).result with
    | error e =>
      rw [ends_iff, run_bind_of_error hm] at h
      exact absurd h.1 (by simp)
    | ok a =>
      rw [ends_iff, run_bind_of_ok hm] at h
      exact ⟨a, (m.run s).state, ⟨hm, rfl⟩, h⟩
  · rintro ⟨a, u, ⟨hm, rfl⟩, h⟩
    rw [ends_iff, run_bind_of_ok hm]
    exact h

/-- Two edits in a row fail where the first of them fails that does. -/
theorem ends_bind_error :
    (m >>= f).Ends s (.error e) t ↔
      m.Ends s (.error e) t ∨ ∃ a u, m.Ends s (.ok a) u ∧ (f a).Ends u (.error e) t := by
  constructor
  · intro h
    cases hm : (m.run s).result with
    | error e' =>
      rw [ends_iff, run_bind_of_error hm] at h
      obtain ⟨he, ht⟩ := h
      exact Or.inl ⟨hm.trans (congrArg Except.error (Except.error.inj he)), ht⟩
    | ok a =>
      rw [ends_iff, run_bind_of_ok hm] at h
      exact Or.inr ⟨a, (m.run s).state, ⟨hm, rfl⟩, h⟩
  · rintro (⟨hm, rfl⟩ | ⟨a, u, ⟨hm, rfl⟩, h⟩)
    · rw [ends_iff, run_bind_of_error hm]
      exact ⟨rfl, rfl⟩
    · rw [ends_iff, run_bind_of_ok hm]
      exact h

/-- After an edit that is known to succeed there is only the next one to look at. -/
theorem Ends.bind_iff {r : Except Error β} {u : σ} (hm : m.Ends s (.ok a) u) :
    (m >>= f).Ends s r t ↔ (f a).Ends u r t := by
  obtain ⟨ha, rfl⟩ := hm
  rw [ends_iff, run_bind_of_ok ha]
  rfl

/-- After an edit that is known to fail there is nothing to look at. -/
theorem Ends.bind_error_iff {r : Except Error β} {u : σ} (hm : m.Ends s (.error e) u) :
    (m >>= f).Ends s r t ↔ r = .error e ∧ t = u := by
  obtain ⟨he, rfl⟩ := hm
  rw [ends_iff, run_bind_of_error he, eq_comm, eq_comm (b := t)]

@[simp] theorem ends_current_bind {f : σ → Edit σ β} {r : Except Error β} :
    (current >>= f).Ends s r t ↔ (f s).Ends s r t :=
  Ends.bind_iff (ends_current.mpr ⟨rfl, rfl⟩)

@[simp] theorem ends_replace_bind {f : Unit → Edit σ β} {u : σ} {r : Except Error β} :
    (replace u >>= f).Ends s r t ↔ (f ()).Ends u r t :=
  Ends.bind_iff (ends_replace.mpr ⟨rfl, rfl⟩)

@[simp] theorem ends_change_bind {f : Unit → Edit σ β} {g : σ → σ} {r : Except Error β} :
    (change g >>= f).Ends s r t ↔ (f ()).Ends (g s) r t :=
  Ends.bind_iff (ends_change.mpr ⟨rfl, rfl⟩)

@[simp] theorem ends_tell_bind {f : Unit → Edit σ β} {event : Event} {r : Except Error β} :
    (tell event >>= f).Ends s r t ↔ (f ()).Ends s r t :=
  Ends.bind_iff (ends_tell.mpr ⟨rfl, rfl⟩)

@[simp] theorem ends_tellAll_bind {f : Unit → Edit σ β} {events : List Event}
    {r : Except Error β} : (tellAll events >>= f).Ends s r t ↔ (f ()).Ends s r t :=
  Ends.bind_iff (ends_tellAll.mpr ⟨rfl, rfl⟩)

/-- What is read off a value leaves the state, whether or not there is something to read. -/
theorem ends_ofExcept_bind_error {x : Except Error α} :
    (ofExcept x >>= f).Ends s (.error e) t ↔
      x = .error e ∧ t = s ∨ ∃ a, x = .ok a ∧ (f a).Ends s (.error e) t := by
  simp only [ends_bind_error, ends_ofExcept]
  constructor
  · rintro (⟨rfl, rfl⟩ | ⟨a, _, ⟨rfl, rfl⟩, h⟩)
    · exact Or.inl ⟨rfl, rfl⟩
    · exact Or.inr ⟨a, rfl, h⟩
  · rintro (⟨rfl, rfl⟩ | ⟨a, rfl, h⟩)
    · exact Or.inl ⟨rfl, rfl⟩
    · exact Or.inr ⟨a, s, ⟨rfl, rfl⟩, h⟩

theorem ends_map_ok {g : α → β} :
    (g <$> m).Ends s (.ok b) t ↔ ∃ a, m.Ends s (.ok a) t ∧ g a = b := by
  rw [map_eq_pure_bind, ends_bind_ok]
  constructor
  · rintro ⟨a, u, hm, h⟩
    obtain ⟨hb, rfl⟩ := ends_pure.mp h
    exact ⟨a, hm, (Except.ok.inj hb).symm⟩
  · rintro ⟨a, hm, rfl⟩
    exact ⟨a, t, hm, ends_pure.mpr ⟨rfl, rfl⟩⟩

theorem ends_map_error {g : α → β} : (g <$> m).Ends s (.error e) t ↔ m.Ends s (.error e) t := by
  rw [map_eq_pure_bind, ends_bind_error]
  constructor
  · rintro (h | ⟨a, u, -, h⟩)
    · exact h
    · exact absurd (ends_pure.mp h).1 (by simp)
  · exact Or.inl

theorem ends_catching {r : Except Error (Except Error α)} :
    (catching m).Ends s r t ↔ ∃ x, m.Ends s x t ∧ r = .ok x := by
  constructor
  · rintro ⟨rfl, rfl⟩
    exact ⟨_, ends_run m s, rfl⟩
  · rintro ⟨x, ⟨rfl, rfl⟩, rfl⟩
    exact ⟨rfl, rfl⟩

theorem ends_focus {part : σ → τ} {put : τ → σ → σ} {m : Edit τ α} {r : Except Error α} :
    (focus part put m).Ends s r t ↔ ∃ u, m.Ends (part s) r u ∧ t = put u s := by
  constructor
  · rintro ⟨rfl, rfl⟩
    exact ⟨_, ends_run m (part s), rfl⟩
  · rintro ⟨u, ⟨rfl, rfl⟩, rfl⟩
    exact ⟨rfl, rfl⟩

/-! ## Edits of the elements of a list -/

variable {m : Edit τ α} {x : τ} {xs ys : List τ} {answers : List α}

@[simp] theorem ends_each_nil {r : Except Error (List α)} :
    (each m).Ends [] r ys ↔ r = .ok [] ∧ ys = [] := by
  simp [ends_iff, eq_comm]

theorem ends_each_cons_ok :
    (each m).Ends (x :: xs) (.ok answers) ys ↔
      ∃ a y answers' ys', m.Ends x (.ok a) y ∧ (each m).Ends xs (.ok answers') ys' ∧
        answers = a :: answers' ∧ ys = y :: ys' := by
  constructor
  · intro h
    cases hx : (m.run x).result with
    | error e =>
      rw [ends_iff, run_each_cons_of_error hx] at h
      exact absurd h.1 (by simp)
    | ok a =>
      rw [ends_iff, run_each_cons_of_ok hx] at h
      obtain ⟨hanswers, rfl⟩ := h
      cases hrest : ((each m).run xs).result with
      | error e =>
        rw [hrest] at hanswers
        cases hanswers
      | ok answers' =>
        rw [hrest] at hanswers
        cases hanswers
        exact ⟨a, _, answers', _, ⟨hx, rfl⟩, ⟨hrest, rfl⟩, rfl, rfl⟩
  · rintro ⟨a, y, answers', ys', ⟨hx, rfl⟩, ⟨hrest, rfl⟩, rfl, rfl⟩
    rw [ends_iff, run_each_cons_of_ok hx, hrest]
    exact ⟨rfl, rfl⟩

/-- Every element is edited, and stands with its answer where it stood. -/
theorem getElem?_of_ends_each_ok (h : (each m).Ends xs (.ok answers) ys) (i : Nat)
    (hx : xs[i]? = some x) : ∃ a y, answers[i]? = some a ∧ ys[i]? = some y ∧ m.Ends x (.ok a) y := by
  induction xs generalizing answers ys i with
  | nil => simp at hx
  | cons z xs ih =>
    obtain ⟨a, y, answers', ys', hz, hrest, rfl, rfl⟩ := ends_each_cons_ok.mp h
    cases i with
    | zero =>
      obtain rfl := Option.some.inj hx
      exact ⟨a, y, rfl, rfl, hz⟩
    | succ i => exact ih hrest i hx

theorem length_of_ends_each_ok (h : (each m).Ends xs (.ok answers) ys) :
    answers.length = xs.length ∧ ys.length = xs.length := by
  induction xs generalizing answers ys with
  | nil =>
    obtain ⟨hanswers, rfl⟩ := ends_each_nil.mp h
    rw [Except.ok.inj hanswers]
    exact ⟨rfl, rfl⟩
  | cons z xs ih =>
    obtain ⟨a, y, answers', ys', -, hrest, rfl, rfl⟩ := ends_each_cons_ok.mp h
    simp [ih hrest]

/-- What is known of each answer from the element that is edited is known of all of them. -/
theorem map_of_ends_each_ok {γ : Type} {f : α → γ} {g : τ → γ}
    (hfg : ∀ x ∈ xs, ∀ a y, m.Ends x (.ok a) y → f a = g x)
    (h : (each m).Ends xs (.ok answers) ys) : answers.map f = xs.map g := by
  induction xs generalizing answers ys with
  | nil =>
    obtain ⟨hanswers, -⟩ := ends_each_nil.mp h
    rw [Except.ok.inj hanswers]
    rfl
  | cons x xs ih =>
    obtain ⟨a, y, answers', ys', hx, hrest, rfl, -⟩ := ends_each_cons_ok.mp h
    rw [List.map_cons, List.map_cons, hfg x List.mem_cons_self a y hx,
      ih (fun x' hx' => hfg x' (List.mem_cons_of_mem _ hx')) hrest]

/-- Where every element can be edited with its answer, all of them can; what each edit keeps of its
element, all of them keep. -/
theorem exists_ends_each {γ : Type} {keep : τ → γ} (hlength : answers.length = xs.length)
    (h : ∀ (k : Nat) (x : τ) (a : α), xs[k]? = some x → answers[k]? = some a →
      ∃ y, m.Ends x (.ok a) y ∧ keep y = keep x) :
    ∃ ys, (each m).Ends xs (.ok answers) ys ∧ ys.map keep = xs.map keep := by
  induction xs generalizing answers with
  | nil =>
    rw [List.length_eq_zero_iff.mp hlength]
    exact ⟨[], ends_each_nil.mpr ⟨rfl, rfl⟩, rfl⟩
  | cons x xs ih =>
    cases answers with
    | nil => exact absurd hlength (by simp)
    | cons a answers =>
      obtain ⟨y, hy, hkeep⟩ := h 0 x a rfl rfl
      obtain ⟨ys, hys, hkeeps⟩ := ih (Nat.succ.inj hlength) fun k => h (k + 1)
      refine ⟨y :: ys, ends_each_cons_ok.mpr ⟨a, y, answers, ys, hy, hys, rfl, rfl⟩, ?_⟩
      rw [List.map_cons, List.map_cons, hkeep, hkeeps]

/-- If each of the elements can be edited, all of them can. -/
theorem exists_ends_each_of_forall (h : ∀ x ∈ xs, ∃ a y, m.Ends x (.ok a) y) :
    ∃ answers ys, (each m).Ends xs (.ok answers) ys := by
  induction xs with
  | nil => exact ⟨[], [], ends_each_nil.mpr ⟨rfl, rfl⟩⟩
  | cons x xs ih =>
    obtain ⟨a, y, hx⟩ := h x List.mem_cons_self
    obtain ⟨answers, ys, hrest⟩ := ih fun x' hx' => h x' (List.mem_cons_of_mem _ hx')
    exact ⟨_, _, ends_each_cons_ok.mpr ⟨a, y, answers, ys, hx, hrest, rfl, rfl⟩⟩

/-- What holds of an element exactly if something holds of what it has become does so of all
elements. -/
theorem forall_mem_iff_of_ends_each {p q : τ → Prop} (h : (each m).Ends xs (.ok answers) ys)
    (hpq : ∀ x ∈ xs, ∀ a y, m.Ends x (.ok a) y → (p x ↔ q y)) :
    (∀ x ∈ xs, p x) ↔ ∀ y ∈ ys, q y := by
  induction xs generalizing answers ys with
  | nil =>
    obtain ⟨-, rfl⟩ := ends_each_nil.mp h
    exact ⟨fun _ _ hy => absurd hy List.not_mem_nil, fun _ _ hx => absurd hx List.not_mem_nil⟩
  | cons x xs ih =>
    obtain ⟨a, y, answers', ys', hx, hrest, -, rfl⟩ := ends_each_cons_ok.mp h
    rw [List.forall_mem_cons, List.forall_mem_cons, hpq x List.mem_cons_self a y hx,
      ih hrest fun x' hx' => hpq x' (List.mem_cons_of_mem _ hx')]

/-- An edit that never fails edits every element. -/
theorem ends_each_of_total {g : τ → α} {h : τ → τ} (htotal : ∀ x, m.Ends x (.ok (g x)) (h x))
    (xs : List τ) : (each m).Ends xs (.ok (xs.map g)) (xs.map h) := by
  induction xs with
  | nil => exact ends_each_nil.mpr ⟨rfl, rfl⟩
  | cons x xs ih => exact ends_each_cons_ok.mpr ⟨_, _, _, _, htotal x, ih, rfl, rfl⟩

end Edit
end DualInit
