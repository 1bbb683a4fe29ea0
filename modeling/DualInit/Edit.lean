import DualInit.Event

/-!
# Edits

An edit works on a state, tells about its progress and may fail.  A failed edit keeps what it
has changed so far: an edit is a sequence of steps, not a transaction, and what a step has done
is undone by nobody.  Steps that change nothing when they fail are written as functions into
`Except` and become edits by `Edit.attempt`.

An `Outcome` is all there is to see of an edit: its answer, the state it leaves, and what it
told, in order.
-/

namespace DualInit

/-- What is left of an edit. -/
structure Outcome (σ α : Type) where
  /-- The answer, or why there is none. -/
  result : Except Error α
  /-- The state the edit leaves. -/
  state : σ
  /-- What the edit told. -/
  events : List Event

/-- Work on a state that tells about its progress and may fail. -/
def Edit (σ α : Type) : Type :=
  σ → Outcome σ α

namespace Edit

variable {σ τ α β : Type}

/-- The outcome of an edit on a state. -/
def run (m : Edit σ α) (s : σ) : Outcome σ α := m s

/-- The edit that only answers. -/
def answer (a : α) : Edit σ α := fun s =>
  ⟨.ok a, s, []⟩

/-- The edit that only fails. -/
def fail (e : Error) : Edit σ α := fun s =>
  ⟨.error e, s, []⟩

/-- One edit and, unless it fails, another one on what it leaves. -/
def andThen (m : Edit σ α) (f : α → Edit σ β) : Edit σ β := fun s =>
  let done := m s
  match done.result with
  | .ok a =>
    let next := f a done.state
    ⟨next.result, next.state, done.events ++ next.events⟩
  | .error e => ⟨.error e, done.state, done.events⟩

instance : Monad (Edit σ) where
  pure := answer
  bind := andThen

@[ext] theorem ext {m n : Edit σ α} (h : ∀ s, m.run s = n.run s) : m = n :=
  funext h

@[simp] theorem run_pure (a : α) (s : σ) : (pure a : Edit σ α).run s = ⟨.ok a, s, []⟩ := rfl

@[simp] theorem run_fail (e : Error) (s : σ) :
    (fail e : Edit σ α).run s = ⟨.error e, s, []⟩ := rfl

/-- After an answer the next edit goes on with the state that the first one left. -/
theorem run_bind_of_ok {m : Edit σ α} {f : α → Edit σ β} {s : σ} {a : α}
    (h : (m.run s).result = .ok a) :
    (m >>= f).run s =
      ⟨((f a).run (m.run s).state).result, ((f a).run (m.run s).state).state,
        (m.run s).events ++ ((f a).run (m.run s).state).events⟩ := by
  show (match (m.run s).result with
    | .ok a => _
    | .error e => _) = _
  rw [h]
  rfl

/-- After a failure there is no next edit. -/
theorem run_bind_of_error {m : Edit σ α} {f : α → Edit σ β} {s : σ} {e : Error}
    (h : (m.run s).result = .error e) :
    (m >>= f).run s = ⟨.error e, (m.run s).state, (m.run s).events⟩ := by
  show (match (m.run s).result with
    | .ok a => _
    | .error e => _) = _
  rw [h]
  rfl

theorem map_id (m : Edit σ α) : id <$> m = m := by
  ext s
  show (m >>= fun a => pure (id a)).run s = m.run s
  cases h : (m.run s).result with
  | error e => rw [run_bind_of_error h, ← h]
  | ok a => simp [run_bind_of_ok h, ← h]

theorem bind_assoc {γ : Type} (m : Edit σ α) (f : α → Edit σ β) (g : β → Edit σ γ) :
    m >>= f >>= g = m >>= fun a => f a >>= g := by
  ext s
  cases h : (m.run s).result with
  | error e =>
    have hf : ((m >>= f).run s).result = .error e := by rw [run_bind_of_error h]
    rw [run_bind_of_error hf, run_bind_of_error h, run_bind_of_error h]
  | ok a =>
    cases h' : ((f a).run (m.run s).state).result with
    | error e =>
      have hf : ((m >>= f).run s).result = .error e := by rw [run_bind_of_ok h, h']
      rw [run_bind_of_error hf, run_bind_of_ok h, run_bind_of_ok h, run_bind_of_error h']
    | ok b =>
      have hf : ((m >>= f).run s).result = .ok b := by rw [run_bind_of_ok h, h']
      rw [run_bind_of_ok hf, run_bind_of_ok h, run_bind_of_ok h, run_bind_of_ok h',
        List.append_assoc]

instance : LawfulMonad (Edit σ) :=
  LawfulMonad.mk' _ map_id (fun _ _ => rfl) bind_assoc

/-! ## Steps -/

/-- The state. -/
def current : Edit σ σ := fun s =>
  ⟨.ok s, s, []⟩

/-- Puts another state in the place of the state. -/
def replace (s : σ) : Edit σ Unit := fun _ =>
  ⟨.ok (), s, []⟩

/-- Changes the state. -/
def change (f : σ → σ) : Edit σ Unit := fun s =>
  ⟨.ok (), f s, []⟩

/-- Tells something. -/
def tell (e : Event) : Edit σ Unit := fun s =>
  ⟨.ok (), s, [e]⟩

/-- Tells several things. -/
def tellAll (events : List Event) : Edit σ Unit := fun s =>
  ⟨.ok (), s, events⟩

@[simp] theorem run_current (s : σ) : (current : Edit σ σ).run s = ⟨.ok s, s, []⟩ := rfl

@[simp] theorem run_replace (s t : σ) : (replace t).run s = ⟨.ok (), t, []⟩ := rfl

@[simp] theorem run_change (f : σ → σ) (s : σ) : (change f).run s = ⟨.ok (), f s, []⟩ := rfl

@[simp] theorem run_tell (e : Event) (s : σ) : (tell e).run s = ⟨.ok (), s, [e]⟩ := rfl

@[simp] theorem run_tellAll (events : List Event) (s : σ) :
    (tellAll events).run s = ⟨.ok (), s, events⟩ := rfl

/-- The answer of a computation that has succeeded or failed already. -/
def ofExcept : Except Error α → Edit σ α
  | .ok a => answer a
  | .error e => fail e

/-- The answer of a computation that tells what it has come across. -/
def consult (found : Except Error α × List Event) : Edit σ α := fun s =>
  ⟨found.1, s, found.2⟩

/-- A step on the state that changes nothing if it fails. -/
def attempt (f : σ → Except Error (α × σ)) : Edit σ α := fun s =>
  match f s with
  | .ok (a, t) => ⟨.ok a, t, []⟩
  | .error e => ⟨.error e, s, []⟩

theorem run_attempt_of_ok {f : σ → Except Error (α × σ)} {s t : σ} {a : α}
    (h : f s = .ok (a, t)) : (attempt f).run s = ⟨.ok a, t, []⟩ := by
  simp only [attempt, run, h]

/-- A step that fails leaves the state as it was. -/
theorem run_attempt_of_error {f : σ → Except Error (α × σ)} {s : σ} {e : Error}
    (h : f s = .error e) : (attempt f).run s = ⟨.error e, s, []⟩ := by
  simp only [attempt, run, h]

/-- A step on the state that answers nothing, and changes nothing if it fails. -/
def attemptChange (f : σ → Except Error σ) : Edit σ Unit :=
  attempt fun s => do return ((), ← f s)

/-- What an edit would answer if it did not fail, or its failure as an answer. -/
def catching (m : Edit σ α) : Edit σ (Except Error α) := fun s =>
  let done := m s
  ⟨.ok done.result, done.state, done.events⟩

/-- An edit of a part of the state. -/
def focus (part : σ → τ) (put : τ → σ → σ) (m : Edit τ α) : Edit σ α := fun s =>
  let done := m (part s)
  ⟨done.result, put done.state s, done.events⟩

/-- Edits the elements of a list one after the other, up to the first failure; the elements
behind it stay as they are. -/
def each (m : Edit τ α) : Edit (List τ) (List α)
  | [] => ⟨.ok [], [], []⟩
  | x :: xs =>
    match m x with
    | ⟨.error e, y, told⟩ => ⟨.error e, y :: xs, told⟩
    | ⟨.ok a, y, told⟩ =>
      let rest := each m xs
      ⟨(a :: ·) <$> rest.result, y :: rest.state, told ++ rest.events⟩

section

variable {m : Edit τ α} {x : τ} {xs : List τ}

@[simp] theorem run_each_nil : (each m).run [] = ⟨.ok [], [], []⟩ := rfl

/-- The elements behind a failure stay as they are. -/
theorem run_each_cons_of_error {e : Error} (h : (m.run x).result = .error e) :
    (each m).run (x :: xs) = ⟨.error e, (m.run x).state :: xs, (m.run x).events⟩ := by
  have hx : m x = ⟨.error e, (m.run x).state, (m.run x).events⟩ := by
    rw [← h]
    rfl
  show (match m x with
    | ⟨.error e, y, told⟩ => _
    | ⟨.ok a, y, told⟩ => _) = _
  rw [hx]

theorem run_each_cons_of_ok {a : α} (h : (m.run x).result = .ok a) :
    (each m).run (x :: xs) = ⟨(a :: ·) <$> ((each m).run xs).result,
      (m.run x).state :: ((each m).run xs).state,
      (m.run x).events ++ ((each m).run xs).events⟩ := by
  have hx : m x = ⟨.ok a, (m.run x).state, (m.run x).events⟩ := by
    rw [← h]
    rfl
  show (match m x with
    | ⟨.error e, y, told⟩ => _
    | ⟨.ok a, y, told⟩ => _) = _
  rw [hx]
  rfl

end

end Edit
end DualInit
