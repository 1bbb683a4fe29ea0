import DualInit.Proofs.Run.Stages

/-!
# Runs are atomic

A run works on a copy, and any of its many steps may fail.  `run_atomic` says what somebody else
can see of it: the locks are the ones that were there before, also those of other holders; no
image in another place is touched; a run that fails has not happened; and a run that succeeds has
written the assembly once, and its symbols once or not at all.
-/

namespace DualInit

variable {store store' : Store} {config : Config} {report : Report}

/-- The image that a successful run has replaced, and the one that has taken its place. -/
theorem image?_of_ends_run_ok
    (h : (run config : Edit Store Report).Ends store (.ok report) store') :
    ∃ before edited bodies, store.image? config.assembly = some before ∧
      store'.image? config.assembly = some (before.rewritten edited bodies report.symbols) ∧
      ∀ path, path.location ≠ config.assembly.location → store'.image? path = store.image? path := by
  obtain ⟨opened, edited, i, bodies, -, -, hi, -, -, rfl⟩ := ends_run_ok.mp h
  refine ⟨i, _, bodies, hi, Store.image?_putImage_self, ?_⟩
  intro path hpath
  rw [Store.image?_putImage, if_neg hpath]

theorem locked_of_ends_run {result : Except Error Report}
    (h : (run config : Edit Store Report).Ends store result store') :
    store'.locked = store.locked := by
  cases result with
  | error e => rw [store_eq_of_ends_run_error h]
  | ok report =>
    obtain ⟨opened, edited, i, bodies, -, -, -, -, -, rfl⟩ := ends_run_ok.mp h
    rfl

/-- A run leaves the locks and all other images alone.  If it fails it leaves everything alone; if
it succeeds it has written the assembly once, and the symbols once if they count as written and
not at all otherwise. -/
theorem run_atomic (config : Config) (store : Store) :
    ((run config).run store).state.locked = store.locked ∧
    (∀ path, path.location ≠ config.assembly.location →
      ((run config).run store).state.image? path = store.image? path) ∧
    match ((run config).run store).result with
    | .error _ => ((run config).run store).state = store
    | .ok report => ∃ before after, store.image? config.assembly = some before ∧
        ((run config).run store).state.image? config.assembly = some after ∧
        after.writes = before.writes + 1 ∧
        match report.symbols with
        | .written _ => after.symbolWrites = before.symbolWrites + 1
        | _ => after.symbols = before.symbols ∧ after.symbolWrites = before.symbolWrites := by
  have hrun := Edit.ends_run (run config) store
  refine ⟨locked_of_ends_run hrun, ?_⟩
  cases hresult : ((run config).run store).result with
  | error e =>
    rw [hresult] at hrun
    have hstore := store_eq_of_ends_run_error hrun
    exact ⟨fun path _ => by rw [hstore], hstore⟩
  | ok report =>
    rw [hresult] at hrun
    obtain ⟨before, edited, bodies, hbefore, hafter, hothers⟩ := image?_of_ends_run_ok hrun
    refine ⟨hothers, before, _, hbefore, hafter, ?_⟩
    cases report.symbols with
    | written format => exact ⟨rfl, rfl⟩
    | notRequested => exact ⟨rfl, rfl, rfl⟩
    | degraded format reason => exact ⟨rfl, rfl, rfl⟩

end DualInit
