import DualInit.Proofs.Page.Writability
import DualInit.Proofs.Run.Frame

/-!
# Runs that can write what they make

A run writes nothing unless all bodies of the assembly can be encoded, the ones that the pass has
put there among them.  `run_succeeds_iff` is about a stored assembly that can be opened, whose
bodies can be encoded and whose selected types all have a base constructor: a run succeeds exactly
if every selected type `Dispatches`, that is, if the initializers that its flag constructor calls
leave what the constructor returns and the one that moves returns nothing.

An initializer that returns a value is selected all the same, and the empty method in its place
returns a value too; such a run fails (`exists_run_not_written`).
-/

namespace DualInit

/-! ## Sections -/

/-- What a pass over a section relies on: tokens tell its types and methods apart, there are numbers
for the methods that the selected types are missing, the bodies can be encoded, and the base types
of the selected types have constructors to call. -/
structure Section.Ready (external : Resolver) (s : Section) : Prop where
  distinct : s.TokensDistinct
  room : s.HasRoom (s.missing s.resources)
  encodes : ∀ m ∈ s.methods, m.Encodes
  bases : ∀ r ∈ s.resources, ∀ t, s.selected? r = some t →
    ∃ base s', (baseConstructor external t.token).Ends s (.ok base) s'

/-- What is brought into the selected types of a section can be encoded. -/
def Section.Dispatches (s : Section) : Prop :=
  ∀ r ∈ s.resources, ∀ t, s.selected? r = some t → t.Dispatches (s.visits s.resources t.token)

variable {external : Resolver} {s s' : Section} {found : List Finding}

theorem Section.forall_mem_methods {p : MethodDef → Prop} :
    (∀ m ∈ s.methods, p m) ↔ ∀ t ∈ s.types, ∀ m ∈ t.methods, p m :=
  List.forall_mem_flatMap

namespace Section.Ready

theorem offersBase (h : s.Ready external) {r : Resource} (hr : r ∈ s.resources) {t : TypeDef}
    (ht : s.selected? r = some t) : s.OffersBase external t :=
  (exists_ends_baseConstructor (typeDef?_of_mem h.distinct (mem_of_selected? ht))).mp
    (h.bases r hr t ht)

/-- A pass over a section that is ready comes to its end. -/
theorem exists_steps (h : s.Ready external) :
    ∃ found s', ResourceSteps external s s.resources found s' :=
  exists_resourceSteps h.distinct h.room fun _ hr _ ht => h.offersBase hr ht

/-- Where all bodies can be encoded, the types are writable if what is brought into them can be
encoded. -/
theorem writable_iff (h : s.Ready external) :
    (∀ t ∈ s.types, t.Writable (s.visits s.resources t.token)) ↔ s.Dispatches := by
  have hencodes := forall_mem_methods.mp h.encodes
  constructor
  · intro hwritable r hr t ht
    have hvisits : 0 < s.visits s.resources t.token := visits_pos_iff.mpr ⟨r, hr, t, ht, rfl⟩
    have hfirst := hwritable t (mem_of_selected? ht)
    generalize s.visits s.resources t.token = visits at hvisits hfirst ⊢
    cases visits with
    | zero => exact absurd hvisits (Nat.lt_irrefl 0)
    | succ visits => exact hfirst.2
  · intro hdispatches t ht
    cases hvisits : s.visits s.resources t.token with
    | zero => exact hencodes t ht
    | succ visits =>
      have hpos : 0 < s.visits s.resources t.token := by
        rw [hvisits]
        exact Nat.succ_pos visits
      obtain ⟨r, hr, u, hu, htoken⟩ := visits_pos_iff.mp hpos
      have hfound := typeDef?_of_mem h.distinct (mem_of_selected? hu)
      rw [htoken, typeDef?_of_mem h.distinct ht] at hfound
      obtain rfl := Option.some.inj hfound
      have hdispatched := hdispatches r hr t hu
      rw [hvisits] at hdispatched
      exact ⟨fun m hm _ => hencodes t ht m hm, hdispatched⟩

/-- What is left of a section can be encoded exactly if what was brought into it can. -/
theorem dispatches_iff (h : s.Ready external)
    (hends : (equipSection external).Ends s (.ok found) s') :
    s.Dispatches ↔ ∀ m ∈ s'.methods, m.Encodes := by
  obtain ⟨_, _, hsteps⟩ := h.exists_steps
  obtain ⟨-, rfl⟩ := (ends_equipSection.mp hends).unique hsteps.ends
  rw [← h.writable_iff, hsteps.writable_iff]
  exact forall_mem_methods.symm

end Section.Ready

/-! ## Symbols do not matter -/

section

variable {t : Section}

theorem Section.selected?_congr (h : t.withoutSymbols = s.withoutSymbols) (r : Resource) :
    t.selected? r = s.selected? r := by
  obtain ⟨symbols, rfl⟩ := Section.exists_symbols h
  have htypes : ({ s with symbols } : Section).types = s.types := rfl
  have hfind : ({ s with symbols } : Section).findType = s.findType :=
    funext (findType_of_types htypes)
  rw [selected?, selected?, hfind]

theorem Section.visits_congr (h : t.withoutSymbols = s.withoutSymbols) (resources : List Resource)
    (token : Token) : t.visits resources token = s.visits resources token := by
  unfold visits
  simp only [selected?_congr h]

theorem Section.Ready.congr (h : s.Ready external) (hsymbols : t.withoutSymbols = s.withoutSymbols) :
    t.Ready external := by
  have hselected := Section.selected?_congr hsymbols
  have hvisits := Section.visits_congr hsymbols
  have hdistinct := tokensDistinct_congr h.distinct hsymbols
  have hroom := h.room.congr hsymbols
  obtain ⟨symbols, rfl⟩ := Section.exists_symbols hsymbols
  refine ⟨hdistinct, ?_, h.encodes, ?_⟩
  · have hmissing : ({ s with symbols } : Section).missing s.resources = s.missing s.resources := by
      unfold Section.missing
      simp only [hvisits]
    exact hmissing ▸ hroom
  · intro r hr t ht
    rw [hselected] at ht
    have hfound := Section.typeDef?_of_mem h.distinct (Section.mem_of_selected? ht)
    have hfound' : ({ s with symbols } : Section).typeDef? t.token = some t := hfound
    exact (Section.exists_ends_baseConstructor hfound').mpr (h.offersBase hr ht)

theorem Section.dispatches_congr (h : t.withoutSymbols = s.withoutSymbols) :
    t.Dispatches ↔ s.Dispatches := by
  have hselected := Section.selected?_congr h
  have hvisits := Section.visits_congr h
  obtain ⟨symbols, rfl⟩ := Section.exists_symbols h
  unfold Section.Dispatches
  simp only [hselected, hvisits]

end

/-! ## Runs -/

section

variable {store : Store} {config : Config} {before : Image} {opened a b : Assembly}

theorem forall_mem_sections_congr {p : Section → Prop} (hab : a.withoutSymbols = b.withoutSymbols)
    (hp : ∀ s t : Section, t.withoutSymbols = s.withoutSymbols → p s → p t)
    (h : ∀ s ∈ b.sections, p s) : ∀ t ∈ a.sections, p t := by
  intro t ht
  obtain ⟨k, hk⟩ := List.getElem?_of_mem ht
  obtain ⟨s, hs, hsymbols⟩ := exists_section hab.symm hk
  exact hp s t hsymbols.symm (h s (List.mem_of_getElem? hs))

/-- The types of an assembly that is ready can be equipped, and the bodies that are left can be
encoded exactly if what was brought in can. -/
theorem exists_ends_equipAssembly (h : ∀ s ∈ a.sections, s.Ready external) :
    ∃ findings b, (equipAssembly external).Ends a (.ok findings) b ∧
      ((∀ s ∈ a.sections, s.Dispatches) ↔ ∀ s ∈ b.sections, ∀ m ∈ s.methods, m.Encodes) := by
  have heach : ∀ s ∈ a.sections, ∃ found s', (equipSection external).Ends s (.ok found) s' := by
    intro s hs
    obtain ⟨found, s', hsteps⟩ := (h s hs).exists_steps
    exact ⟨found, s', ends_equipSection.mpr hsteps.ends⟩
  obtain ⟨findings, sections, hends⟩ := Edit.exists_ends_each_of_forall heach
  refine ⟨findings, _, ends_eachSection.mpr ⟨sections, hends, rfl⟩, ?_⟩
  exact Edit.forall_mem_iff_of_ends_each hends fun s hs _ _ hs' => (h s hs).dispatches_iff hs'

/-- Where the stored assembly can be opened and is ready, a run succeeds exactly if what it brings
into the selected types can be encoded; all bodies of the assembly that it stores can be then. -/
theorem run_succeeds_iff (hbefore : store.image? config.assembly = some before)
    (hopens : (store.read config.assembly config.readOptions).1 = .ok opened)
    (hready : ∀ s ∈ before.assembly.sections,
      s.Ready (Codec.resolver store config.assembly config.searchDirectories)) :
    (∀ s ∈ before.assembly.sections, s.Dispatches) ↔
      ∃ report store' after, (run config : Edit Store Report).Ends store (.ok report) store' ∧
        store'.image? config.assembly = some after ∧
        ∀ s ∈ after.assembly.sections, ∀ m ∈ s.methods, m.Encodes := by
  have hsymbols := Store.withoutSymbols_of_read_ok hbefore hopens
  have hready' := forall_mem_sections_congr hsymbols (fun _ _ heq h => h.congr heq) hready
  obtain ⟨findings, edited, hequip, hdispatches⟩ := exists_ends_equipAssembly hready'
  have hstored : (∀ s ∈ before.assembly.sections, s.Dispatches) ↔
      ∀ s ∈ opened.sections, s.Dispatches :=
    ⟨forall_mem_sections_congr hsymbols fun _ _ heq => (Section.dispatches_congr heq).mpr,
      forall_mem_sections_congr hsymbols.symm fun _ _ heq => (Section.dispatches_congr heq).mpr⟩
  have hbodies : (∃ bodies, Image.encodeBodies (edited.prepared config.writerFormat) = .ok bodies) ↔
      ∀ s ∈ edited.sections, ∀ m ∈ s.methods, m.Encodes := by
    rw [Image.encodeBodies_congr (withoutSymbols_prepared edited config.writerFormat)]
    exact Image.exists_encodeBodies
  rw [hstored, hdispatches, ← hbodies]
  constructor
  · rintro ⟨bodies, hencoded⟩
    refine ⟨⟨findings, store.outcome config.writerFormat⟩, _, _,
      ends_run_ok.mpr ⟨opened, edited, before, bodies, hopens, hequip, hbefore, hencoded, rfl, rfl⟩,
      Store.image?_putImage_self, ?_⟩
    rw [assembly_rewritten]
    exact Image.exists_encodeBodies.mp ⟨bodies,
      (Image.encodeBodies_congr (Assembly.withoutSymbols_withoutSymbols _)).trans hencoded⟩
  · rintro ⟨report, store', after, hrun, -, -⟩
    obtain ⟨opened', edited', i, bodies, hopens', hequip', -, hencoded, -, -⟩ := ends_run_ok.mp hrun
    obtain rfl := Except.ok.inj (hopens.symm.trans hopens')
    obtain ⟨-, rfl⟩ := hequip.unique hequip'
    exact ⟨bodies, hencoded⟩

end

/-! ## Samples -/

namespace Sample

/-- The class of the page with one method. -/
def classOf (m : MethodDef) : TypeDef :=
  { pageType with methods := [m] }

/-- The section of the page and its class. -/
def sectionOf (m : MethodDef) : Section :=
  ⟨"App.dll", [page], [viewType .void, classOf m], [], [], none⟩

/-- An initializer that returns nothing. -/
def voidInitializer : MethodDef :=
  ⟨⟨0x06000002⟩, precompiledName, 0, 0, .instanceVoid, [], some ⟨.emptyBody, false⟩⟩

/-- An initializer that returns a number. -/
def numberInitializer : MethodDef :=
  ⟨⟨0x06000002⟩, precompiledName, 0, 0, .instanceReturning .int32, [],
    some ⟨⟨[⟨.ldcI4One, .none⟩, ⟨.ret, .none⟩]⟩, false⟩⟩

/-- A store with the page whose initializer returns a number. -/
def numberStore : Store :=
  (Store.empty []).insert config.assembly ⟨"App", [sectionOf numberInitializer]⟩

variable {m : MethodDef}

theorem classify_page : classify page = some "Page" := by
  decide +kernel

theorem selected?_page (hinit : m.isInitializer precompiledName = true) :
    (sectionOf m).selected? page = some (classOf m) := by
  have hfind : (sectionOf m).findType "Page" = some (classOf m) := rfl
  have hwhole : (classOf m).initializer? precompiledName = some m :=
    List.find?_cons_of_pos hinit
  exact Section.selected?_eq_some.mpr ⟨_, m, classify_page, hfind, hwhole⟩

theorem visits_page (hinit : m.isInitializer precompiledName = true) (token : Token) :
    (sectionOf m).visits [page] token = if ⟨0x02000002⟩ = token then 1 else 0 := by
  rw [Section.visits_cons_some (selected?_page hinit)]
  exact Nat.zero_add _

/-- A class with an initializer is missing two methods at most, and there is room for them. -/
theorem hasRoom_sectionOf (htoken : m.token = ⟨0x06000002⟩)
    (hinit : m.isInitializer precompiledName = true) :
    (sectionOf m).HasRoom ((sectionOf m).missing [page]) := by
  have hmissing : (sectionOf m).missing [page] = (classOf m).missing := by
    have hview : (⟨0x02000002⟩ : Token) ≠ (viewType .void).token := by decide
    have htypes : (sectionOf m).types = [viewType .void, classOf m] := rfl
    have hclass : (⟨0x02000002⟩ : Token) = (classOf m).token := rfl
    rw [Section.missing, htypes, List.map_cons, List.map_singleton, List.sum_cons,
      List.sum_singleton, visits_page hinit, visits_page hinit, if_neg hview, if_pos hclass]
    exact Nat.zero_add _
  have hle : (classOf m).missing ≤ 2 := by
    unfold TypeDef.missing
    split <;> split <;> decide
  have hroom : (sectionOf m).HasRoom 2 := by
    show Rows.greatest [⟨0x06000001⟩, m.token] + 2 < Token.rowLimit
    rw [htoken]
    decide
  rw [hmissing]
  exact hroom.mono hle

theorem ready_sectionOf (external : Resolver) (htoken : m.token = ⟨0x06000002⟩)
    (hinit : m.isInitializer precompiledName = true) (hencodes : m.Encodes) :
    (sectionOf m).Ready external where
  distinct := by
    have htypes : [(⟨0x02000001⟩ : Token), ⟨0x02000002⟩].Nodup := by decide
    have hmethods : [(⟨0x06000001⟩ : Token), m.token].Nodup := by
      rw [htoken]
      decide
    exact ⟨htypes, hmethods⟩
  room := hasRoom_sectionOf htoken hinit
  encodes := by
    intro m' hm'
    have hmethods : (sectionOf m).methods = (viewType .void).methods ++ [m] := rfl
    rw [hmethods] at hm'
    rcases List.mem_append.mp hm' with hm' | hm'
    · rw [List.mem_singleton.mp hm']
      exact ⟨none, rfl⟩
    · rw [List.mem_singleton.mp hm']
      exact hencodes
  bases := by
    intro r hr t ht
    obtain rfl := List.mem_singleton.mp hr
    obtain rfl := Option.some.inj ((selected?_page hinit).symm.trans ht)
    have hfound : (sectionOf m).typeDef? ⟨0x02000002⟩ = some (classOf m) := rfl
    exact (Section.exists_ends_baseConstructor hfound).mpr
      ⟨⟨0x02000001⟩, rfl, Or.inl ⟨rfl, viewType .void, _, rfl, rfl⟩⟩

theorem dispatches_void : (sectionOf voidInitializer).Dispatches := by
  intro r hr t ht
  obtain rfl := List.mem_singleton.mp hr
  obtain rfl := Option.some.inj ((selected?_page rfl).symm.trans ht)
  have hvisits : (sectionOf voidInitializer).visits [page] (classOf voidInitializer).token = 1 :=
    visits_page rfl _
  refine ⟨fun _ whole hwhole => ?_, fun m hm => ?_⟩
  · rw [List.mem_singleton.mp (mem_of_initializer? hwhole)]
    rfl
  · have hcalled : m ∈ (classOf voidInitializer).called
        ((sectionOf voidInitializer).visits [page] (classOf voidInitializer).token) := hm
    rw [hvisits] at hcalled
    obtain rfl : m = voidInitializer := List.mem_singleton.mp hcalled
    exact ⟨by decide, rfl⟩

end Sample

theorem run_succeeds_sample :
    (Sample.sectionOf Sample.voidInitializer).Dispatches ∧
      ∃ report store' after,
        (run Sample.config : Edit Store Report).Ends (Sample.store .void) (.ok report) store' ∧
        store'.image? Sample.config.assembly = some after ∧
        ∀ s ∈ after.assembly.sections, ∀ m ∈ s.methods, m.Encodes := by
  have hbefore : (Sample.store .void).image? Sample.config.assembly =
      some (.ofAssembly ⟨"App", [Sample.sectionOf Sample.voidInitializer]⟩) := rfl
  have hsucceeds := run_succeeds_iff hbefore rfl
    (List.forall_mem_singleton.mpr (Sample.ready_sectionOf _ rfl rfl ⟨_, rfl⟩))
  exact ⟨Sample.dispatches_void,
    hsucceeds.mp (List.forall_mem_singleton.mpr Sample.dispatches_void)⟩

/-- An assembly that can be opened and written, with constructors for all base types, cannot be
written by a run: the empty method in the place of an initializer that returns a number has no
number to return. -/
theorem exists_run_not_written : ∃ before opened,
    Sample.numberStore.image? Sample.config.assembly = some before ∧
      (Sample.numberStore.read Sample.config.assembly Sample.config.readOptions).1 = .ok opened ∧
      (∀ s ∈ before.assembly.sections, s.Ready (Codec.resolver Sample.numberStore
        Sample.config.assembly Sample.config.searchDirectories)) ∧
      (run Sample.config : Edit Store Report).Ends Sample.numberStore
        (.error (.malformed (.underflow ⟨0⟩ ⟨.ret, .none⟩ (-1)))) Sample.numberStore := by
  refine ⟨.ofAssembly ⟨"App", [Sample.sectionOf Sample.numberInitializer]⟩, _, rfl, rfl, ?_, ?_, ?_⟩
  · exact List.forall_mem_singleton.mpr (Sample.ready_sectionOf _ rfl rfl ⟨_, rfl⟩)
  · decide +kernel
  · decide +kernel

end DualInit
