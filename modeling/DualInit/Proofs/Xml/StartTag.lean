import DualInit.Xml.StartTag

/-!
# Where the first start tag stands

`StartTag.find` hands back bytes of the input as they stand between angle brackets: what is in front
of the opening bracket is passed over, and the closing bracket is the first one outside quotes
(`hasTag_of_find`).
-/

namespace DualInit
namespace Xml
namespace StartTag

variable {mode : Mode} {quote : Option UInt8} {input tag read rest : List UInt8} {b : UInt8}
  {next : Step}

/-- What can stand between the brackets of a tag, from some quote on: no quote is left open, and a
closing bracket stands only inside quotes. -/
structure IsClosed (quote : Option UInt8) (tag : List UInt8) : Prop where
  balanced : tag.foldl quoteAfter quote = none
  quoted : ∀ front back, tag = front ++ byte '>' :: back → front.foldl quoteAfter quote ≠ none

theorem IsClosed.nil : IsClosed none [] where
  balanced := rfl
  quoted front back h := absurd h.symm (by simp)

theorem IsClosed.cons (hb : ¬ (quote = none ∧ b = byte '>'))
    (h : IsClosed (quoteAfter quote b) tag) : IsClosed quote (b :: tag) where
  balanced := h.balanced
  quoted front back heq := by
    cases front with
    | nil =>
      rw [List.nil_append, List.cons.injEq] at heq
      exact fun hquote => hb ⟨hquote, heq.1⟩
    | cons c front =>
      rw [List.cons_append, List.cons.injEq] at heq
      obtain ⟨rfl, heq⟩ := heq
      exact h.quoted front back heq

/-- An input in which a tag stands, with the rest of the input behind it. -/
def HasTag (input tag rest : List UInt8) : Prop :=
  ∃ before, input = before ++ byte '<' :: (tag ++ byte '>' :: rest) ∧ IsClosed none tag

theorem HasTag.cons (b : UInt8) (h : HasTag input tag rest) : HasTag (b :: input) tag rest := by
  obtain ⟨before, rfl, hclosed⟩ := h
  exact ⟨b :: before, rfl, hclosed⟩

/-- Whether a reader is in front of the bracket that opens the tag. -/
def Mode.IsOutside : Mode → Prop
  | .tag _ _ | .opened => False
  | _ => True

/-- Whether a byte leaves a reader in front of the bracket that opens the tag. -/
def Step.IsOutside : Step → Prop
  | .into mode => mode.IsOutside
  | .ended _ => False

/-- What the input in front of a reader in a mode is, if a tag is found there.  Behind an opening
bracket that bracket counts too, as it may be the one of the tag. -/
def Mode.Leads : Mode → (input tag rest : List UInt8) → Prop
  | .tag quote read, input, tag, rest =>
    ∃ more, input = more ++ byte '>' :: rest ∧ tag = read.reverse ++ more ∧ IsClosed quote more
  | .opened, input, tag, rest => HasTag (byte '<' :: input) tag rest
  | _, input, tag, rest => HasTag input tag rest

/-- What the input behind a byte is, if a tag is found there. -/
def Step.Leads : Step → (input tag rest : List UInt8) → Prop
  | .into mode, input, tag, rest => mode.Leads input tag rest
  | .ended found, input, tag, rest => found = tag ∧ input = rest

theorem Mode.leads_iff (h : mode.IsOutside) :
    mode.Leads input tag rest ↔ HasTag input tag rest := by
  cases mode with
  | tag => exact h.elim
  | opened => exact h.elim
  | _ => exact Iff.rfl

theorem Step.IsOutside.hasTag (h : next.IsOutside) (hleads : next.Leads input tag rest) :
    HasTag input tag rest := by
  cases next with
  | into mode => exact (Mode.leads_iff h).mp hleads
  | ended found => exact h.elim

theorem stepType_isOutside {depth : Nat} {named : Bool}
    (h : step.stepType depth named b = .ok next) : next.IsOutside := by
  cases depth with
  | zero => grind [step.stepType, Step.IsOutside, Mode.IsOutside]
  | succ depth => grind [step.stepType, Step.IsOutside, Mode.IsOutside]

/-- In front of a tag a byte does not lead past its opening bracket, unless it is one. -/
theorem step_isOutside (hmode : mode.IsOutside) (hopens : ¬ (mode = .text ∧ b = byte '<'))
    (h : step mode b = .ok next) : next.IsOutside := by
  cases mode with
  | tag => exact hmode.elim
  | opened => exact hmode.elim
  | dataOpening expected =>
    cases expected with
    | nil => grind [step, Step.IsOutside, Mode.IsOutside]
    | cons => grind [step, Step.IsOutside, Mode.IsOutside]
  | typeOpening expected =>
    cases expected with
    | nil => exact stepType_isOutside h
    | cons => grind [step, Step.IsOutside, Mode.IsOutside]
  | documentType => exact stepType_isOutside h
  | _ => grind [step, Step.IsOutside, Mode.IsOutside]

/-- Behind an opening bracket a byte begins a tag, or something else in front of the tag. -/
theorem step_opened (h : step .opened b = .ok next) :
    next = stepTag none [] b ∨ next.IsOutside := by
  grind [step, Step.IsOutside, Mode.IsOutside]

/-- A byte of a tag ends it, or the tag goes on behind it. -/
theorem leads_tag (h : (stepTag quote read b).Leads input tag rest) :
    (Mode.tag quote read).Leads (b :: input) tag rest := by
  unfold stepTag at h
  split at h
  · next hends =>
    obtain ⟨rfl, rfl⟩ := hends
    obtain ⟨rfl, rfl⟩ := h
    exact ⟨[], rfl, (List.append_nil _).symm, .nil⟩
  · next hends =>
    obtain ⟨more, rfl, rfl, hclosed⟩ := h
    exact ⟨b :: more, rfl, by rw [List.reverse_cons, List.append_assoc]; rfl, hclosed.cons hends⟩

/-- A tag that begins behind an opening bracket stands in the input. -/
theorem leads_opened (h : (Mode.tag none []).Leads input tag rest) :
    Mode.opened.Leads input tag rest := by
  obtain ⟨more, rfl, rfl, hclosed⟩ := h
  exact ⟨[], rfl, hclosed⟩

/-- What comes behind a byte says what comes from the byte on. -/
theorem leads_step (h : step mode b = .ok next) (hleads : next.Leads input tag rest) :
    mode.Leads (b :: input) tag rest := by
  by_cases hmode : mode.IsOutside
  · rw [Mode.leads_iff hmode]
    by_cases hopens : mode = .text ∧ b = byte '<'
    · obtain ⟨rfl, rfl⟩ := hopens
      cases h
      exact hleads
    · exact ((step_isOutside hmode hopens h).hasTag hleads).cons b
  cases mode with
  | tag =>
    cases h
    exact leads_tag hleads
  | opened =>
    obtain rfl | houtside := step_opened h
    · exact leads_opened (leads_tag hleads)
    · exact ((houtside.hasTag hleads).cons b).cons (byte '<')
  | _ => exact absurd trivial hmode

theorem leads_of_findIn (h : findIn mode input = .ok (some (tag, rest))) :
    mode.Leads input tag rest := by
  induction input generalizing mode with
  | nil => cases mode <;> cases h
  | cons b input ih =>
    rw [findIn] at h
    cases hstep : step mode b with
    | error fault =>
      rw [hstep] at h
      cases h
    | ok next =>
      rw [hstep] at h
      refine leads_step hstep ?_
      cases next with
      | into mode => exact ih h
      | ended found =>
        cases h
        exact ⟨rfl, rfl⟩

/-- The first start tag is found where it stands: it is closed by the first bracket outside quotes,
and all that comes behind the bracket is handed back. -/
theorem hasTag_of_find (h : find input = .ok (some (tag, rest))) : HasTag input tag rest :=
  leads_of_findIn h

end StartTag
end Xml
end DualInit
