import DualInit.Path

/-!
# Where joined paths lead

`Path.join` works on text, and the store looks at places.  So a file that is looked for in a
directory has to be in the same place for every spelling of the directory: `location_join` says that
the pieces of the file come behind those of the directory, and `location_join_congr` that nothing
but the place of the directory matters.

A directory without text is the exception, for there the file's own start counts.  It is told from
all others by its place (`isEmpty_iff_location`): a text that starts nowhere else and has no piece
that counts is empty, because its first piece would count.
-/

namespace DualInit
namespace Path

variable {cs : List Char} {directory other next : Path}

/-- The names of the pieces of a text that count. -/
def names (cs : List Char) : List String :=
  ((Split.pieces '/' cs).filter counts).map String.ofList

theorem location_eq (p : Path) :
    p.location = ⟨(opening p.text.toList).1, names (opening p.text.toList).2⟩ := rfl

theorem names_append_separator (cs ds : List Char) :
    names (cs ++ '/' :: ds) = names cs ++ names ds := by
  rw [names, Split.pieces_append_sep, List.filter_append, List.map_append]
  rfl

/-- A separator at the end leads nowhere else. -/
theorem names_append_last (cs : List Char) : names (cs ++ ['/']) = names cs :=
  (names_append_separator cs []).trans (List.append_nil _)

/-! ## Text that goes on -/

/-- What goes on behind a text that is not empty goes on behind its start, too. -/
theorem opening_append_separator (h : cs ≠ []) (ds : List Char) :
    opening (cs ++ '/' :: ds) = ((opening cs).1, (opening cs).2 ++ '/' :: ds) := by
  fun_cases opening cs with
  | case1 rest => rfl
  | case2 => rfl
  | case3 rest => rfl
  | case4 _ hroot hhere hbelow =>
    obtain ⟨c, cs, rfl⟩ := List.exists_cons_of_ne_nil h
    refine opening.eq_4 _ (fun rest heq => ?_) (fun heq => ?_) (fun rest heq => ?_)
    · obtain ⟨rfl, -⟩ := List.cons.inj heq
      exact hroot cs rfl
    · obtain ⟨-, hnil⟩ := List.cons.inj heq
      exact absurd hnil (by simp)
    · obtain ⟨rfl, hrest⟩ := List.cons.inj heq
      cases cs with
      | nil => exact hhere rfl
      | cons d cs =>
        obtain ⟨rfl, -⟩ := List.cons.inj hrest
        exact hbelow cs rfl

/-- The first piece of a text that starts nowhere in particular counts. -/
theorem names_ne_nil (h : cs ≠ []) (hstart : (opening cs).1 = .bare) :
    names (opening cs).2 ≠ [] := by
  fun_cases opening cs with
  | case1 rest => cases hstart
  | case2 => cases hstart
  | case3 rest => cases hstart
  | case4 _ hroot hhere hbelow =>
    obtain ⟨c, cs, rfl⟩ := List.exists_cons_of_ne_nil h
    have hc : c ≠ '/' := fun heq => hroot cs (heq ▸ rfl)
    obtain ⟨piece, pieces, hpieces⟩ := List.exists_cons_of_ne_nil (Split.pieces_ne_nil '/' cs)
    have hfirst : Split.pieces '/' (c :: cs) = (c :: piece) :: pieces := by
      rw [Split.pieces, if_neg hc, hpieces]
      rfl
    -- A dot alone would not count, but then the text would start with it.
    have hdot : c :: piece ≠ ['.'] := by
      rintro heq
      obtain ⟨rfl, rfl⟩ := List.cons.inj heq
      cases cs with
      | nil => exact hhere rfl
      | cons d cs =>
        rw [Split.pieces] at hpieces
        split at hpieces
        · next hd => exact hbelow cs (hd ▸ rfl)
        · obtain ⟨next, nexts, hnexts⟩ := List.exists_cons_of_ne_nil (Split.pieces_ne_nil '/' cs)
          rw [hnexts] at hpieces
          cases hpieces
    have hcounts : counts (c :: piece) = true := by
      simp [counts, hdot]
    show (((Split.pieces '/' (c :: cs)).filter counts).map String.ofList) ≠ []
    rw [hfirst, List.filter_cons_of_pos hcounts]
    exact List.cons_ne_nil _ _

/-! ## Places -/

theorem isEmpty_iff : directory.isEmpty = true ↔ directory.text.toList = [] := by
  rw [isEmpty, beq_iff_eq, String.toList_eq_nil_iff]

/-- The path without text is the only one to its place. -/
theorem isEmpty_iff_location : directory.isEmpty = true ↔ directory.location = ⟨.bare, []⟩ := by
  constructor
  · intro h
    have htext : directory.text = "" := beq_iff_eq.mp h
    rw [location_eq, htext]
    rfl
  · intro h
    rw [location_eq, Location.mk.injEq] at h
    rw [isEmpty_iff]
    cases htext : directory.text.toList with
    | nil => rfl
    | cons c cs => exact absurd h.2 (names_ne_nil (by simp [htext]) h.1)

/-- A file in a directory is where the directory leads, and on from there. -/
theorem location_join (hdirectory : directory.isEmpty = false)
    (hnext : next.text.toList.head? ≠ some '/') :
    (directory.join next).location =
      ⟨directory.location.start, directory.location.names ++ names next.text.toList⟩ := by
  have hne : directory.text.toList ≠ [] := by
    intro hnil
    rw [isEmpty_iff.mpr hnil] at hdirectory
    cases hdirectory
  rw [join, if_neg hnext, hdirectory, Bool.false_or]
  by_cases hlast : directory.text.toList.getLast? = some '/'
  · rw [if_pos (decide_eq_true hlast), location_eq, location_eq]
    obtain ⟨front, hfront⟩ := List.getLast?_eq_some_iff.mp hlast
    have htext : (directory.text ++ next.text).toList = front ++ '/' :: next.text.toList := by
      rw [String.toList_append, hfront, List.append_assoc]
      rfl
    rw [htext, hfront]
    cases front with
    | nil => rfl
    | cons c front =>
      rw [opening_append_separator (List.cons_ne_nil _ _),
        opening_append_separator (List.cons_ne_nil _ _)]
      rw [names_append_separator, names_append_last]
  · rw [if_neg (by simpa using hlast), location_eq, location_eq]
    have htext : (directory.text ++ "/" ++ next.text).toList =
        directory.text.toList ++ '/' :: next.text.toList := by
      rw [String.toList_append, String.toList_append, List.append_assoc]
      rfl
    rw [htext, opening_append_separator hne, names_append_separator]

/-- Two paths to one directory lead to one place for every file in it. -/
theorem location_join_congr (h : directory.location = other.location) (next : Path) :
    (directory.join next).location = (other.join next).location := by
  have hsame : directory.isEmpty = other.isEmpty := by
    rw [Bool.eq_iff_iff, isEmpty_iff_location, isEmpty_iff_location, h]
  by_cases hnext : next.text.toList.head? = some '/'
  · rw [join, join, if_pos hnext, if_pos hnext]
  · cases hempty : directory.isEmpty with
    | true =>
      have htext : directory.text = other.text :=
        (beq_iff_eq.mp hempty).trans (beq_iff_eq.mp (hsame.symm.trans hempty)).symm
      rw [join, join, htext, isEmpty, isEmpty, htext]
    | false =>
      rw [location_join hempty hnext, location_join (hsame.symm.trans hempty) hnext, h]

end Path
end DualInit
