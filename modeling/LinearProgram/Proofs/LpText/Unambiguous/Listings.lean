import LinearProgram.Proofs.LpText.Unambiguous.Domains

/-!
# `LinearProgram.Proofs.LpText.Unambiguous.Listings`: the declared names of any text

The text of a model may be ambiguous where names are not names, but its
last two sections never are: they are read from the end, where nothing
stands but indented names and headers. It is enough that the names of
variables do not break their lines.

* `splitOn_stacked`: at its line feeds a stack falls into the pieces of
  its lines.
* `namesOfKind_of_write`: models with one text declare the same names.
* `exists_kind_of_write`: a name that one model declares is that of a
  variable of the same kind in the other.
-/

set_option autoImplicit false

namespace LinearProgram.LpText

open Text (stacked append_cons_inj_last)

/-- At its line feeds a stack falls into the pieces of its lines. -/
theorem splitOn_stacked (ls : List (List Char)) :
    (stacked ls).splitOn '\n' = ls.flatMap (List.splitOn '\n') ++ [[]] := by
  induction ls with
  | nil => rfl
  | cons l rest ih =>
      have hstack : stacked (l :: rest) = l ++ '\n' :: stacked rest := by
        rw [stacked, List.flatMap_cons, List.append_assoc]
        rfl
      rw [hstack, List.splitOn_append_cons_self, ih, List.flatMap_cons, List.append_assoc]

/-- Lines without line feeds are their own pieces. -/
theorem flatMap_splitOn {ls : List (List Char)} (h : ∀ l ∈ ls, '\n' ∉ l) :
    ls.flatMap (List.splitOn '\n') = ls := by
  induction ls with
  | nil => rfl
  | cons l rest ih =>
      rw [List.flatMap_cons, List.splitOn_eq_singleton (h l (List.mem_cons_self ..)),
        ih fun k hk => h k (List.mem_cons_of_mem _ hk)]
      rfl

/-- Whether no name of a set breaks its line. -/
def HasLineNames (vars : VariableSet) : Prop := ∀ v ∈ vars, '\n' ∉ v.name.toList

/-- The lines of the names of a kind. -/
def listing (registry : Registry) (vars : VariableSet) (kind : Kind) : List (List Char) :=
  (namesOfKind registry vars kind).map fun name => contentLine [name.toList]

section Listing

variable {registry : Registry} {vars : VariableSet} {kind : Kind}

theorem not_mem_of_mem_listing (h : HasLineNames vars) {l : List Char}
    (hl : l ∈ listing registry vars kind) : '\n' ∉ l := by
  obtain ⟨name, hname, rfl⟩ := List.mem_map.mp hl
  obtain ⟨v, hv, rfl⟩ := List.mem_map.mp hname
  have hfeed := h v (VariableSet.mem_toList_iff.mp (List.mem_filter.mp hv).1)
  simpa [contentLine, Text.spaced] using hfeed

/-- A header is not indented, so it is no line of a listing. -/
theorem ne_of_mem_listing {l header : List Char} (hl : l ∈ listing registry vars kind)
    (hheader : header.head? ≠ some ' ') : l ≠ header := by
  obtain ⟨name, _, rfl⟩ := List.mem_map.mp hl
  rintro rfl
  exact hheader rfl

theorem listing_injective {registry' : Registry} {vars' : VariableSet}
    (h : listing registry vars kind = listing registry' vars' kind) :
    namesOfKind registry vars kind = namesOfKind registry' vars' kind := by
  refine List.map_injective_iff.mpr (fun n m hnm => ?_) h
  exact String.toList_injective (by simpa [contentLine, Text.spaced] using hnm)

/-- The pieces of a model's text end with its listings. -/
theorem exists_pieces (h : HasLineNames vars) (m : Model) :
    ∃ front : List (List Char), (write registry m vars).toList.splitOn '\n'
      = (front ++ "BINARY".toList :: listing registry vars .binary)
        ++ "GENERAL".toList :: (listing registry vars .integer ++ ["END".toList, []]) := by
  obtain ⟨front, hfront⟩ : ∃ front, (Sections.ofModel registry m vars).lines
      = front ++ ("BINARY".toList :: listing registry vars .binary
        ++ "GENERAL".toList :: (listing registry vars .integer ++ ["END".toList])) := by
    have hlisting : ∀ kind, ((namesOfKind registry vars kind).map fun name => [name.toList]).map
        contentLine = listing registry vars kind := fun kind => List.map_map
    refine ⟨(Sections.ofModel registry m vars).sense.text.toList
      :: contentLine (Sections.ofModel registry m vars).objective :: "SUBJECT TO".toList
      :: ((Sections.ofModel registry m vars).constraints.map contentLine
        ++ "BOUNDS".toList :: (Sections.ofModel registry m vars).bounds.map contentLine), ?_⟩
    rw [← hlisting, ← hlisting]
    simp only [Sections.lines, Sections.ofModel, List.cons_append, List.append_assoc]
  -- None of the lines at the end has a line feed in it.
  have hwhole : ∀ l ∈ "BINARY".toList :: listing registry vars .binary
      ++ "GENERAL".toList :: (listing registry vars .integer ++ ["END".toList]), '\n' ∉ l := by
    intro l hl
    simp only [List.mem_cons, List.mem_append, List.not_mem_nil, or_false] at hl
    rcases hl with (rfl | hl) | rfl | hl | rfl
    · decide
    · exact not_mem_of_mem_listing h hl
    · decide
    · exact not_mem_of_mem_listing h hl
    · decide
  refine ⟨front.flatMap (List.splitOn '\n'), ?_⟩
  rw [write_toList, splitOn_stacked, hfront, List.flatMap_append, flatMap_splitOn hwhole]
  simp only [List.cons_append, List.append_assoc, List.nil_append]

end Listing

section SameText

variable {r r' : Registry} {m m' : Model} {s s' : VariableSet}

/-- Models with one text declare the same names. -/
theorem namesOfKind_of_write (hs : HasLineNames s) (hs' : HasLineNames s')
    (h : write r m s = write r' m' s') :
    namesOfKind r s .binary = namesOfKind r' s' .binary
      ∧ namesOfKind r s .integer = namesOfKind r' s' .integer := by
  obtain ⟨front, hpieces⟩ := @exists_pieces r s hs m
  obtain ⟨front', hpieces'⟩ := @exists_pieces r' s' hs' m'
  rw [h, hpieces'] at hpieces
  -- From the end, the first header is that of the integers.
  have hinteger : ∀ {q : Registry} {u : VariableSet}, ∀ l ∈ listing q u .integer
      ++ ["END".toList, []], l ≠ "GENERAL".toList := by
    intro q u l hl
    simp only [List.mem_cons, List.mem_append, List.not_mem_nil, or_false] at hl
    rcases hl with hl | rfl | rfl
    · exact ne_of_mem_listing hl (by decide)
    · decide
    · decide
  obtain ⟨hrest, _, hlast⟩ := append_cons_inj_last (p := (· ≠ "GENERAL".toList)) hinteger hinteger
    (not_not_intro rfl) (not_not_intro rfl) hpieces
  -- And the next one is that of the binary variables.
  have hbinary : ∀ {q : Registry} {u : VariableSet}, ∀ l ∈ listing q u .binary,
      l ≠ "BINARY".toList := fun l hl => ne_of_mem_listing hl (by decide)
  obtain ⟨_, _, hfirst⟩ := append_cons_inj_last (p := (· ≠ "BINARY".toList)) hbinary hbinary
    (not_not_intro rfl) (not_not_intro rfl) hrest
  exact ⟨(listing_injective hfirst).symm, (listing_injective (List.append_cancel_right hlast)).symm⟩

/-- A name that one model declares is that of a variable of the same kind in
the other. -/
theorem exists_kind_of_write (hs : HasLineNames s) (hs' : HasLineNames s')
    (h : write r m s = write r' m' s') {v : Variable} (hv : v ∈ s')
    (hkind : (r'.attributes v).kind.isIntegral = true) :
    ∃ u ∈ s, u.name = v.name ∧ (r.attributes u).kind = (r'.attributes v).kind := by
  obtain ⟨hbinary, hinteger⟩ := namesOfKind_of_write hs hs' h
  have hnames : namesOfKind r s (r'.attributes v).kind
      = namesOfKind r' s' (r'.attributes v).kind := by
    cases hcase : (r'.attributes v).kind with
    | real => rw [hcase] at hkind; cases hkind
    | integer => exact hinteger
    | binary => exact hbinary
  have hmem : v.name ∈ namesOfKind r s (r'.attributes v).kind := by
    rw [hnames]
    exact (mem_namesOfKind hv _).mpr rfl
  obtain ⟨u, hu, hname⟩ := List.mem_map.mp hmem
  obtain ⟨hu, hkind⟩ := List.mem_filter.mp hu
  exact ⟨u, VariableSet.mem_toList_iff.mp hu, hname, of_decide_eq_true hkind⟩

end SameText

end LinearProgram.LpText
