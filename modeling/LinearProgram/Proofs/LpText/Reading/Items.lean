import LinearProgram.LpText.Statement
import LinearProgram.Proofs.LpText.Sections

/-!
# `LinearProgram.Proofs.LpText.Reading.Items`: the statements of a written model

The reader of model text finds the headers and joins lines that continue
one another. In a written model every line of content is a statement of
its section, if no line is taken for a header or for the continuation of
the line before it. `Sections.IsSeparate` says this of the lines, one by
one, and `items_lines` draws the conclusion.

* `joined` is a line without its indentation, which is what the reader
  sees of it.
* `header?_joined`: a line is a header by its first word and by what
  follows this word.
-/

set_option autoImplicit false

namespace LinearProgram.LpText

open Text (spaced IsWord)

/-! ### Lines without their indentation -/

/-- Words with a space between any two. -/
def joined : List (List Char) → List Char
  | [] => []
  | w :: ws => w ++ spaced ws

/-- Whether a line has words, and no word has a blank or begins a
comment. -/
def IsStatement (ws : List (List Char)) : Prop :=
  ws ≠ [] ∧ ∀ w ∈ ws, IsWord w ∧ ∀ c ∈ w, c ≠ '\\'

theorem takeWhile_spaced {ws : List (List Char)} (h : ∀ w ∈ ws, ∀ c ∈ w, c ≠ '\\') :
    (spaced ws).takeWhile (· ≠ '\\') = spaced ws := by
  refine Decimal.takeWhile_all fun c hc => decide_eq_true ?_
  obtain ⟨w, hw, hmem⟩ := List.mem_flatMap.mp hc
  rcases List.mem_cons.mp hmem with rfl | hmem
  · decide
  · exact h w hw c hmem

/-- The reader sees a line of content without its indentation. -/
theorem stripped_contentLine {ws : List (List Char)} (h : IsStatement ws) :
    stripped (contentLine ws) = joined ws := by
  obtain ⟨hne, hws⟩ := h
  have hline : (contentLine ws).takeWhile (· ≠ '\\') = contentLine ws := by
    rw [contentLine, List.takeWhile_cons, if_pos (by decide),
      takeWhile_spaced fun w hw => (hws w hw).2]
  rw [stripped, hline]
  cases ws with
  | nil => exact absurd rfl hne
  | cons w ws =>
      exact Text.trim_spaced (hws w (List.mem_cons_self ..)).1
        fun v hv => (hws v (List.mem_cons_of_mem _ hv)).1

theorem joined_ne_nil {ws : List (List Char)} (h : IsStatement ws) : joined ws ≠ [] := by
  obtain ⟨hne, hws⟩ := h
  cases ws with
  | nil => exact absurd rfl hne
  | cons w ws =>
      exact List.append_ne_nil_of_left_ne_nil (hws w (List.mem_cons_self ..)).1.1 _

/-! ### Numbered lines -/

/-- Texts with numbers from `first` on. -/
def numbered (first : Nat) : List (List Char) → List Numbered
  | [] => []
  | text :: rest => ⟨first, text⟩ :: numbered (first + 1) rest

theorem numbered_append (first : Nat) (as bs : List (List Char)) :
    numbered first (as ++ bs) = numbered first as ++ numbered (first + as.length) bs := by
  induction as generalizing first with
  | nil => rfl
  | cons a as ih =>
      show (⟨first, a⟩ : Numbered) :: numbered (first + 1) (as ++ bs) = _
      rw [ih, List.length_cons, show first + 1 + as.length = first + (as.length + 1) by omega]
      rfl

theorem numberedFrom_eq (first : Nat) {ls : List (List Char)} (h : ∀ l ∈ ls, stripped l ≠ []) :
    numberedFrom first ls = numbered first (ls.map stripped) := by
  induction ls generalizing first with
  | nil => rfl
  | cons l ls ih =>
      have hl := h l (List.mem_cons_self ..)
      rw [numberedFrom, List.map_cons, numbered, ← ih _ fun k hk => h k (List.mem_cons_of_mem _ hk)]
      cases hs : stripped l with
      | nil => exact absurd hs hl
      | cons c cs => rfl

/-! ### Statements -/

/-- The statements of a section, one for each text, from a line on. -/
def statements (place : Section) (first : Nat) (texts : List (List Char)) : List Item :=
  (numbered first texts).map (.statement place)

/-- Whether no text continues the one before it. -/
def AreSeparate (place : Section) : List (List Char) → Prop
  | [] => True
  | text :: rest => (∀ next ∈ rest, continues place text next = false) ∧ AreSeparate place rest

theorem group_pending {place opened : Section} (before : Numbered) {first : Nat}
    {texts : List (List Char)} (hbefore : ∀ next ∈ texts, continues place before.text next = false)
    (h : AreSeparate place texts) (rest : List Piece) :
    group place (some before) ((numbered first texts).map .content ++ .header opened :: rest)
      = .statement place before :: (statements place first texts
        ++ .opening opened :: group opened none rest) := by
  induction texts generalizing before first with
  | nil => rfl
  | cons text texts ih =>
      have hcontinues := hbefore text (List.mem_cons_self ..)
      show group place (some before) (.content ⟨first, text⟩ :: _) = _
      rw [group, if_neg (by rw [hcontinues]; exact Bool.false_ne_true)]
      exact congrArg _ (ih ⟨first, text⟩ h.1 h.2)

/-- Lines that do not continue one another are statements. -/
theorem group_contents {place opened : Section} (first : Nat) {texts : List (List Char)}
    (h : AreSeparate place texts) (rest : List Piece) :
    group place none ((numbered first texts).map .content ++ .header opened :: rest)
      = statements place first texts ++ .opening opened :: group opened none rest := by
  cases texts with
  | nil => rfl
  | cons text texts => exact group_pending ⟨first, text⟩ h.1 h.2 rest

/-- A line that is no header is content. -/
theorem piecesOf_contents (first : Nat) {texts : List (List Char)}
    (h : ∀ text ∈ texts, header? text = none) :
    (numbered first texts).flatMap piecesOf = (numbered first texts).map .content := by
  induction texts generalizing first with
  | nil => rfl
  | cons text texts ih =>
      have hnone := h text (List.mem_cons_self ..)
      show piecesOf ⟨first, text⟩ ++ (numbered (first + 1) texts).flatMap piecesOf = _
      rw [ih _ fun t ht => h t (List.mem_cons_of_mem _ ht), piecesOf, hnone]
      rfl

/-- A line that is a header and nothing else. -/
theorem piecesOf_header {text : List Char} {opened : Section} (line : Nat)
    (h : header? text = some (opened, [])) : piecesOf ⟨line, text⟩ = [.header opened] := by
  rw [piecesOf, h]

/-! ### Sections -/

/-- Whether the lines of sections are made of words, none is taken for a
header, and none continues another one. -/
structure Sections.IsSeparate (s : Sections) : Prop where
  objective : IsStatement s.objective ∧ header? (joined s.objective) = none
  constraints : ∀ ws ∈ s.constraints, IsStatement ws ∧ header? (joined ws) = none
    ∧ endsWithOperator (joined ws) = false ∧ startsWithRelation (joined ws) = false
  bounds : ∀ ws ∈ s.bounds, IsStatement ws ∧ header? (joined ws) = none
    ∧ endsWithOperator (joined ws) = false ∧ startsWithRelation (joined ws) = false
  binary : ∀ ws ∈ s.binary, IsStatement ws ∧ header? (joined ws) = none
  general : ∀ ws ∈ s.general, IsStatement ws ∧ header? (joined ws) = none

theorem areSeparate_of_ends {place : Section} {L : List (List (List Char))}
    (hplace : place = .constraints ∨ place = .bounds)
    (h : ∀ ws ∈ L, endsWithOperator (joined ws) = false
      ∧ startsWithRelation (joined ws) = false) : AreSeparate place (L.map joined) := by
  induction L with
  | nil => trivial
  | cons ws L ih =>
      refine ⟨fun next hnext => ?_, ih fun vs hvs => h vs (List.mem_cons_of_mem _ hvs)⟩
      obtain ⟨vs, hvs, rfl⟩ := List.mem_map.mp hnext
      have hends := (h ws (List.mem_cons_self ..)).1
      have hstarts := (h vs (List.mem_cons_of_mem _ hvs)).2
      rcases hplace with rfl | rfl
      · rw [continues, hends, hstarts]
        rfl
      · rw [continues, hends, hstarts]
        rfl

theorem areSeparate_of_kind {place : Section} (hplace : place = .binary ∨ place = .general)
    (texts : List (List Char)) : AreSeparate place texts := by
  induction texts with
  | nil => trivial
  | cons text texts ih =>
      refine ⟨fun next _ => ?_, ih⟩
      rcases hplace with rfl | rfl
      · rfl
      · rfl

namespace Sections

/-- The lines of sections as the reader sees them. -/
def texts (s : Sections) : List (List Char) :=
  s.sense.text.toList :: joined s.objective :: "SUBJECT TO".toList
    :: (s.constraints.map joined ++ "BOUNDS".toList :: (s.bounds.map joined
      ++ "BINARY".toList :: (s.binary.map joined
        ++ "GENERAL".toList :: (s.general.map joined ++ ["END".toList]))))

theorem map_stripped_contentLine {L : List (List (List Char))} (h : ∀ ws ∈ L, IsStatement ws) :
    (L.map contentLine).map stripped = L.map joined := by
  rw [List.map_map]
  exact List.map_congr_left fun ws hws => stripped_contentLine (h ws hws)

theorem map_stripped_lines {s : Sections} (h : s.IsSeparate) : s.lines.map stripped = s.texts := by
  have hsense : stripped s.sense.text.toList = s.sense.text.toList := by
    cases s.sense <;> decide
  have hsubject : stripped "SUBJECT TO".toList = "SUBJECT TO".toList := by decide
  have hbounds : stripped "BOUNDS".toList = "BOUNDS".toList := by decide
  have hbinary : stripped "BINARY".toList = "BINARY".toList := by decide
  have hgeneral : stripped "GENERAL".toList = "GENERAL".toList := by decide
  have hend : stripped "END".toList = "END".toList := by decide
  simp only [lines, texts, List.map_cons, List.map_append, hsense, hsubject, hbounds, hbinary,
    hgeneral, hend, stripped_contentLine h.objective.1, List.map_nil,
    map_stripped_contentLine fun ws hws => (h.constraints ws hws).1,
    map_stripped_contentLine fun ws hws => (h.bounds ws hws).1,
    map_stripped_contentLine fun ws hws => (h.binary ws hws).1,
    map_stripped_contentLine fun ws hws => (h.general ws hws).1]

theorem texts_ne_nil {s : Sections} (h : s.IsSeparate) : ∀ t ∈ s.texts, t ≠ [] := by
  have hmap : ∀ {L : List (List (List Char))}, (∀ ws ∈ L, IsStatement ws) →
      ∀ t ∈ L.map joined, t ≠ [] := by
    intro L hL t ht
    obtain ⟨ws, hws, rfl⟩ := List.mem_map.mp ht
    exact joined_ne_nil (hL ws hws)
  intro t ht
  simp only [texts, List.mem_cons, List.mem_append, List.not_mem_nil, or_false] at ht
  rcases ht with rfl | rfl | rfl | ht | rfl | ht | rfl | ht | rfl | ht | rfl
  · cases s.sense <;> decide
  · exact joined_ne_nil h.objective.1
  · decide
  · exact hmap (fun ws hws => (h.constraints ws hws).1) t ht
  · decide
  · exact hmap (fun ws hws => (h.bounds ws hws).1) t ht
  · decide
  · exact hmap (fun ws hws => (h.binary ws hws).1) t ht
  · decide
  · exact hmap (fun ws hws => (h.general ws hws).1) t ht
  · decide

/-- The items of sections: each header opens its section, and each line
of content is a statement of it. -/
def items (s : Sections) : List Item :=
  let c := 4 + s.constraints.length
  let b := c + 1 + s.bounds.length
  let k := b + 1 + s.binary.length
  .opening (.objective s.sense) :: .statement (.objective s.sense) ⟨2, joined s.objective⟩
    :: .opening .constraints :: (statements .constraints 4 (s.constraints.map joined)
      ++ .opening .bounds :: (statements .bounds (c + 1) (s.bounds.map joined)
        ++ .opening .binary :: (statements .binary (b + 1) (s.binary.map joined)
          ++ .opening .general :: (statements .general (k + 1) (s.general.map joined)
            ++ [.opening .closed]))))

theorem forall_joined {P : List Char → Prop} {L : List (List (List Char))}
    (h : ∀ ws ∈ L, P (joined ws)) : ∀ t ∈ L.map joined, P t := by
  intro t ht
  obtain ⟨ws, hws, rfl⟩ := List.mem_map.mp ht
  exact h ws hws

/-- The pieces of the numbered texts: each line of a section's name is a
header, each other line is content. -/
theorem pieces_texts {s : Sections} (h : s.IsSeparate) :
    (numbered 1 s.texts).flatMap piecesOf
      = .header (.objective s.sense) :: ((numbered 2 [joined s.objective]).map .content
        ++ .header .constraints :: ((numbered 4 (s.constraints.map joined)).map .content
        ++ .header .bounds :: ((numbered (4 + s.constraints.length + 1)
          (s.bounds.map joined)).map .content
        ++ .header .binary :: ((numbered (4 + s.constraints.length + 1 + s.bounds.length + 1)
          (s.binary.map joined)).map .content
        ++ .header .general :: ((numbered (4 + s.constraints.length + 1 + s.bounds.length + 1
          + s.binary.length + 1) (s.general.map joined)).map .content
        ++ [.header .closed]))))) := by
  have hsense : ∀ line, piecesOf ⟨line, s.sense.text.toList⟩ = [.header (.objective s.sense)] := by
    intro line
    cases s.sense with
    | minimize => exact piecesOf_header line (by decide)
    | maximize => exact piecesOf_header line (by decide)
  have hsubject : ∀ line, piecesOf ⟨line, "SUBJECT TO".toList⟩ = [.header .constraints] :=
    fun line => piecesOf_header line (by decide)
  have hbounds : ∀ line, piecesOf ⟨line, "BOUNDS".toList⟩ = [.header .bounds] :=
    fun line => piecesOf_header line (by decide)
  have hbinary : ∀ line, piecesOf ⟨line, "BINARY".toList⟩ = [.header .binary] :=
    fun line => piecesOf_header line (by decide)
  have hgeneral : ∀ line, piecesOf ⟨line, "GENERAL".toList⟩ = [.header .general] :=
    fun line => piecesOf_header line (by decide)
  have hend : ∀ line, piecesOf ⟨line, "END".toList⟩ = [.header .closed] :=
    fun line => piecesOf_header line (by decide)
  have hobjective : piecesOf ⟨2, joined s.objective⟩ = [.content ⟨2, joined s.objective⟩] := by
    rw [piecesOf, h.objective.2]
  simp only [texts, numbered, numbered_append, List.flatMap_cons, List.flatMap_append,
    List.flatMap_nil, List.length_map, hsense, hsubject, hbounds, hbinary, hgeneral, hend,
    hobjective, piecesOf_contents _ (forall_joined fun ws hws => (h.constraints ws hws).2.1),
    piecesOf_contents _ (forall_joined fun ws hws => (h.bounds ws hws).2.1),
    piecesOf_contents _ (forall_joined fun ws hws => (h.binary ws hws).2),
    piecesOf_contents _ (forall_joined fun ws hws => (h.general ws hws).2),
    List.map_cons, List.map_nil, List.cons_append, List.nil_append]

/-- The reader finds the sections of a written model again. -/
theorem items_lines {s : Sections} (h : s.IsSeparate) :
    LpText.items (Text.stacked s.lines) = s.items := by
  have hwordy : s.IsWordy :=
    ⟨fun w hw => (h.objective.1.2 w hw).1,
      fun ws hws w hw => ((h.constraints ws hws).1.2 w hw).1,
      fun ws hws w hw => ((h.bounds ws hws).1.2 w hw).1,
      fun ws hws w hw => ((h.binary ws hws).1.2 w hw).1,
      fun ws hws w hw => ((h.general ws hws).1.2 w hw).1⟩
  have hcontents : contents (Text.stacked s.lines) = numbered 1 s.texts := by
    have hne : ∀ l ∈ s.lines, stripped l ≠ [] := by
      intro l hl
      refine texts_ne_nil h _ ?_
      rw [← map_stripped_lines h]
      exact List.mem_map_of_mem hl
    rw [contents, Text.lines_stacked (isLine_of_mem_lines hwordy), numberedFrom_eq 1 hne,
      map_stripped_lines h]
  have hobjective : AreSeparate (.objective s.sense) [joined s.objective] :=
    ⟨fun _ hnext => absurd hnext List.not_mem_nil, trivial⟩
  have hconstraints := areSeparate_of_ends (.inl rfl) fun ws hws => (h.constraints ws hws).2.2
  have hbounds := areSeparate_of_ends (.inr rfl) fun ws hws => (h.bounds ws hws).2.2
  have hbinary := areSeparate_of_kind (.inl rfl) (s.binary.map joined)
  have hgeneral := areSeparate_of_kind (.inr rfl) (s.general.map joined)
  rw [LpText.items, hcontents, pieces_texts h, group, group_contents _ hobjective,
    group_contents _ hconstraints, group_contents _ hbounds, group_contents _ hbinary,
    group_contents _ hgeneral]
  rfl

end Sections

end LinearProgram.LpText
