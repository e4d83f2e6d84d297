import Mathlib.Order.MinMax
import LinearProgram.Proofs.LpText.Layout.Numbers
import LinearProgram.Proofs.LpText.Reading.Restoration

/-!
# `LinearProgram.Proofs.LpText.Layout.Copies`: statements in another spelling

A statement that is read from its tokens may be spelled in another way,
and it may stand on another line. What is read of it is the same. If it
is refused, the reason is the same as well, and only the text that the
reason may quote is spelled differently.

* `Item.IsCopy` compares what a reader has to deal with, `Draft.IsCopy`
  what it has read. `Draft.IsCopy.take` is the step, over the sections,
  and `Draft.IsCopy.foldl_take` the run.
* `Draft.IsCopy.settle`: in the end the documents are the same up to the
  lines of the problems and the texts that they quote.
-/

set_option autoImplicit false

namespace LinearProgram.LpText

/-! ### Problems -/

/-- A reason without the statement that it quotes. -/
def ReadError.unquoted {K : Type} : ReadError K → ReadError K
  | outsideSections _ => outsideSections ""
  | afterEnd _ => afterEnd ""
  | unreadableBound _ => unreadableBound ""
  | e => e

/-- Whether two reasons are the same up to the statement that they quote.
They are the same where statements are whole. -/
structure ReadError.IsCopy (isWhole : Bool) (e e' : ReadError Float) : Prop where
  unquoted : e'.unquoted = e.unquoted
  whole : isWhole = true → e' = e

/-- Whether the same problem is reported on the line that `f` gives for
the one of the other. -/
structure Problem.IsCopy (isWhole : Bool) (f : Nat → Nat) (p q : Problem) : Prop where
  line : q.line = f p.line
  error : p.error.IsCopy isWhole q.error

variable {isWhole : Bool} {f : Nat → Nat}

theorem ReadError.IsCopy.refl (e : ReadError Float) : e.IsCopy isWhole e := ⟨rfl, fun _ => rfl⟩

/-! ### Statements -/

/-- Whether statements of a section are read from their tokens. -/
def Section.IsTokenized : Section → Prop
  | .objective _ | .constraints | .bounds => True
  | _ => False

/-- Whether a statement of a section is the same in another spelling,
which it does not have where statements are whole. -/
def IsRespelled (isWhole : Bool) (place : Section) (text text' : List Char) : Prop :=
  text' = text ∨ isWhole = false ∧ place.IsTokenized ∧ tokenize text' = tokenize text

/-- Whether the same is to be done, on the line that `f` gives. -/
inductive Item.IsCopy (isWhole : Bool) (f : Nat → Nat) : Item → Item → Prop
  | opening (opened : Section) : IsCopy isWhole f (.opening opened) (.opening opened)
  | statement {place : Section} {text text' : List Char} (line : Nat)
    (h : IsRespelled isWhole place text text') :
    IsCopy isWhole f (.statement place ⟨line, text⟩) (.statement place ⟨f line, text'⟩)

theorem IsRespelled.tokenize_eq {place : Section} {text text' : List Char}
    (h : IsRespelled isWhole place text text') : tokenize text' = tokenize text := by
  rcases h with rfl | ⟨_, _, h⟩
  · rfl
  · exact h

theorem IsRespelled.text_eq {place : Section} {text text' : List Char}
    (h : IsRespelled isWhole place text text') (hplace : ¬ place.IsTokenized) : text' = text :=
  h.resolve_right fun ⟨_, htokenized, _⟩ => hplace htokenized

theorem IsRespelled.whole {place : Section} {text text' : List Char}
    (h : IsRespelled isWhole place text text') (hwhole : isWhole = true) : text' = text := by
  refine h.resolve_right fun ⟨hcut, _⟩ => ?_
  rw [hwhole] at hcut
  cases hcut

/-- Only what is left over is refused with its spelling. -/
theorem boundOf_respelled (text text' : String) (tokens : List (Token Float)) :
    (∃ clause, boundOf text tokens = .ok clause ∧ boundOf text' tokens = .ok clause)
      ∨ ∃ e e', boundOf text tokens = .error e ∧ boundOf text' tokens = .error e'
        ∧ e'.unquoted = e.unquoted := by
  have hsame : boundOf text tokens = boundOf text' tokens
      ∨ boundOf text tokens = .error (.unreadableBound text)
        ∧ boundOf text' tokens = .error (.unreadableBound text') := by
    unfold boundOf
    cases freeName? tokens with
    | some name => exact .inl rfl
    | none =>
        dsimp only
        split <;> first | exact .inl rfl | exact .inr ⟨rfl, rfl⟩
  rcases hsame with hsame | ⟨hleft, hright⟩
  · rw [← hsame]
    cases boundOf text tokens with
    | ok clause => exact .inl ⟨clause, rfl, rfl⟩
    | error e => exact .inr ⟨e, e, rfl, rfl, rfl⟩
  · exact .inr ⟨_, _, hleft, hright, rfl⟩

/-! ### Drafts -/

/-- Whether the same has been read. -/
structure Draft.IsCopy (isWhole : Bool) (f : Nat → Nat) (d e : Draft) : Prop where
  objective : e.objective = d.objective
  constraints : e.constraints = d.constraints
  symbols : e.symbols = d.symbols.renumbered f
  problems : List.Forall₂ (Problem.IsCopy isWhole f) d.problems e.problems

namespace Draft.IsCopy

variable {d e : Draft}

theorem start (registry : Registry) :
    IsCopy isWhole f (Draft.start registry) (Draft.start registry) := ⟨rfl, rfl, rfl, .nil⟩

theorem report (h : IsCopy isWhole f d e) (line : Nat) {error error' : ReadError Float}
    (herror : error.IsCopy isWhole error') :
    IsCopy isWhole f (d.report line error) (e.report (f line) error') :=
  ⟨h.objective, h.constraints, h.symbols,
    List.rel_append h.problems (.cons ⟨rfl, herror⟩ .nil)⟩

theorem withSymbols (h : IsCopy isWhole f d e) (s : Symbols) :
    IsCopy isWhole f { d with symbols := s } { e with symbols := s.renumbered f } :=
  ⟨h.objective, h.constraints, rfl, h.problems⟩

theorem attempt (h : IsCopy isWhole f d e) {α : Type} (line : Nat)
    {reading reading' : Reading Float α} (hreading : Renumbers f reading reading') {keep : Draft → α → Draft}
    (hkeep : ∀ {d' e'} a, IsCopy isWhole f d' e' → IsCopy isWhole f (keep d' a) (keep e' a)) :
    IsCopy isWhole f (d.attempt line reading keep) (e.attempt (f line) reading' keep) := by
  rw [Draft.attempt, Draft.attempt, h.symbols, hreading d.symbols]
  rcases reading d.symbols with ⟨error | a, s⟩
  · exact (h.withSymbols s).report line (.refl error)
  · exact hkeep a (h.withSymbols s)

theorem addObjective (h : IsCopy isWhole f d e) (sense : Sense) (t : Term Float) :
    IsCopy isWhole f (d.addObjective sense t) (e.addObjective sense t) := by
  refine ⟨?_, h.constraints, h.symbols, h.problems⟩
  rw [Draft.addObjective, Draft.addObjective, h.objective]

theorem addConstraint (h : IsCopy isWhole f d e) (c : Constraint Float) :
    IsCopy isWhole f { d with constraints := d.constraints ++ [c] }
      { e with constraints := e.constraints ++ [c] } :=
  ⟨h.objective, congrArg (· ++ [c]) h.constraints, h.symbols, h.problems⟩

theorem openSection (h : IsCopy isWhole f d e) (opened : Section) :
    IsCopy isWhole f (d.openSection opened) (e.openSection opened) := by
  cases opened with
  | objective sense =>
      refine ⟨?_, h.constraints, h.symbols, h.problems⟩
      rw [Draft.openSection, Draft.openSection, h.objective]
  | _ => exact h

theorem declareWord (h : IsCopy isWhole f d e) (kind : Kind) (line : Nat) (word : List Char) :
    IsCopy isWhole f (d.declareWord kind line word) (e.declareWord kind (f line) word) := by
  rw [Draft.declareWord, Draft.declareWord, h.symbols, Symbols.mention_renumbered]
  dsimp only
  split
  · rw [← Symbols.kindOf, ← Symbols.kindOf, Symbols.kindOf_renumbered,
      Symbols.declareKind_renumbered]
    cases ((d.symbols.mention (String.ofList word)).2).kindOf (String.ofList word) with
    | none => exact h.withSymbols _
    | some p =>
        obtain ⟨declared, line'⟩ := p
        dsimp only [Option.map_some]
        split
        · exact h.withSymbols _
        · exact (h.withSymbols _).report line (.refl _)
  · exact h.report line (.refl _)

theorem declareWords (h : IsCopy isWhole f d e) (kind : Kind) (line : Nat) (text : List Char) :
    IsCopy isWhole f (d.declareWords kind ⟨line, text⟩) (e.declareWords kind ⟨f line, text⟩) := by
  rw [Draft.declareWords, Draft.declareWords]
  induction Text.words text generalizing d e with
  | nil => exact h
  | cons word words ih => exact ih (h.declareWord kind line word)

/-- A statement on bounds is the only one whose spelling can be quoted. -/
theorem takeBounds (h : IsCopy isWhole f d e) {text text' : List Char} (line : Nat)
    (hspelled : IsRespelled isWhole .bounds text text') :
    IsCopy isWhole f (d.takeStatement .bounds ⟨line, text⟩)
      (e.takeStatement .bounds ⟨f line, text'⟩) := by
  have hclause : (∃ clause, boundClause ⟨line, text⟩ = .ok clause
        ∧ boundClause ⟨f line, text'⟩ = .ok clause)
      ∨ ∃ error error', boundClause ⟨line, text⟩ = .error error
        ∧ boundClause ⟨f line, text'⟩ = .error error' ∧ error.IsCopy isWhole error' := by
    rw [boundClause, boundClause, hspelled.tokenize_eq]
    cases tokenize text with
    | error error => exact .inr ⟨_, _, rfl, rfl, .refl _⟩
    | ok tokens =>
        rcases boundOf_respelled (String.ofList text) (String.ofList text') tokens with
          ⟨clause, hleft, hright⟩ | ⟨error, error', hleft, hright, herror⟩
        · exact .inl ⟨clause, hleft, hright⟩
        · refine .inr ⟨error, error', hleft, hright, herror, fun hwhole => ?_⟩
          rw [hspelled.whole hwhole, hleft] at hright
          exact (Except.error.inj hright).symm
  rw [Draft.takeStatement, Draft.takeStatement, Draft.attempt, Draft.attempt,
    Draft.boundStatement_eq, Draft.boundStatement_eq, h.symbols]
  rcases hclause with ⟨clause, hleft, hright⟩ | ⟨error, error', hleft, hright, herror⟩
  · rw [hleft, hright]
    dsimp only
    rw [Symbols.declareBounds_renumbered]
    exact h.withSymbols _
  · rw [hleft, hright]
    exact (h.withSymbols d.symbols).report line herror

/-- What is to be done in both cases is done alike. -/
theorem take (h : IsCopy isWhole f d e) {item item' : Item}
    (hitem : item.IsCopy isWhole f item') : IsCopy isWhole f (d.take item) (e.take item') := by
  cases hitem with
  | opening opened => exact h.openSection opened
  | @statement place text text' line hspelled =>
      cases place with
      | preamble =>
          rw [hspelled.text_eq id]
          exact h.report line (.refl _)
      | closed =>
          rw [hspelled.text_eq id]
          exact h.report line (.refl _)
      | binary =>
          rw [hspelled.text_eq id]
          exact h.declareWords .binary line text
      | general =>
          rw [hspelled.text_eq id]
          exact h.declareWords .integer line text
      | objective sense =>
          refine h.attempt line ?_ fun t hd => hd.addObjective sense t
          rw [Draft.objectiveTerm, Draft.objectiveTerm, hspelled.tokenize_eq]
          exact renumbers_objectiveTerm text
      | constraints =>
          refine h.attempt line ?_ fun c hd => hd.addConstraint c
          rw [constraintStatement, constraintStatement, hspelled.tokenize_eq]
          exact (renumbers_lift _ _).bind fun tokens => renumbers_constraintOf line tokens
      | bounds => exact h.takeBounds line hspelled

theorem foldl_take (h : IsCopy isWhole f d e) {items items' : List Item}
    (hitems : List.Forall₂ (Item.IsCopy isWhole f) items items') :
    IsCopy isWhole f (items.foldl Draft.take d) (items'.foldl Draft.take e) := by
  induction hitems generalizing d e with
  | nil => exact h
  | cons hitem _ ih => exact ih (h.take hitem)

end Draft.IsCopy

/-! ### The end of a text -/

/-- Whether two documents are the same up to the lines of the problems and
the texts that they quote. The variables have the same attributes. -/
structure Document.IsCopy (isWhole : Bool) (f : Nat → Nat) (r r' : Document × Registry) : Prop where
  model : r'.1.model = r.1.model
  variableSet : r'.1.variableSet = r.1.variableSet
  registry : r'.2 = r.2
  problems : List.Forall₂ (Problem.IsCopy isWhole f) r.1.problems r'.1.problems

theorem finalLine_renumbered (hf : Monotone f) (hzero : f 0 = 0) (e : Entry) :
    Draft.finalLine (e.renumbered f) = f (Draft.finalLine e) := by
  obtain ⟨handle, kind, bounds⟩ := e
  rw [Draft.finalLine, Draft.finalLine, hf.map_max]
  refine congrArg₂ max ?_ ?_
  · cases bounds with
    | none => exact hzero.symm
    | some b => rfl
  · cases kind with
    | none => exact hzero.symm
    | some p => rfl

theorem foldl_settleEntry_renumbered (hf : Monotone f) (hzero : f 0 = 0) (es : List Entry)
    (registry : Registry) {problems problems' : List Problem}
    (h : List.Forall₂ (Problem.IsCopy isWhole f) problems problems') :
    ((es.map (Entry.renumbered f)).foldl Draft.settleEntry (registry, problems')).1
        = (es.foldl Draft.settleEntry (registry, problems)).1
      ∧ List.Forall₂ (Problem.IsCopy isWhole f)
        (es.foldl Draft.settleEntry (registry, problems)).2
        ((es.map (Entry.renumbered f)).foldl Draft.settleEntry (registry, problems')).2 := by
  induction es generalizing registry problems problems' with
  | nil => exact ⟨rfl, h⟩
  | cons e es ih =>
      have hkind : Draft.finalKind (e.renumbered f) = Draft.finalKind e := by
        obtain ⟨handle, kind, bounds⟩ := e
        cases kind <;> rfl
      have hbounds : Draft.finalBounds (e.renumbered f) = Draft.finalBounds e := by
        rw [Draft.finalBounds, Draft.finalBounds, hkind]
        obtain ⟨handle, kind, bounds⟩ := e
        cases bounds <;> rfl
      rw [List.map_cons, List.foldl_cons, List.foldl_cons, Draft.settleEntry, Draft.settleEntry,
        hkind, hbounds, finalLine_renumbered hf hzero]
      dsimp only [Entry.renumbered]
      split
      · exact ih _ h
      · exact ih _ (List.rel_append h (.cons ⟨rfl, .refl _⟩ .nil))

theorem Draft.IsCopy.settle {d e : Draft} (h : IsCopy isWhole f d e) (hf : Monotone f)
    (hzero : f 0 = 0) : Document.IsCopy isWhole f d.settle e.settle := by
  have hvalues : e.symbols.entries.values
      = d.symbols.entries.values.map (Entry.renumbered f) := by
    rw [h.symbols, ← List.filterMap_eq_map]
    exact values_filterMap _ _
  have hregistry : e.symbols.registry = d.symbols.registry := by rw [h.symbols]; rfl
  obtain ⟨hsettled, hproblems⟩ := foldl_settleEntry_renumbered hf hzero d.symbols.entries.values
    d.symbols.registry h.problems
  rw [Draft.settle, Draft.settle, hvalues, hregistry]
  refine ⟨?_, ?_, hsettled, hproblems⟩
  · show (⟨_, _⟩ : Model) = _
    rw [h.objective, h.constraints]
  · show e.symbols.variableSet = d.symbols.variableSet
    rw [h.symbols, Symbols.variableSet_renumbered]

end LinearProgram.LpText
