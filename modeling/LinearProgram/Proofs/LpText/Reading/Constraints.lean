import LinearProgram.Proofs.LpText.Reading.Agreement
import LinearProgram.Proofs.LpText.Reading.Expressions
import LinearProgram.Proofs.LpText.Reading.Headers
import LinearProgram.Proofs.Model.Construction

/-!
# `LinearProgram.Proofs.LpText.Reading.Constraints`: reading constraints back

A written constraint is its name, its guard and a relation, and the
reader takes it apart at the colon, at the arrow and at the relations.
None of these stands in a term or in a number.

* `IsReadableRow` and `IsReadableConstraint` say of a constraint in
  normal form that it can be read.
* `relation_shapeTokens`: what is related is read as it was written.
* `guard_shapeTokens`, `attach_guard`: a guard makes its variable binary
  and is then accepted.
* `constraintStatement_words`: a constraint is read up to handles.
-/

set_option autoImplicit false

namespace LinearProgram.LpText

open Text (IsWord)

/-! ### The tokens of a constraint -/

/-- Whether a token can stand in a number or in a term with the given
summands. -/
def StandsIn (entries : List (Variable × Float)) : Token Float → Prop
  | .number _ | .plus | .minus => True
  | .name name => ∃ p ∈ entries, p.1.name = name
  | _ => False

theorem standsIn_numberTokens (entries : List (Variable × Float)) (x : Float) :
    ∀ t ∈ numberTokens x, StandsIn entries t := by
  intro t ht
  unfold numberTokens at ht
  split at ht
  · rcases List.mem_cons.mp ht with rfl | ht
    · trivial
    · rw [List.mem_singleton.mp ht]
      trivial
  · rw [List.mem_singleton.mp ht]
    trivial

theorem standsIn_factorTokens {entries : List (Variable × Float)} {p : Variable × Float}
    (hp : p ∈ entries) (c : Float) : ∀ t ∈ factorTokens c p.1.name, StandsIn entries t := by
  intro t ht
  unfold factorTokens at ht
  split at ht
  · rw [List.mem_singleton.mp ht]
    exact ⟨p, hp, rfl⟩
  · rcases List.mem_cons.mp ht with rfl | ht
    · trivial
    · rw [List.mem_singleton.mp ht]
      exact ⟨p, hp, rfl⟩

theorem standsIn_constantTokens (entries : List (Variable × Float)) (c : Float) :
    ∀ t ∈ constantTokens c, StandsIn entries t := by
  intro t ht
  unfold constantTokens at ht
  split at ht
  · rcases List.mem_cons.mp ht with rfl | ht
    · trivial
    · rw [List.mem_singleton.mp ht]
      trivial
  split at ht
  · rcases List.mem_cons.mp ht with rfl | ht
    · trivial
    · rw [List.mem_singleton.mp ht]
      trivial
  · cases ht

theorem standsIn_entryTokens (entries : List (Variable × Float)) (constant : Float) :
    ∀ t ∈ entryTokens entries constant, StandsIn entries t := by
  cases entries with
  | nil => exact standsIn_numberTokens [] constant
  | cons p rest =>
      intro t ht
      rw [entryTokens, List.mem_append, List.mem_append, List.mem_flatMap] at ht
      rcases ht with ht | ⟨q, hq, ht⟩ | ht
      · have hp : p ∈ p :: rest := List.mem_cons_self ..
        unfold firstTokens at ht
        split at ht
        · rcases List.mem_cons.mp ht with rfl | ht
          · trivial
          · exact standsIn_factorTokens hp _ t ht
        · exact standsIn_factorTokens hp _ t ht
      · have hq : q ∈ p :: rest := List.mem_cons_of_mem _ hq
        unfold nextTokens at ht
        split at ht
        · rcases List.mem_cons.mp ht with rfl | ht
          · trivial
          · exact standsIn_factorTokens hq _ t ht
        · rcases List.mem_cons.mp ht with rfl | ht
          · trivial
          · exact standsIn_factorTokens hq _ t ht
      · exact standsIn_constantTokens _ constant t ht

/-- Whether a token stands in a number or in a term. -/
def IsInner (t : Token Float) : Prop := ∃ entries, StandsIn entries t

theorem isInner_termTokens (t : Term Float) : ∀ u ∈ termTokens t, IsInner u :=
  fun u hu => ⟨_, standsIn_entryTokens _ _ u hu⟩

theorem isInner_numberTokens (x : Float) : ∀ u ∈ numberTokens x, IsInner u :=
  fun u hu => ⟨[], standsIn_numberTokens _ _ u hu⟩

theorem sides_append {ts : List (Token Float)} (h : ∀ t ∈ ts, IsInner t)
    (rest : List (Token Float)) : sides (ts ++ rest) = (ts ++ (sides rest).1, (sides rest).2) := by
  induction ts with
  | nil => rfl
  | cons t ts ih =>
      have ih := ih fun u hu => h u (List.mem_cons_of_mem _ hu)
      have hstep : sides (t :: (ts ++ rest))
          = (t :: (sides (ts ++ rest)).1, (sides (ts ++ rest)).2) := by
        cases t with
        | relation r => exact absurd (h _ (List.mem_cons_self ..)) fun ⟨_, hr⟩ => hr
        | number value => rfl
        | name name => rfl
        | plus => rfl
        | minus => rfl
        | star => rfl
        | colon => rfl
        | arrow => rfl
      rw [List.cons_append, hstep, ih]
      rfl

theorem sides_inner {ts : List (Token Float)} (h : ∀ t ∈ ts, IsInner t) : sides ts = (ts, []) := by
  have happend := sides_append h []
  rw [List.append_nil] at happend
  rw [happend]
  show (ts ++ [], []) = _
  rw [List.append_nil]

/-- Tokens around one relation. -/
theorem sides_one {ts us : List (Token Float)} (hts : ∀ t ∈ ts, IsInner t)
    (hus : ∀ t ∈ us, IsInner t) (r : Relation) :
    sides (ts ++ .relation r :: us) = (ts, [(r, us)]) := by
  rw [sides_append hts, sides, sides_inner hus]
  show (ts ++ [], [(r, us)]) = _
  rw [List.append_nil]

/-- Tokens around two relations. -/
theorem sides_two {ts us vs : List (Token Float)} (hts : ∀ t ∈ ts, IsInner t)
    (hus : ∀ t ∈ us, IsInner t) (hvs : ∀ t ∈ vs, IsInner t) (l r : Relation) :
    sides (ts ++ .relation l :: (us ++ .relation r :: vs)) = (ts, [(l, us), (r, vs)]) := by
  rw [sides_append hts, sides, sides_one hus hvs]
  show (ts ++ [], [(l, us), (r, vs)]) = _
  rw [List.append_nil]

/-! ### What can be read -/

/-- A bound that is read as it is written. -/
structure IsReadableBound (x : Float) : Prop where
  number : x.isNaN = false
  zero : x ≠ -0

/-- Whether a shape in normal form can be read: the bounds are numbers
other than negative zero, and the relations are those of a constructor. -/
def IsReadableShape : Shape Float → Prop
  | .left _ _ => False
  | .right relation bound => relation ≠ .equal ∧ IsReadableBound bound
  | .equal bound => IsReadableBound bound
  | .range lower l r upper =>
    l.enclosesWith r = true ∧ IsReadableBound lower ∧ IsReadableBound upper

/-- Whether a shape is a range, whose term need not have variables. -/
def IsRange : Shape Float → Prop
  | .range _ _ _ _ => True
  | _ => False

/-- Whether a constraint in normal form can be read, its guard apart. -/
structure IsReadableRow (row : Row Float) : Prop where
  shape : IsReadableShape row.shape
  term : IsReadableTerm row.term
  constant : (row.term.constant == 0) = true
  varies : row.term.isConstant = true → IsRange row.shape ∧ row.term.constant = 0
  name : ∀ name, row.name = some name → IsPlainName name

theorem IsReadableShape.hasNumbers {shape : Shape Float} (h : IsReadableShape shape) :
    HasNumbers shape := by
  cases shape with
  | left bound relation => cases h
  | right relation bound => exact h.2.number
  | equal bound => exact h.number
  | range lower l r upper => exact ⟨h.2.1.number, h.2.2.number⟩

/-- A bound is read as it is written. -/
theorem expression_bound {x : Float} (h : IsReadableBound x) (s : Symbols) :
    expression (numberTokens x) s = (.ok (Term.ofConstant x), s) := by
  rw [expression_numberTokens h.number, writtenConstant_eq h.number h.zero]

theorem relate_right {t : Term Float} (ht : t.isConstant = false) (r : Relation) (x : Float) :
    Constraint.relate t r (Term.ofConstant x) = .ok (Constraint.right t r x) := by
  rw [Constraint.relate, ht]
  rfl

/-- What is related is read as it was written. -/
theorem relation_shapeTokens {row : Row Float} (h : IsReadableRow row) (s : Symbols) :
    ∃ u s', relation (shapeTokens (termTokens row.term) row.shape) s
        = (.ok (.plain ⟨row.shape, u, none⟩), s') ∧ IsRestored s'.variableSet row.term u := by
  obtain ⟨u, s', hu, hrestored⟩ := expression_termTokens h.term s
  have hterm := isInner_termTokens row.term
  -- One bound behind the term, with or without a relation of its own.
  have hone : ∀ (r : Relation) (bound : Float), IsReadableBound bound →
      ¬ IsRange row.shape → relation (termTokens row.term ++ .relation r :: numberTokens bound) s
        = (.ok (Constraint.right u r bound), s') := by
    intro r bound hbound hrange
    have hvaries : u.isConstant = false := by
      rw [hrestored.isConstant, ← Bool.not_eq_true]
      exact fun hconstant => hrange (h.varies hconstant).1
    rw [relation, sides_one hterm (isInner_numberTokens bound)]
    refine (action_bind_ok hu).trans ((action_bind_ok (expression_bound hbound s')).trans ?_)
    rw [relate_right hvaries]
    rfl
  have hshape := h.shape
  refine ⟨u, s', ?_, hrestored⟩
  cases heq : row.shape with
  | left bound relation =>
      rw [heq] at hshape
      cases hshape
  | right relation bound =>
      rw [heq] at hshape hone
      rw [shapeTokens, hone relation bound hshape.2 id]
      cases relation with
      | equal => exact absurd rfl hshape.1
      | atMost => rfl
      | atLeast => rfl
  | equal bound =>
      rw [heq] at hshape hone
      rw [shapeTokens, hone .equal bound hshape id]
      rfl
  | range lower l r upper =>
      rw [heq] at hshape
      obtain ⟨hrelations, hlower, hupper⟩ := hshape
      rw [shapeTokens, relation,
        sides_two (isInner_numberTokens lower) hterm (isInner_numberTokens upper)]
      refine (action_bind_ok (expression_bound hlower s)).trans
        ((action_bind_ok hu).trans ((action_bind_ok (expression_bound hupper s')).trans ?_))
      show Action.lift _ (Constraint.range lower l u r upper) s' = _
      rw [Constraint.range, Shape.ofRange, if_pos hrelations]
      rfl

/-! ### Guards -/

/-- Whether a constraint can be read as a guard: it has neither a name
nor a guard, and it tests a variable that is binary. -/
structure IsReadableGuard (registry : Registry) (g : Constraint Float) : Prop where
  plain : ∃ row, g = .plain row ∧ row.name = none ∧ IsReadableRow row
  indicator : g.isIndicator registry = true

theorem occurring_of_loneVariable? {t : Term Float} {v : Variable}
    (h : Constraint.loneVariable? t = some v) : t.occurring = [v] := by
  rw [Term.occurring, OrderedMap.keys, (loneVariable?_eq_some h).1]
  rfl

/-- A lone variable is read as a lone variable of its name. -/
theorem IsRestored.loneVariable {found : VariableSet} {t u : Term Float} (h : IsRestored found t u)
    {v : Variable} (hv : Constraint.loneVariable? t = some v) :
    ∃ w ∈ found, w.name = v.name ∧ Constraint.loneVariable? u = some w
      ∧ u.occurring = [w] := by
  obtain ⟨hlist, hzero⟩ := loneVariable?_eq_some hv
  have hlabels : u.labels = [(v.name, 1)] := by
    rw [← h.labels, Term.labels, hlist, Variable.sortByName, List.mergeSort_singleton]
    rfl
  rw [Term.labels] at hlabels
  obtain ⟨p, hsorted, hlabel⟩ := List.map_eq_singleton_iff.mp hlabels
  have hperm := Variable.sortByName_perm u.coefficients.toList
  rw [hsorted] at hperm
  have hentries : u.coefficients.toList = [p] := List.perm_singleton.mp hperm.symm
  have hp : p.2 = 1 := congrArg Prod.snd hlabel
  have hoccurring : u.occurring = [p.1] := by
    rw [Term.occurring, OrderedMap.keys, hentries]
    rfl
  have hconstant : u.constant = 0 := h.constant.trans (writtenConstant_of_beq_zero hzero)
  refine ⟨p.1, h.known p.1 ?_, congrArg Prod.fst hlabel, ?_, hoccurring⟩
  · rw [hoccurring]
    exact List.mem_singleton_self _
  · have hlone : u.coefficients.toList = [(p.1, 1)] := by
      rw [hentries, ← hp]
    unfold Constraint.loneVariable?
    rw [hlone]
    show (if u.constant == 0 && (1 : Float) == 1 then some p.1 else none) = _
    rw [hconstant]
    rfl

theorem exists_of_isIndicator {registry : Registry} {c : Constraint Float}
    (h : c.isIndicator registry = true) :
    ∃ value v, Constraint.switchValue? c.shape = some value
      ∧ Constraint.loneVariable? c.term = some v
      ∧ (registry.attributes v).kind = .binary := by
  unfold Constraint.isIndicator Constraint.indicatorLiteral? at h
  split at h
  · rename_i value v hvalue hv
    split at h
    · exact ⟨value, v, hvalue, hv, ‹_›⟩
    · cases h
  · cases h

/-- The parts of an indicator are the variable and the value that it
tests for. -/
theorem indicatorLiteral?_of_parts {registry : Registry} {c : Constraint Float} {value : Float}
    {v : Variable} (hvalue : Constraint.switchValue? c.shape = some value)
    (hv : Constraint.loneVariable? c.term = some v)
    (hkind : (registry.attributes v).kind = .binary) :
    c.indicatorLiteral? registry = some (v, value) := by
  unfold Constraint.indicatorLiteral?
  rw [hvalue, hv]
  exact if_pos hkind

theorem isIndicator_of_parts {registry : Registry} {c : Constraint Float} {value : Float}
    {v : Variable} (hvalue : Constraint.switchValue? c.shape = some value)
    (hv : Constraint.loneVariable? c.term = some v)
    (hkind : (registry.attributes v).kind = .binary) : c.isIndicator registry = true := by
  rw [Constraint.isIndicator, indicatorLiteral?_of_parts hvalue hv hkind]
  rfl

theorem attributes_declareGuard {s : Symbols} (hs : s.IsSound) (line : Nat) {v : Variable}
    (hv : v ∈ s.variableSet) :
    ((declareGuard line v s).registry.attributes v).kind = .binary := by
  show ((s.registry.update v _).attributes v).kind = .binary
  rw [Registry.attributes_update (hs.inRange v hv), if_pos rfl]

/-- A guard makes its variable binary and is then accepted. -/
theorem guard_shapeTokens {registry : Registry} {row : Row Float} (hrow : IsReadableRow row)
    (hindicator : (Constraint.plain row).isIndicator registry = true) (line : Nat) {s : Symbols}
    (hs : s.IsSound) :
    ∃ u s' v w, guard line (shapeTokens (termTokens row.term) row.shape) s
        = (.ok (.plain ⟨row.shape, u, none⟩), s')
      ∧ IsRestored s'.variableSet row.term u
      ∧ (Constraint.plain ⟨row.shape, u, none⟩).isIndicator s'.registry = true
      ∧ v ∈ row.term.occurring ∧ (registry.attributes v).kind = .binary ∧ w.name = v.name
      ∧ s' = declareGuard line w (relation (shapeTokens (termTokens row.term) row.shape) s).2 := by
  obtain ⟨value, v, hvalue, hv, hkind⟩ := exists_of_isIndicator hindicator
  obtain ⟨u, s', hu, hrestored⟩ := relation_shapeTokens hrow s
  obtain ⟨w, hw, hname, hlone, hoccurring⟩ := hrestored.loneVariable hv
  have hgrows : s.Grows s' := by
    have hleads := grows_relation (shapeTokens (termTokens row.term) row.shape) s
    rwa [hu] at hleads
  have hvoccurs : v ∈ row.term.occurring := by
    have hoccurring : row.term.occurring = [v] := occurring_of_loneVariable? hv
    rw [hoccurring]
    exact List.mem_singleton_self _
  refine ⟨u, declareGuard line w s', v, w, ?_, hrestored.mono fun _ => (s'.grows_declareGuard line w).mem,
    ?_, hvoccurs, hkind, hname, by rw [hu]⟩
  · refine (action_bind_ok hu).trans ?_
    have hoccurring' : (Constraint.plain (⟨row.shape, u, none⟩ : Row Float)).term.occurring = [w] :=
      hoccurring
    rw [hoccurring']
    rfl
  · exact isIndicator_of_parts hvalue hlone
      (attributes_declareGuard (hgrows.sound hs) line hw)

/-! ### Whole constraints -/

/-- Whether a constraint in normal form can be read. -/
def IsReadableConstraint (registry : Registry) : Constraint Float → Prop
  | .plain row => IsReadableRow row
  | .guarded g row => IsReadableGuard registry g ∧ IsReadableRow row

/-- What a constraint that has been read has of the one that was
written: it is the same up to handles, is written in the same words, and
its variables are those of the text. -/
structure IsRestoredConstraint (found : VariableSet) (c d : Constraint Float) : Prop where
  normal : d.normalize = d
  alike : c.IsAlike d
  words : d.words = c.words
  known : ∀ v, d.Occurs v → v ∈ found

theorem constant_of_isRestored {found : VariableSet} {row : Row Float} (h : IsReadableRow row)
    {u : Term Float} (hu : IsRestored found row.term u) : u.constant = 0 :=
  hu.constant.trans (writtenConstant_of_beq_zero h.constant)

theorem normalize_readable {shape : Shape Float} (h : IsReadableShape shape) :
    shape.normalize 0 = shape := by
  cases shape with
  | left bound relation => cases h
  | right relation bound => rw [Shape.normalize, Binary64.sub_zero]
  | equal bound => rw [Shape.normalize, Binary64.sub_zero]
  | range lower l r upper => rw [Shape.normalize, Binary64.sub_zero, Binary64.sub_zero]

/-- A row that has been read is in normal form. -/
theorem normalize_restored {found : VariableSet} {row : Row Float} (h : IsReadableRow row)
    {u : Term Float} (hu : IsRestored found row.term u) :
    row.shape.normalize u.constant = row.shape ∧ u.setConstant 0 = u := by
  have hzero := constant_of_isRestored h hu
  rw [hzero]
  exact ⟨normalize_readable h.shape, term_ext rfl hzero.symm⟩

theorem isAlike_restored {found : VariableSet} {row : Row Float} (h : IsReadableRow row)
    {u : Term Float} (hu : IsRestored found row.term u) :
    row.IsAlike ⟨row.shape, u, row.name⟩ := by
  have hnumber : row.term.constant.isNaN = false := by
    rw [← Bool.not_eq_true, Binary64.isNaN_iff, Binary64.beq_zero_iff.mp h.constant]
    decide
  exact ⟨rfl, hu.isAlike hnumber, rfl⟩

theorem words_restored {found : VariableSet} {row : Row Float} (h : IsReadableRow row)
    {u : Term Float} (hu : IsRestored found row.term u) : u.words = row.term.words := by
  refine hu.words_eq h.term fun hconstant => ?_
  rw [(h.varies hconstant).2]
  decide

/-- The tokens of a name in front of a constraint. -/
def nameTokens : Option String → List (Token Float)
  | some name => [.name name, .colon]
  | none => []

theorem spells_nameWords {name : Option String} (h : ∀ n, name = some n → IsPlainName n) :
    Spells (Constraint.nameWords name) (nameTokens name) := by
  cases name with
  | none => exact spells_nil
  | some n => exact spells_plainLabel (h n rfl)

/-- The tokens of a relation are those of its term and its bounds, and
relations. -/
theorem standsIn_shapeTokens (t : Term Float) (shape : Shape Float) :
    ∀ u ∈ shapeTokens (termTokens t) shape,
      StandsIn (Variable.sortByName t.coefficients.toList) u ∨ ∃ r, u = .relation r := by
  intro u hu
  have hterm : ∀ v ∈ termTokens t, StandsIn (Variable.sortByName t.coefficients.toList) v :=
    standsIn_entryTokens _ _
  have hnumber : ∀ x, ∀ v ∈ numberTokens x,
      StandsIn (Variable.sortByName t.coefficients.toList) v := standsIn_numberTokens _
  cases shape with
  | left bound relation =>
      rcases List.mem_append.mp hu with hu | hu
      · exact .inl (hnumber bound u hu)
      rcases List.mem_cons.mp hu with rfl | hu
      · exact .inr ⟨relation, rfl⟩
      · exact .inl (hterm u hu)
  | right relation bound =>
      rcases List.mem_append.mp hu with hu | hu
      · exact .inl (hterm u hu)
      rcases List.mem_cons.mp hu with rfl | hu
      · exact .inr ⟨relation, rfl⟩
      · exact .inl (hnumber bound u hu)
  | equal bound =>
      rcases List.mem_append.mp hu with hu | hu
      · exact .inl (hterm u hu)
      rcases List.mem_cons.mp hu with rfl | hu
      · exact .inr ⟨.equal, rfl⟩
      · exact .inl (hnumber bound u hu)
  | range lower l r upper =>
      rcases List.mem_append.mp hu with hu | hu
      · exact .inl (hnumber lower u hu)
      rcases List.mem_cons.mp hu with rfl | hu
      · exact .inr ⟨l, rfl⟩
      rcases List.mem_append.mp hu with hu | hu
      · exact .inl (hterm u hu)
      rcases List.mem_cons.mp hu with rfl | hu
      · exact .inr ⟨r, rfl⟩
      · exact .inl (hnumber upper u hu)

/-- The names in a relation are those of its variables. -/
theorem exists_occurring {t : Term Float} {shape : Shape Float} {name : String}
    (h : .name name ∈ shapeTokens (termTokens t) shape) : ∃ v ∈ t.occurring, v.name = name := by
  rcases standsIn_shapeTokens t shape _ h with ⟨p, hp, hname⟩ | ⟨r, hr⟩
  · exact ⟨p.1, Term.mem_occurring_iff.mpr ⟨p.2, hp⟩, hname⟩
  · cases hr

theorem colon_not_mem (t : Term Float) (shape : Shape Float) :
    ¬ .colon ∈ shapeTokens (termTokens t) shape := by
  intro h
  rcases standsIn_shapeTokens t shape _ h with h | ⟨r, hr⟩
  · exact h
  · cases hr

theorem arrow_not_mem (t : Term Float) (shape : Shape Float) :
    ¬ .arrow ∈ shapeTokens (termTokens t) shape := by
  intro h
  rcases standsIn_shapeTokens t shape _ h with h | ⟨r, hr⟩
  · exact h
  · cases hr

theorem splitName_nameTokens (name : Option String) {rest : List (Token Float)}
    (h : ¬ .colon ∈ rest) : splitName (nameTokens name ++ rest) = (name, rest) := by
  cases name with
  | some n => rfl
  | none =>
      show splitName rest = _
      unfold splitName
      split
      · exact absurd (List.mem_cons_of_mem _ (List.mem_cons_self ..)) h
      · rfl

theorem splitArrow_none {ts : List (Token Float)} (h : ¬ .arrow ∈ ts) :
    splitArrow ts = (none, ts) := by
  induction ts with
  | nil => rfl
  | cons t ts ih =>
      rw [List.mem_cons, not_or] at h
      rw [splitArrow, ih h.2]
      exact fun heq => h.1 heq.symm

theorem splitArrow_some {ts : List (Token Float)} (h : ¬ .arrow ∈ ts) (rest : List (Token Float)) :
    splitArrow (ts ++ .arrow :: rest) = (some ts, rest) := by
  induction ts with
  | nil => rfl
  | cons t ts ih =>
      rw [List.mem_cons, not_or] at h
      rw [List.cons_append, splitArrow, ih h.2]
      exact fun heq => h.1 heq.symm

/-- A relation of variables of the set says nothing that is not so. -/
theorem agreesWith_shapeTokens {registry : Registry} {vars : VariableSet} {t : Term Float}
    (hvars : ∀ v ∈ t.occurring, v ∈ vars) (shape : Shape Float) {s : Symbols}
    (h : s.AgreesWith registry vars) :
    (relation (shapeTokens (termTokens t) shape) s).2.AgreesWith registry vars := by
  refine agreesWith_relation (fun name hname => ?_) s h
  obtain ⟨v, hv, hvname⟩ := exists_occurring hname
  exact ⟨v, hvars v hv, hvname⟩

theorem nameAs_plain (shape : Shape Float) (u : Term Float) (name : Option String) :
    nameAs (.plain ⟨shape, u, none⟩) name = .plain ⟨shape, u, name⟩ := by
  cases name <;> rfl

/-- A constraint is read as it was written, its variables up to handles. -/
theorem constraintStatement_words {registry : Registry} {vars : VariableSet}
    {c : Constraint Float} (h : IsReadableConstraint registry c)
    (hvars : ∀ v, c.Occurs v → v ∈ vars) (line : Nat) {s : Symbols} (hs : s.IsSound)
    (hagrees : s.AgreesWith registry vars) :
    ∃ d s', constraintStatement ⟨line, joined c.words⟩ s = (.ok d, s')
      ∧ IsRestoredConstraint s'.variableSet c d ∧ s'.AgreesWith registry vars := by
  cases c with
  | plain row =>
      have h : IsReadableRow row := h
      have htokens : tokenize (joined (Constraint.plain row).words)
          = .ok (nameTokens row.name ++ shapeTokens (termTokens row.term) row.shape) :=
        tokenize_joined ((spells_nameWords h.name).append
          (spells_shapeWords (spells_termWords h.term) h.shape.hasNumbers))
      obtain ⟨u, s', hu, hrestored⟩ := relation_shapeTokens h s
      have hagrees' : s'.AgreesWith registry vars := by
        have hleads := agreesWith_shapeTokens hvars row.shape hagrees
        rwa [hu] at hleads
      obtain ⟨hshape, hterm⟩ := normalize_restored h hrestored
      refine ⟨.plain ⟨row.shape, u, row.name⟩, s', ?_, ⟨?_, isAlike_restored h hrestored, ?_,
        hrestored.known⟩, hagrees'⟩
      · refine (action_bind_ok (by rw [htokens]; rfl)).trans ?_
        rw [constraintOf_eq, splitName_nameTokens row.name (colon_not_mem _ _),
          splitArrow_none (arrow_not_mem _ _)]
        refine (action_bind_ok hu).trans ?_
        rw [nameAs_plain]
        rfl
      · show Constraint.plain ⟨row.shape.normalize u.constant, u.setConstant 0, row.name⟩ = _
        rw [hshape, hterm]
      · rw [Constraint.words, Constraint.words, words_restored h hrestored]
  | guarded g row =>
      obtain ⟨⟨⟨grow, rfl, hgname, hgrow⟩, hindicator⟩, h⟩ := h
      have htokens : tokenize (joined (Constraint.guarded (.plain grow) row).words)
          = .ok (nameTokens row.name ++ (shapeTokens (termTokens grow.term) grow.shape
            ++ .arrow :: shapeTokens (termTokens row.term) row.shape)) := by
        have hguard : Spells (Constraint.plain grow).words
            (shapeTokens (termTokens grow.term) grow.shape) := by
          rw [Constraint.words, hgname]
          exact spells_shapeWords (spells_termWords hgrow.term) hgrow.shape.hasNumbers
        exact tokenize_joined ((spells_nameWords h.name).append (hguard.append
          (spells_arrow.cons (spells_shapeWords (spells_termWords h.term) h.shape.hasNumbers))))
      obtain ⟨u, s₁, hu, hrestored⟩ := relation_shapeTokens h s
      have hgrows₁ : s.Grows s₁ := by
        have hleads := grows_relation (shapeTokens (termTokens row.term) row.shape) s
        rwa [hu] at hleads
      have hagrees₁ : s₁.AgreesWith registry vars := by
        have hleads := agreesWith_shapeTokens (fun v hv => hvars v (.inl hv)) row.shape hagrees
        rwa [hu] at hleads
      obtain ⟨x, s₂, v, w, hx, hxrestored, hxindicator, hv, hkind, hname, hs₂⟩ :=
        guard_shapeTokens hgrow hindicator line (hgrows₁.sound hs)
      have hgrows₂ : s₁.Grows s₂ := by
        have hleads := grows_guard line (shapeTokens (termTokens grow.term) grow.shape) s₁
        rwa [hx] at hleads
      have hagrees₂ : s₂.AgreesWith registry vars := by
        have hleads := agreesWith_shapeTokens (fun v hv => hvars v (.inr hv)) grow.shape hagrees₁
        rw [hs₂]
        exact hleads.declareGuard (hvars v (.inr hv)) hname hkind line
      have hcolon : ¬ .colon ∈ shapeTokens (termTokens grow.term) grow.shape
          ++ .arrow :: shapeTokens (termTokens row.term) row.shape := by
        simp [colon_not_mem]
      obtain ⟨hshape, hterm⟩ := normalize_restored h hrestored
      refine ⟨.guarded (.plain ⟨grow.shape, x, none⟩) ⟨row.shape, u, row.name⟩, s₂, ?_,
        ⟨?_, ⟨?_, isAlike_restored h hrestored⟩, ?_, ?_⟩, hagrees₂⟩
      · refine (action_bind_ok (by rw [htokens]; rfl)).trans ?_
        rw [constraintOf_eq, splitName_nameTokens row.name hcolon,
          splitArrow_some (arrow_not_mem _ _)]
        refine (action_bind_ok hu).trans ((action_bind_ok hx).trans ?_)
        rw [nameAs_plain, attach, Constraint.withIndicator, if_pos hxindicator]
        rfl
      · show Constraint.guarded _ ⟨row.shape.normalize u.constant, u.setConstant 0, row.name⟩ = _
        rw [hshape, hterm]
      · have halike := isAlike_restored hgrow hxrestored
        rwa [hgname] at halike
      · rw [Constraint.words, Constraint.words, Constraint.words, Constraint.words,
          words_restored h hrestored, words_restored hgrow hxrestored, hgname]
      · rintro z (hz | hz)
        · exact hgrows₂.mem (hrestored.known z hz)
        · exact hxrestored.known z hz

end LinearProgram.LpText
