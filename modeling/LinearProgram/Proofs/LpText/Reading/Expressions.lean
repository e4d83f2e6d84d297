import LinearProgram.Proofs.Binary64.Arithmetic
import LinearProgram.Proofs.LpText.Reading.Symbols
import LinearProgram.Proofs.LpText.Reading.Tokens
import LinearProgram.Proofs.Model.Renaming

/-!
# `LinearProgram.Proofs.LpText.Reading.Expressions`: reading terms back

The tokens of a term are summands with signs. The reader cuts them at
the signs, reads each one, and adds it to the term it has so far.

* `summands_entryTokens`: the cuts are where the writer put the signs.
* `add_weighted`, `add_ofConstant`: adding one summand changes one
  coefficient or the constant, and nothing is rounded.
* `IsReadAs`: what a term has of the summands that have been read. One
  summand more keeps it (`IsReadAs.addTerm`), so that it holds of the
  whole (`expression_entryTokens`).
* `expression_termTokens`: a term is read with the coefficients and the
  constant that were written (`IsRestored`), and is then written in the
  same words (`IsRestored.words_eq`).
-/

set_option autoImplicit false

namespace LinearProgram.LpText

open Term (label)

/-! ### Cutting at the signs -/

/-- Whether a token is no sign. -/
def IsFactor : Token Float → Prop
  | .plus | .minus => False
  | _ => True

theorem summands_append {negative : Bool} {before ts : List (Token Float)}
    (h : ∀ t ∈ ts, IsFactor t) (rest : List (Token Float)) :
    summands negative before (ts ++ rest) = summands negative (before ++ ts) rest := by
  induction ts generalizing before with
  | nil => rw [List.append_nil, List.nil_append]
  | cons t ts ih =>
      have ht := h t (List.mem_cons_self ..)
      have hstep : summands negative before (t :: (ts ++ rest))
          = summands negative (before ++ [t]) (ts ++ rest) := by
        cases t with
        | plus => cases ht
        | minus => cases ht
        | number value => rfl
        | name name => rfl
        | star => rfl
        | colon => rfl
        | arrow => rfl
        | relation r => rfl
      rw [List.cons_append, hstep, ih fun u hu => h u (List.mem_cons_of_mem _ hu),
        List.append_assoc]
      rfl

theorem summands_plus {negative : Bool} {before : List (Token Float)} (h : before ≠ [])
    (rest : List (Token Float)) :
    summands negative before (.plus :: rest) = (negative, before) :: summands false [] rest := by
  cases before with
  | nil => exact absurd rfl h
  | cons t ts => rfl

theorem summands_minus {negative : Bool} {before : List (Token Float)} (h : before ≠ [])
    (rest : List (Token Float)) :
    summands negative before (.minus :: rest) = (negative, before) :: summands true [] rest := by
  cases before with
  | nil => exact absurd rfl h
  | cons t ts => rfl

/-- A summand as the reader cuts it out. -/
def factorPart (p : Variable × Float) : Bool × List (Token Float) :=
  if p.2 < 0 then (true, factorTokens (-p.2) p.1.name) else (false, factorTokens p.2 p.1.name)

/-- The constant behind summands as the reader cuts it out. -/
def constantParts (c : Float) : List (Bool × List (Token Float)) :=
  if c < 0 then [(true, [.number (-c)])]
  else if 0 < c then [(false, [.number c])]
  else []

theorem isFactor_factorTokens (c : Float) (name : String) :
    ∀ t ∈ factorTokens c name, IsFactor t := by
  intro t ht
  unfold factorTokens at ht
  split at ht
  · rw [List.mem_singleton.mp ht]
    trivial
  · rcases List.mem_cons.mp ht with rfl | ht
    · trivial
    · rw [List.mem_singleton.mp ht]
      trivial

theorem factorTokens_ne_nil (c : Float) (name : String) : factorTokens c name ≠ [] := by
  unfold factorTokens
  split
  · exact List.cons_ne_nil _ _
  · exact List.cons_ne_nil _ _

/-- Behind a monomial each sign ends it and begins the next one. -/
theorem summands_laterTokens (rest : List (Variable × Float)) (constant : Float)
    {negative : Bool} {before : List (Token Float)} (h : before ≠ []) :
    summands negative before (rest.flatMap nextTokens ++ constantTokens constant)
      = (negative, before) :: (rest.map factorPart ++ constantParts constant) := by
  induction rest generalizing negative before with
  | nil =>
      show summands negative before (constantTokens constant) = _
      unfold constantTokens constantParts
      split
      · exact summands_minus h _
      split
      · exact summands_plus h _
      · rfl
  | cons p rest ih =>
      rw [List.flatMap_cons, List.append_assoc, List.map_cons, nextTokens, factorPart]
      split
      · rw [List.cons_append, summands_minus h, summands_append (isFactor_factorTokens _ _),
          List.nil_append, ih (factorTokens_ne_nil _ _)]
        rfl
      · rw [List.cons_append, summands_plus h, summands_append (isFactor_factorTokens _ _),
          List.nil_append, ih (factorTokens_ne_nil _ _)]
        rfl

/-- The reader cuts the tokens of a term where the writer put signs. -/
theorem summands_entryTokens (p : Variable × Float) (rest : List (Variable × Float))
    (constant : Float) :
    summands false [] (entryTokens (p :: rest) constant)
      = (p :: rest).map factorPart ++ constantParts constant := by
  rw [entryTokens, firstTokens, List.map_cons, factorPart]
  split
  · show summands true [] (factorTokens (-p.2) p.1.name ++ _) = _
    rw [summands_append (isFactor_factorTokens _ _), List.nil_append,
      summands_laterTokens _ _ (factorTokens_ne_nil _ _)]
    rfl
  · rw [summands_append (isFactor_factorTokens _ _), List.nil_append,
      summands_laterTokens _ _ (factorTokens_ne_nil _ _)]
    rfl

/-! ### Adding one summand -/

/-- The factor that a sign stands for. -/
def signOf (negative : Bool) : Float := if negative then -1 else 1

theorem mul_signOf (negative : Bool) (x : Float) :
    x * signOf negative = if negative then -x else x := by
  cases negative with
  | false => exact Binary64.mul_one x
  | true => exact Binary64.mul_neg_one x

theorem beq_zero_neg {x : Float} (h : (x == 0) = false) : (-x == 0) = false := by
  rw [← Bool.not_eq_true, Binary64.beq_zero_iff] at h ⊢
  rwa [Binary64.code_neg]

theorem term_ext {t u : Term Float} (h : t.coefficients = u.coefficients)
    (h' : t.constant = u.constant) : t = u := by
  cases t
  cases u
  cases h
  cases h'
  rfl

theorem weighted_toList (v : Variable) {c : Float} (h : (c == 0) = false) :
    (Term.weighted v c).coefficients.toList = [(v, c)] := by
  rw [Term.weighted, Term.addTerm, if_neg (by rw [h]; exact Bool.false_ne_true)]
  show OrderedMap.entry v (Term.keep c) = _
  rw [Term.keep_of_nonzero h]
  rfl

theorem constant_weighted (v : Variable) (c : Float) : (Term.weighted v c).constant = 0 :=
  Term.constant_addTerm ..

/-- Adding a variable with a coefficient and a sign adds the one
coefficient, without any rounding. -/
theorem add_weighted {t : Term Float} (ht : t.constant ≠ -0) (v : Variable) {c : Float}
    (hc : (c == 0) = false) (negative : Bool) :
    t + (Term.weighted v c).scale (signOf negative)
      = t.addTerm v (if negative then -c else c) := by
  have hproduct : (c * signOf negative == 0) = false := by
    rw [mul_signOf]
    cases negative with
    | false => exact hc
    | true => exact beq_zero_neg hc
  have hlist : ((Term.weighted v c).scale (signOf negative)).coefficients.toList
      = [(v, c * signOf negative)] := by
    show OrderedMap.filterMapEntries (fun c => Term.keep (c * signOf negative))
      (Term.weighted v c).coefficients.toList = _
    rw [weighted_toList v hc]
    have hkeep : (Term.keep (c * signOf negative)).map (fun d => (v, d))
        = some (v, c * signOf negative) := by rw [Term.keep_of_nonzero hproduct]; rfl
    exact List.filterMap_cons_some hkeep
  have hconstant : t.constant + 1 * ((Term.weighted v c).scale (signOf negative)).constant
      = t.constant := by
    show t.constant + 1 * ((Term.weighted v c).constant * signOf negative) = _
    rw [constant_weighted, Binary64.one_mul, mul_signOf]
    cases negative with
    | false => exact Binary64.add_zero ht
    | true => exact Binary64.add_neg_zero _
  show List.foldl _ (t.addConstant (1 * _)) _ = _
  rw [hlist]
  show (t.setConstant (t.constant + 1 * _)).addTerm v (1 * (c * signOf negative)) = _
  rw [hconstant, Binary64.one_mul, mul_signOf]
  rfl

/-- Adding a number with a sign adds to the constant. -/
theorem add_ofConstant (t : Term Float) (c : Float) (negative : Bool) :
    t + (Term.ofConstant c).scale (signOf negative)
      = t.addConstant (if negative then -c else c) := by
  show t.addConstant (1 * (c * signOf negative)) = _
  rw [Binary64.one_mul, mul_signOf]

/-- Adding summands of ascending variables that do not occur yet puts
them beside the others. -/
theorem get?_foldl_addTerm {l : List (Variable × Float)} (hl : l.Pairwise fun p q => p.1 < q.1)
    (hnonzero : ∀ p ∈ l, (p.2 == 0) = false) {t : Term Float}
    (hnew : ∀ p ∈ l, t.coefficients.get? p.1 = none) (v : Variable) :
    (l.foldl (fun t p => t.addTerm p.1 (1 * p.2)) t).coefficients.get? v
      = (OrderedMap.find v l).or (t.coefficients.get? v) := by
  induction l generalizing t with
  | nil => rfl
  | cons p l ih =>
      obtain ⟨hhead, hl⟩ := List.pairwise_cons.mp hl
      have hp := hnew p (List.mem_cons_self ..)
      have hstep : ∀ w, (t.addTerm p.1 (1 * p.2)).coefficients.get? w
          = if w = p.1 then some p.2 else t.coefficients.get? w := by
        intro w
        rw [Binary64.one_mul, Term.get?_addTerm, hp,
          Term.keep_of_nonzero (hnonzero p (List.mem_cons_self ..))]
      have hne : ∀ q ∈ l, q.1 ≠ p.1 := by
        intro q hq heq
        have hlt := hhead q hq
        rw [heq] at hlt
        exact StrictKey.irrefl _ hlt
      rw [List.foldl_cons, ih hl (fun q hq => hnonzero q (List.mem_cons_of_mem _ hq))
        (fun q hq => by
          rw [hstep, if_neg (hne q hq)]
          exact hnew q (List.mem_cons_of_mem _ hq)), hstep, OrderedMap.find]
      by_cases hv : v = p.1
      · rw [if_pos hv, if_pos hv, hv, OrderedMap.find_eq_none hhead]
        rfl
      · rw [if_neg hv, if_neg hv]

theorem constant_foldl_addTerm (l : List (Variable × Float)) {sign : Float} (t : Term Float) :
    (l.foldl (fun t p => t.addTerm p.1 (sign * p.2)) t).constant = t.constant := by
  induction l generalizing t with
  | nil => rfl
  | cons p l ih => rw [List.foldl_cons, ih, Term.constant_addTerm]

/-- A sum that begins with zero is its other summand. -/
theorem zero_add_term {u : Term Float} (h : u.constant ≠ -0) : 0 + u = u := by
  refine term_ext (OrderedMap.ext_get? fun v => ?_) ?_
  · refine (get?_foldl_addTerm u.coefficients.ascending (fun p hp => ?_) (fun p _ => rfl) v).trans ?_
    · exact u.nonzero p.1 p.2 (OrderedMap.mem_toList_iff.mp hp)
    · show (u.coefficients.get? v).or none = _
      rw [Option.or_none]
  · refine (constant_foldl_addTerm _ _).trans ?_
    show 0 + 1 * u.constant = _
    rw [Binary64.one_mul, Binary64.zero_add h]

/-! ### Reading one summand -/

theorem action_bind_ok {σ ε α β : Type} {x : Action σ ε α} {f : α → Action σ ε β} {s s' : σ} {a : α}
    (h : x s = (.ok a, s')) : (x >>= f) s = f a s' := by
  rw [Action.bind_apply, h]

/-- A variable with a coefficient is read as it is written. -/
theorem monomial_factorTokens (c : Float) (name : String) (s : Symbols) :
    monomial (factorTokens c name) s
      = (.ok (.weighted (s.mention name).1 c), (s.mention name).2) := by
  unfold factorTokens
  split
  · rename_i hone
    rw [Binary64.beq_one_iff.mp hone]
    rfl
  · show (Except.ok (Term.weighted (s.mention name).1 (1 * c)), (s.mention name).2) = _
    rw [Binary64.one_mul]

theorem monomial_number (c : Float) (s : Symbols) :
    monomial [.number c] s = (.ok (Term.ofConstant c), s) := by
  show (Except.ok (Term.ofConstant (1 * c)), s) = _
  rw [Binary64.one_mul]

theorem addSummands_cons {t u : Term Float} {negative : Bool} {tokens : List (Token Float)}
    {rest : List (Bool × List (Token Float))} {s s' : Symbols}
    (h : monomial tokens s = (.ok u, s')) :
    addSummands t ((negative, tokens) :: rest) s
      = addSummands (t + u.scale (signOf negative)) rest s' := action_bind_ok h

/-- What a term has of summands that have been read: their coefficients,
at the variables that their names stand for. -/
structure IsReadAs (s : Symbols) (entries : List (Variable × Float)) (t : Term Float) : Prop where
  coefficient : ∀ w c, t.coefficients.get? w = some c
    ↔ w ∈ s.variableSet ∧ (w.name, c) ∈ entries.map label
  known : ∀ p ∈ entries, ∃ w ∈ s.variableSet, w.name = p.1.name

theorem isReadAs_nil {s : Symbols} {t : Term Float} (h : t.coefficients = ∅) : IsReadAs s [] t := by
  refine ⟨fun w c => ?_, fun p hp => absurd hp List.not_mem_nil⟩
  rw [h]
  exact ⟨nofun, fun hmem => absurd hmem.2 List.not_mem_nil⟩

/-- One summand more, of a name that has not been read in the term. -/
theorem IsReadAs.addTerm {s : Symbols} {entries : List (Variable × Float)} {t : Term Float}
    (h : IsReadAs s entries t) {p : Variable × Float} (hp : (p.2 == 0) = false)
    (hnew : ∀ q ∈ entries, q.1.name ≠ p.1.name) :
    IsReadAs (s.mention p.1.name).2 (entries ++ [p]) (t.addTerm (s.mention p.1.name).1 p.2) := by
  have hname := s.name_mention p.1.name
  have hmem := s.mem_mention p.1.name
  have hunknown : ∀ c, ¬ (p.1.name, c) ∈ entries.map label := by
    intro c hc
    obtain ⟨q, hq, heq⟩ := List.mem_map.mp hc
    exact hnew q hq (congrArg Prod.fst heq)
  refine ⟨fun w c => ?_, fun q hq => ?_⟩
  · rw [Term.get?_addTerm, List.map_append, List.mem_append]
    by_cases hw : w = (s.mention p.1.name).1
    · have hnone : t.coefficients.get? (s.mention p.1.name).1 = none := by
        cases hget : t.coefficients.get? (s.mention p.1.name).1 with
        | none => rfl
        | some d =>
            have hd := ((h.coefficient _ d).mp hget).2
            rw [hname] at hd
            exact absurd hd (hunknown d)
      rw [if_pos hw, hnone, Term.keep_of_nonzero hp, hw, hname]
      constructor
      · intro hc
        rw [← Option.some.inj hc]
        exact ⟨hmem, .inr (List.mem_singleton_self _)⟩
      · rintro ⟨_, hc | hc⟩
        · exact absurd hc (hunknown c)
        · have hsnd : c = p.2 := congrArg Prod.snd (List.mem_singleton.mp hc)
          rw [hsnd]
    · rw [if_neg hw, h.coefficient, Symbols.mem_mention_iff]
      constructor
      · exact fun hc => ⟨.inl hc.1, .inl hc.2⟩
      · rintro ⟨hsw | hsw, hc⟩
        · rcases hc with hc | hc
          · exact ⟨hsw, hc⟩
          · -- The name of the new summand stands for one variable only.
            have hwname : w.name = (s.mention p.1.name).1.name :=
              (congrArg Prod.fst (List.mem_singleton.mp hc)).trans hname.symm
            exact absurd (VariableSet.eq_of_name_eq (Symbols.mem_mention_iff.mpr (.inl hsw)) hmem
              hwname) hw
        · exact absurd hsw hw
  · rcases List.mem_append.mp hq with hq | hq
    · obtain ⟨w, hw, hwname⟩ := h.known q hq
      exact ⟨w, Symbols.mem_mention_iff.mpr (.inl hw), hwname⟩
    · rw [List.mem_singleton.mp hq]
      exact ⟨_, hmem, hname⟩

/-- Reading summands, one after another. -/
theorem addSummands_factorParts {done entries : List (Variable × Float)} {t : Term Float}
    {s : Symbols} (h : IsReadAs s done t) (ht : t.constant ≠ -0)
    (hnames : (done ++ entries).Pairwise fun p q => p.1.name ≠ q.1.name)
    (hentries : ∀ p ∈ entries, IsReadable p) (rest : List (Bool × List (Token Float))) :
    ∃ u s', addSummands t (entries.map factorPart ++ rest) s = addSummands u rest s'
      ∧ IsReadAs s' (done ++ entries) u ∧ u.constant = t.constant := by
  induction entries generalizing done t s with
  | nil =>
      rw [List.append_nil]
      exact ⟨t, s, rfl, h, rfl⟩
  | cons p entries ih =>
      have hp := hentries p (List.mem_cons_self ..)
      have hnew : ∀ q ∈ done, q.1.name ≠ p.1.name := fun q hq =>
        (List.pairwise_append.mp hnames).2.2 q hq p (List.mem_cons_self ..)
      have hread : ∃ negative c, factorPart p = (negative, factorTokens c p.1.name)
          ∧ (c == 0) = false ∧ (if negative then -c else c) = p.2 := by
        unfold factorPart
        split
        · exact ⟨true, -p.2, rfl, beq_zero_neg hp.nonzero, Binary64.neg_neg _⟩
        · exact ⟨false, p.2, rfl, hp.nonzero, rfl⟩
      obtain ⟨negative, c, hpart, hc, hsigned⟩ := hread
      have hstep : addSummands t ((p :: entries).map factorPart ++ rest) s
          = addSummands (t.addTerm (s.mention p.1.name).1 p.2) (entries.map factorPart ++ rest)
            (s.mention p.1.name).2 := by
        rw [List.map_cons, List.cons_append, hpart,
          addSummands_cons (monomial_factorTokens c p.1.name s), add_weighted ht _ hc, hsigned]
      have hconstant := Term.constant_addTerm t (s.mention p.1.name).1 p.2
      rw [hstep, List.append_cons]
      rw [List.append_cons] at hnames
      obtain ⟨u, s', heq, hu, hu'⟩ := ih (h.addTerm hp.nonzero hnew) (by rw [hconstant]; exact ht)
        hnames fun q hq => hentries q (List.mem_cons_of_mem _ hq)
      exact ⟨u, s', heq, hu, hu'.trans hconstant⟩

/-! ### Terms -/

/-- The constant of a term as it can be seen in its text: zero where
none is written. -/
def writtenConstant (c : Float) : Float := if c < 0 ∨ 0 < c then c else 0

theorem zero_add_eq_writtenConstant {c : Float} (h : c.isNaN = false) :
    0 + c = writtenConstant c := by
  unfold writtenConstant
  split
  · rename_i hc
    refine Binary64.zero_add ?_
    rintro rfl
    rcases hc with hc | hc
    · exact absurd (Binary64.lt_zero_iff.mp hc).2.1 (by decide)
    · exact absurd (Binary64.zero_lt_iff.mp hc).2.1 (by decide)
  · rename_i hc
    have hzero : (c == 0) = true := by
      cases hzero : c == 0 with
      | true => rfl
      | false =>
          by_cases hlt : c < 0
          · exact absurd (.inl hlt) hc
          · exact absurd (.inr (zero_lt_of_not_lt h hzero hlt)) hc
    by_cases hneg : c = -0
    · rw [hneg]
      decide
    · rw [Binary64.zero_add hneg]
      refine Binary64.ext_code ?_ (Binary64.beq_zero_iff.mp hzero)
      cases hsign : Binary64.isNegative c with
      | false => rfl
      | true =>
          refine absurd (Binary64.ext_code (hsign.trans ?_)
            ((Binary64.beq_zero_iff.mp hzero).trans ?_)) hneg
          · decide
          · decide

theorem writtenConstant_ne (c : Float) : writtenConstant c ≠ -0 := by
  unfold writtenConstant
  split
  · rintro rfl
    rename_i hc
    exact absurd hc (by decide)
  · decide

theorem writtenConstant_of_beq_zero {c : Float} (h : (c == 0) = true) : writtenConstant c = 0 := by
  have hcode := Binary64.beq_zero_iff.mp h
  refine if_neg ?_
  rintro (hlt | hlt)
  · exact (Binary64.lt_zero_iff.mp hlt).2.1 hcode
  · exact (Binary64.zero_lt_iff.mp hlt).2.1 hcode

/-- Where the constant of a term is a number, it is equal to what is
written of it. -/
theorem beq_writtenConstant {c : Float} (h : c.isNaN = false) :
    (c == writtenConstant c) = true := by
  have hle := Binary64.code_le_of_isNaN h
  unfold writtenConstant
  split
  · exact Binary64.beq_self hle
  · rename_i hc
    cases hzero : c == 0 with
    | true => rfl
    | false =>
        by_cases hlt : c < 0
        · exact absurd (.inl hlt) hc
        · exact absurd (.inr (zero_lt_of_not_lt h hzero hlt)) hc

/-- The constant of a term without variables is read as a number. -/
theorem expression_numberTokens {c : Float} (h : c.isNaN = false) (s : Symbols) :
    expression (numberTokens c) s = (.ok (Term.ofConstant (writtenConstant c)), s) := by
  have hadd : (0 : Term Float).addConstant c = Term.ofConstant (writtenConstant c) := by
    rw [← zero_add_eq_writtenConstant h]
    rfl
  unfold numberTokens
  split
  · show addSummands 0 [(true, [.number (-c)])] s = _
    rw [addSummands_cons (monomial_number (-c) s), add_ofConstant, if_pos rfl, Binary64.neg_neg,
      hadd]
    rfl
  · show addSummands 0 [(false, [.number c])] s = _
    rw [addSummands_cons (monomial_number c s), add_ofConstant,
      if_neg Bool.false_ne_true, hadd]
    rfl

/-- Reading the constant behind summands. -/
theorem addSummands_constantParts {u : Term Float} (hu : u.constant = 0) (c : Float)
    (s : Symbols) :
    ∃ w, addSummands u (constantParts c) s = (.ok w, s) ∧ w.coefficients = u.coefficients
      ∧ w.constant = writtenConstant c := by
  have hadd : (c < 0 ∨ 0 < c) → (u.addConstant c).constant = writtenConstant c := by
    intro hc
    have hnan : c.isNaN = false := by
      rcases hc with hc | hc
      · exact isNaN_of_lt_zero hc
      · exact isNaN_of_zero_lt hc
    show u.constant + c = _
    rw [hu, zero_add_eq_writtenConstant hnan]
  unfold constantParts
  split
  · rename_i hc
    refine ⟨u.addConstant c, ?_, rfl, hadd (.inl hc)⟩
    rw [addSummands_cons (monomial_number (-c) s), add_ofConstant, if_pos rfl, Binary64.neg_neg]
    rfl
  split
  · rename_i hc
    refine ⟨u.addConstant c, ?_, rfl, hadd (.inr hc)⟩
    rw [addSummands_cons (monomial_number c s), add_ofConstant, if_neg Bool.false_ne_true]
    rfl
  · rename_i hneg hpos
    refine ⟨u, rfl, rfl, ?_⟩
    rw [hu, writtenConstant, if_neg (by rintro (h | h) <;> contradiction)]

/-- Summands and a constant are read with their coefficients, whatever
has been read before. -/
theorem expression_entryTokens {entries : List (Variable × Float)} {constant : Float}
    (hnames : entries.Pairwise fun p q => p.1.name ≠ q.1.name)
    (hentries : ∀ p ∈ entries, IsReadable p)
    (hconstant : entries = [] → constant.isNaN = false) (s : Symbols) :
    ∃ u s', expression (entryTokens entries constant) s = (.ok u, s')
      ∧ IsReadAs s' entries u ∧ u.constant = writtenConstant constant := by
  cases entries with
  | nil =>
      exact ⟨_, s, expression_numberTokens (hconstant rfl) s, isReadAs_nil rfl, rfl⟩
  | cons p rest =>
      have hne : (entryTokens (p :: rest) constant).isEmpty = false := by
        rw [entryTokens, firstTokens]
        have hfactor := factorTokens_ne_nil p.2 p.1.name
        split
        · rfl
        · cases hcons : factorTokens p.2 p.1.name with
          | nil => exact absurd hcons hfactor
          | cons t ts => rfl
      have hzero : (0 : Term Float).constant ≠ -0 := by decide
      obtain ⟨u, s', heq, hu, huconstant⟩ := addSummands_factorParts (t := 0) (s := s)
        (isReadAs_nil rfl) hzero hnames hentries (constantParts constant)
      obtain ⟨w, hw, hcoefficients, hwconstant⟩ :=
        addSummands_constantParts huconstant constant s'
      refine ⟨w, s', ?_, ⟨?_, hu.known⟩, hwconstant⟩
      · rw [expression, if_neg (by rw [hne]; exact Bool.false_ne_true), summands_entryTokens, heq,
          hw]
      · rw [hcoefficients]
        exact hu.coefficient

/-- Whether a term is written in words that can be read. A constant
behind summands may be anything, because what is not a number is not
written there. -/
structure IsReadableTerm (t : Term Float) : Prop where
  summand : ∀ v c, t.coefficients.get? v = some c → IsReadable (v, c)
  distinct : t.HasDistinctNames
  constant : t.isConstant = true → t.constant.isNaN = false

/-- The tokens of a term. -/
def termTokens (t : Term Float) : List (Token Float) :=
  entryTokens (Variable.sortByName t.coefficients.toList) t.constant

theorem sortByName_eq_nil_iff {t : Term Float} :
    Variable.sortByName t.coefficients.toList = [] ↔ t.isConstant = true := by
  have hperm := Variable.sortByName_perm t.coefficients.toList
  show _ ↔ t.coefficients.toList.isEmpty = true
  rw [List.isEmpty_iff]
  constructor
  · intro h
    rw [h] at hperm
    exact hperm.symm.eq_nil
  · intro h
    rw [h] at hperm ⊢
    exact hperm.eq_nil

theorem IsReadableTerm.entries {t : Term Float} (h : IsReadableTerm t) :
    (∀ p ∈ Variable.sortByName t.coefficients.toList, IsReadable p)
      ∧ (Variable.sortByName t.coefficients.toList = [] → t.constant.isNaN = false) := by
  refine ⟨fun p hp => ?_, fun hnil => h.constant (sortByName_eq_nil_iff.mp hnil)⟩
  rw [(Variable.sortByName_perm _).mem_iff] at hp
  exact h.summand p.1 p.2 (OrderedMap.mem_toList_iff.mp hp)

theorem spells_termWords {t : Term Float} (h : IsReadableTerm t) :
    Spells t.words (termTokens t) := spells_entryWords h.entries.2 h.entries.1

/-- What a term that has been read has of the one that was written: the
summands, and the constant as far as it was written. Its variables are
those of the text. -/
structure IsRestored (found : VariableSet) (t u : Term Float) : Prop where
  labels : t.labels = u.labels
  constant : u.constant = writtenConstant t.constant
  known : ∀ v ∈ u.occurring, v ∈ found

/-- A term is read with the coefficients and the constant that were
written. -/
theorem expression_termTokens {t : Term Float} (h : IsReadableTerm t) (s : Symbols) :
    ∃ u s', expression (termTokens t) s = (.ok u, s') ∧ IsRestored s'.variableSet t u := by
  have hnames : (Variable.sortByName t.coefficients.toList).Pairwise
      fun p q => p.1.name ≠ q.1.name := by
    have hascending := Term.labels_ascending h.distinct
    rw [Term.labels, List.pairwise_map] at hascending
    refine hascending.imp fun {p q} hpq heq => ?_
    have hlt : p.1.name < q.1.name := hpq
    rw [heq] at hlt
    exact StrictKey.irrefl _ hlt
  obtain ⟨u, s', heq, hu, hconstant⟩ := expression_entryTokens hnames h.entries.1 h.entries.2 s
  have hknown : ∀ v ∈ u.occurring, v ∈ s'.variableSet := by
    intro v hv
    obtain ⟨c, hc⟩ := Term.mem_occurring.mp hv
    exact ((hu.coefficient v c).mp hc).1
  refine ⟨u, s', heq, ?_, hconstant, hknown⟩
  refine Term.labels_eq_of_mem_iff h.distinct
    (fun v hv w hw hvw => VariableSet.eq_of_name_eq (hknown v hv) (hknown w hw) hvw)
    fun name c => Iff.trans ?_ Term.mem_labels.symm
  constructor
  · intro hmem
    obtain ⟨p, hp, hlabel⟩ := List.mem_map.mp hmem
    obtain ⟨w, hw, hname⟩ := hu.known p hp
    have hpname : p.1.name = name := congrArg Prod.fst hlabel
    refine ⟨w, (hu.coefficient w c).mpr ⟨hw, ?_⟩, hname.trans hpname⟩
    rw [hname, hpname]
    exact hmem
  · rintro ⟨w, hw, rfl⟩
    exact ((hu.coefficient w c).mp hw).2

namespace IsRestored

variable {found found' : VariableSet} {t u : Term Float}

theorem mono (h : IsRestored found t u) (hfound : ∀ v ∈ found, v ∈ found') :
    IsRestored found' t u := ⟨h.labels, h.constant, fun v hv => hfound v (h.known v hv)⟩

theorem isAlike (h : IsRestored found t u) (ht : t.constant.isNaN = false) : t.IsAlike u :=
  ⟨h.labels, h.constant ▸ beq_writtenConstant ht⟩

theorem isConstant (h : IsRestored found t u) : u.isConstant = t.isConstant := by
  have hempty : ∀ x : Term Float, x.isConstant = true ↔ x.labels = [] := by
    intro x
    rw [← sortByName_eq_nil_iff, Term.labels, List.map_eq_nil_iff]
  rw [Bool.eq_iff_iff, hempty, hempty, h.labels]

end IsRestored

/-- The words of summands are known from their names and coefficients. -/
theorem entryWords_congr {entries entries' : List (Variable × Float)} {c c' : Float}
    (h : entries.map label = entries'.map label)
    (hc : if entries = [] then c = c' else Term.constantWords c = Term.constantWords c') :
    Term.entryWords entries c = Term.entryWords entries' c' := by
  have hlater : ∀ {ps qs : List (Variable × Float)}, ps.map label = qs.map label →
      (ps.flatMap fun p => Term.nextWords p.1 p.2) = qs.flatMap fun p => Term.nextWords p.1 p.2 := by
    intro ps qs hpq
    have hlabel : ∀ rs : List (Variable × Float), (rs.flatMap fun p => Term.nextWords p.1 p.2)
        = (rs.map label).flatMap fun l => Term.nextWords ⟨0, l.1⟩ l.2 := by
      intro rs
      rw [List.flatMap_map]
      rfl
    rw [hlabel, hlabel, hpq]
  cases entries with
  | nil =>
      cases entries' with
      | nil =>
          rw [if_pos rfl] at hc
          rw [hc]
      | cons q qs => cases h
  | cons p ps =>
      cases entries' with
      | nil => cases h
      | cons q qs =>
          obtain ⟨hpq, hrest⟩ := List.cons.inj h
          have hfirst : Term.firstWords p.1 p.2 = Term.firstWords q.1 q.2 := by
            show Term.firstWords ⟨0, (label p).1⟩ (label p).2
              = Term.firstWords ⟨0, (label q).1⟩ (label q).2
            rw [hpq]
          rw [if_neg (List.cons_ne_nil _ _)] at hc
          rw [Term.entryWords, Term.entryWords, Term.laterWords, Term.laterWords, hfirst,
            hlater hrest, hc]

theorem constantWords_writtenConstant (c : Float) :
    Term.constantWords (writtenConstant c) = Term.constantWords c := by
  unfold writtenConstant
  split
  · rfl
  · rename_i hc
    rw [Term.constantWords, Term.constantWords, if_neg (by decide), if_neg (by decide),
      if_neg fun hlt => hc (.inl hlt), if_neg fun hlt => hc (.inr hlt)]

/-- What is written of a constant is the constant, unless it is negative
zero. -/
theorem writtenConstant_eq {c : Float} (h : c.isNaN = false) (hne : c ≠ -0) :
    writtenConstant c = c := by
  rw [← zero_add_eq_writtenConstant h, Binary64.zero_add hne]

/-- A term that has been read is written as the first one was, unless
this was negative zero. -/
theorem IsRestored.words_eq {found : VariableSet} {t u : Term Float} (h : IsRestored found t u)
    (ht : IsReadableTerm t) (hzero : t.isConstant = true → t.constant ≠ -0) :
    u.words = t.words := by
  refine entryWords_congr h.labels.symm ?_
  rw [h.constant]
  split
  · rename_i hnil
    have hconstant : t.isConstant = true := by
      rw [← h.isConstant]
      exact sortByName_eq_nil_iff.mp hnil
    exact writtenConstant_eq (ht.constant hconstant) (hzero hconstant)
  · exact constantWords_writtenConstant _

end LinearProgram.LpText
