import LinearProgram.Proofs.LpText.Accepted.Constraints
import LinearProgram.Proofs.LpText.Layout.Numbers

/-!
# `LinearProgram.Proofs.LpText.Grammar.Expressions`: the grammar of expressions

An expression is a sum of products. Its grammar is a type of trees
(`Summation`), and `tokens` writes a tree down: signs in front of every
product but the first, which may have some, and factors with or without
stars between them. The reader accepts what can be written down in this
way, and nothing else.

* `Summation.term` is the term of a tree. `monomial_tokens`,
  `summands_tokens` and `exists_expression_eq` say that a tree that is
  written down is read as this term.
* `exists_laterFactors`, `exists_monomial` and `exists_summation` find the
  tree of tokens that have been read.
* `expression_accepts_iff` puts both directions together.
-/

set_option autoImplicit false

namespace LinearProgram.LpText

/-! ### Trees -/

section

variable {K : Type}

/-- A factor of a product. -/
inductive Factor (K : Type) where
  | number (value : K)
  | name (text : String)

namespace Factor

/-- A factor as it is written. -/
def token : Factor K → Token K
  | number value => .number value
  | name text => .name text

/-- The number, if the factor is one. -/
def number? : Factor K → Option K
  | number value => some value
  | name _ => none

/-- The name, if the factor is one. -/
def name? : Factor K → Option String
  | number _ => none
  | name text => some text

end Factor

/-- A factor behind another one, and whether there is a star between them. -/
structure LaterFactor (K : Type) where
  starred : Bool
  factor : Factor K

/-- A factor as it is written behind another one. -/
def LaterFactor.tokens (f : LaterFactor K) : List (Token K) :=
  if f.starred then [.star, f.factor.token] else [f.factor.token]

/-- The names among factors. -/
def namesOf (fs : List (LaterFactor K)) : List String := fs.filterMap fun f => f.factor.name?

/-- The numbers among factors. -/
def numbersOf (fs : List (LaterFactor K)) : List K := fs.filterMap fun f => f.factor.number?

/-- A product of numbers and of at most one name. -/
structure Monomial (K : Type) where
  first : Factor K
  others : List (LaterFactor K)
  oneName : (first.name?.toList ++ namesOf others).length ≤ 1

namespace Monomial

/-- All factors. The first one is as good as behind a star. -/
def factors (m : Monomial K) : List (LaterFactor K) := ⟨true, m.first⟩ :: m.others

/-- The text of a product, token by token. -/
def tokens (m : Monomial K) : List (Token K) :=
  m.first.token :: m.others.flatMap LaterFactor.tokens

def numbers (m : Monomial K) : List K := numbersOf m.factors

/-- The name in a product, if there is one. -/
def name? (m : Monomial K) : Option String := (namesOf m.factors).head?

end Monomial

/-- The token of a sign. -/
def signToken (negative : Bool) : Token K := if negative then .minus else .plus

/-- A product with the signs in front of it, of which some are negative. -/
structure Summand (K : Type) where
  signs : List Bool
  monomial : Monomial K

namespace Summand

/-- The text of a summand: first its signs. -/
def tokens (p : Summand K) : List (Token K) := p.signs.map signToken ++ p.monomial.tokens

/-- A summand with one more sign in front. -/
def behind (sign : Bool) (p : Summand K) : Summand K := { p with signs := sign :: p.signs }

/-- Whether all signs together are negative. -/
def isNegative (p : Summand K) : Bool := p.signs.foldl xor false

/-- A summand as the reader cuts it out. -/
def part (p : Summand K) : Bool × List (Token K) := (p.isNegative, p.monomial.tokens)

end Summand

/-- A sum of products. There is a sign between any two of them. -/
structure Summation (K : Type) where
  first : Summand K
  others : List (Summand K)
  signed : ∀ p ∈ others, p.signs ≠ []

namespace Summation

def summands (e : Summation K) : List (Summand K) := e.first :: e.others

def tokens (e : Summation K) : List (Token K) := e.summands.flatMap Summand.tokens

end Summation

theorem namesOf_cons (f : LaterFactor K) (fs : List (LaterFactor K)) :
    namesOf (f :: fs) = f.factor.name?.toList ++ namesOf fs := by
  obtain ⟨starred, value | text⟩ := f <;> rfl

theorem Monomial.length_names (m : Monomial K) : (namesOf m.factors).length ≤ 1 := by
  rw [factors, namesOf_cons]
  exact m.oneName

theorem Monomial.tokens_ne_nil (m : Monomial K) : m.tokens ≠ [] := List.cons_ne_nil _ _

theorem Summation.tokens_ne_nil (e : Summation K) : e.tokens ≠ [] := by
  intro h
  obtain ⟨hfirst, -⟩ := List.append_eq_nil_iff.mp h
  exact e.first.monomial.tokens_ne_nil (List.append_eq_nil_iff.mp hfirst).2

/-- The name in a product is the one among its tokens. -/
theorem Monomial.name_mem_tokens_iff (m : Monomial K) (name : String) :
    .name name ∈ m.tokens ↔ m.name? = some name := by
  have hlater : ∀ f : LaterFactor K, .name name ∈ f.tokens ↔ f.factor.name? = some name := by
    rintro ⟨starred | starred, value | text⟩ <;>
      simp [LaterFactor.tokens, Factor.token, Factor.name?, eq_comm]
  have hmem : .name name ∈ m.tokens ↔ name ∈ namesOf m.factors := by
    have hfirst : .name name ∈ [m.first.token] ↔ m.first.name? = some name :=
      hlater ⟨false, m.first⟩
    rw [tokens, ← List.singleton_append, List.mem_append, hfirst, List.mem_flatMap, namesOf,
      List.mem_filterMap, factors, List.exists_mem_cons_iff]
    exact or_congr Iff.rfl (exists_congr fun f => and_congr_right fun _ => hlater f)
  have hlength := m.length_names
  rw [hmem, name?]
  generalize namesOf m.factors = names at hlength ⊢
  rcases names with _ | ⟨text, _ | ⟨other, texts⟩⟩
  · simp
  · simp [eq_comm]
  · exact absurd hlength (by rw [List.length_cons, List.length_cons]; omega)

/-- The names in a sum are those among its tokens. -/
theorem Summation.name_mem_tokens_iff (e : Summation K) (name : String) :
    .name name ∈ e.tokens ↔ ∃ p ∈ e.summands, p.monomial.name? = some name := by
  rw [tokens, List.mem_flatMap]
  refine exists_congr fun p => and_congr_right fun _ => ?_
  rw [Summand.tokens, List.mem_append, p.monomial.name_mem_tokens_iff]
  refine or_iff_right fun hsign => ?_
  obtain ⟨sign, -, heq⟩ := List.mem_map.mp hsign
  cases sign <;> cases heq

end

/-! ### What a tree is read as -/

/-- What the reader makes of a product where names stand for variables. -/
def Monomial.term (handle : String → Variable) (m : Monomial Float) : Term Float :=
  product (m.numbers.foldl (· * ·) 1) (m.name?.map handle)

/-- What the reader adds for a summand. -/
def Summand.term (handle : String → Variable) (p : Summand Float) : Term Float :=
  (p.monomial.term handle).scale (signOf p.isNegative)

/-- The term of a sum, in the order in which the reader adds. -/
def Summation.term (handle : String → Variable) (e : Summation Float) : Term Float :=
  e.summands.foldl (fun t p => t + p.term handle) 0

namespace Symbols

variable {s s' : Symbols}

/-- The variable that a name stands for, or would stand for. -/
def handle (s : Symbols) (name : String) : Variable := (s.mention name).1

theorem handle_of_get? {name : String} {entry : Entry} (h : s.entries.get? name = some entry) :
    s.handle name = entry.handle := congrArg Prod.fst (mention_of_get?_some h)

/-- A name that has occurred goes on to stand for the same variable. -/
theorem Grows.exists_entry {name : String} (h : (s.mention name).2.Grows s') :
    ∃ entry, s'.entries.get? name = some entry ∧ entry.handle = s.handle name := by
  have hmentioned := s.get?_mention name name
  rw [if_pos rfl] at hmentioned
  obtain ⟨entry, hentry, hgrows⟩ := h.entry _ _ hmentioned
  exact ⟨entry, hentry, hgrows.handle.trans (s.handle_mention name)⟩

/-- The state after the name of a product, if it has one. -/
def mentionAny (s : Symbols) : Option String → Symbols
  | some name => (s.mention name).2
  | none => s

theorem grows_mentionAny (s : Symbols) (name? : Option String) : s.Grows (s.mentionAny name?) := by
  cases name? with
  | none => exact .refl s
  | some name => exact s.grows_mention name

end Symbols

theorem Monomial.term_of_grows {s s' : Symbols} {m : Monomial Float}
    (h : (s.mentionAny m.name?).Grows s') : m.term s'.handle = m.term s.handle := by
  unfold term
  cases hname : m.name? with
  | none => rfl
  | some name =>
      rw [hname] at h
      obtain ⟨entry, hentry, hhandle⟩ := h.exists_entry
      rw [Option.map_some, Option.map_some, Symbols.handle_of_get? hentry, hhandle]

/-! ### Reading what is written down -/

section

variable {s : Symbols}

theorem factors_numbers {fs : List (LaterFactor Float)} (h : namesOf fs = []) (c : Float)
    (v : Option Variable) :
    factors c v false (fs.flatMap LaterFactor.tokens) s
      = (.ok (product ((numbersOf fs).foldl (· * ·) c) v), s) := by
  induction fs generalizing c with
  | nil => rfl
  | cons f fs ih =>
      obtain ⟨starred, value | text⟩ := f
      · cases starred <;> exact ih h (c * value)
      · cases h

/-- Factors are read as the product of the numbers and the variable of the
name. -/
theorem factors_laterTokens {fs : List (LaterFactor Float)} (h : (namesOf fs).length ≤ 1)
    (c : Float) :
    factors c none false (fs.flatMap LaterFactor.tokens) s
      = (.ok (product ((numbersOf fs).foldl (· * ·) c) ((namesOf fs).head?.map s.handle)),
          s.mentionAny (namesOf fs).head?) := by
  induction fs generalizing c with
  | nil => rfl
  | cons f fs ih =>
      obtain ⟨starred, value | text⟩ := f
      · cases starred <;> exact ih h (c * value)
      · -- Behind the name there are only numbers.
        have hnone : namesOf fs = [] := List.length_eq_zero_iff.mp (Nat.le_zero.mp
          (Nat.le_of_succ_le_succ h))
        cases starred <;> exact factors_numbers hnone c (some (s.handle text))

theorem monomial_tokens (m : Monomial Float) (s : Symbols) :
    monomial m.tokens s = (.ok (m.term s.handle), s.mentionAny m.name?) :=
  factors_laterTokens m.length_names 1

theorem isFactor_tokens (m : Monomial Float) : ∀ t ∈ m.tokens, IsFactor t := by
  have hfactor : ∀ f : Factor Float, IsFactor f.token := by
    intro f
    cases f <;> trivial
  intro t ht
  rcases List.mem_cons.mp ht with rfl | ht
  · exact hfactor m.first
  · obtain ⟨⟨starred, f⟩, -, ht⟩ := List.mem_flatMap.mp ht
    cases starred with
    | false =>
        rw [List.mem_singleton.mp ht]
        exact hfactor f
    | true =>
        rcases List.mem_cons.mp ht with rfl | ht
        · trivial
        · rw [List.mem_singleton.mp ht]
          exact hfactor f

theorem summands_sign (negative sign : Bool) (rest : List (Token Float)) :
    summands negative [] (signToken sign :: rest) = summands (negative ^^ sign) [] rest := by
  cases sign with
  | false =>
      rw [Bool.xor_false]
      rfl
  | true =>
      rw [Bool.xor_true]
      rfl

/-- A sign behind a product ends it. -/
theorem summands_sign_of_ne_nil {negative : Bool} {before : List (Token Float)} (h : before ≠ [])
    (sign : Bool) (rest : List (Token Float)) :
    summands negative before (signToken sign :: rest)
      = (negative, before) :: summands sign [] rest := by
  cases sign with
  | false => exact summands_plus h rest
  | true => exact summands_minus h rest

/-- The signs in front of a product and the product are cut out. -/
theorem summands_begin (signs : List Bool) (m : Monomial Float) (negative : Bool)
    (rest : List (Token Float)) :
    summands negative [] (signs.map signToken ++ (m.tokens ++ rest))
      = summands (signs.foldl xor negative) m.tokens rest := by
  induction signs generalizing negative with
  | nil => exact summands_append (isFactor_tokens m) rest
  | cons sign signs ih =>
      rw [List.map_cons, List.cons_append, summands_sign]
      exact ih (negative ^^ sign)

theorem summands_laterSummands {ps : List (Summand Float)} (h : ∀ p ∈ ps, p.signs ≠ [])
    {negative : Bool} {before : List (Token Float)} (hbefore : before ≠ []) :
    summands negative before (ps.flatMap Summand.tokens)
      = (negative, before) :: ps.map Summand.part := by
  induction ps generalizing negative before with
  | nil => rfl
  | cons p ps ih =>
      obtain ⟨hp, hps⟩ := List.forall_mem_cons.mp h
      obtain ⟨_ | ⟨sign, signs⟩, m⟩ := p
      · exact absurd rfl hp
      · rw [List.flatMap_cons, Summand.tokens, List.append_assoc, List.map_cons, List.cons_append,
          summands_sign_of_ne_nil hbefore, summands_begin, ih hps m.tokens_ne_nil, List.map_cons,
          Summand.part, Summand.isNegative, List.foldl_cons, Bool.false_xor]

/-- The reader cuts where the summands begin. -/
theorem summands_tokens (e : Summation Float) :
    summands false [] e.tokens = e.summands.map Summand.part := by
  rw [Summation.tokens, Summation.summands, List.flatMap_cons, Summand.tokens, List.append_assoc,
    summands_begin, summands_laterSummands e.signed e.first.monomial.tokens_ne_nil]
  rfl

/-- Summands that are written down are added, and then all their names
stand for variables. -/
theorem exists_addSummands_eq (ps : List (Summand Float)) (t : Term Float) (s : Symbols) :
    ∃ s', addSummands t (ps.map Summand.part) s
        = (.ok (ps.foldl (fun t p => t + p.term s'.handle) t), s')
      ∧ s.Grows s'
      ∧ ∀ p ∈ ps, ∀ name, p.monomial.name? = some name →
          ∃ entry, s'.entries.get? name = some entry := by
  induction ps generalizing t s with
  | nil => exact ⟨s, rfl, .refl s, fun p hp => absurd hp List.not_mem_nil⟩
  | cons p ps ih =>
      obtain ⟨s', hread, hgrows, hknown⟩ :=
        ih (t + p.term s.handle) (s.mentionAny p.monomial.name?)
      -- What a name stands for is settled where it is read; later states only grow.
      have hterm : p.term s'.handle = p.term s.handle :=
        congrArg (·.scale (signOf p.isNegative)) (Monomial.term_of_grows hgrows)
      refine ⟨s', ?_, (s.grows_mentionAny _).trans hgrows,
        List.forall_mem_cons.mpr ⟨fun name hname => ?_, hknown⟩⟩
      · rw [List.foldl_cons, hterm]
        exact (addSummands_cons (monomial_tokens p.monomial s)).trans hread
      · rw [hname] at hgrows
        obtain ⟨entry, hentry, -⟩ := hgrows.exists_entry
        exact ⟨entry, hentry⟩

/-- What is written down is read, and its names are entered. -/
theorem exists_expression_eq (e : Summation Float) (s : Symbols) :
    ∃ s', expression e.tokens s = (.ok (e.term s'.handle), s')
      ∧ ∀ p ∈ e.summands, ∀ name, p.monomial.name? = some name →
          ∃ entry, s'.entries.get? name = some entry := by
  obtain ⟨s', hread, -, hknown⟩ := exists_addSummands_eq e.summands 0 s
  refine ⟨s', ?_, hknown⟩
  rw [expression, List.isEmpty_eq_false_iff.mpr e.tokens_ne_nil, if_neg Bool.false_ne_true,
    summands_tokens]
  exact hread

/-! ### Finding what is read -/

variable {tokens : List (Token Float)} {s' : Symbols} {t u : Term Float}

/-- Tokens that are read as further factors are such factors. Those that
are read where a factor has to follow are so behind a star. -/
theorem exists_laterFactors {c : Float} {v : Option Variable} {isOpen : Bool}
    (h : factors c v isOpen tokens s = (.ok t, s')) :
    ∃ fs : List (LaterFactor Float), (namesOf fs).length + v.toList.length ≤ 1
      ∧ fs.flatMap LaterFactor.tokens = if isOpen then .star :: tokens else tokens := by
  induction tokens generalizing c v isOpen s with
  | nil =>
      cases isOpen with
      | true => cases h
      | false => exact ⟨[], by cases v <;> simp [namesOf], rfl⟩
  | cons token rest ih =>
      cases token with
      | number value =>
          obtain ⟨fs, hnames, hfs⟩ := ih h
          refine ⟨⟨isOpen, .number value⟩ :: fs, hnames, ?_⟩
          cases isOpen <;> exact congrArg (LaterFactor.tokens ⟨_, .number value⟩ ++ ·) hfs
      | name text =>
          cases v with
          | some v => cases h
          | none =>
              obtain ⟨v, _, _, h⟩ := action_bind_inv h
              obtain ⟨fs, hnames, hfs⟩ := ih h
              refine ⟨⟨isOpen, .name text⟩ :: fs, hnames, ?_⟩
              cases isOpen <;> exact congrArg (LaterFactor.tokens ⟨_, .name text⟩ ++ ·) hfs
      | star =>
          cases isOpen with
          | true => cases h
          | false =>
              -- The star is the one that the factors behind it begin with.
              have hopen : factors c v true rest s = (.ok t, s') := h
              exact ih hopen
      | plus => cases h
      | minus => cases h
      | colon => cases h
      | arrow => cases h
      | relation r => cases h

theorem exists_monomial (h : monomial tokens s = (.ok t, s')) :
    ∃ m : Monomial Float, m.tokens = tokens := by
  obtain ⟨fs, hnames, hfs⟩ := exists_laterFactors h
  obtain _ | ⟨⟨starred, f⟩, fs⟩ := fs
  · cases hfs
  rw [namesOf_cons] at hnames
  cases starred with
  | true => exact ⟨⟨f, fs, hnames⟩, (List.cons.inj hfs).2⟩
  | false => cases f <;> cases (List.cons.inj hfs).1

/-- Tokens that are read are those of a sum, where what has been cut out
so far begins with a product. -/
theorem exists_summation {negative : Bool} {before : List (Token Float)}
    (h : addSummands t (summands negative before tokens) s = (.ok u, s')) :
    ∃ e : Summation Float, e.tokens = before ++ tokens ∧ (before ≠ [] → e.first.signs = []) := by
  induction tokens generalizing negative before t s with
  | nil =>
      obtain ⟨_, _, h, _⟩ := action_bind_inv h
      obtain ⟨m, rfl⟩ := exists_monomial h
      refine ⟨⟨⟨[], m⟩, [], List.forall_mem_nil _⟩, ?_, fun _ => rfl⟩
      simp [Summation.tokens, Summation.summands, Summand.tokens]
  | cons token rest ih =>
      -- A sign stands in front of the sum that follows, and may end a product.
      have hsign : ∀ sign, addSummands t (summands negative before (signToken sign :: rest)) s
          = (.ok u, s') → ∃ e : Summation Float, e.tokens = before ++ signToken sign :: rest
            ∧ (before ≠ [] → e.first.signs = []) := by
        intro sign h
        by_cases hbefore : before = []
        · rw [hbefore, summands_sign] at h
          obtain ⟨e, he, -⟩ := ih h
          refine ⟨⟨e.first.behind sign, e.others, e.signed⟩, ?_, fun hne => absurd hbefore hne⟩
          rw [hbefore]
          exact congrArg (signToken sign :: ·) he
        · rw [summands_sign_of_ne_nil hbefore] at h
          obtain ⟨_, _, hmonomial, hrest⟩ := action_bind_inv h
          obtain ⟨m, rfl⟩ := exists_monomial hmonomial
          obtain ⟨e, he, -⟩ := ih hrest
          refine ⟨⟨⟨[], m⟩, e.first.behind sign :: e.others,
            List.forall_mem_cons.mpr ⟨List.cons_ne_nil _ _, e.signed⟩⟩, ?_, fun _ => rfl⟩
          exact congrArg (m.tokens ++ signToken sign :: ·) he
      have hjoin : addSummands t (summands negative (before ++ [token]) rest) s = (.ok u, s') →
          ∃ e : Summation Float, e.tokens = before ++ token :: rest
            ∧ (before ≠ [] → e.first.signs = []) := by
        intro h
        obtain ⟨e, he, hsigns⟩ := ih h
        exact ⟨e, he.trans (List.append_cons ..).symm, fun _ => hsigns (by simp)⟩
      cases token with
      | plus => exact hsign false h
      | minus => exact hsign true h
      | number value => exact hjoin h
      | name text => exact hjoin h
      | star => exact hjoin h
      | colon => exact hjoin h
      | arrow => exact hjoin h
      | relation r => exact hjoin h

/-- What is read as an expression is the text of a sum of products, and
every such text is read. -/
theorem expression_accepts_iff (tokens : List (Token Float)) (s : Symbols) :
    (∃ t s', expression tokens s = (.ok t, s')) ↔ ∃ e : Summation Float, e.tokens = tokens := by
  constructor
  · rintro ⟨t, s', h⟩
    rw [expression] at h
    split at h
    · cases h
    · obtain ⟨e, he, -⟩ := exists_summation h
      exact ⟨e, he⟩
  · rintro ⟨e, rfl⟩
    obtain ⟨s', h, -⟩ := exists_expression_eq e s
    exact ⟨_, s', h⟩

end

end LinearProgram.LpText
