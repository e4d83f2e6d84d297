/-!
# `LinearProgram.OrderedMap`: finite maps kept in the order of their keys

Models are printed, numbered and compared in a fixed order: variables
by name, coefficients by identity, files by path. All of these are
finite maps whose listing order is the order of the keys, so the order
is part of the type: an `OrderedMap` is a list of entries together with
the proof that its keys ascend strictly. Two maps with the same entries
are therefore equal, and no operation has to sort.

* `StrictKey`: what a key type must provide, a strict linear order.
* `OrderedMap.get?` is the view. `get?_alter` says what the one
  updating primitive does to it, `get?_filterMap` what a change of all
  values does, and `ext_get?` that the view determines the map.
* `mem_toList_iff` ties the listing to the view, `get?_ofList` the view
  to a list that a map is made of.
-/

set_option autoImplicit false
set_option linter.unusedSectionVars false

namespace LinearProgram

/-- A key type: `<` is a strict linear order. -/
class StrictKey (κ : Type) [LT κ] : Prop where
  irrefl : ∀ a : κ, ¬ a < a
  trans : ∀ {a b c : κ}, a < b → b < c → a < c
  trichotomy : ∀ a b : κ, a < b ∨ a = b ∨ b < a

/-- Text is ordered by code point, which is also the order of the
UTF-8 encodings. -/
instance : StrictKey String where
  irrefl := String.lt_irrefl
  trans := String.lt_trans
  trichotomy a b := by
    by_cases hab : a < b
    · exact .inl hab
    · by_cases hba : b < a
      · exact .inr (.inr hba)
      · exact .inr (.inl (String.le_antisymm (String.not_lt.mp hba) (String.not_lt.mp hab)))

/-- Lists of text are compared entry by entry. -/
instance : StrictKey (List String) where
  irrefl a := by
    have : Std.Irrefl fun x y : String => x < y := ⟨String.lt_irrefl⟩
    exact List.lt_irrefl a
  trans h₁ h₂ := by
    have : Trans (fun x y : String => x < y) (fun x y => x < y) fun x y => x < y :=
      ⟨String.lt_trans⟩
    exact List.lt_trans h₁ h₂
  trichotomy a b := by
    have : Std.Trichotomous fun x y : String => x < y :=
      ⟨fun x y hxy hyx => String.le_antisymm (String.not_lt.mp hyx) (String.not_lt.mp hxy)⟩
    by_cases hab : a < b
    · exact .inl hab
    · by_cases hba : b < a
      · exact .inr (.inr hba)
      · exact .inr (.inl (List.le_antisymm (List.not_lt.mp hba) (List.not_lt.mp hab)))

/-- A finite map: entries whose keys ascend strictly. -/
@[ext]
structure OrderedMap (κ ν : Type) [LT κ] where
  toList : List (κ × ν)
  ascending : toList.Pairwise fun p q => p.1 < q.1

namespace OrderedMap

variable {κ ν μ : Type} [LT κ] [DecidableEq κ] [DecidableLT κ] [StrictKey κ]

/-! ### Entries as plain lists -/

/-- The value stored under `k`. -/
def find (k : κ) : List (κ × ν) → Option ν
  | [] => none
  | (j, v) :: rest => if k = j then some v else find k rest

/-- The entry list that holds `v` under `k`, if there is a `v`. -/
def entry (k : κ) : Option ν → List (κ × ν)
  | none => []
  | some v => [(k, v)]

/-- Replaces what `k` holds by `f` of it, at its place in the order. -/
def alterEntries (k : κ) (f : Option ν → Option ν) : List (κ × ν) → List (κ × ν)
  | [] => entry k (f none)
  | (j, v) :: rest =>
    if k < j then entry k (f none) ++ (j, v) :: rest
    else if k = j then entry k (f (some v)) ++ rest
    else (j, v) :: alterEntries k f rest

theorem mem_entry {k : κ} {o : Option ν} {p : κ × ν} (h : p ∈ entry k o) :
    p.1 = k ∧ o = some p.2 := by
  cases o with
  | none => simp [entry] at h
  | some v => simp only [entry, List.mem_singleton] at h; simp [h]

/-- An altered list has no keys but the old ones and the altered one. -/
theorem key_of_mem_alterEntries {k : κ} {f : Option ν → Option ν} {l : List (κ × ν)}
    {p : κ × ν} (h : p ∈ alterEntries k f l) : p.1 = k ∨ p ∈ l := by
  induction l with
  | nil => exact .inl (mem_entry h).1
  | cons q rest ih =>
    obtain ⟨j, v⟩ := q
    simp only [alterEntries] at h
    split at h
    · rcases List.mem_append.mp h with h | h
      · exact .inl (mem_entry h).1
      · exact .inr h
    · split at h
      · rcases List.mem_append.mp h with h | h
        · exact .inl (mem_entry h).1
        · exact .inr (List.mem_cons_of_mem _ h)
      · rcases List.mem_cons.mp h with rfl | h
        · exact .inr (List.mem_cons_self ..)
        · rcases ih h with h | h
          · exact .inl h
          · exact .inr (List.mem_cons_of_mem _ h)

theorem pairwise_entry_append {k : κ} {o : Option ν} {l : List (κ × ν)}
    (hl : l.Pairwise fun p q => p.1 < q.1) (hk : ∀ p ∈ l, k < p.1) :
    (entry k o ++ l).Pairwise fun p q => p.1 < q.1 := by
  cases o with
  | none => exact hl
  | some v => exact List.pairwise_cons.mpr ⟨hk, hl⟩

theorem pairwise_alterEntries (k : κ) (f : Option ν → Option ν) {l : List (κ × ν)}
    (hl : l.Pairwise fun p q => p.1 < q.1) :
    (alterEntries k f l).Pairwise fun p q => p.1 < q.1 := by
  induction l with
  | nil => cases h : f none <;> simp [alterEntries, entry, h]
  | cons q rest ih =>
    obtain ⟨j, v⟩ := q
    have hrest := List.pairwise_cons.mp hl
    simp only [alterEntries]
    split
    · rename_i hkj
      refine pairwise_entry_append hl fun p hp => ?_
      rcases List.mem_cons.mp hp with rfl | hp
      · exact hkj
      · exact StrictKey.trans hkj (hrest.1 p hp)
    · split
      · rename_i hkj
        subst hkj
        exact pairwise_entry_append hrest.2 hrest.1
      · rename_i hlt hne
        refine List.pairwise_cons.mpr ⟨fun p hp => ?_, ih hrest.2⟩
        rcases key_of_mem_alterEntries hp with h | h
        · have : j < k := by
            rcases StrictKey.trichotomy k j with h' | h' | h'
            · exact absurd h' hlt
            · exact absurd h' hne
            · exact h'
          exact h ▸ this
        · exact hrest.1 p h

/-- A key below all keys of a list is not in it. -/
theorem find_eq_none {k : κ} {l : List (κ × ν)} (h : ∀ p ∈ l, k < p.1) : find k l = none := by
  induction l with
  | nil => rfl
  | cons q rest ih =>
    obtain ⟨j, v⟩ := q
    have hkj : ¬ k = j := fun e => StrictKey.irrefl j (e ▸ h (j, v) (List.mem_cons_self ..))
    simp only [find, if_neg hkj]
    exact ih fun p hp => h p (List.mem_cons_of_mem _ hp)

theorem find_entry_append (i k : κ) (o : Option ν) (l : List (κ × ν)) :
    find i (entry k o ++ l) = if i = k then o.or (find i l) else find i l := by
  cases o with
  | none => simp [entry]
  | some v => by_cases h : i = k <;> simp [entry, find, h]

theorem find_alterEntries (i k : κ) (f : Option ν → Option ν) {l : List (κ × ν)}
    (hl : l.Pairwise fun p q => p.1 < q.1) :
    find i (alterEntries k f l) = if i = k then f (find k l) else find i l := by
  induction l with
  | nil =>
    have := find_entry_append i k (f none) []
    simpa [alterEntries, find] using this
  | cons q rest ih =>
    obtain ⟨j, v⟩ := q
    have hrest := List.pairwise_cons.mp hl
    simp only [alterEntries]
    split
    · rename_i hkj
      have hnone : find k ((j, v) :: rest) = none := find_eq_none fun p hp => by
        rcases List.mem_cons.mp hp with rfl | hp
        · exact hkj
        · exact StrictKey.trans hkj (hrest.1 p hp)
      rw [find_entry_append]
      by_cases h : i = k
      · subst h; simp [hnone]
      · simp [h]
    · split
      · rename_i hkj
        subst hkj
        have hnone : find k rest = none := find_eq_none hrest.1
        rw [find_entry_append]
        by_cases h : i = k
        · subst h; simp [hnone, find]
        · simp [h, find]
      · rename_i hlt hne
        by_cases hij : i = j
        · have hik : ¬ i = k := fun e => hne (e ▸ hij)
          simp only [find, hij, if_true, if_neg (hij ▸ hik)]
        · simp only [find, if_neg hij, if_neg hne, ih hrest.2]

theorem mem_of_find {k : κ} {v : ν} {l : List (κ × ν)} (h : find k l = some v) : (k, v) ∈ l := by
  induction l with
  | nil => simp [find] at h
  | cons q rest ih =>
    obtain ⟨j, w⟩ := q
    simp only [find] at h
    split at h
    · rename_i hkj
      subst hkj
      rw [Option.some.inj h]
      exact List.mem_cons_self ..
    · exact List.mem_cons_of_mem _ (ih h)

theorem find_of_mem {k : κ} {v : ν} {l : List (κ × ν)} (hl : l.Pairwise fun p q => p.1 < q.1)
    (h : (k, v) ∈ l) : find k l = some v := by
  induction l with
  | nil => simp at h
  | cons q rest ih =>
    obtain ⟨j, w⟩ := q
    have hrest := List.pairwise_cons.mp hl
    rcases List.mem_cons.mp h with heq | h
    · cases heq; simp [find]
    · have hkj : ¬ k = j := fun e => StrictKey.irrefl k (by
        have := hrest.1 _ h
        simpa [e] using this)
      simp only [find, if_neg hkj, ih hrest.2 h]

/-- Entries that `f` keeps, with the value `f` gives them. -/
def filterMapEntries (f : ν → Option μ) (l : List (κ × ν)) : List (κ × μ) :=
  l.filterMap fun p => (f p.2).map fun w => (p.1, w)

theorem mem_filterMapEntries {f : ν → Option μ} {l : List (κ × ν)} {q : κ × μ}
    (h : q ∈ filterMapEntries f l) : ∃ v, (q.1, v) ∈ l ∧ f v = some q.2 := by
  obtain ⟨p, hp, hq⟩ := List.mem_filterMap.mp h
  obtain ⟨w, hw, rfl⟩ := Option.map_eq_some_iff.mp hq
  exact ⟨p.2, hp, hw⟩

theorem pairwise_filterMapEntries (f : ν → Option μ) {l : List (κ × ν)}
    (hl : l.Pairwise fun p q => p.1 < q.1) :
    (filterMapEntries f l).Pairwise fun p q => p.1 < q.1 := by
  refine List.Pairwise.filterMap _ (fun a a' haa' b hb b' hb' => ?_) hl
  obtain ⟨w, _, rfl⟩ := Option.map_eq_some_iff.mp hb
  obtain ⟨w', _, rfl⟩ := Option.map_eq_some_iff.mp hb'
  exact haa'

/-! ### The map -/

/-- The map without entries. -/
def empty : OrderedMap κ ν := ⟨[], List.Pairwise.nil⟩

instance : EmptyCollection (OrderedMap κ ν) := ⟨empty⟩
instance : Inhabited (OrderedMap κ ν) := ⟨empty⟩

/-- The value stored under `k`, if any. -/
def get? (m : OrderedMap κ ν) (k : κ) : Option ν := find k m.toList

/-- Replaces what `k` holds, nothing included, by `f` of it. -/
def alter (m : OrderedMap κ ν) (k : κ) (f : Option ν → Option ν) : OrderedMap κ ν :=
  ⟨alterEntries k f m.toList, pairwise_alterEntries k f m.ascending⟩

/-- Stores `v` under `k`, in place of an earlier value. -/
def insert (m : OrderedMap κ ν) (k : κ) (v : ν) : OrderedMap κ ν := m.alter k fun _ => some v

/-- Forgets `k`. -/
def erase (m : OrderedMap κ ν) (k : κ) : OrderedMap κ ν := m.alter k fun _ => none

/-- Changes every value, dropping the entries for which `f` gives none. -/
def filterMap (f : ν → Option μ) (m : OrderedMap κ ν) : OrderedMap κ μ :=
  ⟨filterMapEntries f m.toList, pairwise_filterMapEntries f m.ascending⟩

/-- The map with the given entries; of several for one key the last counts. -/
def ofList (l : List (κ × ν)) : OrderedMap κ ν := l.foldl (fun m p => m.insert p.1 p.2) ∅

/-- The keys, ascending. -/
def keys (m : OrderedMap κ ν) : List κ := m.toList.map (·.1)

/-- The values, in the order of their keys. -/
def values (m : OrderedMap κ ν) : List ν := m.toList.map (·.2)

/-- How many keys hold a value. -/
def size (m : OrderedMap κ ν) : Nat := m.toList.length

/-- Whether no key holds a value. -/
def isEmpty (m : OrderedMap κ ν) : Bool := m.toList.isEmpty

/-- Two maps are compared entry by entry. -/
instance [BEq ν] : BEq (OrderedMap κ ν) where
  beq m n := m.toList == n.toList

@[simp] theorem toList_empty : (∅ : OrderedMap κ ν).toList = [] := rfl

@[simp] theorem get?_empty (k : κ) : (∅ : OrderedMap κ ν).get? k = none := rfl

theorem get?_alter (m : OrderedMap κ ν) (k i : κ) (f : Option ν → Option ν) :
    (m.alter k f).get? i = if i = k then f (m.get? k) else m.get? i :=
  find_alterEntries i k f m.ascending

@[simp] theorem get?_alter_self (m : OrderedMap κ ν) (k : κ) (f : Option ν → Option ν) :
    (m.alter k f).get? k = f (m.get? k) := by rw [get?_alter, if_pos rfl]

theorem get?_insert (m : OrderedMap κ ν) (k i : κ) (v : ν) :
    (m.insert k v).get? i = if i = k then some v else m.get? i := get?_alter m k i _

theorem get?_erase (m : OrderedMap κ ν) (k i : κ) :
    (m.erase k).get? i = if i = k then none else m.get? i := get?_alter m k i _

/-- The listing holds exactly the pairs the view shows. -/
theorem mem_toList_iff {m : OrderedMap κ ν} {k : κ} {v : ν} :
    (k, v) ∈ m.toList ↔ m.get? k = some v :=
  ⟨find_of_mem m.ascending, mem_of_find⟩

theorem get?_filterMap (f : ν → Option μ) (m : OrderedMap κ ν) (k : κ) :
    (m.filterMap f).get? k = (m.get? k).bind f := by
  cases h : m.get? k with
  | some v =>
    cases hf : f v with
    | some w =>
      have : (k, w) ∈ (m.filterMap f).toList :=
        List.mem_filterMap.mpr ⟨(k, v), mem_toList_iff.mpr h, by simp [hf]⟩
      simp [mem_toList_iff.mp this, hf]
    | none =>
      simp only [Option.bind_some, hf]
      cases hk : (m.filterMap f).get? k with
      | none => rfl
      | some w =>
        obtain ⟨v', hv', hw⟩ := mem_filterMapEntries (mem_toList_iff.mpr hk)
        have : m.get? k = some v' := mem_toList_iff.mp hv'
        simp [h] at this
        simp [← this, hf] at hw
  | none =>
    simp only [Option.bind_none]
    cases hk : (m.filterMap f).get? k with
    | none => rfl
    | some w =>
      obtain ⟨v', hv', _⟩ := mem_filterMapEntries (mem_toList_iff.mpr hk)
      have : m.get? k = some v' := mem_toList_iff.mp hv'
      simp [h] at this

/-- A map is empty exactly when no key holds a value. -/
theorem isEmpty_iff {m : OrderedMap κ ν} : m.isEmpty = true ↔ ∀ k, m.get? k = none := by
  obtain ⟨l, hl⟩ := m
  cases l with
  | nil => simp [isEmpty, get?, find]
  | cons p rest =>
    simp only [isEmpty, List.isEmpty_cons, Bool.false_eq_true, false_iff]
    intro h
    have := h p.1
    simp [get?, find] at this

/-- Ascending lists with the same members are equal. -/
theorem eq_of_find_eq {l l' : List (κ × ν)} (hl : l.Pairwise fun p q => p.1 < q.1)
    (hl' : l'.Pairwise fun p q => p.1 < q.1) (h : ∀ k, find k l = find k l') : l = l' := by
  induction l generalizing l' with
  | nil =>
    cases l' with
    | nil => rfl
    | cons q rest => have := h q.1; simp [find] at this
  | cons p rest ih =>
    cases l' with
    | nil => have := h p.1; simp [find] at this
    | cons q rest' =>
      have hp := List.pairwise_cons.mp hl
      have hq := List.pairwise_cons.mp hl'
      obtain ⟨j, v⟩ := p
      obtain ⟨k, w⟩ := q
      -- The heads are the least keys, and each list holds the other's head.
      have hjk : j = k := by
        rcases StrictKey.trichotomy j k with hlt | heq | hlt
        · have hj := h j
          rw [find_eq_none (l := (k, w) :: rest') (fun r hr => by
            rcases List.mem_cons.mp hr with rfl | hr
            · exact hlt
            · exact StrictKey.trans hlt (hq.1 r hr))] at hj
          simp [find] at hj
        · exact heq
        · have hk := h k
          rw [find_eq_none (l := (j, v) :: rest) (fun r hr => by
            rcases List.mem_cons.mp hr with rfl | hr
            · exact hlt
            · exact StrictKey.trans hlt (hp.1 r hr))] at hk
          simp [find] at hk
      subst hjk
      have hvw : v = w := by have := h j; simpa [find] using this
      subst hvw
      refine congrArg _ (ih hp.2 hq.2 fun i => ?_)
      by_cases hij : i = j
      · subst hij
        rw [find_eq_none hp.1, find_eq_none hq.1]
      · have := h i; simpa [find, hij] using this

theorem get?_foldl_insert {l : List (κ × ν)} {k : κ} (h : ∀ p ∈ l, p.1 ≠ k)
    (m : OrderedMap κ ν) : (l.foldl (fun m p => m.insert p.1 p.2) m).get? k = m.get? k := by
  induction l generalizing m with
  | nil => rfl
  | cons p rest ih =>
    rw [List.foldl_cons, ih fun q hq => h q (List.mem_cons_of_mem _ hq), get?_insert,
      if_neg fun e => h p (List.mem_cons_self ..) e.symm]

/-- A key that is not listed holds nothing. -/
theorem get?_ofList_eq_none {l : List (κ × ν)} {k : κ} (h : ∀ p ∈ l, p.1 ≠ k) :
    (ofList l).get? k = none := by
  rw [ofList, get?_foldl_insert h]
  rfl

/-- A key that is listed with one value only holds that value. -/
theorem get?_ofList {l : List (κ × ν)} {k : κ} {v : ν} (h : (k, v) ∈ l)
    (hunique : ∀ w, (k, w) ∈ l → w = v) : (ofList l).get? k = some v := by
  unfold ofList
  generalize (∅ : OrderedMap κ ν) = m
  induction l generalizing m with
  | nil => cases h
  | cons p rest ih =>
    have hrest : ∀ w, (k, w) ∈ rest → w = v := fun w hw => hunique w (List.mem_cons_of_mem _ hw)
    rw [List.foldl_cons]
    by_cases hmem : (k, v) ∈ rest
    · exact ih hmem hrest _
    · -- The head is the only entry for the key.
      have hp : p = (k, v) := by
        rcases List.mem_cons.mp h with h | h
        · exact h.symm
        · exact absurd h hmem
      have hnone : ∀ q ∈ rest, q.1 ≠ k := by
        intro q hq hk
        obtain ⟨j, w⟩ := q
        cases hk
        rw [hrest w hq] at hq
        exact hmem hq
      rw [get?_foldl_insert hnone, hp, get?_insert, if_pos rfl]

/-- The view determines the map. -/
theorem ext_get? {m n : OrderedMap κ ν} (h : ∀ k, m.get? k = n.get? k) : m = n :=
  OrderedMap.ext (eq_of_find_eq m.ascending n.ascending h)

end OrderedMap

end LinearProgram
