import LinearProgram.Proofs.Fingerprint.Chunks

/-!
# `LinearProgram.Proofs.Fingerprint.Lanes`: what a lane has taken is not lost

A lane takes a byte by an exclusive or and a multiplication. Where the
byte is known, both can be undone: the prime is odd, so it has an
inverse among the words of 64 bits. Nothing is lost, then, before the
lanes are folded into one word.

* `mix_left_inj` and `mix_right_inj`: a step is one to one in the word
  and in the byte.
* `lane_absorbAll_inj`: what follows cannot make two words of a lane the
  same, whatever it is.
* `DifferOnlyAt` says that two streams differ in one byte. They have a
  common beginning and a common end (`DifferOnlyAt.exists_split`), so
  the byte changes its own lane and no other one.

`changed_byte_kept` sums up, for streams in any chunks.
-/

set_option autoImplicit false

namespace LinearProgram.Fingerprint

/-! ### One step -/

/-- The word that undoes the multiplication by the prime. -/
def primeInverse : UInt64 := 0xce965057aff6957b

theorem mul_prime_inj {a b : UInt64} : a * prime = b * prime ↔ a = b := by
  have hundo : ∀ word : UInt64, word * prime * primeInverse = word := by
    intro word
    rw [UInt64.mul_assoc, show prime * primeInverse = 1 by decide, UInt64.mul_one]
  constructor
  · intro h
    rw [← hundo a, h, hundo b]
  · exact congrArg (· * prime)

theorem mix_left_inj {a b : UInt64} {byte : UInt8} : mix a byte = mix b byte ↔ a = b := by
  rw [mix, mix, mul_prime_inj, UInt64.xor_left_inj]

theorem mix_right_inj {word : UInt64} {a b : UInt8} : mix word a = mix word b ↔ a = b := by
  rw [mix, mix, mul_prime_inj, UInt64.xor_right_inj, UInt8.toUInt64_inj]

/-- The same byte keeps two words of a lane apart. -/
theorem lane_absorb_inj {h h' : Fingerprint} (hposition : h.position = h'.position)
    (byte : UInt8) (k : Fin 4) :
    (h.absorb byte).lane k = (h'.absorb byte).lane k ↔ h.lane k = h'.lane k := by
  rw [lane_absorb, lane_absorb, ← hposition]
  split
  · exact mix_left_inj
  · rfl

/-- Another byte makes another word of the lane whose turn it is. -/
theorem lane_absorb_eq_iff (h : Fingerprint) {a b : UInt8} (hne : a ≠ b) (k : Fin 4) :
    (h.absorb a).lane k = (h.absorb b).lane k ↔ h.position % 4 ≠ k := by
  rw [lane_absorb, lane_absorb]
  by_cases hturn : h.position % 4 = k
  · rw [if_pos hturn, if_pos hturn, mix_right_inj]
    exact ⟨fun heq => absurd heq hne, fun hother => absurd hturn hother⟩
  · rw [if_neg hturn, if_neg hturn]
    exact ⟨fun _ => hturn, fun _ => rfl⟩

/-! ### The rest of the stream -/

theorem lane_absorbAll_inj {h h' : Fingerprint} (hposition : h.position = h'.position)
    (bytes : List UInt8) (k : Fin 4) :
    (h.absorbAll bytes).lane k = (h'.absorbAll bytes).lane k ↔ h.lane k = h'.lane k := by
  induction bytes generalizing h h' with
  | nil => rfl
  | cons byte bytes ih =>
      have hnext : (h.absorb byte).position = (h'.absorb byte).position := by
        rw [position_absorb, position_absorb, hposition]
      show ((h.absorb byte).absorbAll bytes).lane k = ((h'.absorb byte).absorbAll bytes).lane k ↔ _
      rw [ih hnext, lane_absorb_inj hposition]

/-- A byte in the place of another one, with the same bytes before and
behind it. -/
theorem lane_absorbAll_eq_iff (h : Fingerprint) (before behind : List UInt8) {a b : UInt8}
    (hne : a ≠ b) (k : Fin 4) :
    (h.absorbAll (before ++ a :: behind)).lane k = (h.absorbAll (before ++ b :: behind)).lane k
      ↔ (h.position + before.length) % 4 ≠ k := by
  have hstep : ∀ byte, h.absorbAll (before ++ byte :: behind)
      = ((h.absorbAll before).absorb byte).absorbAll behind := fun byte =>
    absorbAll_append h before (byte :: behind)
  have hposition : ((h.absorbAll before).absorb a).position
      = ((h.absorbAll before).absorb b).position := by
    rw [position_absorb, position_absorb]
  rw [hstep, hstep, lane_absorbAll_inj hposition, lane_absorb_eq_iff _ hne, position_absorbAll]

/-! ### Two streams -/

/-- Whether two streams are as long as each other and differ in the byte
with this index and in no other one. -/
structure DifferOnlyAt (i : Nat) (bytes bytes' : List UInt8) : Prop where
  length : bytes.length = bytes'.length
  differ : ∀ j, bytes[j]? ≠ bytes'[j]? ↔ j = i

theorem DifferOnlyAt.exists_split {i : Nat} {bytes bytes' : List UInt8}
    (h : DifferOnlyAt i bytes bytes') :
    ∃ before a b behind, bytes = before ++ a :: behind ∧ bytes' = before ++ b :: behind
      ∧ a ≠ b ∧ before.length = i := by
  have hsame : ∀ j, j ≠ i → bytes[j]? = bytes'[j]? := fun j hj =>
    Decidable.byContradiction fun hdiffer => hj ((h.differ j).mp hdiffer)
  have hi : i < bytes.length := by
    refine Nat.lt_of_not_le fun hle => (h.differ i).mpr rfl ?_
    rw [List.getElem?_eq_none hle, List.getElem?_eq_none (h.length ▸ hle)]
  have hi' : i < bytes'.length := h.length ▸ hi
  have hbefore : bytes'.take i = bytes.take i := by
    refine List.ext_getElem? fun j => ?_
    rw [List.getElem?_take, List.getElem?_take]
    split
    · rename_i hj
      exact (hsame j (Nat.ne_of_lt hj)).symm
    · rfl
  have hbehind : bytes'.drop (i + 1) = bytes.drop (i + 1) := by
    refine List.ext_getElem? fun j => ?_
    rw [List.getElem?_drop, List.getElem?_drop]
    exact (hsame _ (by omega)).symm
  refine ⟨bytes.take i, bytes[i], bytes'[i], bytes.drop (i + 1), ?_, ?_, fun heq => ?_,
    List.length_take_of_le (Nat.le_of_lt hi)⟩
  · rw [← List.drop_eq_getElem_cons hi, List.take_append_drop]
  · rw [← hbefore, ← hbehind, ← List.drop_eq_getElem_cons hi', List.take_append_drop]
  · refine (h.differ i).mpr rfl ?_
    rw [List.getElem?_eq_getElem hi, List.getElem?_eq_getElem hi', heq]

theorem differOnlyAt_append_cons (before behind : List UInt8) {a b : UInt8} (hne : a ≠ b) :
    DifferOnlyAt before.length (before ++ a :: behind) (before ++ b :: behind) := by
  refine ⟨by rw [List.length_append, List.length_append, List.length_cons, List.length_cons],
    fun j => ?_⟩
  rcases Nat.lt_trichotomy j before.length with hj | rfl | hj
  · rw [List.getElem?_append_left hj, List.getElem?_append_left hj]
    exact ⟨fun hdiffer => absurd rfl hdiffer, fun heq => absurd heq (Nat.ne_of_lt hj)⟩
  · simpa using hne
  · obtain ⟨n, rfl⟩ := Nat.exists_eq_add_of_lt hj
    rw [List.getElem?_append_right (Nat.le_of_lt hj), List.getElem?_append_right (Nat.le_of_lt hj),
      show before.length + n + 1 - before.length = n + 1 by omega, List.getElem?_cons_succ,
      List.getElem?_cons_succ]
    exact ⟨fun hdiffer => absurd rfl hdiffer, fun heq => absurd heq (Nat.ne_of_gt hj)⟩

/-- Streams that differ in one byte, each in its own chunks, leave a fresh
state at one position and in one of four lanes with different words: the
lane of the byte. And whatever bytes two states at one position take, a
lane has the same word afterwards exactly if it had the same word before,
so the lanes afterwards determine the lanes before. -/
theorem changed_byte_kept :
    (∀ (chunks chunks' : List (List UInt8)) (i : Nat),
        DifferOnlyAt i chunks.flatten chunks'.flatten →
          (chunks.foldl update start).position = (chunks'.foldl update start).position
            ∧ (chunks.foldl update start).lane (Fin.ofNat 4 i)
                ≠ (chunks'.foldl update start).lane (Fin.ofNat 4 i)
            ∧ ∀ k ≠ Fin.ofNat 4 i,
                (chunks.foldl update start).lane k = (chunks'.foldl update start).lane k)
      ∧ ∀ (h h' : Fingerprint) (bytes : List UInt8), h.position = h'.position →
          ((h.update bytes).lane = (h'.update bytes).lane ↔ h.lane = h'.lane)
            ∧ ∀ k, (h.update bytes).lane k = (h'.update bytes).lane k ↔ h.lane k = h'.lane k := by
  refine ⟨fun chunks chunks' i h => ?_, fun h h' bytes hposition => ?_⟩
  · obtain ⟨before, a, b, behind, hbytes, hbytes', hne, hi⟩ := h.exists_split
    have hlane : ∀ k : Fin 4, (start.absorbAll chunks.flatten).lane k
        = (start.absorbAll chunks'.flatten).lane k ↔ Fin.ofNat 4 i ≠ k := by
      intro k
      rw [hbytes, hbytes', lane_absorbAll_eq_iff start before behind hne, hi, ne_eq, ne_eq,
        Fin.ext_iff, Fin.val_ofNat, show start.position = 0 from rfl, Nat.zero_add]
    rw [foldl_update_eq, foldl_update_eq]
    refine ⟨?_, fun heq => (hlane _).mp heq rfl, fun k hk => (hlane k).mpr hk.symm⟩
    rw [position_absorbAll, position_absorbAll, h.length]
  · have hlane : ∀ k, (h.update bytes).lane k = (h'.update bytes).lane k
        ↔ h.lane k = h'.lane k := by
      intro k
      rw [update_eq, update_eq, lane_absorbAll_inj hposition]
    refine ⟨?_, hlane⟩
    rw [funext_iff, funext_iff]
    exact forall_congr' hlane

/-- The text `x <= 10` in two chunks. -/
def lowerBound : List (List UInt8) := [[120, 32, 60], [61, 32, 49, 48]]

/-- The text `x <= 11` in one chunk. -/
def higherBound : List (List UInt8) := [[120, 32, 60, 61, 32, 49, 49]]

/-- The last digit goes to the third lane, and a first letter that was
taken stays known whatever follows it. -/
theorem lastDigit_kept :
    DifferOnlyAt 6 lowerBound.flatten higherBound.flatten
      ∧ (lowerBound.foldl update start).lane 2 ≠ (higherBound.foldl update start).lane 2
      ∧ (lowerBound.foldl update start).lane 1 = (higherBound.foldl update start).lane 1
      ∧ (start.update [120]).position = (start.update [121]).position
      ∧ ((start.update [120]).update [32, 60, 61, 32, 49]).lane
          ≠ ((start.update [121]).update [32, 60, 61, 32, 49]).lane := by
  have hdiffer : DifferOnlyAt 6 lowerBound.flatten higherBound.flatten :=
    differOnlyAt_append_cons [120, 32, 60, 61, 32, 49] [] (show (48 : UInt8) ≠ 49 by decide)
  obtain ⟨-, hchanged, hsame⟩ := changed_byte_kept.1 _ _ _ hdiffer
  have hposition : (start.update [120]).position = (start.update [121]).position := rfl
  refine ⟨hdiffer, hchanged, hsame 1 (by decide), hposition, fun heq => ?_⟩
  have hlanes := (changed_byte_kept.2 _ _ _ hposition).1.mp heq
  exact absurd (congrFun hlanes 0) (by decide)

end LinearProgram.Fingerprint
