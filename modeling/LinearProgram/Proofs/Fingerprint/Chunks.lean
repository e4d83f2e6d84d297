import LinearProgram.Fingerprint

/-!
# `LinearProgram.Proofs.Fingerprint.Chunks`: how a stream is cut does not matter

A digest is taken of a stream that arrives in chunks of any length. A
chunk is taken in three phases: single bytes until lane 0 is next,
blocks of four bytes, and what is left. The result is the same as if
every byte of the stream had been taken alone.

* `absorbBlocks_eq`: where lane 0 is next, a block is four bytes.
  `update_eq`: so the phases put together are the stream byte by byte.
* `shareOf` are the bytes at the positions of one lane, and `fnvStep` is
  the FNV-1a step on natural numbers. `lane_absorbAll`: a lane takes its
  share, whatever goes to the other ones.

`update_chunks` sums up, from any state and for any chunks.
-/

set_option autoImplicit false

namespace LinearProgram.Fingerprint

/-! ### Phases of a chunk -/

theorem position_absorb (h : Fingerprint) (byte : UInt8) :
    (h.absorb byte).position = h.position + 1 := by
  unfold absorb
  split <;> rfl

/-- Four bytes taken where lane 0 is next go to the four lanes. -/
theorem absorbAll_block {h : Fingerprint} (hzero : h.position % 4 = 0) (b0 b1 b2 b3 : UInt8) :
    h.absorbAll [b0, b1, b2, b3]
      = ⟨mix h.lane0 b0, mix h.lane1 b1, mix h.lane2 b2, mix h.lane3 b3, h.position + 4⟩ := by
  have hone : (h.position + 1) % 4 = 1 := by omega
  have htwo : (h.position + 1 + 1) % 4 = 2 := by omega
  have hthree : (h.position + 1 + 1 + 1) % 4 = 3 := by omega
  simp only [absorbAll, List.foldl_cons, List.foldl_nil, absorb, hzero, hone, htwo, hthree]

theorem absorbAll_append (h : Fingerprint) (a b : List UInt8) :
    h.absorbAll (a ++ b) = (h.absorbAll a).absorbAll b := List.foldl_append

theorem position_absorbAll (h : Fingerprint) (bytes : List UInt8) :
    (h.absorbAll bytes).position = h.position + bytes.length := by
  induction bytes generalizing h with
  | nil => rfl
  | cons byte bytes ih =>
      show ((h.absorb byte).absorbAll bytes).position = _
      rw [ih, position_absorb, List.length_cons]
      omega

theorem absorbBlocks_eq (h : Fingerprint) (bytes : List UInt8) (hzero : h.position % 4 = 0) :
    h.absorbBlocks bytes = h.absorbAll bytes := by
  fun_induction absorbBlocks h bytes with
  | case1 h b0 b1 b2 b3 rest ih =>
      have hnext : (h.position + 4) % 4 = 0 := by omega
      rw [ih hnext, ← absorbAll_block hzero, ← absorbAll_append]
      rfl
  | case2 => rfl

/-- Behind the lead of a chunk lane 0 is next, unless the chunk ended
before. -/
theorem update_eq (h : Fingerprint) (bytes : List UInt8) : h.update bytes = h.absorbAll bytes := by
  unfold update
  extract_lets lead
  have happ : h.absorbAll bytes
      = (h.absorbAll (bytes.take lead)).absorbAll (bytes.drop lead) := by
    rw [← absorbAll_append, List.take_append_drop]
  rw [happ]
  by_cases hshort : bytes.length ≤ lead
  · rw [List.drop_eq_nil_of_le hshort]
    rfl
  · refine absorbBlocks_eq _ _ ?_
    rw [position_absorbAll, List.length_take]
    omega

theorem update_append (h : Fingerprint) (a b : List UInt8) :
    h.update (a ++ b) = (h.update a).update b := by
  rw [update_eq, update_eq, update_eq, absorbAll_append]

theorem foldl_update_eq (h : Fingerprint) (chunks : List (List UInt8)) :
    chunks.foldl update h = h.absorbAll chunks.flatten := by
  induction chunks generalizing h with
  | nil => rfl
  | cons chunk chunks ih =>
      rw [List.foldl_cons, ih, update_eq, List.flatten_cons, absorbAll_append]

/-! ### Lanes -/

/-- The lane that takes the bytes at the positions with this remainder. -/
def lane (h : Fingerprint) : Fin 4 → UInt64
  | 0 => h.lane0
  | 1 => h.lane1
  | 2 => h.lane2
  | 3 => h.lane3

/-- The FNV-1a step on natural numbers. -/
def fnvStep (word byte : Nat) : Nat := (word ^^^ byte) * 0x100000001b3 % UInt64.size

/-- The bytes of a stream that are for one lane: of four positions one.
The first byte is at `position`. -/
def shareOf (k position : Nat) (bytes : List UInt8) : List UInt8 :=
  ((bytes.zipIdx position).filter fun p => p.2 % 4 = k).map (·.1)

theorem shareOf_cons (k position : Nat) (byte : UInt8) (bytes : List UInt8) :
    shareOf k position (byte :: bytes)
      = if position % 4 = k then byte :: shareOf k (position + 1) bytes
        else shareOf k (position + 1) bytes := by
  unfold shareOf
  rw [List.zipIdx_cons, List.filter_cons]
  by_cases hk : position % 4 = k <;> simp [hk]

theorem toNat_mix (word : UInt64) (byte : UInt8) :
    (mix word byte).toNat = fnvStep word.toNat byte.toNat := by
  rw [mix, UInt64.toNat_mul, UInt64.toNat_xor]
  rfl

/-- A byte changes the lane of its position and no other one. -/
theorem lane_absorb (h : Fingerprint) (byte : UInt8) (k : Fin 4) :
    (h.absorb byte).lane k
      = if h.position % 4 = k then mix (h.lane k) byte else h.lane k := by
  have hcases : h.position % 4 = 0 ∨ h.position % 4 = 1 ∨ h.position % 4 = 2
      ∨ h.position % 4 = 3 := by omega
  have hlanes : k = 0 ∨ k = 1 ∨ k = 2 ∨ k = 3 := by omega
  have hthree : ((3 : Fin 4) : Nat) = 3 := rfl
  rcases hcases with hpos | hpos | hpos | hpos <;> rcases hlanes with rfl | rfl | rfl | rfl <;>
    simp [absorb, hpos, lane, hthree]

theorem lane_absorbAll (h : Fingerprint) (bytes : List UInt8) (k : Fin 4) :
    ((h.absorbAll bytes).lane k).toNat
      = (shareOf k h.position bytes).foldl (fun word byte => fnvStep word byte.toNat)
          (h.lane k).toNat := by
  induction bytes generalizing h with
  | nil => rfl
  | cons byte bytes ih =>
      show (((h.absorb byte).absorbAll bytes).lane k).toNat = _
      rw [ih, position_absorb, lane_absorb, shareOf_cons]
      split
      · rw [toNat_mix, List.foldl_cons]
      · rfl

/-- A stream in chunks leaves the same state as the stream byte by byte,
from any state. Each lane takes the bytes at its positions by itself, so
what a text is filed under depends on its bytes and not on how they were
handed over. -/
theorem update_chunks (h : Fingerprint) (chunks : List (List UInt8)) :
    chunks.foldl update h = chunks.flatten.foldl absorb h
      ∧ (chunks.foldl update h).position = h.position + chunks.flatten.length
      ∧ (∀ k : Fin 4, ((chunks.foldl update h).lane k).toNat
          = (shareOf k h.position chunks.flatten).foldl (fun word byte => fnvStep word byte.toNat)
              (h.lane k).toNat)
      ∧ (∀ a b, h.update (a ++ b) = (h.update a).update b)
      ∧ ∀ text, bytesOf text = chunks.flatten → ofText text = (chunks.foldl update start).hex := by
  have hall : chunks.foldl update h = h.absorbAll chunks.flatten := foldl_update_eq h chunks
  refine ⟨hall, ?_, fun k => ?_, update_append h, fun text htext => ?_⟩
  · rw [hall, position_absorbAll]
  · rw [hall, lane_absorbAll]
  · rw [ofText, htext, update_eq, foldl_update_eq]

/-- The text `abcde` in three chunks, of which one is empty. -/
def cutAlphabet : List (List UInt8) := [[97, 98, 99], [], [100, 101]]

/-- The first byte of the last chunk goes to the last lane. -/
theorem cutAlphabet_absorbed :
    bytesOf "abcde" = cutAlphabet.flatten
      ∧ ofText "abcde" = (cutAlphabet.foldl update start).hex
      ∧ ((cutAlphabet.foldl update start).lane 3).toNat = fnvStep basis.toNat 100 := by
  have hbytes : bytesOf "abcde" = cutAlphabet.flatten := by decide
  obtain ⟨-, -, hlane, -, htext⟩ := update_chunks start cutAlphabet
  refine ⟨hbytes, htext _ hbytes, ?_⟩
  rw [hlane]
  decide

end LinearProgram.Fingerprint
