import LinearProgram.Fingerprint
import LinearProgram.Proofs.Cache.ReadBack

/-!
# `LinearProgram.Proofs.Cache.Beside`: files of a cache that are left alone

The files of all keys lie below one directory, each at a path of its own,
so that filling a slot changes no other slot.

* `isStep_hex`: a digest is the name of a directory. It is made of digits,
  and there are sixteen of them or more.
* `exists_base`: where the files of any key are.
* `Contains.writeText_beside`: a slot goes on being read if something is
  stored for another key or under another name, successfully or not.
* `Contains.store_beside` and `Contains.offerFeasible`: so it does if
  another slot is filled.
-/

set_option autoImplicit false

namespace LinearProgram

/-- What holds after one action, and is kept by those that follow it, holds
after all of them, also if they fail on the way. -/
theorem Action.snd_bind {σ ε α β : Type} {x : Action σ ε α} {f : α → Action σ ε β} {P : σ → Prop}
    {s : σ} (hx : P (x s).2) (hf : ∀ a s', P s' → P (f a s').2) : P ((x >>= f) s).2 := by
  rw [Action.bind_apply]
  rcases hstep : x s with ⟨e | a, s'⟩
  · rwa [hstep] at hx
  · rw [hstep] at hx
    exact hf a s' hx

/-! ### Digests as names -/

namespace Fingerprint

/-- The digits of which a digest is made. -/
def digits : List Char := "0123456789abcdef".toList

theorem mem_toDigits {n : Nat} {c : Char} (h : c ∈ Nat.toDigits 16 n) : c ∈ digits := by
  have hdigit : ∀ d < 16, Nat.digitChar d ∈ digits := by decide
  -- The last digit is the remainder, and the others are those of the quotient.
  induction n using Nat.strongRecOn with
  | ind n ih =>
      rw [Nat.toDigits_eq_if (by decide)] at h
      split at h
      · rename_i hlt
        rw [List.mem_singleton.mp h]
        exact hdigit n hlt
      · rename_i hge
        rcases List.mem_append.mp h with h | h
        · exact ih (n / 16) (Nat.div_lt_self (by omega) (by decide)) h
        · rw [List.mem_singleton.mp h]
          exact hdigit _ (Nat.mod_lt _ (by decide))

theorem mem_hex {h : Fingerprint} {c : Char} (hc : c ∈ h.hex.toList) : c ∈ digits := by
  rw [hex, String.toList_ofList] at hc
  rcases List.mem_append.mp hc with hc | hc
  · rw [List.eq_of_mem_replicate hc]
    decide
  · exact mem_toDigits hc

theorem length_hex (h : Fingerprint) : 16 ≤ h.hex.toList.length := by
  rw [hex, String.toList_ofList, List.length_append, List.length_replicate]
  omega

/-- A digest is one step of a path. -/
theorem ofText_hex (h : Fingerprint) : Path.ofText h.hex = [h.hex] := by
  have hslash : '/' ∉ h.hex.toList := fun hc => absurd (mem_hex hc) (by decide)
  rw [Path.ofText, List.splitOn_eq_singleton hslash, List.map_singleton, String.ofList_toList]

/-- And that step leads down. -/
theorem isStep_hex (h : Fingerprint) : Path.IsStep h.hex := by
  have hne : ∀ part : String, part.toList.length < 16 → h.hex ≠ part := by
    rintro part hlt rfl
    exact absurd h.length_hex (Nat.not_le.mpr hlt)
  have hempty := hne "" (by decide)
  have hpoint := hne "." (by decide)
  exact ⟨by simp [Path.stays, hempty, hpoint], hne ".." (by decide)⟩

end Fingerprint

namespace Cache

/-- The files of all keys are two steps below one directory. -/
theorem exists_base (c : Cache) : ∃ base : Path, ∀ text part,
    (c.directory (Fingerprint.ofText text)).join [part]
      = base ++ [Fingerprint.ofText text, part] := by
  refine ⟨if c.root.endsInSlash then c.root.dropLast else c.root, fun text part => ?_⟩
  rw [directory, Fingerprint.ofText]
  generalize Fingerprint.start.update (Fingerprint.bytesOf text) = h
  -- The directory of a key ends in the key, so a slash is put behind it.
  have hopen : ∀ base : Path, (base ++ [h.hex]).endsInSlash = false := by
    intro base
    rw [Path.endsInSlash, List.getLast?_concat]
    refine beq_eq_false_iff_ne.mpr fun heq => ?_
    have hstep := h.isStep_hex.1
    rw [Option.some.inj heq] at hstep
    exact absurd hstep (by decide)
  rw [h.ofText_hex, Path.join_singleton, Path.join_singleton, hopen, if_neg Bool.false_ne_true,
    List.append_assoc]
  rfl

section Storing

variable {δ : Type} [Storage δ]

/-- Whether the slot for a text has a content. -/
def Contains (c : Cache) (slot : Slot) (text content : String) (files : δ) : Prop :=
  readText files (c.slotPath slot (Fingerprint.ofText text)) = .ok content

variable [LawfulStorage δ] {c : Cache} {slot slot' : Slot} {text text' content : String}
  {files : δ}

/-- A digest and a name lead two steps down. -/
theorem isDescent_ofText (text : String) {part : String} (hpart : Path.IsStep part) :
    Path.IsDescent [Fingerprint.ofText text, part] := by
  refine ⟨List.cons_ne_nil _ _, fun step hstep => ?_⟩
  rcases List.mem_cons.mp hstep with rfl | hstep
  · exact Fingerprint.isStep_hex _
  · exact List.mem_singleton.mp hstep ▸ hpart

/-- A slot stays as it is if a text is stored for another key, or under
another name. -/
theorem Contains.writeText_beside (h : c.Contains slot text content files) {part : String}
    (hpart : Path.IsStep part)
    (hne : Fingerprint.ofText text' = Fingerprint.ofText text → part ≠ slot.file)
    (other : String) :
    c.Contains slot text content
      (writeText ((c.directory (Fingerprint.ofText text')).join [part]) other files).2 := by
  obtain ⟨base, hbase⟩ := c.exists_base
  rw [Contains, slotPath, hbase] at h ⊢
  rw [hbase]
  refine readText_of_writeText_beside (isDescent_ofText text slot.isStep_file)
    (isDescent_ofText text' hpart) (fun heq => ?_) h other
  obtain ⟨hkey, hfile⟩ := List.cons.inj heq
  exact hne hkey.symm (List.head_eq_of_cons_eq hfile).symm

/-- A slot stays as it is if another one is filled. -/
theorem Contains.store_beside (h : c.Contains slot text content files)
    (hne : Fingerprint.ofText text' = Fingerprint.ofText text → slot' ≠ slot)
    (s : Solution) (model : Option String) :
    c.Contains slot text content (c.store slot' (Fingerprint.ofText text') s model files).2 := by
  have hmake : c.Contains slot text content
      (Storage.createDirectories (c.directory (Fingerprint.ofText text')) files).2 :=
    readText_of_createDirectories h _
  refine Action.snd_bind (P := c.Contains slot text content) hmake fun _ _ hmade => ?_
  refine Action.snd_bind (P := c.Contains slot text content)
    (hmade.writeText_beside slot'.isStep_file
      (fun hkey hfile => hne hkey (Slot.file_injective hfile)) _) fun _ _ hslot => ?_
  -- The text of the model is in no slot, whatever its key is.
  cases model with
  | none => exact hslot
  | some model =>
      exact hslot.writeText_beside isStep_model (fun _ => slot.file_ne_model.symm) model

/-- A slot stays as it is if a solution is offered that does not go there. -/
theorem Contains.offerFeasible (h : c.Contains slot text content files)
    (hne : Fingerprint.ofText text' = Fingerprint.ofText text → Slot.feasible ≠ slot)
    (sense : Sense) (s : Solution) (model : Option String) :
    c.Contains slot text content
      (c.offerFeasible (Fingerprint.ofText text') s sense model files).2 := by
  have hstore : c.Contains slot text content
      (c.store .feasible (Fingerprint.ofText text') s model files).2 :=
    h.store_beside hne s model
  unfold Cache.offerFeasible
  split
  · exact h
  · exact h
  · split
    · rename_i heq
      rwa [heq] at hstore
    · rename_i heq
      rwa [heq] at hstore

end Storing

end Cache

end LinearProgram
