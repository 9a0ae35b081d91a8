import Mathlib

/-!
# Words in bytes

Words of any number of bytes are stored lowest byte first.  What several stores leave
follows from where their words are.
-/

namespace A100Partitioning.Support

/-- A memory by its bytes. -/
abbrev Bytes := ℕ → BitVec 8

variable {w : ℕ}

namespace Bytes

/-- Storing a word. -/
def store (m : Bytes) (off : ℕ) (v : BitVec w) : Bytes := fun a =>
  if off ≤ a ∧ a < off + w / 8 then (v >>> (8 * (a - off))).setWidth 8 else m a

/-- Loading a word. -/
def load (w : ℕ) (m : Bytes) (off : ℕ) : BitVec w :=
  BitVec.ofFnLE fun i => (m (off + i / 8)).getLsbD (i % 8)

/-- Stores one after the other. -/
def storeAll (m : Bytes) (stores : List (ℕ × BitVec w)) : Bytes :=
  stores.foldl (fun m s => m.store s.1 s.2) m

/-- The word at an offset does not have the byte. -/
def Outside (w off a : ℕ) : Prop := a < off ∨ off + w / 8 ≤ a

/-- The words of two stores do not share a byte. -/
def Apart (s t : ℕ × BitVec w) : Prop := s.1 + w / 8 ≤ t.1 ∨ t.1 + w / 8 ≤ s.1

theorem store_of_outside {m : Bytes} {off a : ℕ} (h : Outside w off a) (v : BitVec w) :
    m.store off v a = m a := by
  rw [Outside] at h
  exact if_neg (by omega)

theorem getLsbD_load (m : Bytes) (off i : ℕ) :
    (load w m off).getLsbD i =
      (decide (i < w) && (m (off + i / 8)).getLsbD (i % 8)) := by
  rw [load, BitVec.getLsbD_ofFnLE]
  split_ifs with h <;> simp [h]

theorem load_congr (hw : w % 8 = 0) {m m' : Bytes} {off : ℕ}
    (h : ∀ a, off ≤ a → a < off + w / 8 → m a = m' a) : load w m off = load w m' off := by
  ext i hi
  rw [← BitVec.getLsbD_eq_getElem, ← BitVec.getLsbD_eq_getElem, getLsbD_load, getLsbD_load,
    h (off + i / 8) (by omega) (by omega)]

theorem load_store (hw : w % 8 = 0) (m : Bytes) (off : ℕ) (v : BitVec w) :
    load w (m.store off v) off = v := by
  ext i hi
  have hbyte : off ≤ off + i / 8 ∧ off + i / 8 < off + w / 8 := by omega
  have hbit : 8 * (i / 8) + i % 8 = i := Nat.div_add_mod i 8
  have hlt : i % 8 < 8 := Nat.mod_lt _ (by decide)
  rw [← BitVec.getLsbD_eq_getElem, ← BitVec.getLsbD_eq_getElem, getLsbD_load, store,
    if_pos hbyte, Nat.add_sub_cancel_left, BitVec.getLsbD_setWidth,
    BitVec.getLsbD_ushiftRight, hbit]
  simp [hi, hlt]

theorem store_load (hw : w % 8 = 0) (m : Bytes) (off : ℕ) :
    m.store off (load w m off) = m := by
  funext a
  by_cases ha : off ≤ a ∧ a < off + w / 8
  · rw [store, if_pos ha]
    ext i hi
    have hlt : 8 * (a - off) + i < w := by omega
    have hdiv : (8 * (a - off) + i) / 8 = a - off := by omega
    have hmod : (8 * (a - off) + i) % 8 = i := by omega
    rw [← BitVec.getLsbD_eq_getElem, ← BitVec.getLsbD_eq_getElem, BitVec.getLsbD_setWidth,
      BitVec.getLsbD_ushiftRight, getLsbD_load, hdiv, hmod, Nat.add_sub_of_le ha.1]
    simp [hi, hlt]
  · exact if_neg ha

theorem load_store_of_apart (hw : w % 8 = 0) (m : Bytes) {s t : ℕ × BitVec w}
    (h : Apart s t) : load w (m.store t.1 t.2) s.1 = load w m s.1 := by
  apply load_congr hw
  intro a hfirst hlast
  apply store_of_outside
  rw [Apart] at h
  rw [Outside]
  omega

theorem storeAll_of_outside {m : Bytes} {stores : List (ℕ × BitVec w)} {a : ℕ}
    (h : ∀ s ∈ stores, Outside w s.1 a) : m.storeAll stores a = m a := by
  induction stores generalizing m with
  | nil => rfl
  | cons s stores ih =>
      have hrest := ih (m := m.store s.1 s.2) fun t ht => h t (List.mem_cons_of_mem s ht)
      exact hrest.trans (store_of_outside (h s List.mem_cons_self) s.2)

theorem load_storeAll_of_apart (hw : w % 8 = 0) {m : Bytes} {stores : List (ℕ × BitVec w)}
    {s : ℕ × BitVec w} (h : ∀ t ∈ stores, Apart s t) :
    load w (m.storeAll stores) s.1 = load w m s.1 := by
  induction stores generalizing m with
  | nil => rfl
  | cons t stores ih =>
      have hrest := ih (m := m.store t.1 t.2) fun u hu => h u (List.mem_cons_of_mem t hu)
      exact hrest.trans (load_store_of_apart hw m (h t List.mem_cons_self))

/-- Words that do not overlap are all there in the end, whatever the order. -/
theorem load_storeAll (hw : w % 8 = 0) {m : Bytes} {stores : List (ℕ × BitVec w)}
    (happart : stores.Pairwise Apart) {s : ℕ × BitVec w} (hs : s ∈ stores) :
    load w (m.storeAll stores) s.1 = s.2 := by
  induction stores generalizing m with
  | nil => cases hs
  | cons t stores ih =>
      obtain ⟨hfirst, hrest⟩ := List.pairwise_cons.mp happart
      rcases List.mem_cons.mp hs with rfl | hs
      · exact (load_storeAll_of_apart hw hfirst).trans (load_store hw m s.1 s.2)
      · exact ih hrest hs

end Bytes

end A100Partitioning.Support
