import A100Partitioning.Support.Words

/-!
# Masks at a kernel launch (`libsmctrl.c`)

CUDA describes a launch to the GPU in a TMD.  `control_callback_v2` runs just
before the TMD is uploaded: it replaces the stream's mask in it by the thread's
next mask or by the global mask, and then adds the supreme mask.  In all masks a
set bit disables a TPC.
-/

namespace A100Partitioning.Libsmctrl

open Support

/-! ## The code -/

/-- Reasons for which the library ends the program. -/
inductive Abort where
  /-- "Unsupported CUDA version for callback-based SM masking. Aborting..." -/
  | unsupportedCuda
  /-- "TMD allocation appears NULL; likely forward-compatibilty issue." -/
  | nullTmd
  /-- "TMD version %04o is too old! This GPU does not support SM masking." -/
  | oldTmd (tmdVer : BitVec 8)
  /-- "While performing platform-specific compatibility checks for stream
  masking, CUDA call failed with error '%s'." -/
  | detectParkerSoc
  /-- "Not supported on non-Jetson aarch64." -/
  | nonJetson
  /-- "Total offset cannot be less than 0! Aborting..." -/
  | negativeOffset
  /-- "Stream masking unsupported on this CUDA version (%d), and no fallback
  MASK_OFF set!" -/
  | streamMasking (ver : ℕ)
  /-- "Unable to apply default mask" -/
  | defaultMask
  /-- "Unable to configure environment" -/
  | environment
  deriving DecidableEq, Repr

/-- A TMD, as 32-bit words by their byte offset. -/
abbrev Tmd := ℕ → BitVec 32

/-- The byte at offset 72. -/
def Tmd.version (tmd : Tmd) : BitVec 8 := (tmd 72).setWidth 8

/-- Write a word. -/
def Tmd.store (tmd : Tmd) (off : ℕ) (w : BitVec 32) : Tmd :=
  Function.update tmd off w

/-- The parameters of the callback: their size, and the TMD unless it is NULL. -/
structure InParams where
  size : BitVec 32
  tmd : Option Tmd

/-- `g_sm_mask`, and each thread's `g_next_sm_mask`. -/
structure Globals (T : Type) where
  smMask : BitVec 64
  nextSmMask : T → BitVec 64

variable {T : Type} [DecidableEq T]

/-- The next mask overrides the stream's and the global one; the global mask
applies if no stream mask has been set. -/
def overrideMask (thread : T) (lower upper : ℕ) (g : Globals T) (tmd : Tmd) :
    Globals T × Tmd :=
  if g.nextSmMask thread ≠ 0 then
    ({ g with nextSmMask := Function.update g.nextSmMask thread 0 },
      (tmd.store lower (word (g.nextSmMask thread) 0)).store upper
        (word (g.nextSmMask thread) 1))
  else if tmd lower = 0 ∧ tmd upper = 0 then
    (g, (tmd.store lower (word g.smMask 0)).store upper (word g.smMask 1))
  else (g, tmd)

/-- Nobody may override the supreme mask, which is `none` if there is none.
Another process may change it at any time, so each dereference reads a value of
its own. -/
def applySupreme (supreme : Option (ℕ → BitVec 128)) (lower upper : ℕ)
    (ext : Option (ℕ × ℕ)) (tmd : Tmd) : Tmd :=
  match supreme with
  | none => tmd
  | some read =>
      let tmd := tmd.store lower (tmd lower ||| word (read 0) 0)
      let tmd := tmd.store upper (tmd upper ||| word (read 1) 1)
      match ext with
      | none => tmd
      | some (extLower, extUpper) =>
          let tmd := tmd.store extLower (tmd extLower ||| word (read 2) 2)
          tmd.store extUpper (tmd extUpper ||| word (read 3) 3)

/-- `control_callback_v2`. -/
def controlCallbackV2 (supreme : Option (ℕ → BitVec 128)) (thread : T)
    (g : Globals T) (inParams : InParams) : Except Abort (Globals T × Tmd) :=
  if inParams.size.toNat < 5 * 8 then .error .unsupportedCuda
  else match inParams.tmd with
    | none => .error .nullTmd
    | some tmd =>
        if 0x40 ≤ tmd.version.toNat then
          -- The upper 64 TPCs are disabled for want of 128-bit masks.
          let tmd := (tmd.store 312 (-1)).store 316 (-1)
          -- An enable bit is also required.
          let tmd := tmd.store 0 (tmd 0 ||| 0x80000000)
          let (g, tmd) := overrideMask thread 304 308 g tmd
          .ok (g, applySupreme supreme 304 308 (some (312, 316)) tmd)
        else if 0x16 ≤ tmd.version.toNat then
          let (g, tmd) := overrideMask thread 84 88 g tmd
          .ok (g, applySupreme supreme 84 88 none tmd)
        else .error (.oldTmd tmd.version)

/-! ## What it uploads -/

/-- The mask that a TMD holds from the given offset on. -/
def Tmd.mask (w : ℕ) (tmd : Tmd) (off : ℕ) : BitVec w :=
  ofWords w fun k => tmd (off + 4 * k)

/-- Where the mask lies, by the version. -/
def maskOff (tmdVer : BitVec 8) : ℕ := if 0x40 ≤ tmdVer.toNat then 304 else 84

/-- What the callback makes of the stream's mask. -/
def Globals.chosen (g : Globals T) (thread : T) (stream : BitVec 64) : BitVec 64 :=
  if g.nextSmMask thread ≠ 0 then g.nextSmMask thread
  else if stream = 0 then g.smMask
  else stream

/-- The supreme mask as the callback has read it, word by word. -/
def readBack : Option (ℕ → BitVec 128) → BitVec 128
  | none => 0
  | some read => ofWords 128 fun k => word (read k) k

theorem Tmd.store_self (tmd : Tmd) (off : ℕ) (w : BitVec 32) :
    tmd.store off w off = w := by
  simp [Tmd.store]

theorem Tmd.store_of_ne {tmd : Tmd} {off off' : ℕ} (h : off' ≠ off)
    (w : BitVec 32) : tmd.store off w off' = tmd off' := by
  simp [Tmd.store, h]

theorem Tmd.word_mask {w : ℕ} (tmd : Tmd) (off : ℕ) {k : ℕ}
    (hk : 32 * (k + 1) ≤ w) : word (tmd.mask w off) k = tmd (off + 4 * k) :=
  word_ofWords _ hk

theorem Tmd.mask_eq_zero_iff (tmd : Tmd) (off : ℕ) :
    tmd.mask 64 off = 0 ↔ tmd off = 0 ∧ tmd (off + 4) = 0 := by
  constructor
  · intro h
    have h0 := tmd.word_mask (w := 64) off (k := 0) (by decide)
    have h1 := tmd.word_mask (w := 64) off (k := 1) (by decide)
    rw [h, word_zero] at h0 h1
    exact ⟨h0.symm, h1.symm⟩
  · rintro ⟨h0, h1⟩
    rw [← ofWords_word (0 : BitVec 64)]
    refine ofWords_congr fun k hk => ?_
    rw [word_zero]
    obtain rfl | rfl : k = 0 ∨ k = 1 := by omega
    · exact h0
    · exact h1

theorem overrideMask_fst (thread : T) (lower upper : ℕ) (g : Globals T)
    (tmd : Tmd) :
    (overrideMask thread lower upper g tmd).1 =
      { g with nextSmMask := Function.update g.nextSmMask thread 0 } := by
  rw [overrideMask]
  split_ifs with hnext
  · rfl
  · rw [← not_not.mp hnext, Function.update_eq_self]
  · rw [← not_not.mp hnext, Function.update_eq_self]

theorem overrideMask_of_ne (thread : T) {lower off : ℕ} (g : Globals T)
    (tmd : Tmd) (hlower : off ≠ lower) (hupper : off ≠ lower + 4) :
    (overrideMask thread lower (lower + 4) g tmd).2 off = tmd off := by
  rw [overrideMask]
  split_ifs
  · exact (Tmd.store_of_ne hupper _).trans (Tmd.store_of_ne hlower _)
  · exact (Tmd.store_of_ne hupper _).trans (Tmd.store_of_ne hlower _)
  · rfl

theorem overrideMask_snd (thread : T) (lower : ℕ) (g : Globals T) (tmd : Tmd)
    {k : ℕ} (hk : k < 2) :
    (overrideMask thread lower (lower + 4) g tmd).2 (lower + 4 * k) =
      word (g.chosen thread (tmd.mask 64 lower)) k := by
  have hstore : ∀ m : BitVec 64,
      ((tmd.store lower (word m 0)).store (lower + 4) (word m 1)) (lower + 4 * k) =
        word m k := by
    intro m
    obtain rfl | rfl : k = 0 ∨ k = 1 := by omega
    · rw [Tmd.store_of_ne (by omega)]
      exact Tmd.store_self _ _ _
    · exact Tmd.store_self _ _ _
  have hmask := tmd.mask_eq_zero_iff lower
  rw [overrideMask, Globals.chosen]
  by_cases hnext : g.nextSmMask thread ≠ 0
  · rw [if_pos hnext, if_pos hnext]
    exact hstore _
  rw [if_neg hnext, if_neg hnext]
  by_cases hzero : tmd.mask 64 lower = 0
  · rw [if_pos (hmask.mp hzero), if_pos hzero]
    exact hstore _
  · rw [if_neg (mt hmask.mpr hzero), if_neg hzero,
      tmd.word_mask lower (by omega)]

theorem word_readBack (read : ℕ → BitVec 128) {k : ℕ} (hk : k < 4) :
    word (readBack (some read)) k = word (read k) k :=
  word_ofWords (fun k => word (read k) k) (by omega)

theorem word_readBack_none (k : ℕ) : word (readBack none) k = 0 := word_zero k

/-- The supreme mask as it was read is added to the lower two words. -/
theorem applySupreme_none (supreme : Option (ℕ → BitVec 128)) (lower : ℕ)
    (tmd : Tmd) {k : ℕ} (hk : k < 2) :
    applySupreme supreme lower (lower + 4) none tmd (lower + 4 * k) =
      tmd (lower + 4 * k) ||| word (readBack supreme) k := by
  cases supreme with
  | none => simp [word_readBack_none, applySupreme]
  | some read =>
      rw [word_readBack read (by omega)]
      interval_cases k <;> simp [applySupreme, Tmd.store]

theorem applySupreme_some (supreme : Option (ℕ → BitVec 128)) (lower : ℕ)
    (tmd : Tmd) {k : ℕ} (hk : k < 4) :
    applySupreme supreme lower (lower + 4) (some (lower + 8, lower + 12)) tmd
        (lower + 4 * k) =
      tmd (lower + 4 * k) ||| word (readBack supreme) k := by
  cases supreme with
  | none => simp [word_readBack_none, applySupreme]
  | some read =>
      rw [word_readBack read hk]
      interval_cases k <;> simp [applySupreme, Tmd.store]

/-- What the callback uploads: the chosen mask with the supreme mask added; in a
128-bit mask, the upper half of the chosen mask counts as all ones.  The
thread's next mask is used up. -/
theorem controlCallbackV2_spec {supreme : Option (ℕ → BitVec 128)} {thread : T}
    {g g' : Globals T} {inParams : InParams} {tmd' : Tmd}
    (h : controlCallbackV2 supreme thread g inParams = .ok (g', tmd')) :
    ∃ tmd, inParams.tmd = some tmd ∧ 0x16 ≤ tmd.version.toNat ∧
      g' = { g with nextSmMask := Function.update g.nextSmMask thread 0 } ∧
      (∀ k < 2, tmd' (maskOff tmd.version + 4 * k) =
        word (g.chosen thread (tmd.mask 64 (maskOff tmd.version))) k |||
          word (readBack supreme) k) ∧
      (0x40 ≤ tmd.version.toNat → ∀ k, k = 2 ∨ k = 3 → tmd' (304 + 4 * k) = -1) := by
  rw [controlCallbackV2] at h
  split_ifs at h
  cases htmd : inParams.tmd with
  | none =>
      rw [htmd] at h
      cases h
  | some tmd =>
      rw [htmd] at h
      refine ⟨tmd, rfl, ?_⟩
      simp only at h
      split_ifs at h with hnew hold
      · have hoff : maskOff tmd.version = 304 := if_pos hnew
        generalize hset : (((tmd.store 312 (-1)).store 316 (-1)).store 0 _) = tmd₀
          at h
        have hkeep : tmd₀.mask 64 304 = tmd.mask 64 304 := by
          subst hset
          refine ofWords_congr fun k hk => ?_
          rw [Tmd.store_of_ne (by omega), Tmd.store_of_ne (by omega),
            Tmd.store_of_ne (by omega)]
        cases h
        refine ⟨by omega, overrideMask_fst .., fun k hk => ?_, fun _ k hk => ?_⟩
        · rw [hoff, applySupreme_some _ _ _ (by omega), overrideMask_snd _ _ _ _ hk,
            hkeep]
        · have hones : tmd₀ (304 + 4 * k) = -1 := by
            subst hset
            rcases hk with rfl | rfl <;> simp [Tmd.store]
          rw [applySupreme_some _ _ _ (by omega),
            overrideMask_of_ne _ _ _ (by omega) (by omega), hones]
          exact BitVec.allOnes_or
      · have hoff : maskOff tmd.version = 84 := if_neg hnew
        cases h
        refine ⟨hold, overrideMask_fst .., fun k hk => ?_, fun h => absurd h hnew⟩
        rw [hoff, applySupreme_none _ _ _ hk, overrideMask_snd _ _ _ _ hk]

end A100Partitioning.Libsmctrl
