import A100Partitioning.Libsmctrl.Setup
import A100Partitioning.Support.Numerals

/-!
# Handing a mask to a process

`nvtaskset` launches a program with an enable mask printed into its
environment, and changes a running process by writing the disable mask to the
memory they share.  The two agree.
-/

namespace A100Partitioning.Nvtaskset

open Libsmctrl Support

/-! ## The code -/

/-- The conversion `%.0lx`, which prints nothing for zero. -/
def hexNonzero (n : BitVec 64) : List Char :=
  if n = 0 then [] else Nat.toDigits 16 n.toNat

/-- The conversion `%016lx`. -/
def hexPadded (n : BitVec 64) : List Char :=
  (Nat.toDigits 16 n.toNat).leftpad 16 '0'

/-- What the format `~0x%.0lx%016lx` prints for the halves of a mask. -/
def maskFormat (mask : BitVec 128) : List Char :=
  ['~', '0', 'x'] ++ hexNonzero ((mask >>> 64).setWidth 64) ++
    hexPadded (mask.setWidth 64)

/-- `snprintf`, which leaves room for the final null byte. -/
def snprintf (size : ℕ) (text : List Char) : List Char :=
  text.take (size - 1)

/-- The value of `LIBSMCTRL_MASK` for the program to launch. -/
def maskStr (mask : BitVec 128) : List Char := snprintf 36 (maskFormat mask)

/-- Changing the mask of a running process. -/
def changeMask {T S : Type} (mask : BitVec 128) : Event T S :=
  .nvtaskset (~~~ mask)

/-! ## The mask that the program reads -/

/-- The digits that the loop of `strtou128` appends. -/
def hexStep (result : BitVec 128) (c : Char) : BitVec 128 :=
  result <<< 4 ||| BitVec.ofNat 128 ((hexValue c).getD 0)

theorem hexDigits_eq_foldl {cs : List Char}
    (hcs : ∀ c ∈ cs, ∃ d, hexValue c = some d) (result : BitVec 128) :
    hexDigits result cs = (cs.foldl hexStep result, []) := by
  induction cs generalizing result with
  | nil => rfl
  | cons c cs ih =>
      obtain ⟨d, hd⟩ := hcs c List.mem_cons_self
      have hrest := ih fun c hc => hcs c (List.mem_cons_of_mem _ hc)
      simp only [hexDigits, hd, List.foldl_cons, hexStep, Option.getD_some]
      exact hrest _

theorem hexValue_digitChar {d : ℕ} (hd : d < 16) :
    hexValue d.digitChar = some d := by
  interval_cases d <;> rfl

theorem shiftLeft_or_ofNat (n : ℕ) {d : ℕ} (hd : d < 16) :
    BitVec.ofNat 128 n <<< 4 ||| BitVec.ofNat 128 d =
      BitVec.ofNat 128 (16 * n + d) := by
  apply BitVec.eq_of_toNat_eq
  have hshift : (n <<< 4 ||| d) % 2 ^ 128 = (16 * n + d) % 2 ^ 128 := by
    rw [← Nat.shiftLeft_add_eq_or_of_lt (i := 4) hd, Nat.shiftLeft_eq]
    congr 2
    ring
  rw [BitVec.toNat_or, BitVec.toNat_shiftLeft, BitVec.toNat_ofNat,
    BitVec.toNat_ofNat, BitVec.toNat_ofNat, ← hshift, Nat.or_mod_two_pow,
    Nat.shiftLeft_eq, Nat.shiftLeft_eq, Nat.mod_mul_mod]

theorem hexStep_digitChar (n d : ℕ) (hd : d < 16) :
    hexStep (BitVec.ofNat 128 n) d.digitChar = BitVec.ofNat 128 (16 * n + d) := by
  rw [hexStep, hexValue_digitChar hd, Option.getD_some, shiftLeft_or_ofNat n hd]

theorem length_toDigits_le (n : BitVec 64) :
    (Nat.toDigits 16 n.toNat).length ≤ 16 :=
  (Nat.length_toDigits_le_iff (by decide) (by decide)).mpr (by omega)

theorem length_hexPadded (n : BitVec 64) : (hexPadded n).length = 16 := by
  rw [hexPadded, List.length_leftpad, max_eq_left (length_toDigits_le n)]

theorem length_maskFormat_lt (mask : BitVec 128) :
    (maskFormat mask).length < 36 := by
  have hhigh : (hexNonzero ((mask >>> 64).setWidth 64)).length ≤ 16 := by
    rw [hexNonzero]
    split_ifs
    · exact Nat.zero_le _
    · exact length_toDigits_le _
  simp only [maskFormat, List.length_append, length_hexPadded, List.length_cons,
    List.length_nil]
  omega

theorem maskStr_eq (mask : BitVec 128) : maskStr mask = maskFormat mask := by
  rw [maskStr, snprintf, List.take_of_length_le]
  have hlt := length_maskFormat_lt mask
  omega

theorem foldl_hexPadded (result : ℕ) (n : BitVec 64) :
    (hexPadded n).foldl hexStep (BitVec.ofNat 128 result) =
      BitVec.ofNat 128 (16 ^ 16 * result + n.toNat) :=
  foldl_leftpad_toDigits (by decide) hexStep_digitChar (length_toDigits_le n) result

theorem foldl_hexNonzero (n : BitVec 64) :
    (hexNonzero n).foldl hexStep 0 = BitVec.ofNat 128 n.toNat := by
  rw [hexNonzero]
  split_ifs with h
  · rw [h]
    rfl
  · have hread := foldl_toDigits (b := 16) (by decide) hexStep_digitChar 0 n.toNat
    rwa [Nat.mul_zero, Nat.zero_add] at hread

theorem hexValue_of_mem {mask : BitVec 128} {c : Char}
    (hc : c ∈ hexNonzero ((mask >>> 64).setWidth 64) ++
      hexPadded (mask.setWidth 64)) : ∃ d, hexValue c = some d := by
  have hdigit : ∀ n, c ∈ Nat.toDigits 16 n → ∃ d, hexValue c = some d := by
    intro n hn
    obtain ⟨d, hd, rfl⟩ := exists_digitChar_of_mem_toDigits (by decide) hn
    exact ⟨d, hexValue_digitChar hd⟩
  rcases List.mem_append.mp hc with hc | hc
  · rw [hexNonzero] at hc
    split_ifs at hc
    · cases hc
    · exact hdigit _ hc
  · rw [hexPadded, List.leftpad, List.mem_append] at hc
    rcases hc with hc | hc
    · rw [List.eq_of_mem_replicate hc]
      exact ⟨0, rfl⟩
    · exact hdigit _ hc

theorem halves_eq (mask : BitVec 128) :
    BitVec.ofNat 128 (16 ^ 16 * ((mask >>> 64).setWidth 64).toNat +
      (mask.setWidth 64).toNat) = mask := by
  apply BitVec.eq_of_toNat_eq
  rw [BitVec.toNat_ofNat, BitVec.toNat_setWidth, BitVec.toNat_setWidth,
    BitVec.toNat_ushiftRight, Nat.shiftRight_eq_div_pow]
  omega

theorem strtou128_format (mask : BitVec 128) :
    strtou128 ((maskFormat mask).drop 1) = (mask, []) := by
  have hread := hexDigits_eq_foldl (fun c => @hexValue_of_mem mask c) 0
  rw [List.foldl_append, foldl_hexNonzero, foldl_hexPadded, halves_eq] at hread
  exact hread

theorem setupMask_maskStr (mask : BitVec 128) (setenv : Bool) :
    setupMask ⟨some (maskStr mask), setenv⟩ =
      if setenv then .ok (~~~ mask) else .error .environment := by
  have hread := strtou128_format mask
  have hstr : maskStr mask = '~' :: (maskFormat mask).drop 1 := maskStr_eq mask
  rw [hstr, setupMask]
  simp only [Option.getD_some, hread]
  cases setenv <;> rfl

/-- A program that is launched with a mask gets the supreme mask that `-p` gives
to a running process.  The printed mask fits its buffer, and `setup` never
rejects it. -/
theorem launch_agrees_with_change {T S : Type} [DecidableEq T] [DecidableEq S]
    (mask : BitVec 128) :
    (maskFormat mask).length < 36 ∧
    (∀ streams : S → StreamStruct,
      setup (T := T) ⟨some (maskStr mask), false⟩ streams = .error .environment) ∧
    ∀ (streams : S → StreamStruct) (d : Driver) (p : Process T S) (old : BitVec 128),
      p.supreme = some old →
      ∃ launched changed : Process T S,
        setup ⟨some (maskStr mask), true⟩ streams = .ok launched ∧
        p.step d (changeMask mask) = .ok (changed, none) ∧
        launched.supreme = some (~~~ mask) ∧ changed.supreme = some (~~~ mask) := by
  refine ⟨length_maskFormat_lt mask, fun streams => ?_,
    fun streams d p old hold => ?_⟩
  · rw [setup, setupMask_maskStr]
    rfl
  · refine ⟨⟨⟨0, fun _ => 0⟩, streams, some (~~~ mask)⟩,
      { p with supreme := p.supreme.map fun _ => ~~~ mask }, ?_, rfl, rfl, ?_⟩
    · rw [setup, setupMask_maskStr]
      rfl
    · rw [hold]
      rfl

/-- A mask with TPC 64 alone and a process that is restricted to TPC 0. -/
theorem launch_agrees_with_change_next :
    ∃ launched changed : Process Unit Unit,
      setup ⟨some "~0x10000000000000000".toList, true⟩ (fun _ _ => 0) = .ok launched ∧
      (⟨⟨0, fun _ => 0⟩, fun _ _ => 0, some (~~~ 1)⟩ : Process Unit Unit).step
        ⟨.x86_64, 12080, none⟩ (changeMask (1 <<< 64)) = .ok (changed, none) ∧
      launched.supreme = some (~~~ (1 <<< 64 : BitVec 128)) ∧
      changed.supreme = some (~~~ (1 <<< 64 : BitVec 128)) := by
  obtain ⟨-, -, hagree⟩ := launch_agrees_with_change (T := Unit) (S := Unit) (1 <<< 64)
  exact hagree (fun _ _ => 0) ⟨.x86_64, 12080, none⟩
    ⟨⟨0, fun _ => 0⟩, fun _ _ => 0, some (~~~ 1)⟩ (~~~ 1) rfl

end A100Partitioning.Nvtaskset
