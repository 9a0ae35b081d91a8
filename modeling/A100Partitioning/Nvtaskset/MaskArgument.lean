import A100Partitioning.Nvtaskset.Launch

/-!
# Mask strings

`nvtaskset` takes a mask as an argument, and the wrapper library takes one from
`LIBSMCTRL_MASK`.  Both leave the digits to `strtou128` and look only at where it
stopped, so that it matters neither whether there was a digit nor whether all
digits had room.
-/

namespace A100Partitioning.Nvtaskset

open Libsmctrl

/-! ## The code -/

/-- `arg_parser` on a mask in hexadecimal digits.  `argp_error` does not return. -/
def maskArgument (arg : List Char) : Option (BitVec 128) :=
  let (mask, rest) := strtou128 arg
  if rest ≠ [] then none else some mask

/-! ## Strings that denote a mask -/

/-- All characters are hexadecimal digits. -/
def AreHexDigits (digits : List Char) : Prop := ∀ c ∈ digits, ∃ d, hexValue c = some d

/-- The number that hexadecimal digits make up after a number. -/
def hexNumber (n : ℕ) (digits : List Char) : ℕ :=
  digits.foldl (fun n c => 16 * n + (hexValue c).getD 0) n

/-- An optional `0x` or `0X` and at least one digit. -/
def DenotesHex (s : List Char) (n : ℕ) : Prop :=
  ∃ digits, digits ≠ [] ∧ AreHexDigits digits ∧ hexNumber 0 digits = n ∧
    (s = digits ∨ s = '0' :: 'x' :: digits ∨ s = '0' :: 'X' :: digits)

/-- The string denotes a number that fits into a mask. -/
def DenotesMask (s : List Char) (mask : BitVec 128) : Prop :=
  ∃ n, n < 2 ^ 128 ∧ DenotesHex s n ∧ mask = BitVec.ofNat 128 n

/-- The same with an optional `~`, which complements the mask. -/
def DenotesDefaultMask (s : List Char) (mask : BitVec 128) : Prop :=
  DenotesMask s mask ∨
    ∃ body enabled, s = '~' :: body ∧ DenotesMask body enabled ∧ mask = ~~~ enabled

/-- Both parsers accept the string if and only if it denotes a mask, and then
return that mask. -/
structure ParsedExactly (s : List Char) : Prop where
  argument : ∀ mask, maskArgument s = some mask ↔ DenotesMask s mask
  environment : ∀ mask, setupMask ⟨some s, true⟩ = .ok mask ↔ DenotesDefaultMask s mask
  rejected : ∀ setenv, setupMask ⟨some s, setenv⟩ = .error .defaultMask ↔
    ∀ mask, ¬ DenotesDefaultMask s mask

/-! ## The digits -/

/-- What `strtou128` skips. -/
def dropPrefix : List Char → List Char
  | '0' :: 'x' :: cs | '0' :: 'X' :: cs => cs
  | cs => cs

theorem strtou128_eq (s : List Char) : strtou128 s = hexDigits 0 (dropPrefix s) := by
  unfold strtou128
  split
  · rfl
  · rfl
  · rename_i hx hX
    unfold dropPrefix
    split
    · exact (hx _ rfl).elim
    · exact (hX _ rfl).elim
    · rfl

theorem hexValue_lt {c : Char} {d : ℕ} (h : hexValue c = some d) : d < 16 := by
  have hle {c : Char} (b : Char) (hc : c ≤ b) : c.toNat ≤ b.toNat := hc
  rw [hexValue] at h
  split_ifs at h with hlower hupper hdecimal <;> cases h
  · have hc := hle 'f' hlower.2
    simp only [Char.reduceToNat] at hc ⊢
    omega
  · have hc := hle 'F' hupper.2
    simp only [Char.reduceToNat] at hc ⊢
    omega
  · have hc := hle '9' hdecimal.2
    simp only [Char.reduceToNat] at hc ⊢
    omega

theorem foldl_hexStep {digits : List Char} (h : AreHexDigits digits) (n : ℕ) :
    digits.foldl hexStep (BitVec.ofNat 128 n) = BitVec.ofNat 128 (hexNumber n digits) := by
  induction digits generalizing n with
  | nil => rfl
  | cons c cs ih =>
      obtain ⟨d, hd⟩ := h c List.mem_cons_self
      have hstep : hexStep (BitVec.ofNat 128 n) c = BitVec.ofNat 128 (16 * n + d) := by
        rw [hexStep, hd, Option.getD_some, shiftLeft_or_ofNat n (hexValue_lt hd)]
      have hrest := ih (fun c hc => h c (List.mem_cons_of_mem _ hc)) (16 * n + d)
      rw [List.foldl_cons, hstep, hrest, hexNumber, hexNumber, List.foldl_cons, hd,
        Option.getD_some]

theorem hexDigits_of_areHexDigits {digits : List Char} (h : AreHexDigits digits) :
    hexDigits 0 digits = (BitVec.ofNat 128 (hexNumber 0 digits), []) := by
  rw [hexDigits_eq_foldl h]
  exact congrArg (·, []) (foldl_hexStep h 0)

theorem areHexDigits_of_rest {cs : List Char} {result : BitVec 128}
    (h : (hexDigits result cs).2 = []) : AreHexDigits cs := by
  induction cs generalizing result with
  | nil =>
      intro c hc
      cases hc
  | cons c cs ih =>
      rw [hexDigits] at h
      cases hvalue : hexValue c with
      | none =>
          rw [hvalue] at h
          cases h
      | some d =>
          rw [hvalue] at h
          intro c' hc'
          rcases List.mem_cons.mp hc' with rfl | hc'
          · exact ⟨d, hvalue⟩
          · exact ih h c' hc'

theorem maskArgument_eq_some_iff (s : List Char) (mask : BitVec 128) :
    maskArgument s = some mask ↔
      AreHexDigits (dropPrefix s) ∧
        mask = BitVec.ofNat 128 (hexNumber 0 (dropPrefix s)) := by
  rw [maskArgument, strtou128_eq]
  constructor
  · intro h
    have hrest : (hexDigits 0 (dropPrefix s)).2 = [] := by
      by_contra hne
      simp only [if_pos hne] at h
      cases h
    have hdigits := areHexDigits_of_rest hrest
    rw [hexDigits_of_areHexDigits hdigits] at h
    cases h
    exact ⟨hdigits, rfl⟩
  · rintro ⟨hdigits, rfl⟩
    rw [hexDigits_of_areHexDigits hdigits]
    rfl

theorem dropPrefix_of_areHexDigits {digits : List Char} (h : AreHexDigits digits) :
    dropPrefix digits = digits := by
  have hx : ∀ c ∈ ['x', 'X'], c ∉ digits := by
    intro c hc hmem
    obtain ⟨d, hd⟩ := h c hmem
    simp only [List.mem_cons, List.not_mem_nil, or_false] at hc
    rcases hc with rfl | rfl <;> cases hd
  unfold dropPrefix
  split
  · exact absurd (by simp) (hx 'x' (by simp))
  · exact absurd (by simp) (hx 'X' (by simp))
  · rfl

theorem eq_or_of_dropPrefix (s : List Char) :
    s = dropPrefix s ∨ s = '0' :: 'x' :: dropPrefix s ∨ s = '0' :: 'X' :: dropPrefix s := by
  unfold dropPrefix
  split
  · exact .inr (.inl rfl)
  · exact .inr (.inr rfl)
  · exact .inl rfl

theorem denotesHex_iff (s : List Char) (n : ℕ) :
    DenotesHex s n ↔ dropPrefix s ≠ [] ∧ AreHexDigits (dropPrefix s) ∧
      hexNumber 0 (dropPrefix s) = n := by
  constructor
  · rintro ⟨digits, hne, hdigits, hnumber, hs⟩
    have hdrop : dropPrefix s = digits := by
      rcases hs with rfl | rfl | rfl
      · exact dropPrefix_of_areHexDigits hdigits
      · rfl
      · rfl
    rw [hdrop]
    exact ⟨hne, hdigits, hnumber⟩
  · rintro ⟨hne, hdigits, hnumber⟩
    exact ⟨dropPrefix s, hne, hdigits, hnumber, eq_or_of_dropPrefix s⟩

/-! ## The condition -/

/-- There is a digit to read, and no digits that denote too large a number. -/
def HasDigits (s : List Char) : Prop :=
  dropPrefix s ≠ [] ∧
    (AreHexDigits (dropPrefix s) → hexNumber 0 (dropPrefix s) < 2 ^ 128)

theorem maskArgument_iff_of_hasDigits {s : List Char} (h : HasDigits s)
    (mask : BitVec 128) : maskArgument s = some mask ↔ DenotesMask s mask := by
  obtain ⟨hne, hlt⟩ := h
  rw [maskArgument_eq_some_iff]
  constructor
  · rintro ⟨hdigits, rfl⟩
    exact ⟨_, hlt hdigits, (denotesHex_iff s _).mpr ⟨hne, hdigits, rfl⟩, rfl⟩
  · rintro ⟨n, -, hhex, rfl⟩
    obtain ⟨-, hdigits, rfl⟩ := (denotesHex_iff s n).mp hhex
    exact ⟨hdigits, rfl⟩

theorem hasDigits_of_maskArgument {s : List Char}
    (h : ∀ mask, maskArgument s = some mask → DenotesMask s mask) : HasDigits s := by
  have hdenotes (hdigits : AreHexDigits (dropPrefix s)) :
      dropPrefix s ≠ [] ∧ hexNumber 0 (dropPrefix s) < 2 ^ 128 := by
    obtain ⟨n, hlt, hhex, -⟩ := h _ ((maskArgument_eq_some_iff s _).mpr ⟨hdigits, rfl⟩)
    obtain ⟨hne, -, rfl⟩ := (denotesHex_iff s n).mp hhex
    exact ⟨hne, hlt⟩
  refine ⟨?_, fun hdigits => (hdenotes hdigits).2⟩
  intro hnil
  have hdigits : AreHexDigits (dropPrefix s) := by
    intro c hc
    rw [hnil] at hc
    cases hc
  exact (hdenotes hdigits).1 hnil

/-- What `setup` parses. -/
def dropTilde : List Char → List Char
  | '~' :: cs => cs
  | cs => cs

/-- What `setup` makes of the mask. -/
def applyTilde : List Char → BitVec 128 → BitVec 128
  | '~' :: _, mask => ~~~ mask
  | _, mask => mask

theorem tilde_or (s : List Char) :
    (∃ cs, s = '~' :: cs) ∨ dropTilde s = s ∧ ∀ cs, s ≠ '~' :: cs := by
  unfold dropTilde
  split
  · exact .inl ⟨_, rfl⟩
  · rename_i hne
    exact .inr ⟨rfl, hne⟩

theorem applyTilde_of_ne {s : List Char} (h : ∀ cs, s ≠ '~' :: cs) (mask : BitVec 128) :
    applyTilde s mask = mask := by
  unfold applyTilde
  split
  · exact absurd rfl (h _)
  · rfl

theorem setupMask_eq (s : List Char) (setenv : Bool) :
    setupMask ⟨some s, setenv⟩ =
      (maskArgument (dropTilde s)).elim (.error .defaultMask) fun mask =>
        if setenv = false then .error .environment else .ok (applyTilde s mask) := by
  rw [maskArgument]
  unfold setupMask
  simp only [Option.getD_some]
  rcases tilde_or s with ⟨cs, rfl⟩ | ⟨hdrop, hne⟩
  · by_cases hrest : (strtou128 cs).2 = []
    · simp only [dropTilde, hrest, ne_eq, not_true_eq_false, if_false]
      rfl
    · simp only [dropTilde, hrest, ne_eq, not_false_eq_true, if_true]
      rfl
  · rw [hdrop]
    split
    · exact absurd rfl (hne _)
    · by_cases hrest : (strtou128 s).2 = []
      · simp only [hrest, ne_eq, not_true_eq_false, if_false, Option.elim_some,
          applyTilde_of_ne hne]
        rfl
      · simp only [hrest, ne_eq, not_false_eq_true, if_true]
        rfl

theorem setupMask_eq_ok_iff (s : List Char) (mask : BitVec 128) :
    setupMask ⟨some s, true⟩ = .ok mask ↔
      ∃ parsed, maskArgument (dropTilde s) = some parsed ∧ mask = applyTilde s parsed := by
  rw [setupMask_eq]
  cases maskArgument (dropTilde s) with
  | none =>
      constructor
      · intro h
        cases h
      · rintro ⟨parsed, h, -⟩
        cases h
  | some parsed =>
      constructor
      · intro h
        cases h
        exact ⟨parsed, rfl, rfl⟩
      · rintro ⟨parsed', h, rfl⟩
        cases h
        rfl

theorem setupMask_eq_defaultMask_iff (s : List Char) (setenv : Bool) :
    setupMask ⟨some s, setenv⟩ = .error .defaultMask ↔
      maskArgument (dropTilde s) = none := by
  rw [setupMask_eq]
  cases maskArgument (dropTilde s) with
  | none => exact iff_of_true rfl rfl
  | some parsed =>
      apply iff_of_false
      · intro h
        cases setenv <;> cases h
      · intro h
        cases h

theorem not_denotesMask_tilde (cs : List Char) (mask : BitVec 128) :
    ¬ DenotesMask ('~' :: cs) mask := by
  rintro ⟨n, -, hhex, -⟩
  obtain ⟨-, hdigits, -⟩ := (denotesHex_iff _ n).mp hhex
  obtain ⟨d, hd⟩ := hdigits '~' List.mem_cons_self
  cases hd

/-- What a default mask denotes is read off the string behind the `~`. -/
theorem denotesDefaultMask_iff (s : List Char) (mask : BitVec 128) :
    DenotesDefaultMask s mask ↔
      ∃ parsed, DenotesMask (dropTilde s) parsed ∧ mask = applyTilde s parsed := by
  rcases tilde_or s with ⟨cs, rfl⟩ | ⟨hdrop, hne⟩
  · constructor
    · rintro (hplain | ⟨body, enabled, hbody, hdenotes, rfl⟩)
      · exact absurd hplain (not_denotesMask_tilde _ mask)
      · cases hbody
        exact ⟨enabled, hdenotes, rfl⟩
    · rintro ⟨parsed, hdenotes, rfl⟩
      exact .inr ⟨_, parsed, rfl, hdenotes, rfl⟩
  · rw [hdrop]
    constructor
    · rintro (hplain | ⟨body, enabled, hbody, -, -⟩)
      · exact ⟨mask, hplain, (applyTilde_of_ne hne mask).symm⟩
      · exact absurd hbody (hne body)
    · rintro ⟨parsed, hdenotes, rfl⟩
      rw [applyTilde_of_ne hne]
      exact .inl hdenotes

theorem applyTilde_injective (s : List Char) : Function.Injective (applyTilde s) := by
  rcases tilde_or s with ⟨cs, rfl⟩ | ⟨-, hne⟩
  · intro mask mask' h
    exact BitVec.not_inj.mp h
  · intro mask mask' h
    rwa [applyTilde_of_ne hne, applyTilde_of_ne hne] at h

/-- A string is parsed exactly unless there is no digit to read, behind the `~` and the
prefix, or all that is there are digits of too large a number. -/
theorem parsedExactly_iff (s : List Char) : ParsedExactly s ↔ HasDigits (dropTilde s) := by
  constructor
  · intro h
    apply hasDigits_of_maskArgument
    intro mask hmask
    obtain ⟨parsed, hdenotes, heq⟩ := (denotesDefaultMask_iff s _).mp
      ((h.environment _).mp ((setupMask_eq_ok_iff s _).mpr ⟨mask, hmask, rfl⟩))
    rwa [applyTilde_injective s heq]
  · intro h
    have hbody := maskArgument_iff_of_hasDigits h
    refine ⟨?_, ?_, ?_⟩
    · intro mask
      rcases tilde_or s with ⟨cs, rfl⟩ | ⟨hdrop, -⟩
      · refine iff_of_false ?_ (not_denotesMask_tilde _ mask)
        intro hmask
        obtain ⟨d, hd⟩ := ((maskArgument_eq_some_iff _ mask).mp hmask).1 '~'
          List.mem_cons_self
        cases hd
      · rw [← hdrop]
        exact hbody mask
    · intro mask
      rw [setupMask_eq_ok_iff, denotesDefaultMask_iff]
      exact exists_congr fun parsed => and_congr_left' (hbody parsed)
    · intro setenv
      rw [setupMask_eq_defaultMask_iff, Option.eq_none_iff_forall_not_mem]
      constructor
      · intro hnone mask hdenotes
        obtain ⟨parsed, hparsed, -⟩ := (denotesDefaultMask_iff s mask).mp hdenotes
        exact hnone parsed ((hbody parsed).mpr hparsed)
      · intro hnone parsed hparsed
        exact hnone _ ((denotesDefaultMask_iff s _).mpr ⟨parsed, (hbody parsed).mp hparsed, rfl⟩)

/-- An empty argument sets the mask that disables nothing, as does `0x` alone, and the
first of 33 digits is lost. -/
theorem not_parsedExactly :
    maskArgument [] = some 0 ∧ maskArgument ['0', 'x'] = some 0 ∧
      maskArgument ('1' :: List.replicate 32 '0') = some 0 ∧
      ¬ ∀ s, ParsedExactly s := by
  refine ⟨rfl, rfl, by decide, fun h => ?_⟩
  obtain ⟨n, -, ⟨digits, hne, -, -, hs⟩, -⟩ := ((h []).argument 0).mp rfl
  rcases hs with rfl | hs | hs
  · exact hne rfl
  · cases hs
  · cases hs

end A100Partitioning.Nvtaskset
