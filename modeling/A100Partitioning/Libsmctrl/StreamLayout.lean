import A100Partitioning.Libsmctrl.Process
import A100Partitioning.Support.ByteMemory

/-!
# The mask in the stream struct

The stream struct belongs to CUDA, and only a table says where a driver version keeps
the mask in it.  This module follows the stores byte by byte.
-/

namespace A100Partitioning.Libsmctrl

open Support

/-! ## The code -/

/-- The offsets for the stream struct on x86_64, for the versions that their names and
comments tell. -/
def cuMaskOff : List (ℕ × HwMask) :=
  [(8000, .v1 0xec), (9000, .v1 0x130), (9010, .v1 0x130), (9020, .v1 0x140),
    (10000, .v1 0x244), (10010, .v1 0x244), (10020, .v1 0x244), (11000, .v1 0x274),
    (11010, .v1 0x2c4), (11020, .v1 0x37c), (11030, .v1 0x37c), (11040, .v1 0x37c),
    (11050, .v1 0x37c), (11060, .v1 0x38c), (11070, .v1 0x3c4), (11080, .v1 0x47c),
    (12000, .v2 0x4cc), (12010, .v2 0x4cc), (12020, .v2 0x4e4), (12030, .v2 0x49c),
    (12040, .v2 0x4ac), (12050, .v2 0x4ec), (12060, .v2 0x4ec), (12070, .v2 0x4fc),
    (12080, .v2 0x4fc), (13000, .v2 0x51c)]

/-- The offsets on Jetson boards, except for CUDA 9.0. -/
def cuMaskOffJetson : List (ℕ × HwMask) :=
  [(10020, .v1 0x24c), (11040, .v1 0x394), (12020, .v2 0x50c), (12040, .v2 0x4c4),
    (12050, .v2 0x50c), (12060, .v2 0x514)]

/-- The table of the offsets.  On aarch64, CUDA 9.0 is only supported on the Parker SoC. -/
def maskOffTable : Platform → ℕ → Option HwMask
  | .x86_64, version => cuMaskOff.lookup version
  | .aarch64 isParker, version =>
      if version = 9000 then if isParker = some true then some (.v1 0x128) else none
      else cuMaskOffJetson.lookup version

/-- The stores to the stream struct, in their order. -/
def HwMask.stores (hw : HwMask) (mask : BitVec 128) : List (ℕ × BitVec 32) :=
  match hw with
  | .v1 base => [(base, word mask 1), (base + 4, word mask 0)]
  | .v2 base =>
      [(base, 1), (base + 4, word mask 0), (base + 8, word mask 1), (base + 12, word mask 2),
        (base + 16, word mask 3)]

/-- `libsmctrl_set_stream_mask_ext`: what it stores, and whether it aborts then. -/
def setStreamMaskStores (d : Driver) (mask : BitVec 128) :
    List (ℕ × BitVec 32) × Option Abort :=
  match d.hwMask with
  | .error e => ([], some e)
  | .ok hw => (hw.stores mask, none)

/-- The stream struct afterwards. -/
def structAfter (d : Driver) (struct : Bytes) (mask : BitVec 128) : Bytes :=
  struct.storeAll (setStreamMaskStores d mask).1

/-! ## The words -/

/-- The stream struct by its words. -/
def structWords (struct : Bytes) : StreamStruct := struct.load 32

theorem HwMask.pairwise_stores (hw : HwMask) (mask : BitVec 128) :
    (hw.stores mask).Pairwise Bytes.Apart := by
  cases hw <;> simp [HwMask.stores, Bytes.Apart]

theorem HwMask.write_of_mem {hw : HwMask} {mask : BitVec 128} {s : ℕ × BitVec 32}
    (hs : s ∈ hw.stores mask) (stream : StreamStruct) : hw.write stream mask s.1 = s.2 := by
  cases hw with
  | v1 base =>
      simp only [HwMask.stores, List.mem_cons, List.not_mem_nil, or_false] at hs
      rcases hs with rfl | rfl <;> simp [HwMask.write]
  | v2 base =>
      simp only [HwMask.stores, List.mem_cons, List.not_mem_nil, or_false] at hs
      rcases hs with rfl | rfl | rfl | rfl | rfl <;> simp [HwMask.write]

theorem HwMask.write_of_not_mem {hw : HwMask} {mask : BitVec 128} {off : ℕ}
    (hoff : ∀ s ∈ hw.stores mask, s.1 ≠ off) (stream : StreamStruct) :
    hw.write stream mask off = stream off := by
  cases hw <;>
    simp only [HwMask.stores, List.forall_mem_cons, ne_comm, List.not_mem_nil, ne_eq,
      false_imp_iff, implies_true, and_true] at hoff <;>
    simp [HwMask.write, hoff]

theorem structWords_storeAll (hw : HwMask) (struct : Bytes) (mask : BitVec 128) {off : ℕ}
    (haligned : ∀ s ∈ hw.stores mask, s.1 % 4 = off % 4) :
    structWords (struct.storeAll (hw.stores mask)) off =
      hw.write (structWords struct) mask off := by
  by_cases hmem : ∃ s ∈ hw.stores mask, s.1 = off
  · obtain ⟨s, hs, rfl⟩ := hmem
    rw [HwMask.write_of_mem hs]
    exact Bytes.load_storeAll rfl (hw.pairwise_stores mask) hs
  · have hne (s : ℕ × BitVec 32) (hs : s ∈ hw.stores mask) : s.1 ≠ off :=
      fun heq => hmem ⟨s, hs, heq⟩
    rw [HwMask.write_of_not_mem hne]
    apply Bytes.load_storeAll_of_apart (s := (off, 0)) rfl
    intro s hs
    have hmod := haligned s hs
    have hoff := hne s hs
    rw [Bytes.Apart]
    omega

/-- Setting a mask by words is what the stores do to the bytes. -/
theorem structWords_structAfter {d : Driver} {struct : Bytes} {stream' : StreamStruct}
    {mask : BitVec 128} (h : setStreamMaskExt d (structWords struct) mask = .ok stream')
    {off : ℕ} (haligned : ∀ s ∈ (setStreamMaskStores d mask).1, s.1 % 4 = off % 4) :
    structWords (structAfter d struct mask) off = stream' off := by
  rw [setStreamMaskExt] at h
  rw [structAfter]
  rw [setStreamMaskStores] at haligned ⊢
  cases hhw : d.hwMask with
  | error e =>
      rw [hhw] at h
      cases h
  | ok hw =>
      rw [hhw] at h haligned
      cases h
      exact structWords_storeAll hw struct mask haligned

/-- The bits of the mask that the layout has. -/
def HwMask.width : HwMask → ℕ
  | .v1 _ => 64
  | .v2 _ => 128

/-- Where the words of the mask are. -/
def HwMask.wordOff : HwMask → ℕ → ℕ
  | .v1 base, k => if k = 0 then base + 4 else base
  | .v2 base, k => base + 4 + 4 * k

/-- The mask read back from the struct is the one that was set. -/
def HwMask.Holds (hw : HwMask) (struct : Bytes) (mask : BitVec 128) : Prop :=
  ofWords hw.width (fun k => structWords struct (hw.wordOff k)) = mask.setWidth hw.width

/-- The byte belongs neither to the mask nor to the enable word. -/
def HwMask.Outside : HwMask → ℕ → Prop
  | .v1 base, a => a < base ∨ base + 8 ≤ a
  | .v2 base, a => a < base ∨ base + 20 ≤ a

theorem HwMask.holds_iff (hw : HwMask) (struct : Bytes) (mask : BitVec 128) :
    hw.Holds struct mask ↔
      ∀ k, 32 * (k + 1) ≤ hw.width → structWords struct (hw.wordOff k) = word mask k := by
  constructor
  · intro h k hk
    have hword := congrArg (word · k) h
    rwa [word_ofWords _ hk, word_setWidth mask hk] at hword
  · intro h
    rw [HwMask.Holds, ← ofWords_word (mask.setWidth hw.width)]
    apply ofWords_congr
    intro k hk
    have hfits : 32 * (k + 1) ≤ hw.width := by
      cases hw <;> simp only [HwMask.width] at hk ⊢ <;> omega
    rw [h k hfits, word_setWidth mask hfits]

theorem HwMask.mem_stores (hw : HwMask) (mask : BitVec 128) {k : ℕ}
    (hk : 32 * (k + 1) ≤ hw.width) : (hw.wordOff k, word mask k) ∈ hw.stores mask := by
  cases hw with
  | v1 base =>
      simp only [HwMask.width] at hk
      obtain rfl | rfl : k = 0 ∨ k = 1 := by omega
      all_goals simp [HwMask.stores, HwMask.wordOff]
  | v2 base =>
      simp only [HwMask.width] at hk
      obtain rfl | rfl | rfl | rfl : k = 0 ∨ k = 1 ∨ k = 2 ∨ k = 3 := by omega
      all_goals simp [HwMask.stores, HwMask.wordOff]

theorem HwMask.holds_storeAll (hw : HwMask) (struct : Bytes) (mask : BitVec 128) :
    hw.Holds (struct.storeAll (hw.stores mask)) mask := by
  rw [HwMask.holds_iff]
  intro k hk
  have hload := Bytes.load_storeAll (m := struct) rfl (hw.pairwise_stores mask)
    (hw.mem_stores mask hk)
  exact hload

theorem HwMask.fst_stores (hw : HwMask) (mask : BitVec 128) :
    (hw.stores mask).map Prod.fst =
      match hw with
      | .v1 base => [base, base + 4]
      | .v2 base => [base, base + 4, base + 8, base + 12, base + 16] := by
  cases hw <;> rfl

theorem HwMask.outside_stores {hw : HwMask} {a : ℕ} (h : hw.Outside a) {mask : BitVec 128}
    {s : ℕ × BitVec 32} (hs : s ∈ hw.stores mask) : Bytes.Outside 32 s.1 a := by
  have hoff : s.1 ∈ (hw.stores mask).map Prod.fst := List.mem_map_of_mem hs
  rw [HwMask.fst_stores] at hoff
  rw [Bytes.Outside]
  cases hw <;>
    simp only [List.mem_cons, List.not_mem_nil, or_false, HwMask.Outside] at hoff h <;>
    omega

/-! ## The table -/

/-- Without `MASK_OFF`, a mask goes where the table says and nowhere else, and nothing is
stored for a version that is not in the table. -/
def SetsExactly (platform : Platform) (version : ℕ) (struct : Bytes) (mask : BitVec 128) :
    Prop :=
  let d : Driver := ⟨platform, version, none⟩
  match maskOffTable platform version with
  | none => (setStreamMaskStores d mask).1 = [] ∧ (setStreamMaskStores d mask).2 ≠ none
  | some hw =>
      (setStreamMaskStores d mask).2 = none ∧
        (∀ a, hw.Outside a → structAfter d struct mask a = struct a) ∧
        hw.Holds (structAfter d struct mask) mask

theorem hwMask_x86_64 {version : ℕ} (h : version ≠ 8000) :
    hwMask .x86_64 version = .ok (maskOffTable .x86_64 version) := by
  unfold hwMask
  split
  · exact absurd rfl h
  all_goals try rfl
  all_goals try contradiction
  refine congrArg Except.ok (List.lookup_eq_none_iff.mpr ?_).symm
  simp_all [cuMaskOff]

theorem hwMask_aarch64 (isParker : Option Bool) {version : ℕ} (h : version ≠ 9000) :
    hwMask (.aarch64 isParker) version = .ok (maskOffTable (.aarch64 isParker) version) := by
  unfold hwMask
  split
  all_goals try rfl
  all_goals try contradiction
  rw [maskOffTable, if_neg h]
  refine congrArg Except.ok (List.lookup_eq_none_iff.mpr ?_).symm
  simp_all [cuMaskOffJetson]

/-- The `switch` has led to what the table says. -/
structure FollowsTable (platform : Platform) (version : ℕ) : Prop where
  supported : ∀ hw, maskOffTable platform version = some hw →
    (⟨platform, version, none⟩ : Driver).hwMask = .ok hw
  unsupported : maskOffTable platform version = none →
    ∃ e, (⟨platform, version, none⟩ : Driver).hwMask = .error e

theorem followsTable_of_eq {platform : Platform} {version : ℕ}
    (h : hwMask platform version = .ok (maskOffTable platform version)) :
    FollowsTable platform version := by
  constructor
  · intro hw hsome
    rw [Driver.hwMask, h, hsome]
    rfl
  · intro hnone
    rw [Driver.hwMask, h, hnone]
    exact ⟨.streamMasking version, rfl⟩

theorem followsTable_of_error {platform : Platform} {version : ℕ} {e : Abort}
    (h : hwMask platform version = .error e) (htable : maskOffTable platform version = none) :
    FollowsTable platform version := by
  constructor
  · intro hw hsome
    rw [htable] at hsome
    cases hsome
  · intro _
    rw [Driver.hwMask, h]
    exact ⟨e, rfl⟩

theorem followsTable {platform : Platform} {version : ℕ}
    (h : platform = .x86_64 → version ≠ 8000) : FollowsTable platform version := by
  cases platform with
  | x86_64 => exact followsTable_of_eq (hwMask_x86_64 (h rfl))
  | aarch64 isParker =>
      by_cases hversion : version = 9000
      · rw [hversion]
        cases isParker with
        | none => exact followsTable_of_error rfl rfl
        | some b =>
            cases b with
            | false => exact followsTable_of_error rfl rfl
            | true => exact followsTable_of_eq rfl
      · exact followsTable_of_eq (hwMask_aarch64 isParker hversion)

/-- With the case for 8000, the mask for 9000 is written as well. -/
theorem structAfter_8000 (struct : Bytes) (mask : BitVec 128) :
    structAfter ⟨.x86_64, 8000, none⟩ struct mask =
      struct.storeAll ((HwMask.v1 0x130).stores mask) := rfl

theorem storeAll_of_holds {base : ℕ} {struct : Bytes} {mask : BitVec 128}
    (h : (HwMask.v1 base).Holds struct mask) :
    struct.storeAll ((HwMask.v1 base).stores mask) = struct := by
  rw [HwMask.holds_iff] at h
  have hupper : struct.load 32 base = word mask 1 := h 1 (le_refl 64)
  have hlower : struct.load 32 (base + 4) = word mask 0 := h 0 (by decide : 32 ≤ 64)
  have hfirst : struct.store base (word mask 1) = struct := by
    rw [← hupper]
    exact Bytes.store_load rfl struct base
  have hsecond : struct.store (base + 4) (word mask 0) = struct := by
    rw [← hlower]
    exact Bytes.store_load rfl struct (base + 4)
  have hall : struct.storeAll ((HwMask.v1 base).stores mask) =
      (struct.store base (word mask 1)).store (base + 4) (word mask 0) := rfl
  rw [hall, hfirst, hsecond]

theorem HwMask.holds_congr {hw : HwMask} {struct struct' : Bytes} {mask : BitVec 128}
    (h : ∀ a, ¬ hw.Outside a → struct' a = struct a) :
    hw.Holds struct' mask ↔ hw.Holds struct mask := by
  have hword (k : ℕ) (hk : 32 * k < hw.width) :
      structWords struct' (hw.wordOff k) = structWords struct (hw.wordOff k) := by
    apply Bytes.load_congr rfl
    intro a hfirst hlast
    apply h
    cases hw with
    | v1 base =>
        simp only [HwMask.width, HwMask.wordOff, HwMask.Outside] at hk hfirst hlast ⊢
        split_ifs at hfirst hlast <;> omega
    | v2 base =>
        simp only [HwMask.width, HwMask.wordOff, HwMask.Outside] at hk hfirst hlast ⊢
        omega
  rw [HwMask.Holds, HwMask.Holds, ofWords_congr hword]

/-- A mask is set exactly unless the library is for x86_64 and the driver is CUDA 8.0.
Then it is set exactly only if it is already there, as well as at the offset for CUDA 9.0. -/
theorem setsExactly_iff (platform : Platform) (version : ℕ) (struct : Bytes)
    (mask : BitVec 128) :
    SetsExactly platform version struct mask ↔
      (platform = .x86_64 → version = 8000 →
        (HwMask.v1 0xec).Holds struct mask ∧ (HwMask.v1 0x130).Holds struct mask) := by
  by_cases h8000 : platform = .x86_64 ∧ version = 8000
  · obtain ⟨rfl, rfl⟩ := h8000
    have hsets : SetsExactly .x86_64 8000 struct mask ↔
        none = none ∧
        (∀ a, (HwMask.v1 0xec).Outside a →
          structAfter ⟨.x86_64, 8000, none⟩ struct mask a = struct a) ∧
        (HwMask.v1 0xec).Holds (structAfter ⟨.x86_64, 8000, none⟩ struct mask) mask := Iff.rfl
    have hkept : (HwMask.v1 0xec).Holds (structAfter ⟨.x86_64, 8000, none⟩ struct mask) mask ↔
        (HwMask.v1 0xec).Holds struct mask := by
      apply HwMask.holds_congr
      intro a ha
      rw [structAfter_8000]
      apply Bytes.storeAll_of_outside
      intro s hs
      apply HwMask.outside_stores _ hs
      simp only [HwMask.Outside] at ha ⊢
      omega
    have hframe : (∀ a, (HwMask.v1 0xec).Outside a →
          structAfter ⟨.x86_64, 8000, none⟩ struct mask a = struct a) ↔
        (HwMask.v1 0x130).Holds struct mask := by
      rw [structAfter_8000]
      constructor
      · intro hsame
        refine (HwMask.holds_congr ?_).mp (HwMask.holds_storeAll (.v1 0x130) struct mask)
        intro a ha
        apply hsame
        simp only [HwMask.Outside] at ha ⊢
        omega
      · intro hholds a _
        rw [storeAll_of_holds hholds]
    rw [hsets, hkept, hframe]
    constructor
    · exact fun h _ _ => ⟨h.2.2, h.2.1⟩
    · exact fun h => ⟨rfl, (h rfl rfl).2, (h rfl rfl).1⟩
  · refine iff_of_true ?_ fun hplatform hversion => (h8000 ⟨hplatform, hversion⟩).elim
    obtain ⟨hsome, hnone⟩ := followsTable
      fun hplatform hversion => h8000 ⟨hplatform, hversion⟩
    rw [SetsExactly]
    cases htable : maskOffTable platform version with
    | none =>
        obtain ⟨e, he⟩ := hnone htable
        simp only [setStreamMaskStores, he]
        exact ⟨trivial, Option.some_ne_none e⟩
    | some hw =>
        simp only [structAfter, setStreamMaskStores, hsome hw htable]
        refine ⟨trivial, ?_, hw.holds_storeAll struct mask⟩
        intro a ha
        exact Bytes.storeAll_of_outside fun s hs => HwMask.outside_stores ha hs

set_option maxRecDepth 30000 in
/-- On CUDA 8.0 the mask ends up at the offset for CUDA 9.0. -/
theorem not_setsExactly :
    structWords (structAfter ⟨.x86_64, 8000, none⟩ (fun _ => 0) 1) 0xf0 = 0 ∧
      structWords (structAfter ⟨.x86_64, 8000, none⟩ (fun _ => 0) 1) 0x134 = 1 ∧
      ¬ ∀ platform version struct mask, SetsExactly platform version struct mask := by
  refine ⟨by decide, by decide, fun h => ?_⟩
  obtain ⟨-, hframe, -⟩ := h .x86_64 8000 (fun _ => 0) 1
  have hbyte : structAfter ⟨.x86_64, 8000, none⟩ (fun _ => 0) 1 0x134 = 0 :=
    hframe 0x134 (.inr (by decide))
  exact absurd hbyte (by decide)

end A100Partitioning.Libsmctrl
