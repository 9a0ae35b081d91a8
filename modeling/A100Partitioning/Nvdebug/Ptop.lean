import A100Partitioning.Nvdebug.Machine
import A100Partitioning.Support.RowScan

/-!
# The device topology (PTOP) of Ampere and newer GPUs

The topology is a table of rows.  A record is up to three rows, chained by
`has_next_entry`, and only the third one tells where the runlist RAM is.  Both
the number of runlists and the location of one of them are found by a scan that
keeps count of the subrow it is on.
-/

namespace A100Partitioning.Nvdebug

open Support

/-! ## Rows -/

/-- `ptop_device_info_ga100_t`. -/
structure PtopDeviceInfoGa100 where
  raw : BitVec 32
  deriving DecidableEq, Repr

namespace PtopDeviceInfoGa100

variable (row : PtopDeviceInfoGa100)

def faultId : ℕ := Bitfield.get 0 11 row.raw

def instId : ℕ := Bitfield.get 16 8 row.raw

def engineType : ℕ := Bitfield.get 24 7 row.raw

def hasNextEntry : Bool := row.raw.getLsbD 31

def resetId : ℕ := Bitfield.get 0 8 row.raw

def priBase : ℕ := Bitfield.get 8 18 row.raw

def isEngine : Bool := row.raw.getLsbD 30

def rlengId : ℕ := Bitfield.get 0 2 row.raw

def runlistPriBase : ℕ := Bitfield.get 10 16 row.raw

end PtopDeviceInfoGa100

/-- `NV_PTOP_DEVICE_INFO_GA100(i)`. -/
def nvPtopDeviceInfoGa100 (i : ℕ) : ℕ := 0x00022800 + i * 4

/-- `NV_PTOP_DEVICE_INFO__SIZE_1_GA100(g)`. -/
def Machine.ptopSizeGa100 (s : Machine) : ℕ :=
  (s.readlValue 0x000224fc).toNat >>> 20

/-- The rows as `nvdebug_readl` returns them. -/
def Machine.ptopRowsGa100 (s : Machine) : List PtopDeviceInfoGa100 :=
  (List.range s.ptopSizeGa100).map fun i =>
    ⟨s.readlValue (nvPtopDeviceInfoGa100 i)⟩

/-! ## The code -/

/-- The subrow of the row after this one. -/
def nextSubrow (subrow : ℕ) (row : PtopDeviceInfoGa100) : ℕ :=
  if row.hasNextEntry then subrow + 1 else 0

/-- The loop of `get_runlist_ram` from row `i` on.  It also returns the row. -/
def getRunlistRamFrom (rlId : ℤ) : ℕ → ℤ → ℕ → List PtopDeviceInfoGa100 →
    Except ℤ (ℕ × ℕ)
  | _, _, _, [] => .error (-einval)
  | i, currRlId, subrow, row :: rows =>
      if row.raw = BitVec.allOnes 32 then .error (-eio)
      else if row.raw = 0 then getRunlistRamFrom rlId (i + 1) currRlId subrow rows
      else if subrow = 2 ∧ row.rlengId = 0 then
        if currRlId = rlId then .ok (i, row.runlistPriBase <<< 10)
        else getRunlistRamFrom rlId (i + 1) (currRlId + 1) (nextSubrow subrow row)
          rows
      else getRunlistRamFrom rlId (i + 1) currRlId (nextSubrow subrow row) rows

/-- `get_runlist_ram`, with the row that it takes the offset from. -/
def getRunlistRam (s : Machine) (rlId : ℤ) : Except ℤ (ℕ × ℕ) :=
  getRunlistRamFrom rlId 0 0 0 s.ptopRowsGa100

/-- The loop of `get_last_runlist_id_ga100`. -/
def countRunlistsFrom : ℤ → ℕ → List PtopDeviceInfoGa100 → ℤ
  | runlistCount, _, [] => runlistCount - 1
  | runlistCount, subrow, row :: rows =>
      if row.raw = BitVec.allOnes 32 then -eio
      else if row.raw = 0 then countRunlistsFrom runlistCount subrow rows
      else if subrow = 2 ∧ row.rlengId = 0 then
        countRunlistsFrom (runlistCount + 1) (nextSubrow subrow row) rows
      else countRunlistsFrom runlistCount (nextSubrow subrow row) rows

/-- `get_last_runlist_id_ga100`. -/
def getLastRunlistIdGa100 (s : Machine) : ℤ :=
  countRunlistsFrom 0 0 s.ptopRowsGa100

/-! ## Both are the same scan -/

/-- No read of a row fails. -/
def ReadsRows (rows : List PtopDeviceInfoGa100) : Prop :=
  ∀ row ∈ rows, row.raw ≠ BitVec.allOnes 32

instance (rows : List PtopDeviceInfoGa100) : Decidable (ReadsRows rows) :=
  inferInstanceAs (Decidable (∀ row ∈ rows, _ ≠ _))

/-- Empty rows are skipped. -/
def skipSubrow (subrow : ℕ) (row : PtopDeviceInfoGa100) : ℕ :=
  if row.raw = 0 then subrow else nextSubrow subrow row

/-- The third row of a record with the first engine of a runlist. -/
def isRunlistRow (subrow : ℕ) (row : PtopDeviceInfoGa100) : Bool :=
  decide (row.raw ≠ 0 ∧ subrow = 2 ∧ row.rlengId = 0)

/-- The rows of the runlists from row `i` on. -/
def runlistRowsFrom (i subrow : ℕ) (rows : List PtopDeviceInfoGa100) : List ℕ :=
  RowScan.picksFrom skipSubrow isRunlistRow i subrow rows

theorem isRunlistRow_iff {subrow : ℕ} {row : PtopDeviceInfoGa100} :
    isRunlistRow subrow row = true ↔
      row.raw ≠ 0 ∧ subrow = 2 ∧ row.rlengId = 0 :=
  decide_eq_true_iff

theorem ReadsRows.tail {row : PtopDeviceInfoGa100} {rows : List PtopDeviceInfoGa100}
    (h : ReadsRows (row :: rows)) : ReadsRows rows :=
  fun r hr => h r (List.mem_cons_of_mem _ hr)

theorem runlistRowsFrom_cons (i subrow : ℕ) (row : PtopDeviceInfoGa100)
    (rows : List PtopDeviceInfoGa100) :
    runlistRowsFrom i subrow (row :: rows) =
      if row.raw = 0 then runlistRowsFrom (i + 1) subrow rows
      else if subrow = 2 ∧ row.rlengId = 0 then
        i :: runlistRowsFrom (i + 1) (nextSubrow subrow row) rows
      else runlistRowsFrom (i + 1) (nextSubrow subrow row) rows := by
  rw [runlistRowsFrom, RowScan.picksFrom, skipSubrow]
  by_cases hempty : row.raw = 0
  · rw [if_pos hempty, if_pos hempty,
      if_neg fun h => (isRunlistRow_iff.mp h).1 hempty]
    rfl
  · rw [if_neg hempty, if_neg hempty]
    by_cases hmatch : subrow = 2 ∧ row.rlengId = 0
    · rw [if_pos hmatch, if_pos (isRunlistRow_iff.mpr ⟨hempty, hmatch⟩)]
      rfl
    · rw [if_neg hmatch, if_neg fun h => hmatch (isRunlistRow_iff.mp h).2]
      rfl

theorem countRunlistsFrom_eq {rows : List PtopDeviceInfoGa100}
    (hreads : ReadsRows rows) (runlistCount : ℤ) (i subrow : ℕ) :
    countRunlistsFrom runlistCount subrow rows =
      runlistCount + (runlistRowsFrom i subrow rows).length - 1 := by
  induction rows generalizing runlistCount i subrow with
  | nil => simp [countRunlistsFrom, runlistRowsFrom, RowScan.picksFrom]
  | cons row rows ih =>
      have ih := ih hreads.tail
      rw [countRunlistsFrom, if_neg (hreads row List.mem_cons_self),
        runlistRowsFrom_cons]
      split
      · exact ih runlistCount (i + 1) subrow
      · split
        · rw [ih (runlistCount + 1) (i + 1), List.length_cons, Nat.cast_add_one]
          ring
        · exact ih runlistCount (i + 1) _

/-- The lookup finds the row of the runlist with this number, if there is one. -/
theorem getRunlistRamFrom_eq {rows : List PtopDeviceInfoGa100}
    (hreads : ReadsRows rows) (rlId currRlId : ℤ) (i subrow : ℕ) :
    (getRunlistRamFrom rlId i currRlId subrow rows).toOption.map Prod.fst =
      if rlId < currRlId then none
      else (runlistRowsFrom i subrow rows)[(rlId - currRlId).toNat]? := by
  induction rows generalizing currRlId i subrow with
  | nil =>
      rw [runlistRowsFrom, RowScan.picksFrom, List.getElem?_nil, ite_self]
      rfl
  | cons row rows ih =>
      have ih := ih hreads.tail
      rw [getRunlistRamFrom, if_neg (hreads row List.mem_cons_self),
        runlistRowsFrom_cons]
      split
      · exact ih currRlId (i + 1) subrow
      · split
        · by_cases hfound : currRlId = rlId
          · rw [if_pos hfound, hfound, if_neg (lt_irrefl rlId), sub_self]
            rfl
          · rw [if_neg hfound, ih (currRlId + 1) (i + 1)]
            by_cases hlt : rlId < currRlId
            · rw [if_pos hlt, if_pos (by omega)]
            · have hsub : (rlId - currRlId).toNat =
                  (rlId - (currRlId + 1)).toNat + 1 := by omega
              rw [if_neg hlt, if_neg (by omega), hsub, List.getElem?_cons_succ]
        · exact ih currRlId (i + 1) _

theorem offset_of_getRunlistRamFrom {rows : List PtopDeviceInfoGa100} {rlId : ℤ}
    {currRlId : ℤ} {i subrow k off : ℕ}
    (h : getRunlistRamFrom rlId i currRlId subrow rows = .ok (k, off)) :
    ∃ j row, k = i + j ∧ rows[j]? = some row ∧
      off = row.runlistPriBase <<< 10 := by
  induction rows generalizing currRlId i subrow with
  | nil => cases h
  | cons row rows ih =>
      have hlater : ∀ {currRlId subrow},
          getRunlistRamFrom rlId (i + 1) currRlId subrow rows = .ok (k, off) →
          ∃ j r, k = i + j ∧ (row :: rows)[j]? = some r ∧
            off = r.runlistPriBase <<< 10 := by
        intro currRlId subrow hrest
        obtain ⟨j, r, hk, hj, hoff⟩ := ih hrest
        exact ⟨j + 1, r, by omega, hj, hoff⟩
      rw [getRunlistRamFrom] at h
      split_ifs at h
      · exact hlater h
      · cases h
        exact ⟨0, row, rfl, rfl, rfl⟩
      · exact hlater h
      · exact hlater h

/-- If every row can be read, the only error is that there is no such runlist. -/
theorem error_of_getRunlistRamFrom {rows : List PtopDeviceInfoGa100} {rlId currRlId e : ℤ}
    {i subrow : ℕ} (hreads : ReadsRows rows)
    (h : getRunlistRamFrom rlId i currRlId subrow rows = .error e) : e = -einval := by
  induction rows generalizing i currRlId subrow with
  | nil =>
      cases h
      rfl
  | cons row rows ih =>
      rw [getRunlistRamFrom, if_neg (hreads row List.mem_cons_self)] at h
      split_ifs at h
      · exact ih hreads.tail h
      · exact ih hreads.tail h
      · exact ih hreads.tail h

/-! ## Numbering -/

/-- The rows of the runlists, in table order. -/
def Machine.runlistRows (s : Machine) : List ℕ :=
  runlistRowsFrom 0 0 s.ptopRowsGa100

theorem getRunlistRam_eq {s : Machine} (hreads : ReadsRows s.ptopRowsGa100)
    (k : ℤ) :
    (getRunlistRam s k).toOption.map Prod.fst =
      if k < 0 then none else s.runlistRows[k.toNat]? := by
  rw [getRunlistRam, getRunlistRamFrom_eq hreads, sub_zero]
  rfl

theorem getElem?_of_getRunlistRam_ok {s : Machine}
    (hreads : ReadsRows s.ptopRowsGa100) {k : ℤ} {row off : ℕ}
    (h : getRunlistRam s k = .ok (row, off)) :
    0 ≤ k ∧ s.runlistRows[k.toNat]? = some row := by
  have heq := getRunlistRam_eq hreads k
  rw [h] at heq
  by_cases hneg : k < 0
  · rw [if_pos hneg] at heq
    cases heq
  · rw [if_neg hneg] at heq
    exact ⟨not_lt.mp hneg, heq.symm⟩

theorem exists_getRunlistRam_iff {s : Machine}
    (hreads : ReadsRows s.ptopRowsGa100) (k : ℤ) :
    (∃ found, getRunlistRam s k = .ok found) ↔
      0 ≤ k ∧ k ≤ getLastRunlistIdGa100 s := by
  have hlast : getLastRunlistIdGa100 s = s.runlistRows.length - 1 := by
    rw [getLastRunlistIdGa100, countRunlistsFrom_eq hreads 0 0, zero_add]
    rfl
  rw [hlast]
  constructor
  · rintro ⟨⟨row, off⟩, hfound⟩
    obtain ⟨hk, hrow⟩ := getElem?_of_getRunlistRam_ok hreads hfound
    have hlt := (List.getElem?_eq_some_iff.mp hrow).1
    omega
  · rintro ⟨hk, hle⟩
    have heq := getRunlistRam_eq hreads k
    rw [if_neg (not_lt.mpr hk), List.getElem?_eq_getElem (by omega)] at heq
    cases hfound : getRunlistRam s k with
    | ok found => exact ⟨found, rfl⟩
    | error e =>
        rw [hfound] at heq
        cases heq

/-- `get_runlist_ram` finds the runlists that `get_last_runlist_id_ga100` counts,
each in its own row, and in the order of the table. -/
theorem getRunlistRam_numbers (s : Machine) (hreads : ReadsRows s.ptopRowsGa100) :
    (∀ k, (∃ found, getRunlistRam s k = .ok found) ↔
      0 ≤ k ∧ k ≤ getLastRunlistIdGa100 s) ∧
    (∀ k row off, getRunlistRam s k = .ok (row, off) →
      ∃ r, s.ptopRowsGa100[row]? = some r ∧ off = r.runlistPriBase <<< 10) ∧
    (∀ j k row row' off off', getRunlistRam s j = .ok (row, off) →
      getRunlistRam s k = .ok (row', off') →
      (j ≠ k → row ≠ row') ∧ (j < k → row < row')) := by
  have hlt : ∀ {j k row row' off off'}, getRunlistRam s j = .ok (row, off) →
      getRunlistRam s k = .ok (row', off') → j < k → row < row' := by
    intro j k row row' off off' hj hk hlt
    obtain ⟨hnonneg, hrow⟩ := getElem?_of_getRunlistRam_ok hreads hj
    obtain ⟨-, hrow'⟩ := getElem?_of_getRunlistRam_ok hreads hk
    obtain ⟨hj', rfl⟩ := List.getElem?_eq_some_iff.mp hrow
    obtain ⟨hk', rfl⟩ := List.getElem?_eq_some_iff.mp hrow'
    exact List.pairwise_iff_getElem.mp RowScan.pairwise_picksFrom _ _ hj' hk'
      (by omega)
  refine ⟨exists_getRunlistRam_iff hreads, ?_, ?_⟩
  · intro k row off hfound
    obtain ⟨j, r, rfl, hr, hoff⟩ := offset_of_getRunlistRamFrom hfound
    rw [Nat.zero_add]
    exact ⟨r, hr, hoff⟩
  · intro j k row row' off off' hj hk
    refine ⟨?_, hlt hj hk⟩
    intro hne
    rcases lt_or_gt_of_ne hne with h | h
    · exact (hlt hj hk h).ne
    · exact (hlt hk hj h).ne'

/-- Two records of three rows, the second one with an empty row inside. -/
def twoRunlists : Machine :=
  { Machine.ofWords [] with
    regs := fun r =>
      if r = 0x000224fc then 0x00800000
      else if r = 0x00022800 then 0x80000001
      else if r = 0x00022804 then 0x80000002
      else if r = 0x00022808 then 0x00000400
      else if r = 0x0002280c then 0x80000003
      else if r = 0x00022810 then 0
      else if r = 0x00022814 then 0x80000004
      else if r = 0x00022818 then 0x00000800
      else 0 }

theorem getRunlistRam_numbers_two :
    getRunlistRam twoRunlists 1 = .ok (6, 0x800) ∧
      ∃ found, getRunlistRam twoRunlists 1 = .ok found := by
  have hreads : ReadsRows twoRunlists.ptopRowsGa100 := by
    decide
  have hfound : getRunlistRam twoRunlists 1 = .ok (6, 0x800) := by
    decide
  refine ⟨hfound, ?_⟩
  have hlast : getLastRunlistIdGa100 twoRunlists = 1 := by
    decide
  apply ((getRunlistRam_numbers twoRunlists hreads).1 1).mpr
  rw [hlast]
  decide

end A100Partitioning.Nvdebug
