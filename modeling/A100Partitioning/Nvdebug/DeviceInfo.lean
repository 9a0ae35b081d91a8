import A100Partitioning.Nvdebug.Ptop
import A100Partitioning.Support.SeqFile

/-!
# The `device_info` file (`device_info_procfs.c`)

The file prints the device topology one row at a time.  On Ampere and newer GPUs
it infers what a row describes from the rows before it, as `get_runlist_ram`
does; but an empty row ends a record here, and does not there.
-/

namespace A100Partitioning.Nvdebug

open Support

/-! ## The code -/

/-- `ptop_device_info_gk104_t`. -/
structure PtopDeviceInfoGk104 where
  raw : BitVec 32
  deriving DecidableEq, Repr

namespace PtopDeviceInfoGk104

variable (row : PtopDeviceInfoGk104)

def infoType : ℕ := Bitfield.get 0 2 row.raw

def hasNextEntry : Bool := row.raw.getLsbD 31

def faultIdIsValid : Bool := row.raw.getLsbD 2

def faultId : ℕ := Bitfield.get 3 7 row.raw

def priBase : ℕ := Bitfield.get 12 12 row.raw

def instId : ℕ := Bitfield.get 26 4 row.raw

def isNotEnum2 : Bool := row.raw.getLsbD 30

def resetIsValid : Bool := row.raw.getLsbD 2

def intrIsValid : Bool := row.raw.getLsbD 3

def runlistIsValid : Bool := row.raw.getLsbD 4

def engineIsValid : Bool := row.raw.getLsbD 5

def resetEnum : ℕ := Bitfield.get 9 5 row.raw

def intrEnum : ℕ := Bitfield.get 15 5 row.raw

def runlistEnum : ℕ := Bitfield.get 21 4 row.raw

def engineEnum : ℕ := Bitfield.get 26 4 row.raw

def engineType : ℕ := Bitfield.get 2 29 row.raw

end PtopDeviceInfoGk104

/-- What the file prints: one constructor for each format. -/
inductive InfoText where
  | barBase (base instance_ : ℕ)
  | faultId (id : ℕ)
  | hostEngineId (id : ℕ)
  | runlistId (id : ℕ)
  | interruptId (id : ℕ)
  | resetId (id : ℕ)
  | engineTypeGk104 (type : ℕ)
  | engineType (type instance_ faultId : ℕ)
  | engineBase (base resetId : ℕ) (isEngine : Bool)
  | runlist (rlengId rlBase : ℕ)
  | line
  deriving DecidableEq, Repr

/-- `device_info_iter`. -/
structure DeviceInfoIter where
  idx : ℕ
  length : ℕ
  typeOfNextEntry : ℕ
  hasNextEntry : Bool
  deriving DecidableEq, Repr

/-- `device_info_file_seq_start`. -/
def deviceInfoStart (s : Machine) (pos : ℕ) (iter : DeviceInfoIter) :
    Except ℤ Bool × DeviceInfoIter :=
  let iter := if pos = 0 then
      ⟨0, if 0x170 ≤ s.chipId then s.ptopSizeGa100 else 64, 0, false⟩
    else iter
  (.ok (decide (iter.idx < iter.length)), iter)

/-- `device_info_file_seq_next`. -/
def deviceInfoNext (iter : DeviceInfoIter) : Bool × DeviceInfoIter :=
  let iter := { iter with idx := iter.idx + 1 }
  if iter.length ≤ iter.idx then (false, iter)
  else (true, { iter with
    typeOfNextEntry := if iter.hasNextEntry then iter.typeOfNextEntry + 1 else 0 })

/-- The text of `device_info_file_seq_show_gk104` for a row. -/
def infoTextGk104 (row : PtopDeviceInfoGk104) : List InfoText :=
  let line := if row.hasNextEntry then [] else [InfoText.line]
  if row.infoType = 1 then
    if row.isNotEnum2 then line
    else [.barBase (row.priBase <<< 12) row.instId] ++
      (if row.faultIdIsValid then [.faultId row.faultId] else []) ++ line
  else if row.infoType = 2 then
    (if row.engineIsValid then [.hostEngineId row.engineEnum] else []) ++
      (if row.runlistIsValid then [.runlistId row.runlistEnum] else []) ++
      (if row.intrIsValid then [.interruptId row.intrEnum] else []) ++
      (if row.resetIsValid then [.resetId row.resetEnum] else []) ++ line
  else if row.infoType = 3 then [.engineTypeGk104 row.engineType] ++ line
  else []

/-- The text of `device_info_file_seq_show_ga100` for a row. -/
def infoTextGa100 (typeOfNextEntry : ℕ) (row : PtopDeviceInfoGa100) :
    List InfoText :=
  if row.raw = 0 then []
  else if typeOfNextEntry = 0 ∧ row.hasNextEntry = false then []
  else
    (match typeOfNextEntry with
      | 0 => [.engineType row.engineType row.instId row.faultId]
      | 1 => [.engineBase (row.priBase <<< 8) row.resetId row.isEngine]
      | 2 => [.runlist row.rlengId (row.runlistPriBase <<< 10)]
      | _ => []) ++
      if row.hasNextEntry then [] else [.line]

/-- `device_info_file_seq_show_gk104`. -/
def deviceInfoShowGk104 (s : Machine) (iter : DeviceInfoIter) :
    Except ℤ (List InfoText) × DeviceInfoIter :=
  let currInfo : PtopDeviceInfoGk104 := ⟨s.readlValue (0x00022700 + iter.idx * 4)⟩
  if currInfo.raw = BitVec.allOnes 32 then (.error (-eio), iter)
  else (.ok (infoTextGk104 currInfo), iter)

/-- `device_info_file_seq_show_ga100`. -/
def deviceInfoShowGa100 (s : Machine) (iter : DeviceInfoIter) :
    Except ℤ (List InfoText) × DeviceInfoIter :=
  let currInfo : PtopDeviceInfoGa100 := ⟨s.readlValue (nvPtopDeviceInfoGa100 iter.idx)⟩
  if currInfo.raw = BitVec.allOnes 32 then (.error (-eio), iter)
  else (.ok (infoTextGa100 iter.typeOfNextEntry currInfo),
    { iter with hasNextEntry := currInfo.hasNextEntry })

/-- The callbacks, with the `show` that `device_info_file_open` chooses. -/
def deviceInfoOps (s : Machine) : SeqFile.Ops DeviceInfoIter (List InfoText) ℤ where
  start := deviceInfoStart s
  next := deviceInfoNext
  showRecord :=
    if 0x170 ≤ s.chipId then deviceInfoShowGa100 s else deviceInfoShowGk104 s

/-! ## The rows it prints -/

/-- What `type_of_next_entry` is at a row. -/
def typeAt (rows : List PtopDeviceInfoGa100) (i : ℕ) : ℕ :=
  RowScan.stateAt nextSubrow 0 rows i

/-- What `ptop_entry_subrow` is at a row. -/
def subrowAt (rows : List PtopDeviceInfoGa100) (i : ℕ) : ℕ :=
  RowScan.stateAt skipSubrow 0 rows i

section Prints

variable {s : Machine}

theorem length_ptopRowsGa100 (s : Machine) :
    s.ptopRowsGa100.length = s.ptopSizeGa100 := by
  rw [Machine.ptopRowsGa100, List.length_map, List.length_range]

theorem getElem?_ptopRowsGa100 {i : ℕ} (hi : i < s.ptopSizeGa100) :
    s.ptopRowsGa100[i]? = some ⟨s.readlValue (nvPtopDeviceInfoGa100 i)⟩ := by
  rw [Machine.ptopRowsGa100, List.getElem?_map, List.getElem?_range hi,
    Option.map_some]

/-- The text of a row of the table. -/
def Machine.infoText (s : Machine) (i : ℕ) : List InfoText :=
  infoTextGa100 (typeAt s.ptopRowsGa100 i)
    ⟨s.readlValue (nvPtopDeviceInfoGa100 i)⟩

/-- The iterator before row `i` is printed. -/
structure InfoBefore (s : Machine) (i : ℕ) (iter : DeviceInfoIter) : Prop where
  idx : iter.idx = i
  length : iter.length = s.ptopSizeGa100
  type : iter.typeOfNextEntry = typeAt s.ptopRowsGa100 i

/-- The iterator after row `i` was printed. -/
structure InfoAfter (s : Machine) (i : ℕ) (iter : DeviceInfoIter) : Prop
    extends InfoBefore s i iter where
  hasNextEntry : iter.hasNextEntry =
    (PtopDeviceInfoGa100.mk (s.readlValue (nvPtopDeviceInfoGa100 i))).hasNextEntry

theorem InfoBefore.start (hampere : 0x170 ≤ s.chipId) {i : ℕ}
    {iter : DeviceInfoIter} (h : InfoBefore s i iter) (hi : i < s.ptopSizeGa100) :
    ∃ iter', deviceInfoStart s i iter = (.ok true, iter') ∧
      InfoBefore s i iter' := by
  by_cases hzero : i = 0
  · refine ⟨⟨0, s.ptopSizeGa100, 0, false⟩, ?_, ?_⟩
    · rw [deviceInfoStart, if_pos hzero, if_pos hampere]
      simp only [Prod.mk.injEq, Except.ok.injEq, decide_eq_true_eq, and_true]
      omega
    · rw [hzero]
      exact ⟨rfl, rfl, rfl⟩
  · refine ⟨iter, ?_, h⟩
    rw [deviceInfoStart, if_neg hzero]
    simp only [Prod.mk.injEq, Except.ok.injEq, decide_eq_true_eq, and_true]
    rw [h.idx, h.length]
    exact hi

theorem deviceInfoOps_prints (hampere : 0x170 ≤ s.chipId)
    (hreads : ReadsRows s.ptopRowsGa100) :
    SeqFile.Prints (deviceInfoOps s) s.ptopSizeGa100 s.infoText (InfoBefore s)
      (InfoAfter s) where
  showRecord {i iter} hi h := by
    have hrow := hreads _ (List.mem_of_getElem? (getElem?_ptopRowsGa100 hi))
    refine ⟨{ iter with hasNextEntry := (PtopDeviceInfoGa100.mk
      (s.readlValue (nvPtopDeviceInfoGa100 i))).hasNextEntry }, ?_,
      ⟨⟨h.idx, h.length, h.type⟩, rfl⟩⟩
    simp only [deviceInfoOps, if_pos hampere, deviceInfoShowGa100, h.idx, h.type,
      if_neg hrow, Machine.infoText]
  next {i iter} hi h := by
    refine ⟨_, Prod.ext ?_ rfl, ?_⟩
    · simp only [deviceInfoOps, deviceInfoNext, h.idx, h.length]
      split
      · exact (decide_eq_false (by omega)).symm
      · exact (decide_eq_true (by omega)).symm
    · intro hmore
      simp only [deviceInfoOps, deviceInfoNext, h.idx, h.length,
        if_neg (not_le.mpr hmore)]
      refine ⟨rfl, rfl, ?_⟩
      rw [typeAt, RowScan.stateAt_succ (getElem?_ptopRowsGa100 hi), nextSubrow,
        h.hasNextEntry, h.type]
      rfl
  again hi h := h.toInfoBefore.start hampere hi
  resume hi h := h.start hampere hi

/-- However the file is read, it prints the rows' texts in order. -/
theorem deviceInfo_reading_iff (hampere : 0x170 ≤ s.chipId)
    (hreads : ReadsRows s.ptopRowsGa100) (init : DeviceInfoIter)
    (texts : List (List InfoText)) :
    SeqFile.Reading (deviceInfoOps s) init texts ↔
      texts = (List.range s.ptopSizeGa100).map s.infoText := by
  apply (deviceInfoOps_prints hampere hreads).reading_iff
  refine ⟨⟨0, s.ptopSizeGa100, 0, false⟩, ?_, fun _ => ⟨rfl, rfl, rfl⟩⟩
  simp only [deviceInfoOps, deviceInfoStart, if_pos hampere, if_true]

end Prints

/-! ## Records with empty rows inside -/

/-- After row `i`, which has a next entry, come only empty rows up to row `j`. -/
structure Reaches (rows : List PtopDeviceInfoGa100) (i j : ℕ) : Prop where
  lt : i < j
  hasNextEntry : ∃ row, rows[i]? = some row ∧ row.hasNextEntry = true
  empty : ∀ k, i < k → k < j → ∃ row, rows[k]? = some row ∧ row.raw = 0

/-- There is a row with this index, and it is not empty. -/
def IsEntry (rows : List PtopDeviceInfoGa100) (i : ℕ) : Prop :=
  ∃ row, rows[i]? = some row ∧ row.raw ≠ 0

/-- Row `j` goes on with the record that row `i` is in. -/
def Continues (rows : List PtopDeviceInfoGa100) (i j : ℕ) : Prop :=
  Reaches rows i j ∧ IsEntry rows j

/-- Row `i` is the first one of a record. -/
def Begins (rows : List PtopDeviceInfoGa100) (i : ℕ) : Prop :=
  IsEntry rows i ∧ ∀ g, ¬ Reaches rows g i

/-- No empty row stands between the first three rows of a record, and no three
rows of one stand together right after an empty row in it. -/
structure Unbroken (rows : List PtopDeviceInfoGa100) : Prop where
  first : ∀ a b c, Begins rows a → Continues rows a b → Continues rows b c →
    c = a + 2
  later : ∀ g i, Continues rows g i → i ≠ g + 1 →
    ¬ (Continues rows i (i + 1) ∧ Continues rows (i + 1) (i + 2))

section Records

variable {rows : List PtopDeviceInfoGa100} {i j : ℕ}

theorem PtopDeviceInfoGa100.raw_ne_zero {row : PtopDeviceInfoGa100}
    (h : row.hasNextEntry = true) : row.raw ≠ 0 := by
  intro hzero
  rw [hasNextEntry, hzero] at h
  simp at h

theorem Reaches.isEntry (h : Reaches rows i j) : IsEntry rows i := by
  obtain ⟨row, hrow, hnext⟩ := h.hasNextEntry
  exact ⟨row, hrow, row.raw_ne_zero hnext⟩

theorem reaches_succ_iff : Reaches rows i (i + 1) ↔
    ∃ row, rows[i]? = some row ∧ row.hasNextEntry = true := by
  constructor
  · exact Reaches.hasNextEntry
  · intro h
    exact ⟨Nat.lt_succ_self i, h, fun k hk hk' => by omega⟩

theorem Reaches.unique {g : ℕ} (h : Reaches rows i j) (h' : Reaches rows g j) :
    i = g := by
  have hle : ∀ {i g}, Reaches rows i j → Reaches rows g j → i ≤ g := by
    intro i g h h'
    by_contra hlt
    obtain ⟨row, hrow, hzero⟩ := h'.empty i (by omega) h.lt
    obtain ⟨row', hrow', hne⟩ := h.isEntry
    rw [hrow] at hrow'
    cases hrow'
    exact hne hzero
  exact le_antisymm (hle h h') (hle h' h)

theorem Reaches.subrowAt (h : Reaches rows i j) :
    subrowAt rows j = subrowAt rows i + 1 := by
  obtain ⟨row, hrow, hnext⟩ := h.hasNextEntry
  have hempty := h.empty
  induction j, Nat.succ_le_of_lt h.lt using Nat.le_induction with
  | base =>
      rw [Nvdebug.subrowAt, RowScan.stateAt_succ hrow, skipSubrow,
        if_neg (row.raw_ne_zero hnext), nextSubrow, if_pos hnext]
      rfl
  | succ j hij ih =>
      obtain ⟨row', hrow', hzero⟩ := hempty j hij (Nat.lt_succ_self j)
      have hbefore : Reaches rows i j :=
        ⟨hij, h.hasNextEntry, fun k hk hk' => hempty k hk (by omega)⟩
      have hsame := ih hbefore hbefore.empty
      rw [Nvdebug.subrowAt, RowScan.stateAt_succ hrow', skipSubrow,
        if_pos hzero]
      exact hsame

theorem subrowAt_eq_zero (hj : j ≤ rows.length) (h : ∀ g, ¬ Reaches rows g j) :
    subrowAt rows j = 0 := by
  induction j with
  | zero => rfl
  | succ j ih =>
      have hrow : rows[j]? = some rows[j] := List.getElem?_eq_getElem hj
      rw [subrowAt, RowScan.stateAt_succ hrow, skipSubrow]
      by_cases hempty : rows[j].raw = 0
      · rw [if_pos hempty]
        apply ih (Nat.le_of_succ_le hj)
        intro g hg
        apply h g
        refine ⟨Nat.lt_succ_of_lt hg.lt, hg.hasNextEntry, ?_⟩
        intro k hk hk'
        rcases Nat.lt_succ_iff_lt_or_eq.mp hk' with hlt | rfl
        · exact hg.empty k hk hlt
        · exact ⟨_, hrow, hempty⟩
      · rw [if_neg hempty, nextSubrow, if_neg]
        intro hnext
        exact h j (reaches_succ_iff.mpr ⟨_, hrow, hnext⟩)

theorem typeAt_succ (hj : j < rows.length) : typeAt rows (j + 1) =
    if rows[j].hasNextEntry then typeAt rows j + 1 else 0 := by
  rw [typeAt, RowScan.stateAt_succ (List.getElem?_eq_getElem hj)]
  rfl

theorem IsEntry.lt (h : IsEntry rows i) : i < rows.length := by
  obtain ⟨row, hrow, -⟩ := h
  exact (List.getElem?_eq_some_iff.mp hrow).1

/-- The subrow of a row says how many rows its record has before it. -/
theorem subrowAt_eq_two_iff (hi : IsEntry rows i) : subrowAt rows i = 2 ↔
    ∃ a b, Begins rows a ∧ Continues rows a b ∧ Continues rows b i := by
  constructor
  · intro hsubrow
    have hbefore : ∀ {j}, IsEntry rows j → subrowAt rows j ≠ 0 →
        ∃ g, Reaches rows g j := by
      intro j hj hne
      by_contra hnone
      exact hne (subrowAt_eq_zero hj.lt.le (not_exists.mp hnone))
    obtain ⟨b, hb⟩ := hbefore hi (by omega)
    have hsubrow' := hb.subrowAt
    obtain ⟨a, ha⟩ := hbefore hb.isEntry (by omega)
    refine ⟨a, b, ⟨ha.isEntry, ?_⟩, ⟨ha, hb.isEntry⟩, hb, hi⟩
    intro g hg
    have := hg.subrowAt
    have := ha.subrowAt
    omega
  · rintro ⟨a, b, hbegins, hab, hbi⟩
    rw [hbi.1.subrowAt, hab.1.subrowAt,
      subrowAt_eq_zero hbegins.1.lt.le hbegins.2]

/-- The type of a row counts only the rows that stand right before it. -/
theorem typeAt_eq_two_iff (hi : IsEntry rows i) : typeAt rows i = 2 ↔
    ∃ a, i = a + 2 ∧ Continues rows a (a + 1) ∧ Continues rows (a + 1) (a + 2) ∧
      ∀ g, a = g + 1 → ¬ Reaches rows g a := by
  have hsucc : ∀ {j}, j < rows.length → typeAt rows (j + 1) ≠ 0 →
      Reaches rows j (j + 1) ∧ typeAt rows (j + 1) = typeAt rows j + 1 := by
    intro j hj hne
    rw [typeAt_succ hj] at hne ⊢
    by_cases hnext : rows[j].hasNextEntry
    · rw [if_pos hnext]
      exact ⟨reaches_succ_iff.mpr ⟨_, List.getElem?_eq_getElem hj, hnext⟩, rfl⟩
    · rw [if_neg hnext] at hne
      exact absurd rfl hne
  have hreach : ∀ {j}, Reaches rows j (j + 1) →
      typeAt rows (j + 1) = typeAt rows j + 1 := by
    intro j hj
    obtain ⟨row, hrow, hnext⟩ := reaches_succ_iff.mp hj
    obtain ⟨hlt, rfl⟩ := List.getElem?_eq_some_iff.mp hrow
    rw [typeAt_succ hlt, if_pos hnext]
  have hlt := hi.lt
  constructor
  · intro htype
    obtain ⟨j, rfl⟩ : ∃ j, i = j + 1 :=
      Nat.exists_eq_succ_of_ne_zero fun h => by
        rw [h] at htype
        cases htype
    obtain ⟨hlast, htype'⟩ := hsucc (j := j) (by omega) (by omega)
    obtain ⟨a, rfl⟩ : ∃ a, j = a + 1 :=
      Nat.exists_eq_succ_of_ne_zero fun h => by
        rw [htype, h] at htype'
        cases htype'
    obtain ⟨hfirst, htype''⟩ := hsucc (j := a) (by omega) (by omega)
    refine ⟨a, rfl, ⟨hfirst, hlast.isEntry⟩, ⟨hlast, hi⟩, ?_⟩
    rintro g rfl hg
    have := hreach hg
    omega
  · rintro ⟨a, rfl, hfirst, hlast, hnone⟩
    rw [hreach hlast.1, hreach hfirst.1]
    have hzero : typeAt rows a = 0 := by
      cases a with
      | zero => rfl
      | succ g =>
          by_contra hne
          exact hnone g rfl (hsucc (by omega) hne).1
    rw [hzero]

/-- The two counts single out the same rows exactly in unbroken tables. -/
theorem unbroken_iff : Unbroken rows ↔
    ∀ i, IsEntry rows i → (typeAt rows i = 2 ↔ subrowAt rows i = 2) := by
  constructor
  · intro h i hi
    rw [typeAt_eq_two_iff hi, subrowAt_eq_two_iff hi]
    constructor
    · rintro ⟨a, rfl, hfirst, hlast, hnone⟩
      refine ⟨a, a + 1, ⟨hfirst.1.isEntry, ?_⟩, hfirst, hlast⟩
      intro g hg
      have hne : a ≠ g + 1 := fun heq => hnone g heq hg
      exact h.later g a ⟨hg, hfirst.1.isEntry⟩ hne ⟨hfirst, hlast⟩
    · rintro ⟨a, b, hbegins, hab, hbi⟩
      have hi' := h.first a b i hbegins hab hbi
      have hb : b = a + 1 := by
        have := hab.1.lt
        have := hbi.1.lt
        omega
      subst hi' hb
      exact ⟨a, rfl, hab, hbi, fun g _ => hbegins.2 g⟩
  · intro h
    constructor
    · intro a b c hbegins hab hbc
      have htype := (h c hbc.2).mpr
        ((subrowAt_eq_two_iff hbc.2).mpr ⟨a, b, hbegins, hab, hbc⟩)
      obtain ⟨i, rfl, hfirst, hlast, -⟩ := (typeAt_eq_two_iff hbc.2).mp htype
      have hb := hlast.1.unique hbc.1
      subst hb
      rw [hfirst.1.unique hab.1]
    · rintro g i hg hne ⟨hfirst, hlast⟩
      have htype : typeAt rows (i + 2) = 2 := by
        apply (typeAt_eq_two_iff hlast.2).mpr
        refine ⟨i, rfl, hfirst, hlast, ?_⟩
        intro g' heq hg'
        exact hne (heq.trans (congrArg (· + 1) (hg'.unique hg.1)))
      have hsubrow := (h (i + 2) hlast.2).mp htype
      rw [hlast.1.subrowAt, hfirst.1.subrowAt, hg.1.subrowAt] at hsubrow
      omega

end Records

/-! ## Runlist rows -/

/-- A runlist is printed from this row. -/
def PrintsRunlist (texts : List (List InfoText)) (i : ℕ) : Prop :=
  ∃ text, texts[i]? = some text ∧
    ∃ rlengId rlBase, InfoText.runlist rlengId rlBase ∈ text

theorem runlist_mem_infoTextGa100 (type : ℕ) (row : PtopDeviceInfoGa100) :
    (∃ rlengId rlBase, InfoText.runlist rlengId rlBase ∈ infoTextGa100 type row) ↔
      row.raw ≠ 0 ∧ type = 2 := by
  have hline : ∀ rlengId rlBase, InfoText.runlist rlengId rlBase ∉
      (if row.hasNextEntry then [] else [InfoText.line]) := by
    intro rlengId rlBase hmem
    split at hmem
    · cases hmem
    · cases List.mem_singleton.mp hmem
  unfold infoTextGa100
  by_cases hzero : row.raw = 0
  · simp only [if_pos hzero, List.not_mem_nil, exists_false, false_iff]
    exact fun h => h.1 hzero
  · rw [if_neg hzero]
    by_cases hsingle : type = 0 ∧ row.hasNextEntry = false
    · simp only [if_pos hsingle, List.not_mem_nil, exists_false, false_iff]
      omega
    · rw [if_neg hsingle]
      simp only [List.mem_append, hline, or_false]
      cases type with
      | zero => simp
      | succ type =>
          cases type with
          | zero => simp
          | succ type =>
              cases type with
              | zero =>
                  exact ⟨fun _ => ⟨hzero, rfl⟩,
                    fun _ => ⟨_, _, List.mem_singleton_self _⟩⟩
              | succ type => simp

variable {s : Machine}

theorem printsRunlist_iff (hampere : 0x170 ≤ s.chipId)
    (hreads : ReadsRows s.ptopRowsGa100) {init : DeviceInfoIter}
    {texts : List (List InfoText)}
    (h : SeqFile.Reading (deviceInfoOps s) init texts) (i : ℕ) :
    PrintsRunlist texts i ↔
      IsEntry s.ptopRowsGa100 i ∧ typeAt s.ptopRowsGa100 i = 2 := by
  rw [(deviceInfo_reading_iff hampere hreads init texts).mp h, PrintsRunlist]
  by_cases hi : i < s.ptopSizeGa100
  · have hrow := getElem?_ptopRowsGa100 hi
    rw [List.getElem?_map, List.getElem?_range hi, Option.map_some]
    simp only [Option.some.injEq, exists_eq_left', Machine.infoText,
      runlist_mem_infoTextGa100]
    simp only [IsEntry, hrow, Option.some.injEq, exists_eq_left']
  · have hnone : s.ptopRowsGa100[i]? = none := by
      rw [List.getElem?_eq_none_iff, length_ptopRowsGa100]
      exact not_lt.mp hi
    have hnone' : ((List.range s.ptopSizeGa100).map s.infoText)[i]? = none := by
      rw [List.getElem?_eq_none_iff, List.length_map, List.length_range]
      exact not_lt.mp hi
    simp only [IsEntry, hnone, hnone', reduceCtorEq, false_and, exists_false]

/-- The rows printed as runlist rows are those that `get_runlist_ram` takes for
the third row of a record if and only if the table is unbroken. -/
theorem deviceInfo_runlist_rows_iff (s : Machine) (hampere : 0x170 ≤ s.chipId)
    (hreads : ReadsRows s.ptopRowsGa100) :
    (∀ init texts, SeqFile.Reading (deviceInfoOps s) init texts → ∀ i,
      PrintsRunlist texts i ↔
        IsEntry s.ptopRowsGa100 i ∧ subrowAt s.ptopRowsGa100 i = 2) ↔
      Unbroken s.ptopRowsGa100 := by
  rw [unbroken_iff]
  constructor
  · intro h i hi
    have hreading := (deviceInfo_reading_iff hampere hreads ⟨0, 0, 0, false⟩ _).mpr
      rfl
    have hprints := printsRunlist_iff hampere hreads hreading i
    rw [h _ _ hreading i] at hprints
    simp only [hi, true_and] at hprints
    exact hprints.symm
  · intro h init texts hreading i
    rw [printsRunlist_iff hampere hreads hreading i]
    constructor
    · rintro ⟨hi, htype⟩
      exact ⟨hi, (h i hi).mp htype⟩
    · rintro ⟨hi, hsubrow⟩
      exact ⟨hi, (h i hi).mpr hsubrow⟩

theorem twoRunlists_isEntry : IsEntry twoRunlists.ptopRowsGa100 6 :=
  ⟨⟨0x00000800⟩, by decide, by decide⟩

/-- The second runlist of `twoRunlists` is in row 6, which is not printed as a
runlist row. -/
theorem deviceInfo_runlist_rows_twoRunlists :
    ¬ ∀ init texts, SeqFile.Reading (deviceInfoOps twoRunlists) init texts → ∀ i,
      PrintsRunlist texts i ↔ IsEntry twoRunlists.ptopRowsGa100 i ∧
        subrowAt twoRunlists.ptopRowsGa100 i = 2 := by
  intro h
  have hampere : 0x170 ≤ twoRunlists.chipId := by
    decide
  have hreads : ReadsRows twoRunlists.ptopRowsGa100 := by
    decide
  have hreading := (deviceInfo_reading_iff hampere hreads ⟨0, 0, 0, false⟩ _).mpr rfl
  have hsubrow : subrowAt twoRunlists.ptopRowsGa100 6 = 2 := by
    decide
  have htype : typeAt twoRunlists.ptopRowsGa100 6 = 1 := by
    decide
  have hprinted := (h _ _ hreading 6).mpr ⟨twoRunlists_isEntry, hsubrow⟩
  have htwo := ((printsRunlist_iff hampere hreads hreading 6).mp hprinted).2
  rw [htype] at htwo
  cases htwo

theorem deviceInfo_runlist_rows_iff_twoRunlists :
    ¬ Unbroken twoRunlists.ptopRowsGa100 ↔
      ¬ ∀ init texts, SeqFile.Reading (deviceInfoOps twoRunlists) init texts → ∀ i,
        PrintsRunlist texts i ↔ IsEntry twoRunlists.ptopRowsGa100 i ∧
          subrowAt twoRunlists.ptopRowsGa100 i = 2 :=
  not_congr (deviceInfo_runlist_rows_iff twoRunlists (by decide)
    (by decide)).symm

end A100Partitioning.Nvdebug
