import A100Partitioning.Nvdebug.CopyTopology
import A100Partitioning.Nvdebug.DeviceInfo
import A100Partitioning.Nvdebug.ShowAgain
import A100Partitioning.Support.SharedCells

/-!
# Several readers of the sequence files

The iterators of the `runlist`, `device_info` and `copy_topology` files are static
variables, one for each kind of file, and the table of callbacks of `device_info`
is written when a file is opened.  All open files share them, of all GPUs; and those of
one GPU share its window.
-/

namespace A100Partitioning.Nvdebug

open Support

/-! ## The code -/

/-- The iterator of the `runlist` files, and the GPU into whose BAR0 or BAR2 it points. -/
structure SharedRunlistIter where
  rlIter : RunlistIter
  owner : ℕ
  deriving DecidableEq, Repr

/-- The static variables.  `infoShowGa100` says which function
`device_info_file_seq_ops.show` is. -/
structure SeqStatics where
  rlIter : SharedRunlistIter
  infoIter : DeviceInfoIter
  infoShowGa100 : Bool
  topologyIdx : ℕ
  topologyLce2pce : List Lce2pceEntry
  deriving DecidableEq, Repr

/-- As the module is loaded. -/
def SeqStatics.init : SeqStatics := ⟨⟨.empty, 0⟩, ⟨0, 0, 0, false⟩, false, 0, []⟩

/-- What one callback leaves to the next: the static variables, and the window of each
GPU. -/
structure SeqState extends SeqStatics where
  windows : ℕ → BitVec 32

/-- The GPUs at a callback. -/
def SeqState.machines (st : SeqState) (cores : ℕ → Core) (gpu : ℕ) : Machine :=
  (cores gpu).withWindow (st.windows gpu)

/-- The file that a reader has open. -/
inductive SeqProcFile where
  | runlist (rlId : ℕ)
  | deviceInfo
  | copyTopology
  deriving DecidableEq, Repr

/-- A reader has a file of one GPU open. -/
structure SeqReader where
  gpu : ℕ
  file : SeqProcFile
  deriving DecidableEq, Repr

/-- The calls that the kernel makes for a reader. -/
inductive SeqCall where
  | fileOpen
  | start (pos : ℕ)
  | next (pos : ℕ)
  | showRecord
  | stop
  deriving DecidableEq, Repr

/-- What a call returns or prints; `oops` is an invalid access. -/
inductive SeqOutput where
  | done
  | found (found : Except ℤ Bool)
  | more (more : Bool)
  | runlist (text : List RunlistText)
  | deviceInfo (text : Except ℤ (List InfoText))
  | copyTopology (text : List CopyTopologyText)
  | oops
  deriving DecidableEq

/-- `runlist_file_seq_show` for a GPU, where the iterator may point into another one. -/
def showShared (gpu : ℕ) (machines : ℕ → Machine) (it : SharedRunlistIter) :
    Option ((List RunlistText × RunlistIter) × Machine) := do
  let (entry, s) ←
    readEntryAs (machines gpu).chipId it.rlIter.currEntry (machines it.owner)
  let here := if it.owner = gpu then s else machines gpu
  if entry.isTsg then return (showTsg entry it.rlIter, here)
  let (text, s') ← showChannel entry it.rlIter here
  return ((text, it.rlIter), s')

/-- The `runlist` file.  The window of the GPU is returned, too. -/
def runlistFileCall (gpu rlId : ℕ) (machines : ℕ → Machine) (it : SharedRunlistIter) :
    SeqCall → SeqOutput × SharedRunlistIter × BitVec 32
  | .start pos =>
      let owner := if pos = 0 then gpu else it.owner
      match runlistFileSeqStart rlId pos it.rlIter (machines gpu) with
      | some ((found, rlIter), s') => (.found found, ⟨rlIter, owner⟩, s'.window)
      | none => (.oops, ⟨.empty, owner⟩, (machines gpu).window)
  | .next pos =>
      let (more, rlIter) := runlistFileSeqNext (machines gpu).rlEntrySize pos it.rlIter
      (.more more, ⟨rlIter, it.owner⟩, (machines gpu).window)
  | .showRecord =>
      match showShared gpu machines it with
      | some ((text, rlIter), s') => (.runlist text, ⟨rlIter, it.owner⟩, s'.window)
      | none => (.oops, it, (machines gpu).window)
  | _ => (.done, it, (machines gpu).window)

/-- The `device_info` file. -/
def deviceInfoFileCall (s : Machine) (infoIter : DeviceInfoIter)
    (infoShowGa100 : Bool) : SeqCall → SeqOutput × DeviceInfoIter × Bool
  | .fileOpen => (.done, infoIter, decide (0x170 ≤ s.chipId))
  | .start pos =>
      let (found, infoIter) := deviceInfoStart s pos infoIter
      (.found found, infoIter, infoShowGa100)
  | .next _ =>
      let (more, infoIter) := deviceInfoNext infoIter
      (.more more, infoIter, infoShowGa100)
  | .showRecord =>
      let (text, infoIter) :=
        if infoShowGa100 then deviceInfoShowGa100 s infoIter
        else deviceInfoShowGk104 s infoIter
      (.deviceInfo text, infoIter, infoShowGa100)
  | .stop => (.done, infoIter, infoShowGa100)

/-- The `copy_topology` file. -/
def copyTopologyFileCall (s : Machine) (idx : ℕ) (lce2pce : List Lce2pceEntry) :
    SeqCall → SeqOutput × ℕ × List Lce2pceEntry
  | .start pos =>
      let (found, idx, lce2pce) := copyTopologyFileSeqStart s pos idx
      ((found.map SeqOutput.found).getD .oops, idx, lce2pce)
  | .next _ =>
      let (more, idx) := copyTopologyFileSeqNext idx
      (.more more, idx, lce2pce)
  | .showRecord =>
      (((copyTopologyFileSeqShow idx lce2pce).map
        SeqOutput.copyTopology).getD .oops, idx, lce2pce)
  | _ => (.done, idx, lce2pce)

/-- One call for a reader; `cores` has the registers and memories of the GPUs. -/
def seqFileCall (r : SeqReader) (cores : ℕ → Core) (c : SeqCall) (st : SeqState) :
    SeqOutput × SeqState :=
  match r.file with
  | .runlist rlId =>
      let (output, rlIter, window) :=
        runlistFileCall r.gpu rlId (st.machines cores) st.rlIter c
      (output, { st with
        rlIter := rlIter, windows := Function.update st.windows r.gpu window })
  | .deviceInfo =>
      let (output, infoIter, infoShowGa100) :=
        deviceInfoFileCall (st.machines cores r.gpu) st.infoIter st.infoShowGa100 c
      (output, { st with infoIter := infoIter, infoShowGa100 := infoShowGa100 })
  | .copyTopology =>
      let (output, topologyIdx, topologyLce2pce) :=
        copyTopologyFileCall (st.machines cores r.gpu) st.topologyIdx st.topologyLce2pce c
      (output, { st with
        topologyIdx := topologyIdx, topologyLce2pce := topologyLce2pce })

/-- Where the iterator points into the same GPU, this is the callback of the file. -/
theorem showShared_of_owner {gpu : ℕ} (machines : ℕ → Machine) (rlIter : RunlistIter) :
    showShared gpu machines ⟨rlIter, gpu⟩ = runlistFileSeqShow rlIter (machines gpu) := by
  rw [showShared, runlistFileSeqShow, Kernel.bind_apply, readEntry_eq]
  cases readEntryAs (machines gpu).chipId rlIter.currEntry (machines gpu) with
  | none => rfl
  | some found =>
      obtain ⟨entry, s⟩ := found
      simp only [Option.bind_eq_bind, Option.bind_some, if_true]
      split_ifs
      · rfl
      · rfl

/-! ## What the calls use -/

/-- What the callbacks share, as cells. -/
inductive SeqCell where
  | rlIter
  | infoIter
  | infoShow
  | topologyIdx
  | topologyLce2pce
  | window (gpu : ℕ)
  deriving DecidableEq, Repr

/-- What a cell holds. -/
def SeqCell.Value : SeqCell → Type
  | .rlIter => SharedRunlistIter
  | .infoIter => DeviceInfoIter
  | .infoShow => Bool
  | .topologyIdx => ℕ
  | .topologyLce2pce => List Lce2pceEntry
  | .window _ => BitVec 32

/-- The content of a cell. -/
def SeqState.get (st : SeqState) : (k : SeqCell) → k.Value
  | .rlIter => st.rlIter
  | .infoIter => st.infoIter
  | .infoShow => st.infoShowGa100
  | .topologyIdx => st.topologyIdx
  | .topologyLce2pce => st.topologyLce2pce
  | .window gpu => st.windows gpu

/-- The iterator of a kind of file; that of `copy_topology` is its index. -/
def SeqProcFile.iterCell : SeqProcFile → SeqCell
  | .runlist _ => .rlIter
  | .deviceInfo => .infoIter
  | .copyTopology => .topologyIdx

/-- The register that `show` of `device_info` reads. -/
def infoRegister (infoShowGa100 : Bool) (idx : ℕ) : ℕ :=
  if infoShowGa100 then nvPtopDeviceInfoGa100 idx else 0x00022700 + idx * 4

/-- What `show` depends on, besides the iterator. -/
def SeqReader.showReads (r : SeqReader) (cores : ℕ → Core) (st : SeqState) (k : SeqCell) :
    Bool :=
  match r.file with
  | .runlist _ =>
      decide (k = .window r.gpu ∨
        st.rlIter.rlIter.currEntry.avoidsWindow = false ∧ k = .window st.rlIter.owner)
  | .deviceInfo =>
      decide (k = .infoShow ∨
        infoRegister st.infoShowGa100 st.infoIter.idx = (cores r.gpu).windowReg ∧
          k = .window r.gpu)
  | .copyTopology => decide (k = .topologyLce2pce)

/-- The cells that a call depends on.  A `start` at position 0 depends on no iterator, but
that of a `runlist` file on the window. -/
def SeqReader.reads (r : SeqReader) (cores : ℕ → Core) (st : SeqState) :
    SeqCall → SeqCell → Bool
  | .start 0, k => decide (r.file.iterCell = .rlIter ∧ k = .window r.gpu)
  | .start _, k => decide (k = r.file.iterCell)
  | .next _, k => decide (k = r.file.iterCell)
  | .showRecord, k => decide (k = r.file.iterCell) || r.showReads cores st k
  | _, _ => false

/-- The calls that go to the iterator. -/
def SeqCall.usesIter : SeqCall → Bool
  | .fileOpen => false
  | .stop => false
  | _ => true

def SeqCall.isStart : SeqCall → Bool
  | .start _ => true
  | _ => false

/-- The calls of the `runlist` file that go to the window. -/
def SeqCall.usesWindow : SeqCall → Bool
  | .start 0 => true
  | .showRecord => true
  | _ => false

/-- The cells that a call may change. -/
def SeqReader.writes (r : SeqReader) (c : SeqCall) (k : SeqCell) : Bool :=
  match r.file with
  | .runlist _ =>
      decide ((c.usesIter = true ∧ k = .rlIter) ∨
        (c.usesWindow = true ∧ k = .window r.gpu))
  | .deviceInfo =>
      decide ((c.usesIter = true ∧ k = .infoIter) ∨
        (c = .fileOpen ∧ k = .infoShow))
  | .copyTopology =>
      decide ((c.usesIter = true ∧ k = .topologyIdx) ∨
        (c.isStart = true ∧ k = .topologyLce2pce))

/-! ## Registers besides the window -/

section WithWindow

variable {c : Core}

theorem ptopSizeGa100_withWindow (c : Core) (w w' : BitVec 32) :
    (c.withWindow w).ptopSizeGa100 = (c.withWindow w').ptopSizeGa100 := by
  have hne : 0x000224fc ≠ c.windowReg := by
    rcases windowReg_cases c with h | h <;> rw [h] <;> decide
  rw [Machine.ptopSizeGa100, Machine.ptopSizeGa100, readlValue_withWindow hne w w']

theorem readlValue_copyEngine {r : ℕ} (hlow : 0x00104000 ≤ r) (hhigh : r < 0x00105000)
    (w w' : BitVec 32) : (c.withWindow w).readlValue r = (c.withWindow w').readlValue r := by
  apply readlValue_withWindow
  rcases windowReg_cases c with h | h <;> rw [h] <;> omega

theorem getLceForPce_withWindow {pceId : ℕ} (h : pceId < 32) (w w' : BitVec 32) :
    (c.withWindow w).getLceForPce pceId = (c.withWindow w').getLceForPce pceId := by
  have hchip : (c.withWindow w).chipId = (c.withWindow w').chipId := rfl
  have hpascal := @readlValue_copyEngine c 0x0010402c (by decide) (by decide) w w'
  have hvolta := @readlValue_copyEngine c (0x00104040 + pceId * 4) (by omega) (by omega) w w'
  have hampere := @readlValue_copyEngine c (0x00104100 + pceId * 4) (by omega) (by omega) w w'
  simp only [Machine.getLceForPce, hchip, hpascal, hvolta, hampere]

theorem getSharedLceForGrce_withWindow {grceId : ℕ} (h : grceId < 2) (w w' : BitVec 32) :
    (c.withWindow w).getSharedLceForGrce grceId =
      (c.withWindow w').getSharedLceForGrce grceId := by
  have hchip : (c.withWindow w).chipId = (c.withWindow w').chipId := rfl
  have hpascal := @readlValue_copyEngine c 0x00104034 (by decide) (by decide) w w'
  have hvolta := @readlValue_copyEngine c (0x00104034 + grceId * 4) (by omega) (by omega) w w'
  have hampere := @readlValue_copyEngine c (0x001041c0 + grceId * 4) (by omega) (by omega) w w'
  simp only [Machine.getSharedLceForGrce, hchip, hpascal, hvolta, hampere]

theorem directLces_withWindow {pceIds : List ℕ} (h : ∀ pceId ∈ pceIds, pceId < 32)
    (w w' cePceMap : BitVec 32) (lce2pce : List Lce2pceEntry) :
    directLces (c.withWindow w) cePceMap pceIds lce2pce =
      directLces (c.withWindow w') cePceMap pceIds lce2pce := by
  induction pceIds generalizing lce2pce with
  | nil => rfl
  | cons pceId pceIds ih =>
      obtain ⟨hpce, hrest⟩ := List.forall_mem_cons.mp h
      simp only [directLces, getLceForPce_withWindow hpce w w', ih hrest]

theorem sharedLces_withWindow {grceIds : List ℕ} (h : ∀ grceId ∈ grceIds, grceId < 2)
    (w w' : BitVec 32) (lce2pce : List Lce2pceEntry) :
    sharedLces (c.withWindow w) grceIds lce2pce =
      sharedLces (c.withWindow w') grceIds lce2pce := by
  induction grceIds generalizing lce2pce with
  | nil => rfl
  | cons grceId grceIds ih =>
      obtain ⟨hgrce, hrest⟩ := List.forall_mem_cons.mp h
      simp only [sharedLces, getSharedLceForGrce_withWindow hgrce w w', ih hrest]

theorem getPcesForLces_withWindow (c : Core) (w w' : BitVec 32) :
    (c.withWindow w).getPcesForLces = (c.withWindow w').getPcesForLces := by
  have hmap := @readlValue_copyEngine c 0x00104028 (by decide) (by decide) w w'
  have hpces : ∀ pceId ∈ List.range 32, pceId < 32 := fun _ => List.mem_range.mp
  have hgrces : ∀ grceId ∈ List.range 2, grceId < 2 := fun _ => List.mem_range.mp
  simp only [Machine.getPcesForLces, hmap, directLces_withWindow hpces w w',
    sharedLces_withWindow hgrces w w']

end WithWindow

section Local

variable {r : SeqReader} {cores : ℕ → Core} {c : SeqCall} {st st' : SeqState} {k : SeqCell}

/-- What the callbacks share looks alike to a call of a reader. -/
def SeqReader.Alike (r : SeqReader) (cores : ℕ → Core) (c : SeqCall) (st st' : SeqState) :
    Prop :=
  ∀ k, r.reads cores st c k = true → st.get k = st'.get k

theorem SeqReader.Alike.start_iter {pos : ℕ} (h : r.Alike cores (.start pos) st st')
    (hpos : pos ≠ 0) : st.get r.file.iterCell = st'.get r.file.iterCell := by
  obtain ⟨n, rfl⟩ := Nat.exists_eq_succ_of_ne_zero hpos
  exact h _ (decide_eq_true rfl)

theorem SeqReader.Alike.next_iter {pos : ℕ} (h : r.Alike cores (.next pos) st st') :
    st.get r.file.iterCell = st'.get r.file.iterCell :=
  h _ (decide_eq_true rfl)

theorem SeqReader.Alike.show_iter (h : r.Alike cores .showRecord st st') :
    st.get r.file.iterCell = st'.get r.file.iterCell :=
  h _ (by simp [SeqReader.reads])

theorem SeqReader.Alike.show_reads (h : r.Alike cores .showRecord st st')
    (hk : r.showReads cores st k = true) : st.get k = st'.get k :=
  h _ (by simp [SeqReader.reads, hk])

/-- Only a pointer through the window of the other GPU depends on that window. -/
theorem showShared_congr {gpu : ℕ}
    (hwindow : st.windows gpu = st'.windows gpu)
    (howner : st.rlIter.rlIter.currEntry.avoidsWindow = false →
      st.windows st.rlIter.owner = st'.windows st.rlIter.owner) :
    showShared gpu (st.machines cores) st.rlIter =
      showShared gpu (st'.machines cores) st.rlIter := by
  generalize st.rlIter = it at howner
  have hhere : st.machines cores gpu = st'.machines cores gpu :=
    congrArg (cores gpu).withWindow hwindow
  rw [showShared, showShared, hhere]
  by_cases hsame : st.windows it.owner = st'.windows it.owner
  · have hthere : st.machines cores it.owner = st'.machines cores it.owner :=
      congrArg (cores it.owner).withWindow hsame
    rw [hthere]
  · have havoids : it.rlIter.currEntry.avoidsWindow = true := by
      by_contra hthrough
      exact hsame (howner (eq_false_of_ne_true hthrough))
    have hother : it.owner ≠ gpu := by
      intro heq
      rw [heq] at hsame
      exact hsame hwindow
    obtain ⟨found, hfound⟩ := readEntryAs_withWindow (c := cores it.owner)
      (st'.machines cores gpu).chipId havoids
    have hthere : ∀ st : SeqState, readEntryAs (st'.machines cores gpu).chipId
        it.rlIter.currEntry (st.machines cores it.owner) =
          found.map fun e => (e, st.machines cores it.owner) := fun st => hfound _
    rw [hthere st, hthere st']
    cases found <;> simp [hother]

theorem runlistFileCall_congr {rlId : ℕ} (hfile : r.file = .runlist rlId)
    (h : r.Alike cores c st st') (hc : c.usesIter = true) :
    (runlistFileCall r.gpu rlId (st.machines cores) st.rlIter c).1 =
        (runlistFileCall r.gpu rlId (st'.machines cores) st'.rlIter c).1 ∧
      (runlistFileCall r.gpu rlId (st.machines cores) st.rlIter c).2.1 =
        (runlistFileCall r.gpu rlId (st'.machines cores) st'.rlIter c).2.1 ∧
      (c.usesWindow = true →
        (runlistFileCall r.gpu rlId (st.machines cores) st.rlIter c).2.2 =
          (runlistFileCall r.gpu rlId (st'.machines cores) st'.rlIter c).2.2) := by
  obtain ⟨gpu, file⟩ := r
  cases hfile
  cases c with
  | fileOpen => cases hc
  | stop => cases hc
  | start pos =>
      cases pos with
      | zero =>
          have hwindow : st.windows gpu = st'.windows gpu :=
            h (.window gpu) (decide_eq_true ⟨rfl, rfl⟩)
          have hhere : st.machines cores gpu = st'.machines cores gpu :=
            congrArg (cores gpu).withWindow hwindow
          simp only [runlistFileCall, hhere]
          exact ⟨rfl, rfl, fun _ => rfl⟩
      | succ pos =>
          have hiter : st.rlIter = st'.rlIter := h.start_iter pos.succ_ne_zero
          rw [hiter]
          exact ⟨rfl, rfl, fun hwindow => Bool.noConfusion hwindow⟩
  | next pos =>
      have hiter : st.rlIter = st'.rlIter := h.next_iter
      rw [hiter]
      exact ⟨rfl, rfl, fun hwindow => Bool.noConfusion hwindow⟩
  | showRecord =>
      have hiter : st.rlIter = st'.rlIter := h.show_iter
      have hwindow : st.windows gpu = st'.windows gpu :=
        h.show_reads (k := .window gpu) (by simp [SeqReader.showReads])
      have hshow := @showShared_congr cores st st' gpu hwindow fun hthrough =>
        h.show_reads (k := .window st.rlIter.owner)
          (by simp [SeqReader.showReads, hthrough])
      have hhere : st.machines cores gpu = st'.machines cores gpu :=
        congrArg (cores gpu).withWindow hwindow
      refine ⟨?_, ?_, fun _ => ?_⟩ <;> simp only [runlistFileCall, ← hiter, hshow, hhere]

theorem deviceInfoFileCall_congr (hfile : r.file = .deviceInfo) (h : r.Alike cores c st st')
    (hc : c.usesIter = true) :
    (deviceInfoFileCall (st.machines cores r.gpu) st.infoIter st.infoShowGa100 c).1 =
        (deviceInfoFileCall (st'.machines cores r.gpu) st'.infoIter st'.infoShowGa100 c).1 ∧
      (deviceInfoFileCall (st.machines cores r.gpu) st.infoIter st.infoShowGa100 c).2.1 =
        (deviceInfoFileCall (st'.machines cores r.gpu) st'.infoIter st'.infoShowGa100 c).2.1 := by
  obtain ⟨gpu, file⟩ := r
  cases hfile
  cases c with
  | fileOpen => cases hc
  | stop => cases hc
  | start pos =>
      by_cases hpos : pos = 0
      · have hsize : (st.machines cores gpu).ptopSizeGa100 =
            (st'.machines cores gpu).ptopSizeGa100 :=
          ptopSizeGa100_withWindow _ _ _
        have hchip : (st.machines cores gpu).chipId = (st'.machines cores gpu).chipId := rfl
        constructor <;>
          simp only [deviceInfoFileCall, deviceInfoStart, if_pos hpos, hsize, hchip]
      · have hiter : st.infoIter = st'.infoIter := h.start_iter hpos
        constructor <;> simp only [deviceInfoFileCall, deviceInfoStart, if_neg hpos, hiter]
  | next pos =>
      have hiter : st.infoIter = st'.infoIter := h.next_iter
      rw [hiter]
      exact ⟨rfl, rfl⟩
  | showRecord =>
      have hiter : st.infoIter = st'.infoIter := h.show_iter
      have hshow : st.infoShowGa100 = st'.infoShowGa100 :=
        h.show_reads (k := .infoShow) (by simp [SeqReader.showReads])
      have hvalue : (st.machines cores gpu).readlValue
            (infoRegister st.infoShowGa100 st.infoIter.idx) =
          (st'.machines cores gpu).readlValue
            (infoRegister st.infoShowGa100 st.infoIter.idx) := by
        by_cases hreg : infoRegister st.infoShowGa100 st.infoIter.idx =
            (cores gpu).windowReg
        · have hwindow : st.windows gpu = st'.windows gpu :=
            h.show_reads (k := .window gpu) (by simp [SeqReader.showReads, hreg])
          rw [SeqState.machines, SeqState.machines, hwindow]
        · exact readlValue_withWindow hreg _ _
      rw [← hiter, ← hshow]
      cases hga100 : st.infoShowGa100 with
      | true =>
          rw [hga100] at hvalue
          have hrow : (st.machines cores gpu).readlValue
              (nvPtopDeviceInfoGa100 st.infoIter.idx) =
            (st'.machines cores gpu).readlValue
              (nvPtopDeviceInfoGa100 st.infoIter.idx) := hvalue
          constructor <;> simp only [deviceInfoFileCall, deviceInfoShowGa100, hrow, if_true]
      | false =>
          rw [hga100] at hvalue
          have hrow : (st.machines cores gpu).readlValue
              (0x00022700 + st.infoIter.idx * 4) =
            (st'.machines cores gpu).readlValue
              (0x00022700 + st.infoIter.idx * 4) := hvalue
          constructor <;>
            simp only [deviceInfoFileCall, deviceInfoShowGk104, hrow, Bool.false_eq_true,
              if_false]

theorem copyTopologyFileCall_congr (hfile : r.file = .copyTopology)
    (h : r.Alike cores c st st') (hc : c.usesIter = true) :
    (copyTopologyFileCall (st.machines cores r.gpu) st.topologyIdx st.topologyLce2pce c).1 =
        (copyTopologyFileCall (st'.machines cores r.gpu) st'.topologyIdx
          st'.topologyLce2pce c).1 ∧
      (copyTopologyFileCall (st.machines cores r.gpu) st.topologyIdx
          st.topologyLce2pce c).2.1 =
        (copyTopologyFileCall (st'.machines cores r.gpu) st'.topologyIdx
          st'.topologyLce2pce c).2.1 := by
  obtain ⟨gpu, file⟩ := r
  cases hfile
  cases c with
  | fileOpen => cases hc
  | stop => cases hc
  | start pos =>
      have hfound : (st.machines cores gpu).getPcesForLces =
          (st'.machines cores gpu).getPcesForLces := getPcesForLces_withWindow _ _ _
      by_cases hpos : pos = 0
      · constructor <;>
          simp only [copyTopologyFileCall, copyTopologyFileSeqStart, if_pos hpos, hfound]
      · have hidx : st.topologyIdx = st'.topologyIdx := h.start_iter hpos
        constructor <;>
          simp only [copyTopologyFileCall, copyTopologyFileSeqStart, if_neg hpos, hfound, hidx]
  | next pos =>
      have hidx : st.topologyIdx = st'.topologyIdx := h.next_iter
      rw [hidx]
      exact ⟨rfl, rfl⟩
  | showRecord =>
      have hidx : st.topologyIdx = st'.topologyIdx := h.show_iter
      have htable : st.topologyLce2pce = st'.topologyLce2pce :=
        h.show_reads (k := .topologyLce2pce) (by simp [SeqReader.showReads])
      rw [hidx, htable]
      exact ⟨rfl, rfl⟩

/-- The table that `start` of `copy_topology` computes comes from the registers alone. -/
theorem copyTopologyFileCall_table (gpu pos : ℕ) :
    (copyTopologyFileCall (st.machines cores gpu) st.topologyIdx st.topologyLce2pce
        (.start pos)).2.2 =
      (copyTopologyFileCall (st'.machines cores gpu) st'.topologyIdx st'.topologyLce2pce
        (.start pos)).2.2 := by
  have hfound : (st.machines cores gpu).getPcesForLces =
      (st'.machines cores gpu).getPcesForLces := getPcesForLces_withWindow _ _ _
  simp only [copyTopologyFileCall, copyTopologyFileSeqStart, hfound]

theorem seqFileCall_output (h : r.Alike cores c st st') :
    (seqFileCall r cores c st).1 = (seqFileCall r cores c st').1 := by
  by_cases hc : c.usesIter = true
  · cases hfile : r.file with
    | runlist rlId =>
        simp only [seqFileCall, hfile]
        exact (runlistFileCall_congr hfile h hc).1
    | deviceInfo =>
        simp only [seqFileCall, hfile]
        exact (deviceInfoFileCall_congr hfile h hc).1
    | copyTopology =>
        simp only [seqFileCall, hfile]
        exact (copyTopologyFileCall_congr hfile h hc).1
  · obtain ⟨gpu, file⟩ := r
    cases c with
    | fileOpen => cases file <;> rfl
    | stop => cases file <;> rfl
    | start pos => exact absurd rfl hc
    | next pos => exact absurd rfl hc
    | showRecord => exact absurd rfl hc

theorem seqFileCall_write (h : r.Alike cores c st st') (hk : r.writes c k = true) :
    (seqFileCall r cores c st).2.get k = (seqFileCall r cores c st').2.get k := by
  cases hfile : r.file with
  | runlist rlId =>
      simp only [SeqReader.writes, hfile] at hk
      simp only [seqFileCall, hfile]
      rcases of_decide_eq_true hk with ⟨hc, rfl⟩ | ⟨hc, rfl⟩
      · exact (runlistFileCall_congr hfile h hc).2.1
      · have hiter : c.usesIter = true := by
          cases c <;> first | rfl | cases hc
        simp only [SeqState.get, Function.update_self]
        exact (runlistFileCall_congr hfile h hiter).2.2 hc
  | deviceInfo =>
      simp only [SeqReader.writes, hfile] at hk
      simp only [seqFileCall, hfile]
      rcases of_decide_eq_true hk with ⟨hc, rfl⟩ | ⟨rfl, rfl⟩
      · exact (deviceInfoFileCall_congr hfile h hc).2
      · rfl
  | copyTopology =>
      simp only [SeqReader.writes, hfile] at hk
      simp only [seqFileCall, hfile]
      rcases of_decide_eq_true hk with ⟨hc, rfl⟩ | ⟨hc, rfl⟩
      · exact (copyTopologyFileCall_congr hfile h hc).2
      · cases c with
        | start pos => exact copyTopologyFileCall_table r.gpu pos
        | fileOpen => cases hc
        | next pos => cases hc
        | showRecord => cases hc
        | stop => cases hc

theorem runlistFileCall_window {gpu rlId : ℕ} (hc : c.usesWindow = false) :
    (runlistFileCall gpu rlId (st.machines cores) st.rlIter c).2.2 = st.windows gpu := by
  cases c with
  | start pos =>
      cases pos with
      | zero => cases hc
      | succ pos => rfl
  | showRecord => cases hc
  | _ => rfl

theorem seqFileCall_frame (hk : r.writes c k = false) :
    (seqFileCall r cores c st).2.get k = st.get k := by
  obtain ⟨gpu, file⟩ := r
  simp only [SeqReader.writes] at hk
  cases file with
  | runlist rlId =>
      cases k with
      | rlIter =>
          have hc : c.usesIter = false := by simpa using hk
          cases c <;> first | rfl | cases hc
      | window g =>
          simp only [seqFileCall, SeqState.get]
          by_cases hg : g = gpu
          · subst hg
            have hc : c.usesWindow = false := by simpa using hk
            rw [Function.update_self, runlistFileCall_window hc]
          · rw [Function.update_of_ne hg]
      | _ => rfl
  | deviceInfo =>
      cases k with
      | infoIter =>
          have hc : c.usesIter = false := by simpa using hk
          cases c <;> first | rfl | cases hc
      | infoShow =>
          have hc : c ≠ .fileOpen := by simpa using hk
          cases c <;> first | rfl | exact absurd rfl hc
      | _ => rfl
  | copyTopology =>
      cases k with
      | topologyIdx =>
          have hc : c.usesIter = false := by simpa using hk
          cases c <;> first | rfl | cases hc
      | topologyLce2pce =>
          have hc : c.isStart = false := by simpa using hk
          cases c <;> first | rfl | cases hc
      | _ => rfl

end Local

/-- The readers of these files. -/
def seqReaders {ρ : Type} (file : ρ → SeqReader) :
    SharedCells.System ρ (SeqCall × (ℕ → Core)) SeqOutput SeqState SeqCell
      SeqCell.Value where
  get k st := st.get k
  step r c st := seqFileCall (file r) c.2 c.1 st
  reads r c st k := (file r).reads c.2 st c.1 k
  writes r c k := (file r).writes c.1 k

theorem seqReaders_local {ρ : Type} (file : ρ → SeqReader) :
    (seqReaders file).Local where
  output h := seqFileCall_output h
  write h hk := seqFileCall_write h hk
  frame hk := seqFileCall_frame hk

/-- Whatever the readers, their GPUs and their files are, if each call finds in what it
reads of the static variables and windows what the earlier calls of the same reader left
there, then each reader is answered as if it were alone.  A call sees the registers and
memories of the GPUs; they are the same in both runs. -/
theorem seqReaders_alone {ρ : Type} [DecidableEq ρ] (file : ρ → SeqReader)
    (st : SeqState) (calls : List (ρ × SeqCall × (ℕ → Core)))
    (h : (seqReaders file).Undisturbed (fun _ k => st.get k) st calls) (r : ρ) :
    SharedCells.System.callsOf r ((seqReaders file).outputs st calls) =
      (seqReaders file).outputs st (SharedCells.System.callsOf r calls) :=
  (seqReaders_local file).outputs_eq h fun _ => rfl

/-- Two GPUs that are alike. -/
def twinGpus : ℕ → Core := fun _ => twoRunlists.toCore

/-- The module is loaded, and no window is moved yet. -/
def freshState : SeqState := { SeqStatics.init with windows := fun _ => 0 }

/-- Two readers of `device_info` files; the second one starts while the first one is at
row 1. -/
def overlappingReaders : List (Bool × SeqCall × (ℕ → Core)) :=
  [(true, .fileOpen, twinGpus), (true, .start 0, twinGpus),
    (true, .showRecord, twinGpus), (true, .next 0, twinGpus),
    (false, .fileOpen, twinGpus), (false, .start 0, twinGpus),
    (true, .showRecord, twinGpus)]

/-- The first reader prints row 0 again. -/
theorem seqReaders_overlapping :
    ¬ ∀ (file : Bool → SeqReader) (calls : List (Bool × SeqCall × (ℕ → Core)))
      (r : Bool),
      SharedCells.System.callsOf r ((seqReaders file).outputs freshState calls) =
        (seqReaders file).outputs freshState (SharedCells.System.callsOf r calls) := by
  intro h
  have houtputs := h (fun _ => ⟨0, .deviceInfo⟩) overlappingReaders true
  revert houtputs
  decide

theorem seqReaders_alone_overlapping :
    SharedCells.System.callsOf true
        ((seqReaders fun _ => ⟨0, .deviceInfo⟩).outputs freshState
          (overlappingReaders.take 6)) =
      (seqReaders fun _ => ⟨0, .deviceInfo⟩).outputs freshState
        (SharedCells.System.callsOf true (overlappingReaders.take 6)) := by
  apply seqReaders_alone
  refine ⟨?_, ?_, ?_, ?_, ?_, ?_, trivial⟩
  all_goals
    intro k hk
    cases k <;> first | rfl | cases hk

end A100Partitioning.Nvdebug
