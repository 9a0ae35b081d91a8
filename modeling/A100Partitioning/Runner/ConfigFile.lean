import A100Partitioning.Config.CJsonParser
import A100Partitioning.Support.Ledger

/-!
# The configuration file

The runner reads its configuration into a buffer that grows by a chunk at a time, since the
length of its standard input is not known before.  The buffer is parsed as a string, although
no terminator is put behind what has been read.
-/

namespace A100Partitioning.Runner

open Support

/-! ## The code -/

/-- `FILE_CHUNK_SIZE`. -/
def fileChunkSize : ℕ := 4096

theorem fileChunkSize_pos : 0 < fileChunkSize := by decide

/-- What the runner holds. -/
inductive Resource where
  | file
  | buffer (size : ℕ)
  | path
  | library
  | taskHost
  deriving DecidableEq

/-- A file to be read: its bytes, and whether reading fails behind them. -/
structure Stream where
  bytes : List Char
  fails : Bool

/-- The standard input or a file, and memory: whether a block of a size can be had, and what is
in it where nothing has been copied to. -/
structure System where
  isStdin : Bool
  opens : Bool
  stream : Stream
  allocates : ℕ → Bool
  heap : ℕ → ℕ → Char

/-- What `GetConfigFileContent` returns.  A write behind the buffer is told apart. -/
inductive Content where
  | null
  | raw (content : List Char)
  | outOfBounds

/-- What is freed with a buffer. -/
def freeBuffer (ledger : Ledger Resource) : Option (List Char) → Ledger Resource
  | none => ledger
  | some buffer => ledger.free (.buffer buffer.length)

/-- What `realloc` returns when there is memory, which begins with the old block. -/
def realloc (system : System) (buffer : List Char) (newSize : ℕ) : List Char :=
  (List.range newSize).map fun i => buffer.getD i (system.heap newSize i)

/-- `SetBufferSize`, with the new buffer unless there is no memory for it. -/
def setBufferSize (system : System) (buffer : Option (List Char)) (newSize : ℕ)
    (ledger : Ledger Resource) : Option (Option (List Char) × Ledger Resource) :=
  if newSize = 0 then some (none, freeBuffer ledger buffer)
  else if system.allocates newSize then
    some (some (realloc system (buffer.getD []) newSize),
      (freeBuffer ledger buffer).alloc (.buffer newSize))
  else none

/-- `fclose`, which is not called for the standard input. -/
def closeFile (system : System) (ledger : Ledger Resource) : Ledger Resource :=
  if system.isStdin then ledger else ledger.free .file

/-- The loop in `GetConfigFileContent`. -/
def readLoop (system : System) (left rawContent : List Char) (totalBytesRead : ℕ)
    (ledger : Ledger Resource) : Content × Ledger Resource :=
  if rawContent.length < totalBytesRead + fileChunkSize then (.outOfBounds, ledger)
  else
    let chunk := left.take fileChunkSize
    let content := rawContent.take totalBytesRead ++ chunk ++
      rawContent.drop (totalBytesRead + chunk.length)
    if _ : chunk.length ≠ fileChunkSize then
      if system.stream.fails then
        (.null, closeFile system (freeBuffer ledger (some content)))
      else (.raw content, closeFile system ledger)
    else
      match setBufferSize system (some content)
        (totalBytesRead + fileChunkSize + fileChunkSize) ledger with
      | some (some content, ledger) =>
          readLoop system (left.drop fileChunkSize) content (totalBytesRead + fileChunkSize) ledger
      | _ => (.null, closeFile system (freeBuffer ledger (some content)))
termination_by left.length
decreasing_by
  rename_i hshort
  rw [not_not, List.length_take] at hshort
  rw [List.length_drop]
  have hpos := fileChunkSize_pos
  omega

/-- `GetConfigFileContent`. -/
def getConfigFileContent (system : System) (ledger : Ledger Resource) :
    Content × Ledger Resource :=
  if ¬ system.isStdin ∧ ¬ system.opens then (.null, ledger)
  else
    let ledger := if system.isStdin then ledger else ledger.alloc .file
    match setBufferSize system none fileChunkSize ledger with
    | some (some content, ledger) => readLoop system system.stream.bytes content 0 ledger
    | _ => (.null, closeFile system ledger)

/-! ## The buffer -/

/-- What the reading of the file holds besides the buffer. -/
def openFile (system : System) : List Resource := if system.isStdin then [] else [.file]

/-- What holds at the top of the loop: there is room for a chunk behind what has been read. -/
structure Reading (system : System) (done rawContent : List Char) (ledger : Ledger Resource) :
    Prop where
  length : rawContent.length = done.length + fileChunkSize
  isPrefix : done <+: rawContent
  holds : ledger.Holds (.buffer rawContent.length :: openFile system)
  fresh : ∀ n, .buffer n ∈ ledger.allocated → n ≤ rawContent.length

variable {system : System} {done rawContent : List Char} {ledger : Ledger Resource}

theorem holds_closeFile {held : List Resource} (h : ledger.Holds (held ++ openFile system)) :
    (closeFile system ledger).Holds held := by
  rw [openFile] at h
  rw [closeFile]
  split_ifs at h ⊢ with hstdin
  · rwa [List.append_nil] at h
  · exact (h.of_perm (List.perm_append_singleton .file held)).free

@[simp] theorem length_realloc (buffer : List Char) (newSize : ℕ) :
    (realloc system buffer newSize).length = newSize := by
  rw [realloc, List.length_map, List.length_range]

theorem prefix_realloc {buffer : List Char} {newSize : ℕ} (hsize : buffer.length ≤ newSize) :
    buffer <+: realloc system buffer newSize := by
  rw [List.prefix_iff_eq_take]
  apply List.ext_getElem
  · rw [List.length_take, length_realloc]
    omega
  · intro i hi hi'
    simp only [realloc, List.getElem_take, List.getElem_map, List.getElem_range]
    rw [List.getD_eq_getElem _ _ hi]

/-- There is memory for each chunk that follows. -/
def CanGrow (system : System) (done left : ℕ) : Prop :=
  ∀ k, 1 ≤ k → k ≤ left / fileChunkSize →
    system.allocates (done + fileChunkSize * (k + 1)) = true

theorem canGrow_of_lt {done left : ℕ} (h : left < fileChunkSize) : CanGrow system done left := by
  intro k hk hle
  rw [Nat.div_eq_of_lt h] at hle
  omega

theorem canGrow_iff {done left : ℕ} (h : fileChunkSize ≤ left) :
    CanGrow system done left ↔
      system.allocates (done + fileChunkSize + fileChunkSize) = true ∧
        CanGrow system (done + fileChunkSize) (left - fileChunkSize) := by
  have hchunk : fileChunkSize = 4096 := rfl
  simp only [CanGrow, hchunk] at h ⊢
  constructor
  · intro hgrow
    refine ⟨hgrow 1 le_rfl (by omega), fun k hk hle => ?_⟩
    have hnext := hgrow (k + 1) (by omega) (by omega)
    have hsize : done + 4096 * (k + 1 + 1) = done + 4096 + 4096 * (k + 1) := by ring
    rwa [hsize] at hnext
  · rintro ⟨hfirst, hgrow⟩ k hk hle
    obtain rfl | hlt := hk.eq_or_lt
    · exact hfirst
    · have hnext := hgrow (k - 1) (by omega) (by omega)
      have hsize : done + 4096 + 4096 * (k - 1 + 1) = done + 4096 * (k + 1) := by omega
      rwa [hsize] at hnext

theorem Reading.write (h : Reading system done rawContent ledger) (chunk : List Char)
    (hchunk : chunk.length ≤ fileChunkSize) :
    ∃ tail, rawContent.take done.length ++ chunk ++
        rawContent.drop (done.length + chunk.length) = done ++ chunk ++ tail ∧
      tail.length = fileChunkSize - chunk.length ∧
      (done ++ chunk ++ tail).length = rawContent.length := by
  have hlength := h.length
  refine ⟨rawContent.drop (done.length + chunk.length), ?_, ?_, ?_⟩
  · rw [← List.prefix_iff_eq_take.mp h.isPrefix]
  · rw [List.length_drop]
    omega
  · rw [List.length_append, List.length_append, List.length_drop]
    omega

theorem Reading.grow (h : Reading system done rawContent ledger) {chunk tail : List Char}
    (hchunk : chunk.length = fileChunkSize)
    (hlength : (done ++ chunk ++ tail).length = rawContent.length) :
    Reading system (done ++ chunk)
      (realloc system (done ++ chunk ++ tail) (done.length + fileChunkSize + fileChunkSize))
      ((ledger.free (.buffer (done ++ chunk ++ tail).length)).alloc
        (.buffer (done.length + fileChunkSize + fileChunkSize))) := by
  have hpos := fileChunkSize_pos
  have hsize := h.length
  constructor
  · rw [length_realloc, List.length_append, hchunk]
  · refine List.IsPrefix.trans (List.prefix_append _ tail) (prefix_realloc ?_)
    rw [hlength, hsize]
    omega
  · rw [length_realloc, hlength]
    refine h.holds.free.alloc fun hmem => ?_
    have hle := h.fresh _ hmem
    omega
  · intro n hn
    rw [length_realloc]
    rcases List.mem_cons.mp hn with heq | hmem
    · cases heq
      exact le_rfl
    · have hle := h.fresh n hmem
      omega

/-- The loop returns all that is left in the file, or nothing when reading fails or there is no
memory. -/
theorem Reading.readLoop (h : Reading system done rawContent ledger) (left : List Char) :
    (system.stream.fails = false ∧ CanGrow system done.length left.length →
      ∃ tail ledger', tail ≠ [] ∧ tail.length ≤ fileChunkSize ∧
        readLoop system left rawContent done.length ledger =
          (.raw (done ++ left ++ tail), ledger') ∧
        ledger'.Holds [.buffer (done ++ left ++ tail).length]) ∧
    (¬ (system.stream.fails = false ∧ CanGrow system done.length left.length) →
      ∃ ledger', readLoop system left rawContent done.length ledger = (.null, ledger') ∧
        ledger'.Holds []) := by
  induction hn : left.length using Nat.strong_induction_on generalizing
    done left rawContent ledger with
  | _ n ih =>
  subst hn
  have hpos := fileChunkSize_pos
  have hsize := h.length
  rw [Runner.readLoop, if_neg (by omega)]
  dsimp only
  obtain ⟨tail, hwrite, htail, hlength⟩ := h.write (left.take fileChunkSize)
    (List.length_take_le _ _)
  rw [hwrite]
  have hholds : ledger.Holds (.buffer (done ++ left.take fileChunkSize ++ tail).length ::
      openFile system) := hlength ▸ h.holds
  by_cases hshort : left.length < fileChunkSize
  · have htake : left.take fileChunkSize = left := List.take_of_length_le hshort.le
    rw [htake] at htail hholds ⊢
    rw [dif_pos (by omega)]
    cases hfails : system.stream.fails with
    | false =>
        refine ⟨fun _ => ⟨tail, closeFile system ledger, ?_, by omega, ?_, ?_⟩, fun hnot => ?_⟩
        · apply List.ne_nil_of_length_pos
          omega
        · rw [if_neg Bool.false_ne_true]
        · exact holds_closeFile hholds
        · exact absurd ⟨rfl, canGrow_of_lt hshort⟩ hnot
    | true =>
        refine ⟨fun hread => absurd hread.1.symm Bool.false_ne_true, fun _ => ?_⟩
        exact ⟨_, if_pos rfl, holds_closeFile hholds.free⟩
  · have hlong : (left.take fileChunkSize).length = fileChunkSize := by
      rw [List.length_take]
      omega
    have hdone : (done ++ left.take fileChunkSize).length = done.length + fileChunkSize := by
      rw [List.length_append, hlong]
    have hrest : done ++ left.take fileChunkSize ++ left.drop fileChunkSize = done ++ left := by
      rw [List.append_assoc, List.take_append_drop]
    have hdrop : (left.drop fileChunkSize).length = left.length - fileChunkSize :=
      List.length_drop
    rw [dif_neg (not_not.mpr hlong), canGrow_iff (by omega), setBufferSize, if_neg (by omega)]
    cases hallocates : system.allocates (done.length + fileChunkSize + fileChunkSize) with
    | false =>
        refine ⟨fun hread => absurd hread.2.1 Bool.false_ne_true, fun _ => ?_⟩
        rw [if_neg Bool.false_ne_true]
        exact ⟨_, rfl, holds_closeFile hholds.free⟩
    | true =>
        have hnext := ih (left.drop fileChunkSize).length (by omega) (h.grow hlong hlength) _ rfl
        rw [hdone, hrest, hdrop] at hnext
        refine ⟨fun hread => ?_, fun hnot => ?_⟩
        · exact hnext.1 ⟨hread.1, hread.2.2⟩
        · exact hnext.2 fun hread => hnot ⟨hread.1, rfl, hread.2⟩

theorem holds_opened (h : (if system.isStdin = true then (⟨[], []⟩ : Ledger Resource)
    else Ledger.alloc ⟨[], []⟩ .file) = ledger) :
    ledger.Holds (openFile system) ∧ ∀ n, .buffer n ∉ ledger.allocated := by
  rw [openFile]
  split_ifs at h ⊢
  · subst h
    exact ⟨.empty, fun n => List.not_mem_nil⟩
  · subst h
    refine ⟨Ledger.Holds.empty.alloc List.not_mem_nil, fun n hmem => ?_⟩
    cases List.mem_singleton.mp hmem

/-- Only the file and buffers have been acquired. -/
def OnlyReads (ledger : Ledger Resource) : Prop :=
  ∀ r ∈ ledger.allocated, r = .file ∨ ∃ size, r = .buffer size

theorem OnlyReads.not_mem (h : OnlyReads ledger) {r : Resource}
    (hr : ¬ (r = .file ∨ ∃ size, r = .buffer size)) : r ∉ ledger.allocated :=
  fun hmem => hr (h r hmem)

theorem OnlyReads.alloc (h : OnlyReads ledger) (size : ℕ) :
    OnlyReads (ledger.alloc (.buffer size)) := by
  intro r hr
  rcases List.mem_cons.mp hr with rfl | hmem
  · exact .inr ⟨size, rfl⟩
  · exact h r hmem

theorem OnlyReads.closeFile (h : OnlyReads ledger) : OnlyReads (closeFile system ledger) := by
  rw [Runner.closeFile]
  split_ifs
  · exact h
  · exact h

theorem OnlyReads.freeBuffer (h : OnlyReads ledger) (buffer : Option (List Char)) :
    OnlyReads (freeBuffer ledger buffer) := by
  cases buffer with
  | none => exact h
  | some buffer => exact h

theorem OnlyReads.setBufferSize (h : OnlyReads ledger) {buffer result : Option (List Char)}
    {newSize : ℕ} {ledger' : Ledger Resource}
    (hresult : setBufferSize system buffer newSize ledger = some (result, ledger')) :
    OnlyReads ledger' := by
  rw [Runner.setBufferSize] at hresult
  split_ifs at hresult
  · cases hresult
    exact h.freeBuffer buffer
  · cases hresult
    exact (h.freeBuffer buffer).alloc newSize

theorem OnlyReads.readLoop (h : OnlyReads ledger) (left : List Char) (totalBytesRead : ℕ) :
    OnlyReads (readLoop system left rawContent totalBytesRead ledger).2 := by
  fun_induction Runner.readLoop system left rawContent totalBytesRead ledger with
  | case1 => exact h
  | case2 => exact (h.freeBuffer _).closeFile
  | case3 => exact h.closeFile
  | case4 _ _ _ _ _ _ _ _ _ _ hresult ih => exact ih (h.setBufferSize hresult)
  | case5 => exact (h.freeBuffer _).closeFile

theorem onlyReads_getConfigFileContent (system : System) :
    OnlyReads (getConfigFileContent system ⟨[], []⟩).2 := by
  have hempty : OnlyReads ⟨[], []⟩ := fun _ hr => absurd hr List.not_mem_nil
  have hopened : OnlyReads (if system.isStdin = true then (⟨[], []⟩ : Ledger Resource)
      else Ledger.alloc ⟨[], []⟩ .file) := by
    split_ifs
    · exact hempty
    · exact fun r hr => .inl (List.mem_singleton.mp hr)
  rw [getConfigFileContent]
  split
  · exact hempty
  · dsimp only
    split
    · rename_i hresult
      exact (hopened.setBufferSize hresult).readLoop _ _
    · exact hopened.closeFile

/-- The file can be opened and read to its end, and there is memory for its chunks. -/
structure CanRead (system : System) : Prop where
  opens : system.isStdin = true ∨ system.opens = true
  ends : system.stream.fails = false
  allocates : ∀ k ≤ system.stream.bytes.length / fileChunkSize,
    system.allocates (fileChunkSize * (k + 1)) = true

theorem getConfigFileContent_spec (system : System) :
    (CanRead system →
      ∃ tail ledger, tail ≠ [] ∧ tail.length ≤ fileChunkSize ∧
        getConfigFileContent system ⟨[], []⟩ = (.raw (system.stream.bytes ++ tail), ledger) ∧
        ledger.Holds [.buffer (system.stream.bytes ++ tail).length]) ∧
    (¬ CanRead system →
      ∃ ledger, getConfigFileContent system ⟨[], []⟩ = (.null, ledger) ∧ ledger.Holds []) := by
  rw [getConfigFileContent]
  by_cases hopen : system.isStdin = true ∨ system.opens = true
  · rw [if_neg (by tauto)]
    dsimp only
    generalize hledger : (if system.isStdin = true then (⟨[], []⟩ : Ledger Resource)
      else Ledger.alloc ⟨[], []⟩ .file) = ledger
    obtain ⟨hholds, hfresh⟩ := holds_opened hledger
    rw [setBufferSize, if_neg fileChunkSize_pos.ne']
    cases hallocates : system.allocates fileChunkSize with
    | false =>
        rw [if_neg Bool.false_ne_true]
        refine ⟨fun hread => ?_, fun _ => ⟨_, rfl, holds_closeFile hholds⟩⟩
        have hfirst := hread.allocates 0 (Nat.zero_le _)
        rw [zero_add, mul_one, hallocates] at hfirst
        exact absurd hfirst Bool.false_ne_true
    | true =>
        rw [if_pos rfl]
        have hreading : Reading system [] (realloc system [] fileChunkSize)
            (ledger.alloc (.buffer fileChunkSize)) := by
          constructor
          · rw [length_realloc, List.length_nil, zero_add]
          · exact List.nil_prefix
          · rw [length_realloc]
            exact hholds.alloc fun hmem => hfresh _ hmem
          · intro n hn
            rw [length_realloc]
            rcases List.mem_cons.mp hn with heq | hmem
            · cases heq
              exact le_rfl
            · exact absurd hmem (hfresh n)
        obtain ⟨hall, hnull⟩ := hreading.readLoop system.stream.bytes
        have hgrow : CanGrow system 0 system.stream.bytes.length ↔
            ∀ k ≤ system.stream.bytes.length / fileChunkSize,
              system.allocates (fileChunkSize * (k + 1)) = true := by
          simp only [CanGrow, zero_add]
          refine ⟨fun hgrow k hk => ?_, fun hgrow k _ hk => hgrow k hk⟩
          obtain rfl | hpos := Nat.eq_zero_or_pos k
          · rwa [zero_add, mul_one]
          · exact hgrow k hpos hk
        refine ⟨fun hread => hall ⟨hread.ends, hgrow.mpr hread.allocates⟩, fun hnot => ?_⟩
        exact hnull fun hread => hnot ⟨hopen, hread.1, hgrow.mp hread.2⟩
  · rw [if_pos (by tauto)]
    exact ⟨fun hread => absurd hread.opens hopen, fun _ => ⟨_, rfl, .empty⟩⟩

/-! ## Results -/

/-- The runner gets exactly the bytes of the file, with at least one byte and at most a chunk of
whatever is in memory behind them, and holds nothing but the buffer; or it gets nothing, and
holds nothing.  It never writes behind the buffer. -/
theorem getConfigFileContent_exact (system : System) :
    ∃ content ledger, getConfigFileContent system ⟨[], []⟩ = (content, ledger) ∧
      (CanRead system ∧ (∃ tail, tail ≠ [] ∧ tail.length ≤ fileChunkSize ∧
          content = .raw (system.stream.bytes ++ tail) ∧
          ledger.Holds [.buffer (system.stream.bytes ++ tail).length]) ∨
        ¬ CanRead system ∧ content = .null ∧ ledger.Holds []) := by
  by_cases hread : CanRead system
  · obtain ⟨tail, ledger, hne, hle, hget, hholds⟩ := (getConfigFileContent_spec system).1 hread
    exact ⟨_, ledger, hget, .inl ⟨hread, tail, hne, hle, rfl, hholds⟩⟩
  · obtain ⟨ledger, hget, hholds⟩ := (getConfigFileContent_spec system).2 hread
    exact ⟨_, ledger, hget, .inr ⟨hread, rfl, hholds⟩⟩

end A100Partitioning.Runner
