import A100Partitioning.Nvdebug.WindowRestore

/-!
# Showing a record again (`runlist_procfs.c`)

A record that does not fit the buffer is shown again, from the iterator and with the
window that the first attempt left behind.
-/

namespace A100Partitioning.Nvdebug

open Support Keeping

/-- The iterators that `start`, `show` and `next` can come to.  The registers and
the memories can change between two callbacks. -/
inductive RunlistReached (rlId : ℕ) : ℕ → RunlistIter → Prop where
  | start {s s' : Machine} {init rlIter : RunlistIter}
      (run : runlistFileSeqStart rlId 0 init s = some ((.ok true, rlIter), s')) :
      RunlistReached rlId 0 rlIter
  | shown {s s' : Machine} {pos : ℕ} {rlIter rlIter' : RunlistIter}
      {text : List RunlistText} (before : RunlistReached rlId pos rlIter)
      (run : runlistFileSeqShow rlIter s = some ((text, rlIter'), s')) :
      RunlistReached rlId pos rlIter'
  | next {s : Machine} {pos : ℕ} {rlIter rlIter' : RunlistIter}
      (before : RunlistReached rlId pos rlIter)
      (run : runlistFileSeqNext s.rlEntrySize pos rlIter = (true, rlIter')) :
      RunlistReached rlId (pos + 1) rlIter'

/-- `show` is idempotent here: run again, it prints the same, and leaves the iterator as
the first run left it. -/
def ShowsAlike (c : Core) (window : BitVec 32) (rlIter : RunlistIter) : Prop :=
  ∀ text rlIter' s',
    runlistFileSeqShow rlIter (c.withWindow window) = some ((text, rlIter'), s') →
      (runlistFileSeqShow rlIter' (c.withWindow s'.window)).map Prod.fst =
        some (text, rlIter')

/-- The pointer does not go through the PRAMIN window. -/
def Kva.avoidsWindow : Kva → Bool
  | .pramin _ _ _ => false
  | _ => true

/-- Showing a channel does no harm to the next attempt: the window is put back; or the
channel's register cannot be read; or there is no context-switch block to find, and the
runlist is not read through the window, whose register has nothing in its other bits. -/
def Harmless (c : Core) (window : BitVec 32) (currEntry : Kva) (entry : RunlistEntry) : Prop :=
  (c.withWindow window).KeepsWindow ∨
    c.chipId < 0x170 ∧
      (c.withWindow window).readqValue (0x00800000 + entry.chid * 8) = BitVec.allOnes 64 ∨
    c.chipId < 0x120 ∧ currEntry.avoidsWindow = true ∧ Bitfield.get 26 6 window = 0

/-- Where the entry is of a TSG, as many entries are still expected as this TSG has
itself. -/
def Repeatable (c : Core) (window : BitVec 32) (rlIter : RunlistIter) : Prop :=
  ∀ entry s', readEntry rlIter.currEntry (c.withWindow window) = some (entry, s') →
    if entry.isTsg then rlIter.entriesLeftInTsg = entry.tsgLength + 1
    else Harmless c window rlIter.currEntry entry

/-- The iterator and the window at a callback. -/
abbrev ShowState := RunlistIter × BitVec 32

/-- What is listed from a position on.  `env` has the registers and memories at each
position, and `again` tells where the buffer may turn out too small, with what is left for
the second attempt: the record is looked up and shown again. -/
inductive Listed (rlId : ℕ) (env : ℕ → Core) (again : ℕ → ShowState → ShowState → Prop) :
    ℕ → ShowState → List (List RunlistText) → Prop where
  | last {pos : ℕ} {rlIter rlIter' rlIter'' : RunlistIter} {window : BitVec 32}
      {text : List RunlistText} {s' : Machine}
      (run : runlistFileSeqShow rlIter ((env pos).withWindow window) =
        some ((text, rlIter'), s'))
      (next : runlistFileSeqNext (env pos).rlEntrySize pos rlIter' = (false, rlIter'')) :
      Listed rlId env again pos (rlIter, window) [text]
  | next {pos : ℕ} {rlIter rlIter' rlIter'' : RunlistIter} {window : BitVec 32}
      {text : List RunlistText} {texts : List (List RunlistText)} {s' : Machine}
      (run : runlistFileSeqShow rlIter ((env pos).withWindow window) =
        some ((text, rlIter'), s'))
      (next : runlistFileSeqNext (env pos).rlEntrySize pos rlIter' = (true, rlIter''))
      (rest : Listed rlId env again (pos + 1) (rlIter'', s'.window) texts) :
      Listed rlId env again pos (rlIter, window) (text :: texts)
  | again {pos : ℕ} {rlIter rlIter' rlIter'' : RunlistIter} {window : BitVec 32}
      {text : List RunlistText} {texts : List (List RunlistText)} {s' s'' : Machine}
      (run : runlistFileSeqShow rlIter ((env pos).withWindow window) =
        some ((text, rlIter'), s'))
      (start : runlistFileSeqStart rlId pos rlIter' ((env pos).withWindow s'.window) =
        some ((.ok true, rlIter''), s''))
      (small : again pos (rlIter, window) (rlIter'', s''.window))
      (rest : Listed rlId env again pos (rlIter'', s''.window) texts) :
      Listed rlId env again pos (rlIter, window) texts

/-- A record may be shown again where `show` is idempotent.  At position 0, `start` looks
the runlist up once more, and has to come to the same iterator and window. -/
def ShownAgain (env : ℕ → Core) (pos : ℕ) (before after : ShowState) : Prop :=
  if pos = 0 then after = before else Repeatable (env pos) before.2 before.1

/-! ## Reading an entry -/

section Entry

variable {c : Core} {window : BitVec 32} {k : Kva}

theorem Core.eq_withWindow {s : Machine} (hcore : s.toCore = c) (hlog : s.accesses = []) :
    s = c.withWindow s.window := by
  subst hcore
  obtain ⟨_, _, _⟩ := s
  cases hlog
  rfl

theorem ignoresReads_withWindow (c : Core) (window : BitVec 32) :
    IgnoresReads fun s => s.toCore = c ∧ s.window = window := by
  intro s k hs
  cases k <;> exact hs

theorem IgnoresReads.readEntry {I : Machine → Prop} (hI : IgnoresReads I) (k : Kva) :
    Stays I (readEntry k) := by
  refine Stays.bind .get fun t => ?_
  apply (hI.readq _).bind
  intro lo
  apply Stays.ite
  · intro _
    exact (hI.readq _).bind fun hi => .pure _
  · intro _
    exact .pure _

theorem Kva.avoidsWindow_add (h : k.avoidsWindow = true) (n : ℤ) :
    (k.add n).avoidsWindow = true := by
  cases k with
  | pramin off addr target => cases h
  | _ => rfl

theorem readq_withWindow (h : k.avoidsWindow = true) :
    ∃ word : Option (BitVec 64), ∀ window,
      readq k (c.withWindow window) = word.map fun w => (w, c.withWindow window) := by
  cases k with
  | null => exact ⟨none, fun _ => rfl⟩
  | err e => exact ⟨none, fun _ => rfl⟩
  | pramin off addr target => cases h
  | bar2 off => exact ⟨some (c.mem ⟨.bar2, off⟩), fun _ => rfl⟩
  | phys addr => exact ⟨some (c.mem ⟨.sysmem, addr⟩), fun _ => rfl⟩

/-- The entry at a pointer, with the accessors of a chip. -/
def readEntryAs (chipId : ℕ) (entry : Kva) : Kernel RunlistEntry := do
  let lo ← readq entry
  if 0x140 ≤ chipId then
    let hi ← readq (entry.add 8)
    return ⟨chipId, lo, hi⟩
  return ⟨chipId, lo, 0⟩

theorem readEntry_eq (entry : Kva) (s : Machine) :
    readEntry entry s = readEntryAs s.chipId entry s := rfl

theorem readEntryAs_withWindow (chipId : ℕ) (h : k.avoidsWindow = true) :
    ∃ entry : Option RunlistEntry, ∀ window,
      readEntryAs chipId k (c.withWindow window) =
        entry.map fun e => (e, c.withWindow window) := by
  obtain ⟨lo, hlo⟩ := @readq_withWindow c k h
  obtain ⟨hi, hhi⟩ := @readq_withWindow c (k.add 8) (Kva.avoidsWindow_add h 8)
  by_cases hvolta : 0x140 ≤ chipId
  · refine ⟨lo.bind fun lo => hi.map fun hi => ⟨chipId, lo, hi⟩, fun window => ?_⟩
    simp only [readEntryAs, Kernel.bind_apply, hlo]
    cases lo with
    | none => rfl
    | some lo =>
        simp only [Option.map_some, Option.bind_some, if_pos hvolta, Kernel.bind_apply, hhi]
        cases hi <;> rfl
  · refine ⟨lo.map fun lo => ⟨chipId, lo, 0⟩, fun window => ?_⟩
    simp only [readEntryAs, Kernel.bind_apply, hlo]
    cases lo with
    | none => rfl
    | some lo =>
        simp only [Option.map_some, Option.bind_some, if_neg hvolta]
        rfl

/-- All registers but one are the same wherever the window is. -/
theorem register_withWindow {r : ℕ} (h : r ≠ c.windowReg) (window : BitVec 32) :
    (c.withWindow window).register r = c.regs r :=
  if_neg h

theorem readlValue_withWindow {r : ℕ} (h : r ≠ c.windowReg) (w w' : BitVec 32) :
    (c.withWindow w).readlValue r = (c.withWindow w').readlValue r := by
  have hoff : (c.withWindow w).registersOff = (c.withWindow w').registersOff := rfl
  rw [Machine.readlValue, Machine.readlValue, hoff, register_withWindow h,
    register_withWindow h]

end Entry

/-! ## Moving the window twice -/

section Window

variable {s s₁ : Machine} {addr : ℕ} {target : InstTarget} {off : ℤ}

theorem get_movedWindow (raw : BitVec 32) (addr : ℕ) (target : InstTarget) :
    Bitfield.get 26 6 (movedWindow raw addr target) = Bitfield.get 26 6 raw := by
  rw [movedWindow, Bitfield.get_set_of_disjoint _ _ (by decide),
    Bitfield.get_set_of_disjoint _ _ (by decide)]

theorem readable_of_get {raw : BitVec 32} (h : Bitfield.get 26 6 raw = 0) :
    raw ≠ BitVec.allOnes 32 ∧ isBadRead raw = false := by
  constructor
  · rintro rfl
    revert h
    decide
  · have hsplit := Bitfield.get_add 20 6 6 raw
    have hlow := Bitfield.get_lt 20 6 raw
    rw [isBadRead, beq_eq_false_iff_ne]
    norm_num at hsplit hlow
    omega

/-- Once the window shows an address, asking for it again changes nothing. -/
theorem addrToPraminMut_again (hclear : Bitfield.get 26 6 s.window = 0)
    (h : addrToPraminMut addr target s = some (off, s₁)) :
    addrToPraminMut addr target s₁ = some (off, s₁) := by
  rcases addrToPraminMut_cases s addr target with
    ⟨e, -, hrun, -⟩ | ⟨hlt, hread, hne, ⟨-, n, -, -, hrun⟩ | ⟨-, hrun⟩⟩
  · have hsame := hrun
    rw [h] at hrun
    cases hrun
    exact hsame
  · have hsame := hrun
    rw [h] at hrun
    cases hrun
    exact hsame
  · rw [h] at hrun
    obtain ⟨rfl, rfl⟩ := Prod.mk.inj (Option.some.inj hrun)
    have hon := (window_of_readlValue_ne (by rw [hread]; exact hne)).1
    obtain ⟨hones, hgood⟩ := readable_of_get
      ((get_movedWindow s.window addr target).trans hclear)
    have hmoved : ({ s with window := movedWindow s.window addr target } : Machine).readlValue
        s.windowReg = movedWindow s.window addr target := by
      have hvalue := readlValue_windowReg
        { s with window := movedWindow s.window addr target }
      simpa only [hon, hgood, Bool.false_eq_true, if_false] using hvalue
    have hbase := windowBase_movedWindow s.window target hlt
    have hin : ¬ (addr < windowBase (movedWindow s.window addr target) * 0x10000 ∨
        windowBase (movedWindow s.window addr target) * 0x10000 + nvPraminLen ≤ addr) := by
      have hlen : nvPraminLen = 16 * 0x10000 := rfl
      rw [hbase, hlen]
      omega
    have hoff : addr - windowBase (movedWindow s.window addr target) * 0x10000 =
        addr % 0x10000 := by
      rw [hbase]
      omega
    simp only [addrToPraminMut, if_neg (Nat.not_le.mpr hlt), nvdebugReadl, Kernel.bind_apply,
      Kernel.get_apply, Option.bind_some, Kernel.pure_apply, hmoved, if_neg hones,
      windowTarget_movedWindow, ne_eq, not_true_eq_false, if_false, if_neg hin, hoff]

theorem accesses_of_addrToPraminMut (h : addrToPraminMut addr target s = some (off, s₁)) :
    s₁.accesses = s.accesses := by
  rcases addrToPraminMut_cases s addr target with
    ⟨e, -, hrun, -⟩ | ⟨-, -, -, ⟨-, n, -, -, hrun⟩ | ⟨-, hrun⟩⟩
  all_goals
    rw [h] at hrun
    cases hrun
    rfl

end Window

/-! ## The second attempt -/

section Again

variable {c : Core} {window : BitVec 32} {rlIter rlIter' : RunlistIter} {entry : RunlistEntry}
  {text : List RunlistText} {s s' s₁ : Machine} {indent : Bool}

/-- The second run prints the lines of the channels that the first one has just
announced. -/
theorem showTsg_again_iff :
    showTsg entry (showTsg entry rlIter).2 = showTsg entry rlIter ↔
      rlIter.entriesLeftInTsg = entry.tsgLength + 1 := by
  constructor
  · intro h
    have hlength := congrArg (fun p => p.1.length) h
    simp only [showTsg, List.length_append, List.length_replicate] at hlength
    omega
  · intro h
    rw [showTsg, showTsg, h]

/-- Showing the details of a channel comes down to showing its instance block, or to
nothing at all. -/
theorem runlistDetailSeqShowChan_cases {chid : ℕ}
    (h : runlistDetailSeqShowChan indent chid s = some (text, s')) :
    s' = s ∨ ∃ instancePtr instanceTarget details,
      runlistDetailSeqShowInst indent instancePtr instanceTarget s = some (details, s') := by
  have hreadq : ∃ chan, nvdebugReadq (0x00800000 + chid * 8) s = some (chan, s) := by
    simp only [nvdebugReadq, Kernel.bind_apply, Kernel.get_apply, Option.bind_some]
    split_ifs <;> exact ⟨_, rfl⟩
  obtain ⟨chan, hchan⟩ := hreadq
  rw [runlistDetailSeqShowChan, Kernel.bind_eq_of_eq hchan] at h
  split_ifs at h
  · cases h
    exact .inl rfl
  · obtain ⟨details, s₁, hdetails, hlast⟩ := Kernel.bind_eq_some h
    cases hlast
    exact .inr ⟨_, _, details, hdetails⟩

theorem runlistDetailSeqShowChanGa100_cases {chid runlistPriBase instancePtr : ℕ}
    {instanceTarget : InstTarget}
    (h : runlistDetailSeqShowChanGa100 indent chid runlistPriBase instancePtr
      instanceTarget s = some (text, s')) :
    s' = s ∨ ∃ details,
      runlistDetailSeqShowInst indent instancePtr instanceTarget s = some (details, s') := by
  rw [runlistDetailSeqShowChanGa100] at h
  obtain ⟨config, s₁, hconfig, h⟩ := Kernel.bind_eq_some h
  cases hconfig
  split_ifs at h
  · cases h
    exact .inl rfl
  obtain ⟨chan, s₁, hchan, h⟩ := Kernel.bind_eq_some h
  cases hchan
  split_ifs at h
  · cases h
    exact .inl rfl
  · obtain ⟨details, s₁, hdetails, hlast⟩ := Kernel.bind_eq_some h
    cases hlast
    exact .inr ⟨details, hdetails⟩

theorem showChannel_cases (h : showChannel entry rlIter s = some (text, s')) :
    s' = s ∨ ∃ indent instancePtr instanceTarget details,
      runlistDetailSeqShowInst indent instancePtr instanceTarget s = some (details, s') := by
  rw [showChannel, Kernel.bind_apply, Kernel.get_apply, Option.bind_some] at h
  dsimp only at h
  by_cases hampere : s.chipId < 0x170
  · rw [if_pos hampere] at h
    obtain ⟨details, s₁, hdetails, hrest⟩ := Kernel.bind_eq_some h
    cases hrest
    exact (runlistDetailSeqShowChan_cases hdetails).imp_right fun hshow => ⟨_, hshow⟩
  · rw [if_neg hampere] at h
    obtain ⟨details, s₁, hdetails, hrest⟩ := Kernel.bind_eq_some h
    cases hrest
    exact (runlistDetailSeqShowChanGa100_cases hdetails).imp_right
      fun hshow => ⟨_, _, _, hshow⟩

theorem window_of_showChannel (hkeeps : s.KeepsWindow)
    (h : showChannel entry rlIter s = some (text, s')) : s'.window = s.window := by
  rcases showChannel_cases h with rfl | ⟨indent, ptr, target, details, hshow⟩
  · rfl
  · exact restoresWindow_of_keepsWindow hkeeps s.mem indent ptr target details s' hshow

/-- Before Maxwell, the instance block is shown again from the same place. -/
theorem showInst_again {instancePtr : ℕ} {instanceTarget : InstTarget}
    (hkepler : c.chipId < 0x120) (hclear : Bitfield.get 26 6 window = 0)
    (h : runlistDetailSeqShowInst indent instancePtr instanceTarget (c.withWindow window) =
      some (text, s')) :
    runlistDetailSeqShowInst indent instancePtr instanceTarget (c.withWindow s'.window) =
      some (text, s') := by
  have hrun := h
  rw [runlistDetailSeqShowInst, Kernel.bind_apply, Kernel.get_apply, Option.bind_some] at hrun
  obtain ⟨win, s₀, hwin, hrun⟩ := Kernel.bind_eq_some hrun
  cases hwin
  obtain ⟨off, s₁, hoff, hrun⟩ := Kernel.bind_eq_some hrun
  obtain ⟨block, s₂, hblock, -⟩ := Kernel.bind_eq_some hrun
  rw [show_of_kepler hoff hblock hkepler] at h
  obtain ⟨rfl, rfl⟩ := Prod.mk.inj (Option.some.inj h)
  have hcore : s₁.toCore = c := keepsCore_addrToPraminMut _ _ _ _ _ hoff
  have hs₁ : s₁ = c.withWindow s₁.window :=
    Core.eq_withWindow hcore (accesses_of_addrToPraminMut hoff)
  have hwindow : s₂.window = s₁.window :=
    ((ignoresReads_withWindow _ _).showInstanceBlock _ _ _ _ _ ⟨rfl, rfl⟩ hblock).2
  have hagain := addrToPraminMut_again (s := c.withWindow window) hclear hoff
  have hchip : s₁.chipId < 0x120 := by
    rw [hcore]
    exact hkepler
  rw [hwindow, ← hs₁]
  exact show_of_kepler hagain hblock hchip

theorem readqValue_withWindow (hampere : c.chipId < 0x170) (chid : ℕ) (w w' : BitVec 32) :
    (c.withWindow w).readqValue (0x00800000 + chid * 8) =
      (c.withWindow w').readqValue (0x00800000 + chid * 8) := by
  have hne : ∀ r, 0x00800000 ≤ r → r ≠ c.windowReg := by
    intro r hr
    rw [windowReg_of_lt hampere]
    omega
  have hlo := hne (0x00800000 + chid * 8) (Nat.le_add_right _ _)
  have hhi := hne (0x00800000 + chid * 8 + 4) (by omega)
  have hoff : (c.withWindow w).registersOff = (c.withWindow w').registersOff := rfl
  simp only [Machine.readqValue, hoff, register_withWindow hlo, register_withWindow hhi]

theorem runlistDetailSeqShowChan_again {chid : ℕ} (hkepler : c.chipId < 0x120)
    (hclear : Bitfield.get 26 6 window = 0)
    (h : runlistDetailSeqShowChan indent chid (c.withWindow window) = some (text, s')) :
    runlistDetailSeqShowChan indent chid (c.withWindow s'.window) = some (text, s') := by
  have hampere : c.chipId < 0x170 := hkepler.trans (by decide)
  rw [runlistDetailSeqShowChan, Kernel.bind_eq_of_eq (nvdebugReadq_eq _ _)] at h ⊢
  rw [readqValue_withWindow hampere chid s'.window window]
  split_ifs at h ⊢ with hones
  · cases h
    rfl
  · obtain ⟨details, s₁, hdetails, hlast⟩ := Kernel.bind_eq_some h
    cases hlast
    rw [Kernel.bind_eq_of_eq (showInst_again hkepler hclear hdetails)]
    rfl

theorem showChannel_again (hkepler : c.chipId < 0x120) (hclear : Bitfield.get 26 6 window = 0)
    (h : showChannel entry rlIter (c.withWindow window) = some (text, s')) :
    showChannel entry rlIter (c.withWindow s'.window) = some (text, s') := by
  have hampere : ∀ w, (c.withWindow w).chipId < 0x170 := fun _ => hkepler.trans (by decide)
  rw [showChannel, Kernel.bind_apply, Kernel.get_apply, Option.bind_some] at h ⊢
  dsimp only at h ⊢
  rw [if_pos (hampere window)] at h
  rw [if_pos (hampere s'.window)]
  obtain ⟨details, s₁, hdetails, hlast⟩ := Kernel.bind_eq_some h
  cases hlast
  rw [Kernel.bind_eq_of_eq (runlistDetailSeqShowChan_again hkepler hclear hdetails)]
  rfl

/-- A channel whose register cannot be read has no details. -/
theorem showChannel_of_unread (hampere : s.chipId < 0x170)
    (hones : s.readqValue (0x00800000 + entry.chid * 8) = BitVec.allOnes 64)
    (h : showChannel entry rlIter s = some (text, s')) : s' = s := by
  rw [showChannel, Kernel.bind_apply, Kernel.get_apply, Option.bind_some] at h
  dsimp only at h
  rw [if_pos hampere] at h
  obtain ⟨details, s₁, hdetails, hlast⟩ := Kernel.bind_eq_some h
  cases hlast
  rw [runlistDetailSeqShowChan, Kernel.bind_eq_of_eq (nvdebugReadq_eq _ _), if_pos hones]
    at hdetails
  cases hdetails
  rfl

/-- A TSG is shown alike again exactly if as many entries are expected as it has. -/
theorem showsAlike_tsg_iff
    (hread : readEntry rlIter.currEntry (c.withWindow window) = some (entry, s₁))
    (htsg : entry.isTsg = true) :
    ShowsAlike c window rlIter ↔ rlIter.entriesLeftInTsg = entry.tsgLength + 1 := by
  have hwindow : s₁.window = window :=
    ((ignoresReads_withWindow c window).readEntry _ _ _ _ ⟨rfl, rfl⟩ hread).2
  have hagain : runlistFileSeqShow (showTsg entry rlIter).2 (c.withWindow s₁.window) =
      some (showTsg entry (showTsg entry rlIter).2, s₁) := by
    rw [hwindow]
    exact runlistFileSeqShow_of_tsg hread htsg
  rw [← showTsg_again_iff]
  constructor
  · intro halike
    have hsame := halike (showTsg entry rlIter).1 (showTsg entry rlIter).2 _
      (runlistFileSeqShow_of_tsg hread htsg)
    rw [hagain] at hsame
    exact Option.some.inj hsame
  · intro hsame text rlIter' s' hshow
    rw [runlistFileSeqShow_of_tsg hread htsg] at hshow
    obtain ⟨htext, rfl⟩ := Prod.mk.inj (Option.some.inj hshow)
    have hiter : (showTsg entry rlIter).2 = rlIter' := congrArg Prod.snd htext
    rw [← hiter, hagain, hsame, htext]
    rfl

theorem show_again_of_repeatable (hrepeatable : Repeatable c window rlIter)
    (hshow : runlistFileSeqShow rlIter (c.withWindow window) = some ((text, rlIter'), s')) :
    ∃ s'', runlistFileSeqShow rlIter' (c.withWindow s'.window) =
      some ((text, rlIter'), s'') ∧ s''.window = s'.window := by
  obtain ⟨entry, s₁, hread, -⟩ := Kernel.bind_eq_some hshow
  obtain ⟨hcore, hwindow⟩ :=
    (ignoresReads_withWindow c window).readEntry _ _ _ _ ⟨rfl, rfl⟩ hread
  have hentry := hrepeatable entry s₁ hread
  cases htsg : entry.isTsg with
  | true =>
      rw [if_pos htsg] at hentry
      have hsame := showTsg_again_iff.mpr hentry
      rw [runlistFileSeqShow_of_tsg hread htsg] at hshow
      obtain ⟨htext, rfl⟩ := Prod.mk.inj (Option.some.inj hshow)
      have hiter : (showTsg entry rlIter).2 = rlIter' := congrArg Prod.snd htext
      have hread' : readEntry rlIter'.currEntry (c.withWindow window) = some (entry, s₁) := by
        rw [← hiter]
        exact hread
      refine ⟨s₁, ?_, rfl⟩
      rw [hwindow, runlistFileSeqShow_of_tsg hread' htsg, ← hiter, hsame, htext]
  | false =>
      rw [if_neg (by rw [htsg]; exact Bool.false_ne_true)] at hentry
      have hchannel := hshow
      rw [runlistFileSeqShow_of_channel hread htsg, Option.map_eq_some_iff] at hchannel
      obtain ⟨⟨lines, s₂⟩, hchannel, hpair⟩ := hchannel
      cases hpair
      -- With the window back, the second attempt starts where the first one did.
      have hback : s₂.window = window → ∃ s'',
          runlistFileSeqShow rlIter (c.withWindow s₂.window) = some ((lines, rlIter), s'') ∧
            s''.window = s₂.window := by
        intro hback
        refine ⟨s₂, ?_, rfl⟩
        rw [hback]
        exact hshow
      rcases hentry with hkeeps | ⟨hampere, hones⟩ | ⟨hkepler, havoids, hclear⟩
      · apply hback
        rw [← hwindow]
        refine window_of_showChannel ?_ hchannel
        rw [Machine.KeepsWindow, hcore, hwindow]
        exact hkeeps
      · apply hback
        rw [showChannel_of_unread (hcore ▸ hampere) ?_ hchannel, hwindow]
        rw [← hones, Machine.readqValue, Machine.readqValue, Machine.register,
          Machine.register, hcore, hwindow]
        rfl
      · obtain ⟨found, hfound⟩ := @readEntryAs_withWindow c _ c.chipId havoids
        have hagain : ∀ w, readEntry rlIter.currEntry (c.withWindow w) =
            found.map fun e => (e, c.withWindow w) := fun w => hfound w
        rw [hagain, Option.map_eq_some_iff] at hread
        obtain ⟨entry', rfl, hpair⟩ := hread
        cases hpair
        refine ⟨s₂, ?_, rfl⟩
        rw [runlistFileSeqShow_of_channel (hagain s₂.window) htsg,
          showChannel_again hkepler hclear hchannel]
        rfl

theorem showsAlike_of_repeatable (h : Repeatable c window rlIter) :
    ShowsAlike c window rlIter := by
  intro text rlIter' s' hshow
  obtain ⟨s'', hagain, -⟩ := show_again_of_repeatable h hshow
  rw [hagain]
  rfl

end Again

/-! ## Listings -/

theorem runlistFileSeqStart_of_pos {rlId pos : ℕ} {rlIter rlIter' : RunlistIter}
    {s s' : Machine} {found : Except ℤ Bool} (hpos : pos ≠ 0)
    (h : runlistFileSeqStart rlId pos rlIter s = some ((found, rlIter'), s')) :
    rlIter' = rlIter ∧ s' = s := by
  rw [runlistFileSeqStart, if_neg hpos] at h
  cases h
  exact ⟨rfl, rfl⟩

/-- Showing records again changes nothing where `show` is idempotent. -/
theorem Listed.of_again {rlId : ℕ} {env : ℕ → Core} {pos : ℕ} {state : ShowState}
    {texts : List (List RunlistText)} (h : Listed rlId env (ShownAgain env) pos state texts) :
    Listed rlId env (fun _ _ _ => False) pos state texts := by
  induction h with
  | last run next => exact .last run next
  | next run next _ ih => exact .next run next ih
  | @again pos rlIter rlIter' rlIter'' window text texts s' s'' run start small _ ih =>
      by_cases hpos : pos = 0
      · rw [ShownAgain, if_pos hpos] at small
        exact small ▸ ih
      · rw [ShownAgain, if_neg hpos] at small
        obtain ⟨rfl, rfl⟩ := runlistFileSeqStart_of_pos hpos start
        obtain ⟨s₁, hagain, hwindow⟩ := show_again_of_repeatable small run
        -- The first record of the rest is the one just shown.
        cases ih with
        | last run' next' =>
            cases hagain.symm.trans run'
            exact .last run next'
        | next run' next' rest' =>
            cases hagain.symm.trans run'
            rw [hwindow] at rest'
            exact .next run next' rest'
        | again _ _ small' => cases small'

/-- A Pascal GPU with one TSG of one channel in its runlist. -/
def oneTsg : Machine :=
  { Machine.ofWords [(⟨.sysmem, 0x1000⟩, 0x04002005), (⟨.sysmem, 0x1008⟩, 3)] with
    chipId := 0x132
    regs := fun r => if r = 0x2280 then 0x20000001 else if r = 0x2284 then 2 else 0 }

theorem oneTsg_reached :
    RunlistReached 0 0 ⟨.phys 0x1000, 0, 2, 0⟩ := by
  have hstart : (runlistFileSeqStart 0 0 .empty oneTsg).map Prod.fst =
      some (.ok true, ⟨.phys 0x1000, 0, 2, 0⟩) := by
    decide
  obtain ⟨s', hrun⟩ := Kernel.exists_of_map_fst hstart
  exact .start hrun

theorem oneTsg_shown : (runlistFileSeqShow ⟨.phys 0x1000, 0, 2, 0⟩
    (oneTsg.withWindow 0)).map Prod.fst =
      some ([.tsg 5 0 0 1], ⟨.phys 0x1000, 2, 2, 0⟩) := by
  decide

end A100Partitioning.Nvdebug
