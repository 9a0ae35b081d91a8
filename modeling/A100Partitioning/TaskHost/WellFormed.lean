import A100Partitioning.TaskHost.Strings

/-!
# Well-formed logs

The tokens of the log are always those of a JSON value.  The text has this value if and
only if every string in it is printed as what it stands for.
-/

namespace A100Partitioning.TaskHost

open Support Json

variable {δ : Type} (m : Machine δ) (config : TaskConfig δ)

/-! ## The value of a log -/

/-- The times of an iteration, as in `WriteCPUTimesToOutput`. -/
def cpuEntry (t : CPUTimes δ) : Value :=
  .obj [(ascii "copy_in_times",
      .arr [.num (m.fixed9 t.copyInStart), .num (m.fixed9 t.copyInEnd)]),
    (ascii "execute_times",
      .arr [.num (m.fixed9 t.executeStart), .num (m.fixed9 t.executeEnd)]),
    (ascii "copy_out_times",
      .arr [.num (m.fixed9 t.copyOutStart), .num (m.fixed9 t.copyOutEnd)]),
    (ascii "cpu_times",
      .arr [.num (m.fixed9 t.copyInStart), .num (m.fixed9 t.copyOutEnd)])]

/-- The name of a kernel, or the label in its place. -/
def nameContent (kernelTimes : KernelTimes δ) : List Byte :=
  match kernelTimes.kernelName with
  | some name => sanitizedContent m name
  | none =>
      match config.label with
      | some label => label.bytes.map questionMark
      | none => ascii "(null)"

/-- The members of a kernel after its name. -/
def kernelMembers (kernel : KernelTimes δ × ℤ) : List (List Byte × Value) :=
  [(ascii "block_count", .num (m.int kernel.1.blockCount)),
    (ascii "thread_count", .num (m.int kernel.1.threadCount)),
    (ascii "shared_memory", .num (m.int kernel.1.sharedMemory)),
    (ascii "cuda_launch_times",
      .arr [.num (m.fixed9 (m.sub kernel.1.beforeLaunch config.startingSeconds)),
        .num (m.fixed9 (m.sub kernel.1.afterLaunch config.startingSeconds)),
        .num (m.fixed9 (synchronizeTime m config kernel.1))]),
    (ascii "block_times", .arr (((List.range kernel.1.blockTimeCount.toNat).map fun j =>
      m.fixed9 (gpuTimerToCPUTime m config (kernel.1.blockTimes j))).map .num)),
    (ascii "block_smids", .arr (((List.range kernel.1.blockCount.toNat).map fun j =>
      m.int (kernel.1.blockSmids j).toNat).map .num)),
    (ascii "cpu_core", .num (m.int kernel.2))]

/-- The entry of a kernel, as in `WriteTimesToOutput`. -/
def kernelEntry (kernel : KernelTimes δ × ℤ) : Value :=
  .obj ((ascii "kernel_name", .str (nameContent m config kernel.1)) ::
    kernelMembers m config kernel)

/-- The entries of an iteration. -/
def iterationEntries (iteration : Iteration δ) : List Value :=
  cpuEntry m iteration.cpuTimes :: iteration.kernels.map (kernelEntry m config)

/-- The members of a log before its entries. -/
def headerMembers : List (List Byte × Value) :=
  [(ascii "scenario_name", .str (sanitizedContent m config.scenarioName)),
    (ascii "benchmark_name", .str (sanitizedContent m config.benchmarkName))] ++
  (config.label.toList.map fun label =>
    (ascii "label", .str (sanitizedContent m label))) ++
  [(ascii "max_resident_threads", .num (m.int config.maxResidentThreads)),
    (ascii "data_size", .num (m.int config.dataSize.toInt)),
    (ascii "release_time", .num (m.fixed config.releaseTime)),
    (ascii "PID", .num (m.int config.pid))] ++
  (config.tid.toList.map fun tid => (ascii "TID", .num (m.int tid)))

/-- The log as a value. -/
def logValue (iterations : List (Iteration δ)) : Value :=
  .obj (headerMembers m config ++
    [(ascii "times", .arr (.obj [] :: iterations.flatMap (iterationEntries m config)))])

/-! ## What is printed well -/

/-- The string fits into the buffer, and all of its characters are printed well. -/
def IsSanitized (s : CString) : Prop :=
  (escaped m.signed s.bytes).length < sanitizeJSONBufferSize ∧
    ∀ b ∈ s.bytes, IsSanitizable m.signed b

/-- The name of the kernel is printed well; a label in its place is not sanitized. -/
def NameIsPrintable (kernelTimes : KernelTimes δ) : Prop :=
  match kernelTimes.kernelName with
  | some name => IsSanitized m name
  | none => ∀ label, config.label = some label → ∀ b ∈ label.bytes, IsPlainAscii b

/-- Every string of the log is printed well. -/
def IsPrintable (iterations : List (Iteration δ)) : Prop :=
  (IsSanitized m config.scenarioName ∧ IsSanitized m config.benchmarkName ∧
    ∀ label, config.label = some label → IsSanitized m label) ∧
  ∀ iteration ∈ iterations, ∀ kernel ∈ iteration.kernels,
    NameIsPrintable m config kernel.1

/-! ## Parts of the log -/

variable {m config}

theorem faithful_printed {s : CString} {printed : List Byte}
    (hprinted : printSanitized m.signed s = some printed) :
    printed = escaped m.signed s.bytes ∧
      (escaped m.signed s.bytes).length < sanitizeJSONBufferSize ∧
        sanitizedContent m s = s.bytes.map questionMark := by
  rw [printSanitized_eq] at hprinted
  split_ifs at hprinted with hfits
  cases hprinted
  rw [sanitizedContent, fitting_eq (Nat.le_sub_one_of_lt hfits)]
  exact ⟨rfl, hfits, rfl⟩

theorem faithful_iff {s : CString} {printed : List Byte}
    (hprinted : printSanitized m.signed s = some printed) :
    Faithful printed (sanitizedContent m s) ↔ IsSanitized m s := by
  obtain ⟨rfl, hfits, hcontent⟩ := faithful_printed hprinted
  rw [hcontent]
  constructor
  · intro hfaithful
    refine ⟨hfits, ?_⟩
    apply @sanitizable_of_lexFrom _ _ [] [] [] s.noNul
    rw [List.append_nil, lexFrom, run_quoted hfaithful]
    rfl
  · intro hsanitized
    exact faithful_escaped hsanitized.2

theorem detectable_printed {s : CString} {printed : List Byte}
    (hprinted : printSanitized m.signed s = some printed) (after : List Byte) :
    Detectable printed (sanitizedContent m s) after := by
  intro before ts hlex
  rw [faithful_iff hprinted]
  obtain ⟨rfl, hfits, hcontent⟩ := faithful_printed hprinted
  rw [hcontent] at hlex
  exact ⟨hfits, sanitizable_of_lexFrom s.noNul hlex⟩

/-- A sanitized string between fixed texts. -/
def quoteBetween (m : Machine δ) (s : CString) (pre post : List Byte) :
    Option (List Piece) :=
  (quoteSanitized m s).map fun piece => [.text pre, piece, .text post]

theorem writes_quoteBetween (s : CString) {pre post : List Byte} {ts ts' : List Token}
    (hpre : run .between pre = some (ts, .string []))
    (hpost : run .between post = some (ts', .between)) :
    Writes (quoteBetween m s pre post) (ts ++ .str (sanitizedContent m s) :: ts')
      (IsSanitized m s) := by
  have hparts : ∀ pieces, quoteBetween m s pre post = some pieces →
      ∃ printed, printSanitized m.signed s = some printed ∧
        pieces = [.text pre, .quoted printed (sanitizedContent m s), .text post] := by
    intro pieces hpieces
    obtain ⟨piece, hpiece, rfl⟩ := Option.map_eq_some_iff.mp hpieces
    obtain ⟨printed, hprinted, rfl⟩ := Option.map_eq_some_iff.mp hpiece
    exact ⟨printed, hprinted, rfl⟩
  constructor
  · intro hsanitized
    rw [quoteBetween, quoteSanitized, printSanitized_eq, if_pos hsanitized.1]
    exact ⟨_, rfl⟩
  · intro pieces hpieces
    obtain ⟨printed, -, rfl⟩ := hparts pieces hpieces
    have hnil := Yields.text hpost Yields.nil
    rw [List.append_nil] at hnil
    exact Yields.text hpre hnil.quoted
  · intro pieces hpieces rest hrest
    obtain ⟨printed, hprinted, rfl⟩ := hparts pieces hpieces
    exact ⟨detectable_printed hprinted _, hrest⟩
  · intro pieces hpieces
    obtain ⟨printed, hprinted, rfl⟩ := hparts pieces hpieces
    rw [← faithful_iff hprinted]
    exact allFaithful_quoted

/-- The tokens of elements that follow another. -/
def laterTokens (elems : List Value) : List Token :=
  elems.flatMap fun elem => .comma :: tokens elem

theorem moreElems_eq (elems : List Value) :
    moreElems elems = laterTokens elems ++ [.endArray] := by
  induction elems with
  | nil => rfl
  | cons elem elems ih =>
      rw [moreElems, ih, laterTokens, laterTokens, List.flatMap_cons, List.append_assoc]

theorem laterTokens_append (elems elems' : List Value) :
    laterTokens (elems ++ elems') = laterTokens elems ++ laterTokens elems' :=
  List.flatMap_append

theorem commaSeparated_eq (number : ℕ → Numeral) (n : ℕ) :
    commaSeparated number n = separated ((List.range n).map number) := by
  have hfrom : ∀ k i, i + k = n → ((List.range' i k).flatMap fun j =>
      [Piece.number (number j), .text (if j ≠ n - 1 then ascii "," else [])]) =
        separated ((List.range' i k).map number) := by
    intro k
    induction k with
    | zero =>
        intro i _
        rfl
    | succ k ih =>
        intro i hi
        rw [List.range'_succ, List.flatMap_cons, ih (i + 1) (by omega), List.map_cons]
        cases k with
        | zero =>
            rw [if_neg (by omega)]
            rfl
        | succ k =>
            rw [if_pos (by omega), List.range'_succ]
            rfl
  rw [commaSeparated, List.range_eq_range']
  exact hfrom n 0 (Nat.zero_add n)

theorem writes_cpuTimes (t : CPUTimes δ) :
    Writes (some (writeCPUTimesToOutput m t)) (laterTokens [cpuEntry m t]) True := by
  apply writes_fixed rfl
  have hlast : Yields .between [.text (ascii "]\x7d")] [.endArray, .endObject] .between :=
    Yields.last rfl
  have hnumbers : Yields .between (writeCPUTimesToOutput m t) _ .between :=
    Yields.text rfl <| Yields.number rfl <| Yields.text rfl <| Yields.number rfl <|
    Yields.text rfl <| Yields.text rfl <| Yields.number rfl <| Yields.text rfl <|
    Yields.number rfl <| Yields.text rfl <| Yields.text rfl <| Yields.number rfl <|
    Yields.text rfl <| Yields.number rfl <| Yields.text rfl <| Yields.text rfl <|
    Yields.number rfl <| Yields.text rfl <| Yields.number rfl hlast
  exact hnumbers

theorem yields_kernelTimes (m : Machine δ) (config : TaskConfig δ)
    (kernel : KernelTimes δ × ℤ) :
    Yields .between (writeKernelTimes m config kernel.1 kernel.2)
      (objectTokens (kernelMembers m config kernel)) .between := by
  have hcore : Yields .between
      [.text (ascii "], \"cpu_core\": "), .number (m.int kernel.2), .text (ascii "\x7d")]
      (.endArray :: moreMembers [(ascii "cpu_core", .num (m.int kernel.2))]) .between :=
    Yields.congr (Yields.text rfl <| Yields.number rfl <| Yields.last rfl) rfl
  let smids := (List.range kernel.1.blockCount.toNat).map fun j =>
    m.int (kernel.1.blockSmids j).toNat
  have hsmids : Yields .between (.text (ascii "], \"block_smids\": [") ::
      (separated smids ++ [.text (ascii "], \"cpu_core\": "), .number (m.int kernel.2),
        .text (ascii "\x7d")]))
      (.endArray :: moreMembers [(ascii "block_smids", .arr (smids.map .num)),
        (ascii "cpu_core", .num (m.int kernel.2))]) .between :=
    Yields.congr (Yields.text rfl (yields_separated rfl hcore smids)) rfl
  have htimes := yields_separated rfl hsmids
    ((List.range kernel.1.blockTimeCount.toNat).map
      fun j => m.fixed9 (gpuTimerToCPUTime m config (kernel.1.blockTimes j)))
  rw [writeKernelTimes, commaSeparated_eq, commaSeparated_eq, List.append_assoc,
    List.append_assoc]
  refine Yields.congr (Yields.text rfl <| Yields.number rfl <| Yields.text rfl <|
    Yields.number rfl <| Yields.text rfl <| Yields.text rfl <| Yields.number rfl <|
    Yields.text rfl <| Yields.text rfl <| Yields.number rfl <| Yields.text rfl <|
    Yields.number rfl <| Yields.text rfl <| Yields.number rfl <| Yields.text rfl <|
    Yields.text rfl htimes) ?_
  rfl

theorem isFixed_commaSeparated (number : ℕ → Numeral) (n : ℕ) :
    (commaSeparated number n).all Piece.isFixed = true := by
  rw [commaSeparated, List.all_flatMap, List.all_eq_true]
  intro j _
  rfl

theorem isFixed_kernelTimes (kernelTimes : KernelTimes δ) (cpu : ℤ) :
    (writeKernelTimes m config kernelTimes cpu).all Piece.isFixed = true := by
  simp only [writeKernelTimes, List.all_append, List.all_cons, List.all_nil, Piece.isFixed,
    isFixed_commaSeparated, Bool.and_true]

theorem afterName_append (rest rest' : List Byte) :
    afterName rest ++ rest' = afterName (rest ++ rest') := rfl

theorem detectable_label (label : CString) (kernel : KernelTimes δ × ℤ)
    (rest : List Piece) :
    Detectable label.bytes (label.bytes.map questionMark)
      (bytes (.text (ascii ", ") :: (writeKernelTimes m config kernel.1 kernel.2 ++ rest))) := by
  obtain ⟨later, hlater⟩ : ∃ later, writeKernelTimes m config kernel.1 kernel.2 =
      .text (ascii "\"block_count\": ") :: later := ⟨_, rfl⟩
  have hkeys : [0x22] ++ ascii ", " ++ ascii "\"block_count\": " =
      afterName (ascii "block_count\": ") := rfl
  intro before ts hlex
  rw [hlater, List.cons_append, bytes_cons, bytes_cons, Piece.bytes, Piece.bytes,
    ← List.append_assoc, ← List.append_assoc, List.append_assoc label.bytes,
    List.append_assoc label.bytes, hkeys, List.append_assoc, afterName_append] at hlex
  exact faithful_raw (plainAscii_of_lexFrom hlex)

theorem faithful_label_iff (label : CString) :
    Faithful label.bytes (label.bytes.map questionMark) ↔
      ∀ b ∈ label.bytes, IsPlainAscii b := by
  constructor
  · intro hfaithful
    have hrun : run (.string []) (label.bytes ++ afterName [0x22]) =
        some ([.str (label.bytes.map questionMark), .comma, .str []], .between) := by
      rw [run_append, hfaithful []]
      rfl
    apply @plainAscii_of_lexFrom _ [] [0x22] [.comma, .str []]
    rw [lexFrom, hrun]
    rfl
  · exact faithful_raw

/-- The tokens of the name of a kernel. -/
def nameTokens (m : Machine δ) (config : TaskConfig δ) (kernelTimes : KernelTimes δ) :
    List Token :=
  [.str (ascii "kernel_name"), .colon, .str (nameContent m config kernelTimes), .comma]

theorem writes_kernel (kernel : KernelTimes δ × ℤ) :
    Writes (andThen (writeKernelName m config kernel.1)
        (some (writeKernelTimes m config kernel.1 kernel.2)))
      (nameTokens m config kernel.1 ++ objectTokens (kernelMembers m config kernel))
      (NameIsPrintable m config kernel.1) := by
  have htimes := writes_fixed (isFixed_kernelTimes kernel.1 kernel.2)
    (yields_kernelTimes m config kernel)
  cases hname : kernel.1.kernelName with
  | some name =>
      have hquote : Writes
          (quoteBetween m name (ascii "\"kernel_name\": \"") (ascii ", "))
          ([.str (ascii "kernel_name"), .colon] ++ .str (sanitizedContent m name) :: [.comma])
          (IsSanitized m name) := writes_quoteBetween name rfl rfl
      have hwritten : writeKernelName m config kernel.1 =
          quoteBetween m name (ascii "\"kernel_name\": \"") (ascii ", ") := by
        rw [writeKernelName, hname, quoteBetween]
        dsimp only
        cases quoteSanitized m name <;> rfl
      apply (hquote.andThen htimes).congr
      · rw [hwritten]
      · rw [nameTokens, nameContent, hname]
        rfl
      · rw [NameIsPrintable, hname, and_true]
  | none =>
      cases hlabel : config.label with
      | none =>
          have hfixed : Writes (some [.text (ascii "\"kernel_name\": \"(null)\", ")])
              [.str (ascii "kernel_name"), .colon, .str (ascii "(null)"), .comma] True :=
            writes_fixed rfl (Yields.last rfl)
          apply (hfixed.andThen htimes).congr
          · rw [writeKernelName, hname, hlabel]
          · rw [nameTokens, nameContent, hname, hlabel]
          · rw [NameIsPrintable, hname, hlabel, and_true, iff_true]
            intro label heq
            cases heq
      | some label =>
          have hwritten : writeKernelName m config kernel.1 =
              some [.text (ascii "\"kernel_name\": \""), quoteRaw label,
                .text (ascii ", ")] := by
            rw [writeKernelName, hname, hlabel]
          have hcontent : nameContent m config kernel.1 =
              label.bytes.map questionMark := by
            rw [nameContent, hname, hlabel]
          have hcondition : NameIsPrintable m config kernel.1 ↔
              Faithful label.bytes (label.bytes.map questionMark) := by
            rw [NameIsPrintable, hname, hlabel, faithful_label_iff]
            simp only [Option.some.injEq, forall_eq']
          rw [hwritten, nameTokens, hcontent, andThen, Option.bind_some, Option.map_some]
          constructor
          · intro _
            exact ⟨_, rfl⟩
          · intro pieces heq
            cases heq
            have hlast : Yields .between [.text (ascii ", ")] [.comma] .between :=
              Yields.last rfl
            have hquoted : Yields (.string [])
                [quoteRaw label, .text (ascii ", ")]
                [.str (label.bytes.map questionMark), .comma] .between := hlast.quoted
            have hname : Yields .between [.text (ascii "\"kernel_name\": \""), quoteRaw label,
                .text (ascii ", ")]
                ([.str (ascii "kernel_name"), .colon] ++
                  [.str (label.bytes.map questionMark), .comma]) .between :=
              Yields.text rfl hquoted
            exact hname.append (yields_kernelTimes m config kernel)
          · intro pieces heq rest hrest
            cases heq
            exact ⟨detectable_label label kernel rest,
              allDetectable_append_of_fixed (isFixed_kernelTimes kernel.1 kernel.2) hrest⟩
          · intro pieces heq
            cases heq
            rw [hcondition, allFaithful_append, and_iff_left
              (allFaithful_of_fixed (isFixed_kernelTimes kernel.1 kernel.2))]
            exact allFaithful_quoted

theorem tokens_kernelEntry (kernel : KernelTimes δ × ℤ) :
    laterTokens [kernelEntry m config kernel] = [.comma, .beginObject] ++
      (nameTokens m config kernel.1 ++ objectTokens (kernelMembers m config kernel)) := by
  rw [laterTokens, List.flatMap_cons, List.flatMap_nil, List.append_nil]
  rfl

theorem writes_kernels (kernels : List (KernelTimes δ × ℤ)) :
    Writes (writeTimesToOutput m config kernels)
      (laterTokens (kernels.map (kernelEntry m config)))
      (∀ kernel ∈ kernels, NameIsPrintable m config kernel.1) := by
  induction kernels with
  | nil =>
      apply (writes_fixed rfl Yields.nil).congr rfl rfl
      rw [iff_true]
      intro kernel hmem
      cases hmem
  | cons kernel kernels ih =>
      have hbegin : Writes (some [.text (ascii ",\n\x7b")]) [.comma, .beginObject] True :=
        writes_fixed rfl (Yields.last rfl)
      apply ((hbegin.andThen (writes_kernel kernel)).andThen ih).congr
      · rw [writeTimesToOutput]
        cases writeKernelName m config kernel.1 with
        | none => rfl
        | some name =>
            cases writeTimesToOutput m config kernels with
            | none => rfl
            | some rest => rfl
      · rw [← tokens_kernelEntry, ← laterTokens_append]
        rfl
      · rw [List.forall_mem_cons, true_and]

theorem writes_iterations (iterations : List (Iteration δ)) :
    Writes (writeIterations m config iterations)
      (laterTokens (iterations.flatMap (iterationEntries m config)))
      (∀ iteration ∈ iterations, ∀ kernel ∈ iteration.kernels,
        NameIsPrintable m config kernel.1) := by
  induction iterations with
  | nil =>
      apply (writes_fixed rfl Yields.nil).congr rfl rfl
      rw [iff_true]
      intro iteration hmem
      cases hmem
  | cons iteration iterations ih =>
      apply (((writes_cpuTimes iteration.cpuTimes).andThen
        (writes_kernels iteration.kernels)).andThen ih).congr
      · rw [writeIterations]
        cases writeTimesToOutput m config iteration.kernels with
        | none => rfl
        | some times =>
            cases writeIterations m config iterations with
            | none => rfl
            | some rest => rfl
      · rw [← laterTokens_append, ← laterTokens_append]
        rfl
      · rw [List.forall_mem_cons, true_and]

/-! ## The whole log -/

/-- The tokens of members that are followed by another. -/
def earlierTokens (members : List (List Byte × Value)) : List Token :=
  members.flatMap fun member => .str member.1 :: .colon :: tokens member.2 ++ [.comma]

theorem earlierTokens_append (members members' : List (List Byte × Value)) :
    earlierTokens (members ++ members') = earlierTokens members ++ earlierTokens members' :=
  List.flatMap_append

theorem objectTokens_append (members : List (List Byte × Value))
    (last : List Byte × Value) :
    objectTokens (members ++ [last]) = earlierTokens members ++
      (.str last.1 :: .colon :: tokens last.2 ++ [.endObject]) := by
  induction members with
  | nil => rfl
  | cons member members ih =>
      rw [earlierTokens, List.flatMap_cons, List.append_assoc, ← earlierTokens, ← ih]
      cases members with
      | nil =>
          simp only [List.cons_append, List.nil_append, objectTokens, moreMembers,
            List.append_assoc]
      | cons member' members =>
          simp only [List.cons_append, List.nil_append, objectTokens, moreMembers,
            List.append_assoc]

theorem writes_stringMember (s : CString) {key pre : List Byte}
    (hpre : run .between pre = some ([.str key, .colon], .string [])) :
    Writes (quoteBetween m s pre (ascii ",\n"))
      (earlierTokens [(key, .str (sanitizedContent m s))]) (IsSanitized m s) :=
  writes_quoteBetween s hpre rfl

theorem writes_label (m : Machine δ) (config : TaskConfig δ) :
    Writes (writeLabel m config)
      (earlierTokens (config.label.toList.map fun label =>
        (ascii "label", .str (sanitizedContent m label))))
      (∀ label, config.label = some label → IsSanitized m label) := by
  cases hlabel : config.label with
  | none =>
      apply (writes_fixed rfl Yields.nil).congr
      · rw [writeLabel, hlabel]
      · rfl
      · rw [iff_true]
        intro label heq
        cases heq
  | some label =>
      have hmember : Writes (quoteBetween m label (ascii "\"label\": \"") (ascii ",\n"))
          (earlierTokens [(ascii "label", .str (sanitizedContent m label))])
          (IsSanitized m label) := writes_stringMember label rfl
      apply hmember.congr
      · rw [writeLabel, hlabel, quoteBetween]
        dsimp only
        cases quoteSanitized m label <;> rfl
      · rfl
      · simp only [Option.some.injEq, forall_eq']

theorem writes_tid (m : Machine δ) (config : TaskConfig δ) :
    Writes (some (writeTid m config))
      (earlierTokens (config.tid.toList.map fun tid => (ascii "TID", .num (m.int tid))))
      True := by
  cases htid : config.tid with
  | none =>
      apply (writes_fixed rfl Yields.nil).congr
      · rw [writeTid, htid]
      · rfl
      · rfl
  | some tid =>
      have hmember : Writes
          (some [.text (ascii "\"TID\": "), .number (m.int tid), .text (ascii ",\n")])
          (earlierTokens [(ascii "TID", .num (m.int tid))]) True :=
        writes_fixed rfl
          (Yields.congr (Yields.text rfl <| Yields.number rfl <| Yields.last rfl) rfl)
      apply hmember.congr
      · rw [writeTid, htid]
      · rfl
      · rfl

theorem writes_numbers (m : Machine δ) (config : TaskConfig δ) :
    Writes (some [.text (ascii "\"max_resident_threads\": "),
        .number (m.int config.maxResidentThreads), .text (ascii ",\n"),
        .text (ascii "\"data_size\": "), .number (m.int config.dataSize.toInt),
        .text (ascii ",\n"),
        .text (ascii "\"release_time\": "), .number (m.fixed config.releaseTime),
        .text (ascii ",\n"),
        .text (ascii "\"PID\": "), .number (m.int config.pid), .text (ascii ",\n")])
      (earlierTokens
        [(ascii "max_resident_threads", .num (m.int config.maxResidentThreads)),
          (ascii "data_size", .num (m.int config.dataSize.toInt)),
          (ascii "release_time", .num (m.fixed config.releaseTime)),
          (ascii "PID", .num (m.int config.pid))]) True := by
  apply writes_fixed rfl
  exact Yields.congr (Yields.text rfl <| Yields.number rfl <| Yields.text rfl <|
    Yields.text rfl <| Yields.number rfl <| Yields.text rfl <|
    Yields.text rfl <| Yields.number rfl <| Yields.text rfl <|
    Yields.text rfl <| Yields.number rfl <| Yields.last rfl) rfl

theorem writes_header (m : Machine δ) (config : TaskConfig δ) :
    Writes (writeOutputHeader m config)
      (.beginObject :: earlierTokens (headerMembers m config) ++
        [.str (ascii "times"), .colon, .beginArray, .beginObject, .endObject])
      (IsSanitized m config.scenarioName ∧ IsSanitized m config.benchmarkName ∧
        ∀ label, config.label = some label → IsSanitized m label) := by
  have hbegin : Writes (some [.text (ascii "\x7b\n")]) [.beginObject] True :=
    writes_fixed rfl (Yields.last rfl)
  have hscenario : Writes
      (quoteBetween m config.scenarioName (ascii "\"scenario_name\": \"") (ascii ",\n"))
      (earlierTokens [(ascii "scenario_name", .str (sanitizedContent m config.scenarioName))])
      (IsSanitized m config.scenarioName) := writes_stringMember _ rfl
  have hbenchmark : Writes
      (quoteBetween m config.benchmarkName (ascii "\"benchmark_name\": \"") (ascii ",\n"))
      (earlierTokens
        [(ascii "benchmark_name", .str (sanitizedContent m config.benchmarkName))])
      (IsSanitized m config.benchmarkName) := writes_stringMember _ rfl
  have htimes : Writes (some [.text (ascii "\"times\": [\x7b\x7d")])
      [.str (ascii "times"), .colon, .beginArray, .beginObject, .endObject] True :=
    writes_fixed rfl (Yields.last rfl)
  have hall := (((((hbegin.andThen hscenario).andThen hbenchmark).andThen
    (writes_label m config)).andThen (writes_numbers m config)).andThen
      (writes_tid m config)).andThen htimes
  apply hall.congr
  · rw [writeOutputHeader, quoteBetween, quoteBetween]
    cases quoteSanitized m config.scenarioName with
    | none => rfl
    | some scenarioName =>
        cases quoteSanitized m config.benchmarkName with
        | none => rfl
        | some benchmarkName =>
            cases writeLabel m config with
            | none => rfl
            | some label => rfl
  · rw [headerMembers, earlierTokens_append, earlierTokens_append, earlierTokens_append]
    simp only [earlierTokens, List.flatMap_cons, List.flatMap_nil, List.append_nil,
      List.append_assoc, List.cons_append, List.nil_append]
  · simp only [true_and, and_true, and_assoc]

theorem writes_log (iterations : List (Iteration δ)) :
    Writes (outputLog m config iterations) (tokens (logValue m config iterations))
      (IsPrintable m config iterations) := by
  have hfooter : Writes (some [.text (ascii "\n]\x7d")]) [.endArray, .endObject] True :=
    writes_fixed rfl (Yields.last rfl)
  apply (((writes_header m config).andThen (writes_iterations iterations)).andThen hfooter).congr
  · rw [outputLog]
    cases writeOutputHeader m config with
    | none => rfl
    | some header =>
        cases writeIterations m config iterations with
        | none => rfl
        | some times => rfl
  · rw [logValue, tokens, objectTokens_append, tokens, arrayTokens, moreElems_eq]
    simp only [List.append_assoc, List.cons_append, List.nil_append, tokens, objectTokens]
  · rw [IsPrintable, and_true]

/-- A machine on which all times are zero. -/
def zeroMachine : Machine Unit where
  signed := true
  sub _ _ := ()
  zero := ()
  isZero _ := true
  gpuSeconds _ := ()
  fixed9 _ := ⟨[0x30], rfl⟩
  fixed _ := ⟨[0x30], rfl⟩
  int _ := ⟨[0x30], rfl⟩

/-- A task with a label in which there is a quote. -/
def quotedLabel : TaskConfig Unit where
  scenarioName := ⟨ascii "s", by decide⟩
  benchmarkName := ⟨ascii "b", by decide⟩
  label := some ⟨ascii "a\"b", by decide⟩
  maxResidentThreads := 0
  dataSize := 0
  releaseTime := ()
  pid := 1
  tid := none
  startingSeconds := ()
  startingGpuClock := 0

/-- A kernel without a name. -/
def unnamedKernel : KernelTimes Unit where
  kernelName := none
  threadCount := 1
  blockCount := 1
  sharedMemory := 0
  beforeLaunch := ()
  afterLaunch := ()
  afterSynchronize := ()
  blockTimes _ := 0
  blockSmids _ := 0

end A100Partitioning.TaskHost
