import A100Partitioning.Nvdebug.RunlistShow
import A100Partitioning.Support.Keeps

/-!
# Channels under their TSG (`runlist_procfs.c`)

The `runlist` file indents the channels of a TSG, and says how many are missing.  It
keeps only one number for that.
-/

namespace A100Partitioning.Nvdebug

open Support Keeping

/-! ## Entries of a TSG -/

/-- The last TSG among these entries, and the channels after it. -/
def AfterTsg (entries : List RunlistEntry) (tsg : RunlistEntry)
    (channels : List RunlistEntry) : Prop :=
  tsg.isTsg = true ∧ (∀ channel ∈ channels, channel.isTsg = false) ∧
    ∃ earlier, entries = earlier ++ tsg :: channels

/-- The next entry is among those that belong to the last TSG. -/
def UnderTsg (entries : List RunlistEntry) : Prop :=
  ∃ tsg channels, AfterTsg entries tsg channels ∧ channels.length < tsg.tsgLength

/-- How many entries are still expected after these ones. -/
def entriesLeft (entries : List RunlistEntry) : ℕ :=
  entries.foldl (fun left entry => if entry.isTsg then entry.tsgLength else left - 1) 0

section Entries

variable {entries channels : List RunlistEntry} {tsg : RunlistEntry}

theorem entriesLeft_snoc (entries : List RunlistEntry) (entry : RunlistEntry) :
    entriesLeft (entries ++ [entry]) =
      if entry.isTsg then entry.tsgLength else entriesLeft entries - 1 := by
  rw [entriesLeft, List.foldl_append, List.foldl_cons, List.foldl_nil, entriesLeft]

theorem entriesLeft_append_channels (entries : List RunlistEntry)
    (hchannels : ∀ channel ∈ channels, channel.isTsg = false) :
    entriesLeft (entries ++ channels) = entriesLeft entries - channels.length := by
  induction channels using List.reverseRecOn with
  | nil => rw [List.append_nil, List.length_nil, Nat.sub_zero]
  | append_singleton channels channel ih =>
      have hlast : channel.isTsg = false := by
        apply hchannels
        exact List.mem_append_right _ List.mem_cons_self
      have hearlier : ∀ c ∈ channels, c.isTsg = false := by
        intro c hc
        exact hchannels c (List.mem_append_left _ hc)
      rw [← List.append_assoc, entriesLeft_snoc, hlast, if_neg Bool.false_ne_true,
        ih hearlier, List.length_append, List.length_singleton, Nat.sub_sub]

/-- The number is that of the last TSG, less the channels that have followed it. -/
theorem entriesLeft_of_afterTsg (h : AfterTsg entries tsg channels) :
    entriesLeft entries = tsg.tsgLength - channels.length := by
  obtain ⟨htsg, hchannels, earlier, rfl⟩ := h
  rw [List.append_cons, entriesLeft_append_channels _ hchannels, entriesLeft_snoc,
    if_pos htsg]

theorem entriesLeft_of_channels (h : ∀ entry ∈ entries, entry.isTsg = false) :
    entriesLeft entries = 0 := by
  have hleft := entriesLeft_append_channels [] h
  rw [List.nil_append] at hleft
  rw [hleft]
  exact Nat.zero_sub _

theorem afterTsg_or (entries : List RunlistEntry) :
    (∃ tsg channels, AfterTsg entries tsg channels) ∨
      ∀ entry ∈ entries, entry.isTsg = false := by
  induction entries using List.reverseRecOn with
  | nil =>
      right
      intro entry hmem
      cases hmem
  | append_singleton entries entry ih =>
      cases htsg : entry.isTsg with
      | true =>
          left
          exact ⟨entry, [], htsg, fun _ hmem => absurd hmem List.not_mem_nil, entries, rfl⟩
      | false =>
          rcases ih with ⟨tsg, channels, hisTsg, hchannels, earlier, rfl⟩ | hnone
          · left
            refine ⟨tsg, channels ++ [entry], hisTsg, ?_, earlier, ?_⟩
            · intro channel hmem
              rcases List.mem_append.mp hmem with hold | hnew
              · exact hchannels channel hold
              · rw [List.mem_singleton.mp hnew]
                exact htsg
            · rw [List.append_assoc, List.cons_append]
          · right
            intro e hmem
            rcases List.mem_append.mp hmem with hold | hnew
            · exact hnone e hold
            · rw [List.mem_singleton.mp hnew]
              exact htsg

theorem underTsg_iff : UnderTsg entries ↔ entriesLeft entries ≠ 0 := by
  constructor
  · rintro ⟨tsg, channels, hafter, hlt⟩
    rw [entriesLeft_of_afterTsg hafter]
    exact Nat.sub_ne_zero_of_lt hlt
  · intro hleft
    rcases afterTsg_or entries with ⟨tsg, channels, hafter⟩ | hnone
    · rw [entriesLeft_of_afterTsg hafter] at hleft
      exact ⟨tsg, channels, hafter, Nat.lt_of_sub_ne_zero hleft⟩
    · exact absurd (entriesLeft_of_channels hnone) hleft

end Entries

/-! ## Lines of a channel -/

/-- Whether a group of lines is indented. -/
def RunlistText.isIndented : RunlistText → Bool
  | .missingChannel => false
  | .tsg _ _ _ _ => false
  | .channel indent _ _ _ _ => indent
  | .channelInfo indent _ _ _ _ _ _ _ _ _ => indent
  | .channelInfoGa100 indent _ _ _ _ _ _ _ _ _ _ _ _ => indent
  | .instanceBlock indent _ _ _ _ _ _ _ _ _ _ _ => indent
  | .subcontext indent _ _ _ _ _ => indent
  | .contextId indent _ => indent
  | .contextState indent _ _ _ _ _ _ => indent
  | .channelEnd indent => indent

/-- All lines that are printed are indented like this. -/
abbrev Indents (indent : Bool) (x : Kernel (List RunlistText)) : Prop :=
  Returns (fun text => ∀ line ∈ text, line.isIndented = indent) x

section Lines

variable {indent : Bool}

theorem indented_nil : ∀ line ∈ ([] : List RunlistText), line.isIndented = indent := by
  intro line hmem
  cases hmem

theorem returns_showSubcontext (inst : Kva) (i : ℕ) :
    Returns (fun line => line.isIndented = indent) (showSubcontext indent inst i) :=
  .after fun _ => .after fun _ => .pure rfl

theorem indents_showInstanceBlock (inst : Kva) :
    Indents indent (showInstanceBlock indent inst) := by
  refine .after fun _ => .after fun _ => .after fun _ => .after fun _ => .after fun _ =>
    .after fun _ => .after fun valid => ?_
  refine (Returns.mapM (returns_showSubcontext inst) _).bind fun subcontexts hsub => ?_
  exact .pure (List.forall_mem_cons.mpr ⟨rfl, hsub⟩)

theorem returns_showContextState (ctxsw : Kva) :
    Returns (fun line => line.isIndented = indent) (showContextState indent ctxsw) :=
  .after fun _ => .after fun _ => .after fun _ => .after fun _ => .after fun _ =>
    .after fun _ => .pure rfl

theorem indents_runlistDetailSeqShowInst (instancePtr : ℕ) (instanceTarget : InstTarget) :
    Indents indent (runlistDetailSeqShowInst indent instancePtr instanceTarget) := by
  refine .after fun s => .after fun win => .after fun off => ?_
  refine (indents_showInstanceBlock _).bind fun block hblock => ?_
  refine .ite (fun _ => .pure hblock) fun _ => .after fun ctxsw => ?_
  refine .ite (fun _ => .after fun _ => .pure hblock) fun _ => .after fun contextId => ?_
  have hid : ∀ line ∈ block ++ [.contextId indent contextId.toNat],
      line.isIndented = indent := by
    rw [List.forall_mem_append]
    exact ⟨hblock, List.forall_mem_cons.mpr ⟨rfl, indented_nil⟩⟩
  refine .ite (fun _ => .pure hid) fun _ => ?_
  refine (returns_showContextState ctxsw).bind fun state hstate => .after fun _ => ?_
  apply Returns.pure
  rw [List.forall_mem_append]
  exact ⟨hid, List.forall_mem_cons.mpr ⟨hstate, indented_nil⟩⟩

theorem indents_runlistDetailSeqShowChan (chid : ℕ) :
    Indents indent (runlistDetailSeqShowChan indent chid) := by
  refine .after fun chan => .ite (fun _ => .pure indented_nil) fun _ => ?_
  refine (indents_runlistDetailSeqShowInst _ _).bind fun details hdetails => ?_
  exact .pure (List.forall_mem_cons.mpr ⟨rfl, hdetails⟩)

theorem indents_runlistDetailSeqShowChanGa100 (chid runlistPriBase instancePtr : ℕ)
    (instanceTarget : InstTarget) :
    Indents indent (runlistDetailSeqShowChanGa100 indent chid runlistPriBase instancePtr
      instanceTarget) := by
  refine .after fun channelConfig => .ite (fun _ => .pure indented_nil) fun _ => ?_
  refine .after fun chan => .ite (fun _ => .pure indented_nil) fun _ => ?_
  refine (indents_runlistDetailSeqShowInst _ _).bind fun details hdetails => ?_
  exact .pure (List.forall_mem_cons.mpr ⟨rfl, hdetails⟩)

/-- All lines of a channel are indented while entries are expected. -/
theorem indents_showChannel (entry : RunlistEntry) (rlIter : RunlistIter) :
    Indents (decide (rlIter.entriesLeftInTsg ≠ 0)) (showChannel entry rlIter) := by
  refine .after fun s => ?_
  have hlines : ∀ {text : List RunlistText},
      (∀ line ∈ text, line.isIndented = decide (rlIter.entriesLeftInTsg ≠ 0)) →
        ∀ chid selector ptr target, ∀ line ∈
          .channel (decide (rlIter.entriesLeftInTsg ≠ 0)) chid selector ptr target ::
            text ++ [.channelEnd (decide (rlIter.entriesLeftInTsg ≠ 0))],
          line.isIndented = decide (rlIter.entriesLeftInTsg ≠ 0) := by
    intro text htext chid selector ptr target
    rw [List.cons_append, List.forall_mem_cons, List.forall_mem_append]
    exact ⟨rfl, htext, List.forall_mem_cons.mpr ⟨rfl, indented_nil⟩⟩
  apply Returns.ite
  · intro _
    exact (indents_runlistDetailSeqShowChan _).bind fun details hdetails =>
      .pure (hlines hdetails _ _ _ _)
  · intro _
    exact (indents_runlistDetailSeqShowChanGa100 _ _ _ _).bind fun details hdetails =>
      .pure (hlines hdetails _ _ _ _)

end Lines

/-! ## One traversal -/

/-- What is listed from a position on, if nothing is shown again: the entries, and what
is printed for each.  `env` is the machine at each position. -/
inductive TraversedFrom (env : ℕ → Machine) :
    ℕ → RunlistIter → List (RunlistEntry × List RunlistText) → Prop where
  | last {pos : ℕ} {rlIter rlIter' rlIter'' : RunlistIter} {entry : RunlistEntry}
      {text : List RunlistText} {s₁ s' : Machine}
      (read : readEntry rlIter.currEntry (env pos) = some (entry, s₁))
      (run : runlistFileSeqShow rlIter (env pos) = some ((text, rlIter'), s'))
      (next : runlistFileSeqNext (env pos).rlEntrySize pos rlIter' = (false, rlIter'')) :
      TraversedFrom env pos rlIter [(entry, text)]
  | next {pos : ℕ} {rlIter rlIter' rlIter'' : RunlistIter} {entry : RunlistEntry}
      {text : List RunlistText} {records : List (RunlistEntry × List RunlistText)}
      {s₁ s' : Machine} (read : readEntry rlIter.currEntry (env pos) = some (entry, s₁))
      (run : runlistFileSeqShow rlIter (env pos) = some ((text, rlIter'), s'))
      (next : runlistFileSeqNext (env pos).rlEntrySize pos rlIter' = (true, rlIter''))
      (rest : TraversedFrom env (pos + 1) rlIter'' records) :
      TraversedFrom env pos rlIter ((entry, text) :: records)

/-- The line that says which entry it is. -/
def RunlistEntry.IsOwnLine (entry : RunlistEntry) : RunlistText → Prop
  | .tsg tsgid scale timeout length => entry.isTsg = true ∧ tsgid = entry.tsgid ∧
      scale = entry.timesliceScale ∧ timeout = entry.timesliceTimeout ∧
        length = entry.tsgLength
  | .channel _ chid _ _ target =>
      entry.isTsg = false ∧ chid = entry.chid ∧ target = entry.instTarget
  | _ => False

/-- What is printed for an entry, as it should be after the entries before it. -/
structure IsNested (before : List RunlistEntry) (entry : RunlistEntry)
    (text : List RunlistText) : Prop where
  /-- The entry has its own line. -/
  own : ∃ line ∈ text, entry.IsOwnLine line
  /-- The lines of a channel are indented if it belongs to the last TSG. -/
  channel : entry.isTsg = false →
    ∀ line ∈ text, line.isIndented = true ↔ UnderTsg before
  /-- Before a TSG, there is a line for each channel that the last one did not get. -/
  tsg : entry.isTsg = true → ∀ tsg channels, AfterTsg before tsg channels →
    text.count .missingChannel = tsg.tsgLength - channels.length
  /-- Before the first TSG, nothing is missing. -/
  first : entry.isTsg = true → (∀ e ∈ before, e.isTsg = false) →
    text.count .missingChannel = 0

section Traversal

variable {env : ℕ → Machine} {pos : ℕ} {rlIter rlIter' rlIter'' : RunlistIter}
variable {entry : RunlistEntry} {text : List RunlistText} {s s₁ s' : Machine}
variable {before : List RunlistEntry}

theorem count_showTsg (entry : RunlistEntry) (rlIter : RunlistIter) :
    (showTsg entry rlIter).1.count .missingChannel = rlIter.entriesLeftInTsg := by
  rw [showTsg, List.count_append, List.count_replicate_self]
  rfl

theorem own_mem_showTsg (htsg : entry.isTsg = true) (rlIter : RunlistIter) :
    ∃ line ∈ (showTsg entry rlIter).1, entry.IsOwnLine line := by
  refine ⟨_, List.mem_append_right _ List.mem_cons_self, ?_⟩
  exact ⟨htsg, rfl, rfl, rfl, rfl⟩

theorem own_mem_showChannel (htsg : entry.isTsg = false) (rlIter : RunlistIter) :
    Returns (fun text => ∃ line ∈ text, entry.IsOwnLine line) (showChannel entry rlIter) := by
  refine .after fun s => ?_
  have hfirst : ∀ (indent : Bool) selector ptr (lines : List RunlistText),
      ∃ line ∈ RunlistText.channel indent entry.chid selector ptr entry.instTarget :: lines,
        entry.IsOwnLine line :=
    fun _ _ _ _ => ⟨_, List.mem_cons_self, htsg, rfl, rfl⟩
  apply Returns.ite
  · intro _
    exact .after fun details => .pure (hfirst _ _ _ _)
  · intro _
    exact .after fun details => .pure (hfirst _ _ _ _)

/-- One record: it is as it should be, and the number is right for the next one. -/
theorem isNested_of_show (hleft : rlIter.entriesLeftInTsg = entriesLeft before)
    (hread : readEntry rlIter.currEntry s = some (entry, s₁))
    (hrun : runlistFileSeqShow rlIter s = some ((text, rlIter'), s')) :
    IsNested before entry text ∧
      rlIter'.entriesLeftInTsg - 1 = entriesLeft (before ++ [entry]) := by
  rw [entriesLeft_snoc]
  cases htsg : entry.isTsg with
  | true =>
      rw [runlistFileSeqShow_of_tsg hread htsg] at hrun
      have hcount := count_showTsg entry rlIter
      have hown := own_mem_showTsg htsg rlIter
      cases hrun
      refine ⟨⟨hown, ?_, ?_, ?_⟩, rfl⟩
      · intro hchannel
        rw [htsg] at hchannel
        cases hchannel
      · intro _ tsg channels hafter
        rw [← entriesLeft_of_afterTsg hafter, ← hleft]
        exact hcount
      · intro _ hnone
        rw [← entriesLeft_of_channels hnone, ← hleft]
        exact hcount
  | false =>
      rw [runlistFileSeqShow_of_channel hread htsg] at hrun
      obtain ⟨⟨text', s₂⟩, hshow, heq⟩ := Option.map_eq_some_iff.mp hrun
      cases heq
      have hlines := indents_showChannel entry rlIter _ _ _ hshow
      have hown := own_mem_showChannel htsg rlIter _ _ _ hshow
      refine ⟨⟨hown, ?_, ?_, ?_⟩, ?_⟩
      · intro _ line hmem
        rw [hlines line hmem, hleft, decide_eq_true_eq, underTsg_iff]
      · intro hisTsg
        rw [htsg] at hisTsg
        cases hisTsg
      · intro hisTsg
        rw [htsg] at hisTsg
        cases hisTsg
      · rw [hleft, if_neg Bool.false_ne_true]

theorem entriesLeftInTsg_of_next {more : Bool} {size : ℕ}
    (hnext : runlistFileSeqNext size pos rlIter' = (more, rlIter'')) :
    rlIter''.entriesLeftInTsg = rlIter'.entriesLeftInTsg - 1 := by
  cases hnext
  rfl

/-- From a position on, every record is as it should be after those before it. -/
theorem isNested_of_traversedFrom {records earlier later : List (RunlistEntry × List RunlistText)}
    (h : TraversedFrom env pos rlIter records)
    (hleft : rlIter.entriesLeftInTsg = entriesLeft before)
    (hrecords : records = earlier ++ (entry, text) :: later) :
    IsNested (before ++ earlier.map Prod.fst) entry text := by
  induction h generalizing before earlier with
  | last read run next =>
      obtain ⟨hnested, -⟩ := isNested_of_show hleft read run
      cases earlier with
      | nil =>
          cases hrecords
          rw [List.map_nil, List.append_nil]
          exact hnested
      | cons record earlier =>
          obtain ⟨-, hnil⟩ := List.cons.inj hrecords
          exact absurd hnil.symm (List.append_ne_nil_of_right_ne_nil _ (List.cons_ne_nil _ _))
  | next read run next _ ih =>
      obtain ⟨hnested, hcount⟩ := isNested_of_show hleft read run
      cases earlier with
      | nil =>
          cases hrecords
          rw [List.map_nil, List.append_nil]
          exact hnested
      | cons record earlier =>
          cases hrecords
          have hleft' := (entriesLeftInTsg_of_next next).trans hcount
          have hrest := ih hleft' rfl
          rw [List.append_assoc, List.singleton_append] at hrest
          exact hrest

theorem entriesLeftInTsg_of_getRunlistIter (rlId : ℕ) :
    Returns (fun p : ℤ × RunlistIter => p.2.entriesLeftInTsg = 0) (getRunlistIter rlId) := by
  refine .after fun config => ?_
  cases config with
  | error e => exact .pure rfl
  | ok rl =>
      refine .ite (fun _ => .pure rfl) fun _ => .ite (fun _ => .pure rfl) fun _ => ?_
      refine .after fun found => ?_
      cases found with
      | some vaddr => exact .after fun _ => .ite (fun _ => .pure rfl) fun _ => .pure rfl
      | none => exact .after fun _ => .ite (fun _ => .pure rfl) fun _ => .pure rfl

theorem entriesLeftInTsg_of_start {rlId : ℕ} {init : RunlistIter}
    (h : runlistFileSeqStart rlId 0 init s = some ((.ok true, rlIter), s')) :
    rlIter.entriesLeftInTsg = 0 := by
  rw [runlistFileSeqStart, if_pos rfl] at h
  obtain ⟨⟨err, found⟩, s₁, hfind, hrest⟩ := Kernel.bind_eq_some h
  have hzero := entriesLeftInTsg_of_getRunlistIter rlId s _ _ hfind
  dsimp only at hrest hzero
  split at hrest
  · cases hrest
  · obtain ⟨hiter, -⟩ := Prod.mk.inj (Option.some.inj hrest)
    rw [← (Prod.mk.inj hiter).2]
    exact hzero

end Traversal

/-- In one traversal, every entry gets its own line; a channel is indented exactly if it is
among the entries of the last TSG, and a TSG is preceded by one line for each channel that is
missing under the one before it. -/
theorem runlistFileSeqShow_nested {env : ℕ → Machine} {rlId : ℕ}
    {init rlIter : RunlistIter} {s s' : Machine}
    {records : List (RunlistEntry × List RunlistText)}
    (hstart : runlistFileSeqStart rlId 0 init s = some ((.ok true, rlIter), s'))
    (htraversed : TraversedFrom env 0 rlIter records) :
    ∀ earlier entry text later, records = earlier ++ (entry, text) :: later →
      IsNested (earlier.map Prod.fst) entry text := by
  intro earlier entry text later hrecords
  have hleft : rlIter.entriesLeftInTsg = entriesLeft [] :=
    entriesLeftInTsg_of_start hstart
  exact isNested_of_traversedFrom htraversed hleft hrecords

/-- A Pascal GPU with a TSG of two channels, of which only one is in the runlist, and
a TSG without any. -/
def shortTsg : Machine :=
  { Machine.ofWords [(⟨.sysmem, 0x1000⟩, 0x08002005), (⟨.sysmem, 0x1008⟩, 3),
      (⟨.sysmem, 0x1010⟩, 0x2006)] with
    chipId := 0x132
    regs := fun r => if r = 0x2280 then 0x20000001 else if r = 0x2284 then 3 else 0 }

/-- What is listed of its runlist. -/
def shortTsgRecords : List (RunlistEntry × List RunlistText) :=
  [(⟨0x132, 0x08002005, 0⟩, [.tsg 5 0 0 2]),
    (⟨0x132, 3, 0⟩,
      [.channel true 3 none 0 .vidMem,
        .channelInfo true false false false false 0 false 0 .vidMem false,
        .instanceBlock true 0 false 0 0 .vidMem false 0 0 .vidMem false 0,
        .channelEnd true]),
    (⟨0x132, 0x2006, 0⟩, [.missingChannel, .tsg 6 0 0 0])]

theorem shortTsg_traversedFrom :
    TraversedFrom (fun _ => shortTsg) 0 ⟨.phys 0x1000, 0, 3, 0⟩ shortTsgRecords := by
  have hread : (readEntry (.phys 0x1000) shortTsg).map Prod.fst =
        some ⟨0x132, 0x08002005, 0⟩ ∧
      (readEntry (.phys 0x1008) shortTsg).map Prod.fst = some ⟨0x132, 3, 0⟩ ∧
      (readEntry (.phys 0x1010) shortTsg).map Prod.fst = some ⟨0x132, 0x2006, 0⟩ := by
    decide
  have hshow : (runlistFileSeqShow ⟨.phys 0x1000, 0, 3, 0⟩ shortTsg).map Prod.fst =
        some ([.tsg 5 0 0 2], ⟨.phys 0x1000, 3, 3, 0⟩) ∧
      (runlistFileSeqShow ⟨.phys 0x1008, 2, 3, 0⟩ shortTsg).map Prod.fst =
        some ([.channel true 3 none 0 .vidMem,
          .channelInfo true false false false false 0 false 0 .vidMem false,
          .instanceBlock true 0 false 0 0 .vidMem false 0 0 .vidMem false 0,
          .channelEnd true], ⟨.phys 0x1008, 2, 3, 0⟩) ∧
      (runlistFileSeqShow ⟨.phys 0x1010, 1, 3, 0⟩ shortTsg).map Prod.fst =
        some ([.missingChannel, .tsg 6 0 0 0], ⟨.phys 0x1010, 1, 3, 0⟩) := by
    decide
  obtain ⟨s₁, hread₁⟩ := Kernel.exists_of_map_fst hread.1
  obtain ⟨s₂, hread₂⟩ := Kernel.exists_of_map_fst hread.2.1
  obtain ⟨s₃, hread₃⟩ := Kernel.exists_of_map_fst hread.2.2
  obtain ⟨t₁, hshow₁⟩ := Kernel.exists_of_map_fst hshow.1
  obtain ⟨t₂, hshow₂⟩ := Kernel.exists_of_map_fst hshow.2.1
  obtain ⟨t₃, hshow₃⟩ := Kernel.exists_of_map_fst hshow.2.2
  exact .next hread₁ hshow₁ rfl (.next hread₂ hshow₂ rfl (.last hread₃ hshow₃ rfl))

/-- The last entry of the list. -/
theorem runlistFileSeqShow_nested_shortTsg :
    IsNested ((shortTsgRecords.take 2).map Prod.fst) ⟨0x132, 0x2006, 0⟩
      [.missingChannel, .tsg 6 0 0 0] := by
  have hstart : (runlistFileSeqStart 0 0 .empty shortTsg).map Prod.fst =
      some (.ok true, ⟨.phys 0x1000, 0, 3, 0⟩) := by
    decide
  obtain ⟨s', hrun⟩ := Kernel.exists_of_map_fst hstart
  exact runlistFileSeqShow_nested hrun shortTsg_traversedFrom (shortTsgRecords.take 2) _ _ [] rfl

end A100Partitioning.Nvdebug
