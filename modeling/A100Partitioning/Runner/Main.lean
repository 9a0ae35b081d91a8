import A100Partitioning.Config.CJsonRoundTrip
import A100Partitioning.Runner.ConfigFile

/-!
# The runner

The runner reads the configuration, loads the task host and has it run.  The buffer with the
configuration is parsed together with what is in memory behind it, which makes no difference to
a configuration that is accepted; and the runner releases what it holds on each of its paths.
-/

namespace A100Partitioning.Runner

open Support
open Config (Double CJson GlobalConfiguration ConsumesNumber StopsAtSeparator cJSONParse
  parseConfiguration parseRoot)

/-! ## The code -/

/-- What goes well in `LoadTaskHostLibrary`: the copy of the path, `dlopen`, `dlsym`, and
`RegisterFunctions`. -/
structure Library where
  copies : Bool
  opens : Bool
  exports : Bool
  registers : Bool

/-- `LoadTaskHostLibrary`. -/
def loadTaskHostLibrary (library : Library) (ledger : Ledger Resource) : Bool × Ledger Resource :=
  if ¬ library.copies then (false, ledger)
  else
    let ledger := (ledger.alloc .path).free .path
    if ¬ library.opens then (false, ledger)
    else if ¬ library.exports then (false, (ledger.alloc .library).free .library)
    else if ¬ library.registers then (false, (ledger.alloc .library).free .library)
    else (true, ledger.alloc .library)

/-- A function of the task host that the runner calls. -/
inductive Call where
  | init
  | copyIn
  | execute
  | copyOut
  | cleanup
  deriving DecidableEq

/-- What the functions of the task host return, for `initialize` with the buffer that it gets. -/
structure Functions where
  initializes : List Char → Bool
  copyIn : Bool
  execute : Bool
  copyOut : Bool

/-- How the runner ends. -/
structure Exit where
  code : ℕ
  ledger : Ledger Resource
  calls : List Call

/-- What is done before the end, also at `ErrorCleanup`. -/
def release (code : ℕ) (taskHostData libraryHandle : Bool) (configContent : List Char)
    (ledger : Ledger Resource) (calls : List Call) : Exit :=
  let (ledger, calls) :=
    if taskHostData then (ledger.free .taskHost, calls ++ [.cleanup]) else (ledger, calls)
  let ledger := if libraryHandle then ledger.free .library else ledger
  ⟨code, ledger.free (.buffer configContent.length), calls⟩

/-- `main`, unless it writes behind a buffer. -/
def main (argc : ℕ) (system : System) (library : Library) (functions : Functions) :
    Option Exit :=
  if argc ≠ 2 then some ⟨1, ⟨[], []⟩, []⟩
  else
    match getConfigFileContent system ⟨[], []⟩ with
    | (.outOfBounds, _) => none
    | (.null, ledger) => some ⟨1, ledger, []⟩
    | (.raw configContent, ledger) =>
        match loadTaskHostLibrary library ledger with
        | (false, ledger) => some (release 1 false false configContent ledger [])
        | (true, ledger) =>
            if ¬ functions.initializes configContent then
              some (release 1 false true configContent ledger [.init])
            else
              let ledger := ledger.alloc .taskHost
              if ¬ functions.copyIn then
                some (release 1 true true configContent ledger [.init, .copyIn])
              else if ¬ functions.execute then
                some (release 1 true true configContent ledger [.init, .copyIn, .execute])
              else if ¬ functions.copyOut then
                some (release 1 true true configContent ledger
                  [.init, .copyIn, .execute, .copyOut])
              else
                some (release 0 true true configContent ledger
                  [.init, .copyIn, .execute, .copyOut])

/-- What is meant: the functions of a list are called up to and including the first that
fails. -/
def upToFailure (succeeds : Call → Bool) : List Call → List Call
  | [] => []
  | call :: calls => if succeeds call then call :: upToFailure succeeds calls else [call]

/-- Which functions of the task host succeed. -/
def Functions.succeeds (functions : Functions) (configContent : List Char) : Call → Bool
  | .init => functions.initializes configContent
  | .copyIn => functions.copyIn
  | .execute => functions.execute
  | .copyOut => functions.copyOut
  | .cleanup => true

/-- The string at the beginning of a memory. -/
def cString (memory : List Char) : List Char := memory.takeWhile (· ≠ '\x00')

/-! ## The string in the buffer -/

theorem cString_append (bytes tail : List Char) :
    ∃ rest, cString (bytes ++ tail) = cString bytes ++ rest := by
  rw [cString, List.takeWhile_append]
  split_ifs with hall
  · refine ⟨tail.takeWhile (· ≠ '\x00'), ?_⟩
    rw [cString, (List.takeWhile_prefix _).eq_of_length hall]
  · exact ⟨[], (List.append_nil _).symm⟩

theorem ne_number_of_parseRoot {outOfRange : Double → ℤ} {smctrl : Bool} {root : CJson}
    {config : GlobalConfiguration} (h : parseRoot outOfRange smctrl root = .ok config)
    (d : Double) : root ≠ .number d := by
  rintro rfl
  obtain ⟨_, -, h⟩ := Support.exists_of_bind_ok h
  obtain ⟨_, hiterations, -⟩ := Support.exists_of_bind_ok h
  obtain ⟨_, hrequired, -⟩ := Support.exists_of_bind_ok hiterations
  cases hrequired

theorem cJSONParse_append {strtod : List Char → Option (Double × List Char)}
    (hconsumes : ConsumesNumber strtod) (hstops : StopsAtSeparator strtod)
    {text : List Char} {item : CJson} (h : cJSONParse strtod text = some item)
    (hitem : ∀ d, item ≠ .number d) (tail : List Char) :
    cJSONParse strtod (text ++ tail) = some item := by
  rw [Config.cJSONParse_eq_some_iff hconsumes] at h ⊢
  obtain ⟨fuel, rest, hparse⟩ := h
  refine ⟨fuel, rest ++ tail, ?_⟩
  rw [Config.skipWhitespace_append_of_parseValue hparse]
  exact (Config.parse_append hstops tail fuel).1 hparse fun d hd => absurd hd (hitem d)

theorem exists_tail_of_getConfigFileContent {system : System} {content : List Char}
    {ledger : Ledger Resource}
    (h : getConfigFileContent system ⟨[], []⟩ = (.raw content, ledger)) :
    CanRead system ∧ ledger.Holds [.buffer content.length] ∧
      ∃ tail, content = system.stream.bytes ++ tail := by
  by_cases hread : CanRead system
  · obtain ⟨tail, ledger', -, -, hget, hholds⟩ := (getConfigFileContent_spec system).1 hread
    rw [hget] at h
    cases h
    exact ⟨hread, hholds, tail, rfl⟩
  · obtain ⟨ledger', hget, -⟩ := (getConfigFileContent_spec system).2 hread
    rw [hget] at h
    cases h

theorem cString_of_nulFree {s : List Char} (hs : Config.NulFree s) : cString s = s := by
  refine List.takeWhile_eq_self_iff.mpr fun c hc => ?_
  rw [decide_eq_true_eq]
  rintro rfl
  exact hs hc

theorem readDigits_append {cs rest : List Char} {n : ℕ}
    (h : Config.readDigits cs = some (n, rest)) (hrest : Config.Separated rest)
    (tail : List Char) : Config.readDigits (cs ++ tail) = some (n, rest ++ tail) := by
  rw [Config.readDigits] at h
  split_ifs at h with hdigits
  cases h
  obtain ⟨c, hc, -⟩ := hrest
  have hlength := congrArg List.length
    (List.takeWhile_append_dropWhile (p := Char.isDigit) (l := cs))
  cases hdrop : cs.dropWhile Char.isDigit with
  | nil =>
      rw [hdrop] at hc
      cases hc
  | cons first rest =>
      rw [hdrop, List.length_append, List.length_cons] at hlength
      have htake : (cs ++ tail).takeWhile Char.isDigit = cs.takeWhile Char.isDigit := by
        rw [List.takeWhile_append, if_neg (by omega)]
      have hleft : (cs ++ tail).dropWhile Char.isDigit = first :: rest ++ tail := by
        rw [List.dropWhile_append, hdrop]
        rfl
      rw [Config.readDigits, htake, hleft, if_neg hdigits]

theorem stopsAtSeparator_strtodWhole : StopsAtSeparator Config.strtodWhole := by
  intro text d rest tail h hrest
  rw [Config.strtodWhole.eq_def] at h
  split at h
  · obtain ⟨⟨n, rest'⟩, hread, heq⟩ := Option.map_eq_some_iff.mp h
    cases heq
    rw [List.cons_append, Config.strtodWhole, readDigits_append hread hrest]
    rfl
  · rename_i hsign
    obtain ⟨⟨n, rest'⟩, hread, heq⟩ := Option.map_eq_some_iff.mp h
    cases heq
    rw [Config.strtodWhole, readDigits_append hread hrest]
    · rfl
    · intro cs hhead
      cases text with
      | nil => cases hread
      | cons c text =>
          cases hhead
          exact hsign text rfl

/-! ## What is released -/

variable {library : Library} {functions : Functions} {ledger : Ledger Resource}
  {configContent : List Char}

/-- All goes well in `LoadTaskHostLibrary`. -/
def Library.Loads (library : Library) : Prop :=
  library.copies = true ∧ library.opens = true ∧ library.exports = true ∧
    library.registers = true

theorem holds_loadTaskHostLibrary (library : Library)
    (h : ledger.Holds [.buffer configContent.length])
    (hpath : .path ∉ ledger.allocated) (hlibrary : .library ∉ ledger.allocated)
    (htaskHost : .taskHost ∉ ledger.allocated) :
    (library.Loads ∧ ∃ ledger', loadTaskHostLibrary library ledger = (true, ledger') ∧
        ledger'.Holds [.library, .buffer configContent.length] ∧
        .taskHost ∉ ledger'.allocated) ∨
      ¬ library.Loads ∧ ∃ ledger', loadTaskHostLibrary library ledger = (false, ledger') ∧
        ledger'.Holds [.buffer configContent.length] := by
  have hcopied : ((ledger.alloc .path).free .path).Holds [.buffer configContent.length] :=
    (h.alloc hpath).free
  have hloaded : (((ledger.alloc .path).free .path).alloc .library).Holds
      [.library, .buffer configContent.length] := by
    refine hcopied.alloc fun hmem => ?_
    rcases List.mem_cons.mp hmem with heq | hmem
    · cases heq
    · exact hlibrary hmem
  rw [loadTaskHostLibrary, Library.Loads]
  cases hcopies : library.copies with
  | false => exact .inr ⟨by simp, _, rfl, h⟩
  | true =>
      cases hopens : library.opens with
      | false => exact .inr ⟨by simp, _, rfl, hcopied⟩
      | true =>
          cases hexports : library.exports with
          | false => exact .inr ⟨by simp, _, rfl, hloaded.free⟩
          | true =>
              cases hregisters : library.registers with
              | false => exact .inr ⟨by simp, _, rfl, hloaded.free⟩
              | true =>
                  refine .inl ⟨by simp, _, rfl, hloaded, fun hmem => ?_⟩
                  rcases List.mem_cons.mp hmem with heq | hmem
                  · cases heq
                  · rcases List.mem_cons.mp hmem with heq | hmem
                    · cases heq
                    · exact htaskHost hmem

/-- With the task host set up, all is released, the task host first. -/
theorem holds_release (h : ledger.Holds [.library, .buffer configContent.length])
    (hfresh : .taskHost ∉ ledger.allocated) (code : ℕ) (calls : List Call) :
    (release code true true configContent (ledger.alloc .taskHost) calls).ledger.Holds [] :=
  (h.alloc hfresh).free.free.free

/-! ## Results -/

/-- A configuration that is accepted as the file has it is accepted, and is the same, as it is
parsed from the buffer, whatever is in memory behind the bytes that were read. -/
theorem configuration_of_file (strtod : List Char → Option (Double × List Char))
    (hconsumes : ConsumesNumber strtod) (hstops : StopsAtSeparator strtod)
    (outOfRange : Double → ℤ) (smctrl : Bool) (system : System) (config : GlobalConfiguration)
    (hconfig : parseConfiguration (cJSONParse strtod) outOfRange smctrl
      (cString system.stream.bytes) = .ok config)
    (content : List Char) (ledger : Ledger Resource)
    (hread : getConfigFileContent system ⟨[], []⟩ = (.raw content, ledger))
    (behind : List Char) :
    parseConfiguration (cJSONParse strtod) outOfRange smctrl (cString (content ++ behind)) =
      .ok config := by
  obtain ⟨root, hroot, hparsed⟩ : ∃ root,
      cJSONParse strtod (cString system.stream.bytes) = some root ∧
      parseRoot outOfRange smctrl root = .ok config := by
    rw [parseConfiguration] at hconfig
    split at hconfig
    · cases hconfig
    · exact ⟨_, by assumption, hconfig⟩
  obtain ⟨-, -, tail, rfl⟩ := exists_tail_of_getConfigFileContent hread
  obtain ⟨rest, hstring⟩ := cString_append system.stream.bytes (tail ++ behind)
  rw [List.append_assoc, hstring, parseConfiguration,
    cJSONParse_append hconsumes hstops hroot (ne_number_of_parseRoot hparsed) rest]
  exact hparsed

/-- A scenario in a file, with a brace of something else behind it. -/
theorem configuration_of_file_scenario :
    ∃ system content ledger config,
      getConfigFileContent system ⟨[], []⟩ = (.raw content, ledger) ∧
      parseConfiguration (cJSONParse Config.strtodWhole) (fun _ => 0) false
        (cString (content ++ ['}'])) = .ok config := by
  have hholds := Config.holds_scenario [] Config.holds_benchmark
  have hparse : parseConfiguration (cJSONParse Config.strtodWhole) (fun _ => 0) false
      (Config.cJSONPrint (fun _ => []) (fun _ => []) true (Config.scenario [] [])) =
      parseRoot (fun _ => 0) false (Config.scenario [] []) := by
    rw [parseConfiguration, Config.cJSONParse_printed_whole _ _ true hholds]
  have hstring : cString (Config.cJSONPrint (fun _ => []) (fun _ => []) true
      (Config.scenario [] [])) =
      Config.cJSONPrint (fun _ => []) (fun _ => []) true (Config.scenario [] []) :=
    cString_of_nulFree (Config.nulFree_cJSONPrint true hholds)
  obtain ⟨config, hconfig⟩ : ∃ config,
      parseRoot (fun _ => 0) false (Config.scenario [] []) = .ok config := ⟨_, rfl⟩
  obtain ⟨tail, ledger, -, -, hget, -⟩ := (getConfigFileContent_spec
    ⟨true, false,
      ⟨Config.cJSONPrint (fun _ => []) (fun _ => []) true (Config.scenario [] []), false⟩,
      fun _ => true, fun _ _ => '}'⟩).1 ⟨.inl rfl, rfl, fun _ _ => rfl⟩
  refine ⟨_, _, ledger, config, hget, ?_⟩
  refine configuration_of_file Config.strtodWhole Config.consumesNumber_strtodWhole
    stopsAtSeparator_strtodWhole (fun _ => 0) false _ config ?_ _ ledger hget ['}']
  rw [hstring, hparse, hconfig]

/-- On each of its paths the runner has released what it has acquired, each once, when it ends.
Without a file or a library it calls nothing; with them, it calls the functions in order up to
the first that fails, and cleans the task host up exactly if it has set it up.  It reports
success only if all went well. -/
theorem main_releases (argc : ℕ) (system : System) (library : Library) (functions : Functions) :
    ∃ exit, main argc system library functions = some exit ∧ exit.ledger.Holds [] ∧
      (¬ (argc = 2 ∧ CanRead system ∧ library.Loads) ∧ exit.calls = [] ∨
        ∃ content ledger, argc = 2 ∧ library.Loads ∧
          getConfigFileContent system ⟨[], []⟩ = (.raw content, ledger) ∧
          exit.calls =
            upToFailure (functions.succeeds content) [.init, .copyIn, .execute, .copyOut] ++
              if functions.initializes content then [.cleanup] else []) ∧
      (exit.code = 0 ↔ argc = 2 ∧ library.Loads ∧ CanRead system ∧
        (∃ content ledger, getConfigFileContent system ⟨[], []⟩ = (.raw content, ledger) ∧
          functions.initializes content = true) ∧
        functions.copyIn = true ∧ functions.execute = true ∧ functions.copyOut = true) := by
  rw [main]
  by_cases hargc : argc = 2
  · rw [if_neg (not_not.mpr hargc)]
    by_cases hread : CanRead system
    · obtain ⟨tail, ledger, -, -, hget, hholds⟩ := (getConfigFileContent_spec system).1 hread
      have hreads : OnlyReads ledger := by
        have hall := onlyReads_getConfigFileContent system
        rwa [hget] at hall
      rw [hget]
      dsimp only
      rcases holds_loadTaskHostLibrary library hholds (hreads.not_mem (by simp))
          (hreads.not_mem (by simp)) (hreads.not_mem (by simp)) with
        ⟨hloads, ledger', hload, hheld, hfresh⟩ | ⟨hloads, ledger', hload, hheld⟩
      · rw [hload]
        dsimp only
        have hend (code : ℕ) (calls : List Call) := holds_release hheld hfresh code calls
        cases hinit : functions.initializes (system.stream.bytes ++ tail) with
        | false =>
            refine ⟨_, rfl, hheld.free.free, .inr ⟨_, _, hargc, hloads, rfl, ?_⟩, ?_⟩
            · simp [release, upToFailure, Functions.succeeds, hinit]
            · refine iff_of_false Nat.one_ne_zero fun hall => ?_
              obtain ⟨content, ledger'', hcontent, hcontentInit⟩ := hall.2.2.2.1
              cases hcontent
              exact absurd (hinit.symm.trans hcontentInit) Bool.false_ne_true
        | true =>
            cases hcopyIn : functions.copyIn with
            | false =>
                refine ⟨_, rfl, hend 1 _, .inr ⟨_, _, hargc, hloads, rfl, ?_⟩, ?_⟩
                · simp [release, upToFailure, Functions.succeeds, hinit, hcopyIn]
                · exact iff_of_false Nat.one_ne_zero fun hall =>
                    Bool.false_ne_true hall.2.2.2.2.1
            | true =>
                cases hexecute : functions.execute with
                | false =>
                    refine ⟨_, rfl, hend 1 _, .inr ⟨_, _, hargc, hloads, rfl, ?_⟩, ?_⟩
                    · simp [release, upToFailure, Functions.succeeds, hinit, hcopyIn, hexecute]
                    · exact iff_of_false Nat.one_ne_zero fun hall =>
                        Bool.false_ne_true hall.2.2.2.2.2.1
                | true =>
                    cases hcopyOut : functions.copyOut with
                    | false =>
                        refine ⟨_, rfl, hend 1 _, .inr ⟨_, _, hargc, hloads, rfl, ?_⟩, ?_⟩
                        · simp [release, upToFailure, Functions.succeeds, hinit, hcopyIn,
                            hexecute, hcopyOut]
                        · exact iff_of_false Nat.one_ne_zero fun hall =>
                            Bool.false_ne_true hall.2.2.2.2.2.2
                    | true =>
                        refine ⟨_, rfl, hend 0 _, .inr ⟨_, _, hargc, hloads, rfl, ?_⟩, ?_⟩
                        · simp [release, upToFailure, Functions.succeeds, hinit, hcopyIn,
                            hexecute, hcopyOut]
                        · exact iff_of_true rfl
                            ⟨hargc, hloads, hread, ⟨_, _, rfl, hinit⟩, rfl, rfl, rfl⟩
      · rw [hload]
        refine ⟨_, rfl, hheld.free, .inl ⟨fun hall => hloads hall.2.2, rfl⟩, ?_⟩
        exact iff_of_false Nat.one_ne_zero fun hall => hloads hall.2.1
    · obtain ⟨ledger, hget, hholds⟩ := (getConfigFileContent_spec system).2 hread
      rw [hget]
      refine ⟨_, rfl, hholds, .inl ⟨fun hall => hread hall.2.1, rfl⟩, ?_⟩
      exact iff_of_false Nat.one_ne_zero fun hall => hread hall.2.2.1
  · rw [if_pos hargc]
    refine ⟨_, rfl, .empty, .inl ⟨fun hall => hargc hall.1, rfl⟩, ?_⟩
    exact iff_of_false Nat.one_ne_zero fun hall => hargc hall.1

end A100Partitioning.Runner
