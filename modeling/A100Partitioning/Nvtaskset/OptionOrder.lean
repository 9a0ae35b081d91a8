import A100Partitioning.Nvtaskset.ArgParser

/-!
# The order of options and arguments

The comment in `arg_parser` tells the uses of `nvtaskset` apart by whether there is a
`-p` and by the number of arguments.  This module says for which argument vectors it is
also immaterial where the options stand.
-/

namespace A100Partitioning.Nvtaskset

variable (kind : List Char → WordKind) (gpu : Gpu)

/-! ## The words that belong to nvtaskset -/

/-- The words before the sub-command, which starts at the second argument unless there is
a `-p` before, and the words from there on.  Behind `--` no word is an option. -/
def splitOwn (isCmd : Bool) (argNum : ℕ) :
    List (List Char) → List (List Char) × List (List Char)
  | [] => ([], [])
  | word :: rest =>
      match kind word with
      | .option key =>
          let split := splitOwn (isCmd && key ≠ .p) argNum rest
          (word :: split.1, split.2)
      | .foreign _ =>
          let split := splitOwn isCmd argNum rest
          (word :: split.1, split.2)
      | .endOfOptions => ([], word :: rest)
      | .argument =>
          if isCmd ∧ argNum ≠ 0 then ([], word :: rest)
          else
            let split := splitOwn isCmd (argNum + 1) rest
            (word :: split.1, split.2)

/-- The option that a word is. -/
def optionKey (word : List Char) : Option Key :=
  match kind word with
  | .option key => some key
  | _ => none

/-- The options among words. -/
def keys (words : List (List Char)) : List Key := words.filterMap (optionKey kind)

/-- The words that are no options. -/
def others (words : List (List Char)) : List (List Char) :=
  words.filter fun word => (optionKey kind word).isNone

/-- The options have been moved, among themselves and past the other words. -/
def Moved (own own' : List (List Char)) : Prop :=
  own'.Perm own ∧ others kind own' = others kind own

/-- Moving options before the sub-command does not change the outcome. -/
def OrderImmaterial (argv : List (List Char)) : Prop :=
  let split := splitOwn kind true 0 argv
  ∀ own', Moved kind split.1 own' →
    nvtaskset kind gpu (own' ++ split.2) = nvtaskset kind gpu argv

/-! ## The condition -/

/-- The options that make the first argument a list. -/
def listKeys (ks : List Key) : List Key := ks.filter (· ≠ .p)

/-- The mask that the first argument denotes behind an option. -/
def listMask (key : Key) (arg : List Char) : Except Exit (BitVec 128) :=
  listArgument gpu (key = .g) arg

/-- The arguments behind the words that belong to nvtaskset. -/
def behindOwn : List (List Char) → List (List Char)
  | [] => []
  | word :: rest => if kind word = .endOfOptions then rest else word :: rest

/-- The arguments behind are such that the mask is used. -/
def UsesMask (ks : List Key) (args : List (List Char)) : Prop :=
  (listKeys ks).length ≤ 1 ∧
    if .p ∈ ks then ∃ arg pid, args = [arg] ∧ pidArgument arg = some pid else args ≠ []

/-- Where the options may stand before and behind the first argument: it is a list for
each option, and the list has the mask that the argument denotes without the option if
the mask is used; and if nothing else is there, so that the argument may be the last
word, `-p` has to make the PID invalid. -/
def FirstArgument (ks : List Key) (arg : List Char) (after rest : List (List Char)) : Prop :=
  if after = [] ∧ rest = [] then
    (.p ∈ ks → (listKeys ks).length ≤ 1 → pidArgument arg = none) ∧
      (.p ∈ ks ∨ 2 ≤ (listKeys ks).length →
        ∀ key ∈ listKeys ks, ∃ mask, listMask gpu key arg = .ok mask)
  else
    ∀ key ∈ listKeys ks, ∃ mask, listMask gpu key arg = .ok mask ∧
      (UsesMask ks (behindOwn kind rest) → maskArgument arg = some mask)

/-- The program goes on at this word without an argument. -/
def passes (word : List Char) : Bool :=
  match kind word with
  | .option _ => true
  | .foreign .goesOn => true
  | _ => false

/-- How the program ends at this word. -/
def endsAt (word : List Char) : Option Exit :=
  match kind word with
  | .foreign .usage => some .usage
  | .foreign .help => some .help
  | _ => none

/-- The condition on the options, the other words that belong to nvtaskset, and the rest. -/
def OrderCondition (ks : List Key) (others rest : List (List Char)) : Prop :=
  match others.dropWhile (passes kind) with
  | [] => True
  | arg :: after =>
      match endsAt kind arg with
      | some e => e ≠ .usage → (listKeys ks).length ≤ 1
      | none =>
          match after.dropWhile (passes kind) with
          | [] => FirstArgument kind gpu ks arg after rest
          | next :: _ =>
              match endsAt kind next with
              | some e => ∀ key ∈ listKeys ks, ∃ mask, listMask gpu key arg = .ok mask ∧
                  (e ≠ .usage → (listKeys ks).length ≤ 1 ∧ maskArgument arg ≠ none)
              | none => listKeys ks = [] ∧ maskArgument arg = none

/-! ## Options -/

@[simp]
theorem listKeys_append (ks ks' : List Key) :
    listKeys (ks ++ ks') = listKeys ks ++ listKeys ks' :=
  List.filter_append ks ks'

theorem listKeys_cons {key : Key} (hkey : key ≠ .p) (ks : List Key) :
    listKeys (key :: ks) = key :: listKeys ks :=
  List.filter_cons_of_pos (decide_eq_true hkey)

theorem listKeys_perm {ks ks' : List Key} (h : ks.Perm ks') :
    (listKeys ks).Perm (listKeys ks') :=
  h.filter _

/-- The state after options, with the mask if the first argument came before. -/
def Parser.after (ks : List Key) (mask : BitVec 128) : Parser :=
  { isCmd := .p ∉ ks, isList := listKeys ks ≠ [], useGpcs := .g ∈ ks, mask := mask }

theorem Parser.after_congr {ks ks' : List Key} (h : ks.Perm ks') (mask : BitVec 128) :
    Parser.after ks mask = Parser.after ks' mask := by
  have hlist : listKeys ks ≠ [] ↔ listKeys ks' ≠ [] :=
    not_congr ⟨fun hnil => List.nil_perm.mp (hnil ▸ listKeys_perm h),
      fun hnil => List.perm_nil.mp (hnil ▸ listKeys_perm h)⟩
  simp only [Parser.after, h.mem_iff, hlist]

theorem Parser.onOption_after (ks : List Key) (mask : BitVec 128) (key : Key) :
    (Parser.after ks mask).onOption key =
      if key ≠ .p ∧ listKeys ks ≠ [] then .error .usage
      else .ok (Parser.after (ks ++ [key]) mask) := by
  cases key with
  | p =>
      have hnone : listKeys [.p] = [] := rfl
      simp [Parser.onOption, Parser.after, hnone]
  | t =>
      by_cases hnil : listKeys ks = []
      · simp [Parser.onOption, Parser.after, hnil, listKeys_cons]
      · simp [Parser.onOption, Parser.after, hnil]
  | g =>
      by_cases hnil : listKeys ks = []
      · simp [Parser.onOption, Parser.after, hnil, listKeys_cons]
      · simp [Parser.onOption, Parser.after, hnil]

theorem onOptions_after (ks ks' : List Key) (mask : BitVec 128)
    (h : (listKeys ks).length ≤ 1) :
    ks'.foldlM Parser.onOption (Parser.after ks mask) =
      if (listKeys (ks ++ ks')).length ≤ 1 then .ok (Parser.after (ks ++ ks') mask)
      else .error .usage := by
  induction ks' generalizing ks with
  | nil =>
      rw [List.append_nil, if_pos h]
      rfl
  | cons key ks' ih =>
      have happend : ks ++ key :: ks' = (ks ++ [key]) ++ ks' := by simp
      rw [List.foldlM_cons, Parser.onOption_after]
      by_cases htwo : key ≠ .p ∧ listKeys ks ≠ []
      · have hlong : ¬ (listKeys (ks ++ key :: ks')).length ≤ 1 := by
          have hpos := List.length_pos_iff.mpr htwo.2
          rw [listKeys_append, listKeys_cons htwo.1, List.length_append, List.length_cons]
          omega
        rw [if_pos htwo, if_neg hlong]
        rfl
      · have hstill : (listKeys (ks ++ [key])).length ≤ 1 := by
          by_cases hkey : key = .p
          · rw [hkey, listKeys_append, List.length_append]
            exact h
          · have hnil : listKeys ks = [] := by
              by_contra hne
              exact htwo ⟨hkey, hne⟩
            rw [listKeys_append, hnil, listKeys_cons hkey]
            exact le_refl 1
        rw [if_neg htwo, happend]
        exact ih _ hstill

/-! ## The words of an arrangement -/

variable {kind gpu}

theorem keys_append (ws ws' : List (List Char)) :
    keys kind (ws ++ ws') = keys kind ws ++ keys kind ws' :=
  List.filterMap_append

theorem keys_perm {ws ws' : List (List Char)} (h : ws.Perm ws') :
    (keys kind ws).Perm (keys kind ws') :=
  h.filterMap _

theorem others_append (ws ws' : List (List Char)) :
    others kind (ws ++ ws') = others kind ws ++ others kind ws' :=
  List.filter_append ws ws'

theorem optionKey_eq_some {word : List Char} {key : Key} :
    optionKey kind word = some key ↔ kind word = .option key := by
  unfold optionKey
  split
  · rename_i key' hkind
    rw [hkind, Option.some.injEq, WordKind.option.injEq]
  · rename_i hne
    refine iff_of_false ?_ (hne key)
    intro h
    cases h

theorem optionKey_eq_none {word : List Char} :
    optionKey kind word = none ↔ ∀ key, kind word ≠ .option key := by
  rw [Option.eq_none_iff_forall_not_mem]
  exact forall_congr' fun key => not_congr optionKey_eq_some

/-- The program goes on at all of these words without an argument. -/
def Quiet (kind : List Char → WordKind) (ws : List (List Char)) : Prop :=
  ∀ word ∈ ws, passes kind word = true

theorem quiet_nil : Quiet kind [] := fun _ h => absurd h List.not_mem_nil

theorem passes_option {word : List Char} {key : Key} (h : kind word = .option key) :
    passes kind word = true := by
  rw [passes, h]

theorem passes_eq_true {word : List Char} (h : passes kind word = true) :
    (∃ key, kind word = .option key) ∨ kind word = .foreign .goesOn := by
  rw [passes] at h
  split at h
  · exact .inl ⟨_, ‹_›⟩
  · exact .inr ‹_›
  · cases h

theorem not_option_of_not_passes {word : List Char} (h : passes kind word = false)
    (key : Key) : kind word ≠ .option key := by
  intro hkey
  rw [passes_option hkey] at h
  cases h

theorem Quiet.append {ws ws' : List (List Char)} (h : Quiet kind ws) (h' : Quiet kind ws') :
    Quiet kind (ws ++ ws') :=
  List.forall_mem_append.mpr ⟨h, h'⟩

theorem quiet_of_others {ws : List (List Char)} (h : Quiet kind (others kind ws)) :
    Quiet kind ws := by
  intro word hword
  cases hkey : optionKey kind word with
  | some key => exact passes_option (optionKey_eq_some.mp hkey)
  | none => exact h word (List.mem_filter.mpr ⟨hword, by rw [hkey]; rfl⟩)

theorem Quiet.others {ws : List (List Char)} (h : Quiet kind ws) :
    Quiet kind (others kind ws) :=
  fun word hword => h word (List.mem_filter.mp hword).1

theorem quiet_of_dropWhile_nil {ws : List (List Char)}
    (h : (others kind ws).dropWhile (passes kind) = []) : Quiet kind ws :=
  quiet_of_others (List.dropWhile_eq_nil_iff.mp h)

theorem not_passes_of_dropWhile {ws after : List (List Char)} {word : List Char}
    (h : ws.dropWhile (passes kind) = word :: after) : passes kind word = false := by
  have hne : ws.dropWhile (passes kind) ≠ [] := by
    rw [h]
    exact List.cons_ne_nil _ _
  have hhead := List.head_dropWhile_not (passes kind) hne
  simpa only [h, List.head_cons] using hhead

theorem exists_split {ws after : List (List Char)} {word : List Char}
    (h : (others kind ws).dropWhile (passes kind) = word :: after) :
    ∃ options ws', ws = options ++ word :: ws' ∧ Quiet kind options ∧
      others kind ws' = after := by
  have hall : others kind ws = (others kind ws).takeWhile (passes kind) ++ word :: after := by
    rw [← h, List.takeWhile_append_dropWhile]
  have hbefore : Quiet kind ((others kind ws).takeWhile (passes kind)) :=
    fun _ hword => List.mem_takeWhile_imp hword
  obtain ⟨front, back, rfl, hfront, hback⟩ := List.filter_eq_append_iff.mp hall
  obtain ⟨options, ws', rfl, hoptions, -, hrest⟩ := List.filter_eq_cons_iff.mp hback
  refine ⟨front ++ options, ws', by rw [List.append_assoc], ?_, hrest⟩
  refine Quiet.append (quiet_of_others ?_) (quiet_of_others ?_)
  · rw [others, hfront]
    exact hbefore
  · rw [others, List.filter_eq_nil_iff.mpr hoptions]
    exact quiet_nil

/-- Words without others are options. -/
theorem exists_key_of_others_nil {ws : List (List Char)} (h : others kind ws = [])
    {word : List Char} (hword : word ∈ ws) : ∃ key, kind word = .option key := by
  have hsome := List.filter_eq_nil_iff.mp h word hword
  have hne : optionKey kind word ≠ none := by
    intro hnone
    rw [hnone] at hsome
    exact hsome rfl
  obtain ⟨key, hkey⟩ := Option.ne_none_iff_exists'.mp hne
  exact ⟨key, optionKey_eq_some.mp hkey⟩

theorem keys_cons_other {word : List Char} (h : ∀ key, kind word ≠ .option key)
    (ws : List (List Char)) : keys kind (word :: ws) = keys kind ws :=
  List.filterMap_cons_none (optionKey_eq_none.mpr h)

theorem keys_cons_option {word : List Char} {key : Key} (h : kind word = .option key)
    (ws : List (List Char)) : keys kind (word :: ws) = key :: keys kind ws :=
  List.filterMap_cons_some (optionKey_eq_some.mpr h)

/-! ## The program on an arrangement -/

/-- The rest of the program before words. -/
def proceed (kind : List Char → WordKind) (gpu : Gpu) (quoted : Bool) (s : Parser)
    (argNum : ℕ) (ws : List (List Char)) : Except Exit Operation :=
  (argpParse kind gpu quoted s argNum ws).bind fun r => r.1.finish r.2

theorem proceed_option {word : List Char} {key : Key} (h : kind word = .option key)
    (s : Parser) (argNum : ℕ) (ws : List (List Char)) :
    proceed kind gpu false s argNum (word :: ws) =
      (s.onOption key).bind fun s => proceed kind gpu false s argNum ws := by
  unfold proceed
  rw [argpParse]
  simp only [Bool.false_eq_true, if_false, h]
  cases s.onOption key <;> rfl

theorem proceed_goesOn {word : List Char} (h : kind word = .foreign .goesOn) (s : Parser)
    (argNum : ℕ) (ws : List (List Char)) :
    proceed kind gpu false s argNum (word :: ws) = proceed kind gpu false s argNum ws := by
  unfold proceed
  rw [argpParse]
  simp only [Bool.false_eq_true, if_false, h]

theorem proceed_options {options : List (List Char)} (h : Quiet kind options)
    (s : Parser) (argNum : ℕ) (ws : List (List Char)) :
    proceed kind gpu false s argNum (options ++ ws) =
      ((keys kind options).foldlM Parser.onOption s).bind fun s =>
        proceed kind gpu false s argNum ws := by
  induction options generalizing s with
  | nil => rfl
  | cons word options ih =>
      have hrest : Quiet kind options := fun w hw => h w (List.mem_cons_of_mem _ hw)
      rcases passes_eq_true (h word List.mem_cons_self) with ⟨key, hkey⟩ | hpass
      · rw [List.cons_append, proceed_option hkey, keys_cons_option hkey, List.foldlM_cons]
        cases s.onOption key with
        | error e => rfl
        | ok s' => exact ih hrest s'
      · have hnot : ∀ key, kind word ≠ .option key := by
          rw [hpass]
          exact fun _ => WordKind.noConfusion
        rw [List.cons_append, proceed_goesOn hpass, keys_cons_other hnot]
        exact ih hrest s

/-- Options after options are allowed as long as at most one is about lists. -/
theorem proceed_after {options : List (List Char)} (h : Quiet kind options)
    {ks : List Key} (hks : (listKeys ks).length ≤ 1) (mask : BitVec 128) (argNum : ℕ)
    (ws : List (List Char)) :
    proceed kind gpu false (.after ks mask) argNum (options ++ ws) =
      if (listKeys (ks ++ keys kind options)).length ≤ 1 then
        proceed kind gpu false (.after (ks ++ keys kind options) mask) argNum ws
      else .error .usage := by
  rw [proceed_options h, onOptions_after ks _ mask hks]
  split_ifs <;> rfl

theorem proceed_endsAt {word : List Char} {e : Exit} (h : endsAt kind word = some e)
    (s : Parser) (argNum : ℕ) (ws : List (List Char)) :
    proceed kind gpu false s argNum (word :: ws) = .error e := by
  unfold proceed
  rw [argpParse]
  rw [endsAt] at h
  split at h
  · cases h
    simp only [Bool.false_eq_true, if_false, *]
    rfl
  · cases h
    simp only [Bool.false_eq_true, if_false, *]
    rfl
  · cases h

theorem proceed_endOfOptions {word : List Char} (h : kind word = .endOfOptions)
    (s : Parser) (argNum : ℕ) (ws : List (List Char)) :
    proceed kind gpu false s argNum (word :: ws) =
      proceed kind gpu true s argNum ws := by
  unfold proceed
  rw [argpParse]
  simp only [Bool.false_eq_true, if_false, h]

theorem proceed_argument {quoted : Bool} {word : List Char}
    (h : quoted = true ∨ kind word = .argument) (s : Parser) (argNum : ℕ)
    (ws : List (List Char)) :
    proceed kind gpu quoted s argNum (word :: ws) =
      (s.onArg gpu argNum ws.length word).bind fun taken =>
        taken.elim
          ((s.onArgs (word :: ws)).elim (.error .usage) fun s =>
            s.finish (argNum + (word :: ws).length))
          fun s => proceed kind gpu quoted s (argNum + 1) ws := by
  have hkind : (if quoted then .argument else kind word) = WordKind.argument := by
    rcases h with rfl | h
    · rfl
    · rw [h, ite_self]
  unfold proceed
  rw [argpParse]
  simp only [hkind]
  cases s.onArg gpu argNum ws.length word with
  | error e => rfl
  | ok taken =>
      cases taken with
      | some s' => rfl
      | none => cases hargs : s.onArgs (word :: ws) <;> rfl

/-- What the first argument is read as behind options about lists. -/
def firstMask (gpu : Gpu) (arg : List Char) : List Key → Except Exit (BitVec 128)
  | [] => orUsage (maskArgument arg)
  | key :: _ => listMask gpu key arg

theorem firstMask_eq {ks : List Key} (hks : (listKeys ks).length ≤ 1) (arg : List Char) :
    (if listKeys ks ≠ [] then listArgument gpu (.g ∈ ks) arg
      else orUsage (maskArgument arg)) = firstMask gpu arg (listKeys ks) := by
  cases hlist : listKeys ks with
  | nil => rfl
  | cons key more =>
      have hnil : more = [] := by
        rw [hlist, List.length_cons] at hks
        exact List.length_eq_zero_iff.mp (by omega)
      have hmem : .g ∈ ks ↔ key = .g := by
        have hfilter : .g ∈ ks ↔ .g ∈ listKeys ks := by simp [listKeys]
        rw [hfilter, hlist, hnil, List.mem_singleton]
        exact eq_comm
      simp only [ne_eq, reduceCtorEq, not_false_eq_true, if_true, firstMask, listMask, hmem]

theorem proceed_first {quoted : Bool} {arg : List Char}
    (h : quoted = true ∨ kind arg = .argument) {ks : List Key}
    (hks : (listKeys ks).length ≤ 1) {ws : List (List Char)} (hws : ws ≠ []) :
    proceed kind gpu quoted (.after ks 0) 0 (arg :: ws) =
      (firstMask gpu arg (listKeys ks)).bind fun mask =>
        proceed kind gpu quoted (.after ks mask) 1 ws := by
  have hlength : ws.length ≠ 0 := List.length_eq_zero_iff.not.mpr hws
  rw [proceed_argument h, Parser.onArg, ← firstMask_eq hks]
  simp only [Parser.after, Bool.false_eq_true, hlength, and_false, or_self, if_false,
    ne_eq, not_false_eq_true, and_self, if_true, decide_eq_true_eq]
  by_cases hlist : listKeys ks = []
  · simp only [hlist, not_true_eq_false, if_false]
    cases orUsage (maskArgument arg) <;> rfl
  · simp only [hlist, not_false_eq_true, if_true]
    cases listArgument gpu (.g ∈ ks) arg <;> rfl

theorem proceed_last {arg : List Char} (h : kind arg = .argument) (ks : List Key) :
    proceed kind gpu false (.after ks 0) 0 [arg] =
      if .p ∈ ks then (orUsage (pidArgument arg)).map fun pid =>
        .query pid (listKeys ks ≠ []) (.g ∈ ks)
      else .error .usage := by
  have hlist (hg : .g ∈ ks) : listKeys ks ≠ [] :=
    List.ne_nil_of_mem (List.mem_filter.mpr ⟨hg, rfl⟩)
  rw [proceed_argument (.inr h), Parser.onArg]
  by_cases hp : .p ∈ ks
  · simp only [Parser.after, hp, not_true_eq_false, decide_false, List.length_nil, and_self,
      or_true, if_true]
    cases pidArgument arg with
    | none => rfl
    | some pid =>
        by_cases hg : .g ∈ ks <;> simp [orUsage, Parser.finish, proceed, argpParse, hg, hlist,
          Except.bind, Except.map, bind, pure, Except.pure]
  · simp [Parser.after, hp, Parser.onArgs, Parser.finish, Except.bind]

/-- The second argument without `-p` is the sub-command. -/
theorem proceed_command {quoted : Bool} {arg : List Char}
    (h : quoted = true ∨ kind arg = .argument) {ks : List Key} (hp : .p ∉ ks)
    (mask : BitVec 128) (ws : List (List Char)) :
    proceed kind gpu quoted (.after ks mask) 1 (arg :: ws) =
      .ok (.launch mask (arg :: ws)) := by
  have henough : ¬ 1 + (arg :: ws).length < 2 := by
    rw [List.length_cons]
    omega
  rw [proceed_argument h, Parser.onArg]
  simp [Parser.after, hp, Parser.onArgs, Parser.finish, Except.bind]

theorem proceed_pid {quoted : Bool} {arg : List Char}
    (h : quoted = true ∨ kind arg = .argument) {ks : List Key} (hp : .p ∈ ks)
    (mask : BitVec 128) (ws : List (List Char)) :
    proceed kind gpu quoted (.after ks mask) 1 (arg :: ws) =
      (orUsage (pidArgument arg)).bind fun pid =>
        proceed kind gpu quoted { Parser.after ks mask with targetPid := pid } 2 ws := by
  rw [proceed_argument h, Parser.onArg]
  simp only [Parser.after, Bool.false_eq_true, one_ne_zero, false_and, or_self, if_false,
    hp, not_true_eq_false, decide_false, and_self, if_true]
  cases orUsage (pidArgument arg) <;> rfl

/-- What the program does with a mask when it comes to the arguments behind its own words. -/
def afterMask (ks : List Key) (mask : BitVec 128) :
    List (List Char) → Except Exit Operation
  | [] => .error .usage
  | arg :: rest =>
      if .p ∉ ks then .ok (.launch mask (arg :: rest))
      else if rest = [] then
        (orUsage (pidArgument arg)).map fun pid => .change pid mask (listKeys ks ≠ [])
      else .error .usage

/-- The words from where nvtaskset's own words end. -/
def IsRest (kind : List Char → WordKind) (ks : List Key) (rest : List (List Char)) : Prop :=
  rest = [] ∨ (∃ word ws, rest = word :: ws ∧ kind word = .endOfOptions) ∨
    ∃ word ws, rest = word :: ws ∧ kind word = .argument ∧ .p ∉ ks

theorem proceed_quoted (ks : List Key) (mask : BitVec 128) (args : List (List Char)) :
    proceed kind gpu true (.after ks mask) 1 args = afterMask ks mask args := by
  cases args with
  | nil => rfl
  | cons arg rest =>
      by_cases hp : .p ∈ ks
      · rw [proceed_pid (.inl rfl) hp, afterMask, if_neg (not_not.mpr hp)]
        cases rest with
        | nil =>
            rw [if_pos rfl]
            cases orUsage (pidArgument arg) with
            | error e => rfl
            | ok pid =>
                simp [proceed, argpParse, Except.bind, Except.map, Parser.finish,
                  Parser.after, hp]
        | cons next ws =>
            rw [if_neg (List.cons_ne_nil next ws)]
            cases hpid : pidArgument arg with
            | none => rfl
            | some pid =>
                simp only [orUsage, Option.elim_some, Except.bind]
                rw [proceed_argument (.inl rfl), Parser.onArg]
                simp [Parser.after, hp, Parser.onArgs, Except.bind]
      · rw [proceed_command (.inl rfl) hp, afterMask, if_pos hp]

theorem proceed_rest {ks : List Key} {rest : List (List Char)} (h : IsRest kind ks rest)
    (mask : BitVec 128) :
    proceed kind gpu false (.after ks mask) 1 rest =
      afterMask ks mask (behindOwn kind rest) := by
  rcases h with rfl | ⟨word, ws, rfl, hword⟩ | ⟨word, ws, rfl, hword, hp⟩
  · rfl
  · rw [proceed_endOfOptions hword, proceed_quoted, behindOwn, if_pos hword]
  · have hne : kind word ≠ .endOfOptions := by
      rw [hword]
      decide
    rw [proceed_command (.inr hword) hp, behindOwn, if_neg hne, afterMask, if_pos hp]

theorem Parser.onOption_isCmd {s s' : Parser} (hs : s.isCmd = false) {key : Key}
    (h : s.onOption key = .ok s') : s'.isCmd = false := by
  cases key <;> simp only [Parser.onOption] at h
  · split_ifs at h
    cases h
    exact hs
  · split_ifs at h
    cases h
    exact hs
  · cases h
    rfl

theorem Parser.onArg_isCmd {s s' : Parser} (hs : s.isCmd = false) {argNum remaining : ℕ}
    {arg : List Char} (h : s.onArg gpu argNum remaining arg = .ok (some s')) :
    s'.isCmd = false := by
  have hbind {T : Type} (x : Except Exit T) (f : T → Parser) (hf : ∀ v, (f v).isCmd = false)
      (hx : (x.bind fun v => .ok (some (f v))) = .ok (some s')) : s'.isCmd = false := by
    cases x with
    | error e => cases hx
    | ok v =>
        cases hx
        exact hf v
  rw [Parser.onArg] at h
  split_ifs at h
  · exact hbind _ (fun pid => { s with isQuery := true, targetPid := pid }) (fun _ => hs) h
  · cases h
  · exact hbind _ (fun mask => { s with mask := mask }) (fun _ => hs) h
  · exact hbind _ (fun mask => { s with mask := mask }) (fun _ => hs) h
  · exact hbind _ (fun pid => { s with targetPid := pid }) (fun _ => hs) h
  · cases h

theorem proceed_ne_launch {s : Parser} (hs : s.isCmd = false) (quoted : Bool)
    (argNum : ℕ) (ws : List (List Char)) (mask : BitVec 128) (argv : List (List Char)) :
    proceed kind gpu quoted s argNum ws ≠ .ok (.launch mask argv) := by
  intro h
  induction ws generalizing s quoted argNum with
  | nil =>
      rw [proceed, argpParse, Except.bind, Parser.finish, hs] at h
      split_ifs at h <;> simp_all
  | cons word ws ih =>
      by_cases hword : quoted = true ∨ kind word = .argument
      · rw [proceed_argument hword, Parser.onArgs, if_pos hs] at h
        cases harg : s.onArg gpu argNum ws.length word with
        | error e =>
            rw [harg] at h
            cases h
        | ok taken =>
            rw [harg] at h
            cases taken with
            | none => cases h
            | some s' => exact ih (Parser.onArg_isCmd hs harg) _ _ h
      · rw [not_or, Bool.not_eq_true] at hword
        rw [hword.1] at h
        cases hkind : kind word with
        | argument => exact hword.2 hkind
        | foreign own =>
            cases own with
            | goesOn =>
                rw [proceed_goesOn hkind] at h
                exact ih hs _ _ h
            | usage =>
                rw [proceed_endsAt (by rw [endsAt, hkind])] at h
                cases h
            | help =>
                rw [proceed_endsAt (by rw [endsAt, hkind])] at h
                cases h
        | endOfOptions =>
            rw [proceed_endOfOptions hkind] at h
            exact ih hs _ _ h
        | option key =>
            rw [proceed_option hkind] at h
            cases hoption : s.onOption key with
            | error e =>
                rw [hoption] at h
                cases h
            | ok s' =>
                rw [hoption] at h
                exact ih (Parser.onOption_isCmd hs hoption) _ _ h

/-! ## Own words -/

theorem splitOwn_append (isCmd : Bool) (argNum : ℕ) (argv : List (List Char)) :
    (splitOwn kind isCmd argNum argv).1 ++ (splitOwn kind isCmd argNum argv).2 = argv := by
  induction argv generalizing isCmd argNum with
  | nil => rfl
  | cons word rest ih =>
      rw [splitOwn]
      split
      · exact congrArg (word :: ·) (ih _ _)
      · exact congrArg (word :: ·) (ih _ _)
      · rfl
      · split_ifs
        · rfl
        · exact congrArg (word :: ·) (ih _ _)

/-- The arguments among words. -/
def argumentsIn (kind : List Char → WordKind) (ws : List (List Char)) : List (List Char) :=
  ws.filter fun word => kind word = .argument

/-- What is known about the own words and the rest. -/
structure IsSplit (kind : List Char → WordKind) (isCmd : Bool) (argNum : ℕ)
    (own rest : List (List Char)) : Prop where
  isWord : ∀ word ∈ own, kind word ≠ .endOfOptions
  isRest : isCmd = true → IsRest kind (keys kind own) rest
  isEnd : isCmd = false → rest = [] ∨ ∃ word ws, rest = word :: ws ∧ kind word = .endOfOptions
  atMostOne : isCmd = true → argNum ≤ 1 → .p ∉ keys kind own →
    argNum + (argumentsIn kind own).length ≤ 1

theorem IsSplit.cons {isCmd : Bool} {argNum : ℕ} {own rest : List (List Char)}
    {word : List Char} (hother : ∀ key, kind word ≠ .option key)
    (hend : kind word ≠ .endOfOptions)
    (h : IsSplit kind isCmd (argNum + (argumentsIn kind [word]).length) own rest)
    (hone : isCmd = true → argNum ≤ 1 → argNum + (argumentsIn kind [word]).length ≤ 1) :
    IsSplit kind isCmd argNum (word :: own) rest := by
  refine ⟨?_, ?_, h.isEnd, ?_⟩
  · intro w hw
    rcases List.mem_cons.mp hw with rfl | hw
    · exact hend
    · exact h.isWord w hw
  · rw [keys_cons_other hother]
    exact h.isRest
  · intro hcmd hle hp
    rw [keys_cons_other hother] at hp
    have hle := h.atMostOne hcmd (hone hcmd hle) hp
    have hlength : (argumentsIn kind (word :: own)).length =
        (argumentsIn kind [word]).length + (argumentsIn kind own).length := by
      rw [← List.length_append, argumentsIn, argumentsIn, argumentsIn, ← List.filter_append]
      rfl
    omega

theorem isSplit_splitOwn (isCmd : Bool) (argNum : ℕ) (argv : List (List Char)) :
    IsSplit kind isCmd argNum (splitOwn kind isCmd argNum argv).1
      (splitOwn kind isCmd argNum argv).2 := by
  induction argv generalizing isCmd argNum with
  | nil =>
      exact ⟨fun _ h => (List.not_mem_nil h).elim, fun _ => .inl rfl, fun _ => .inl rfl,
        fun _ h _ => h⟩
  | cons word rest ih =>
      rw [splitOwn]
      cases hkind : kind word with
      | option key =>
          have hrest := ih (isCmd && key ≠ .p) argNum
          refine ⟨?_, ?_, ?_, ?_⟩
          · intro w hw
            rcases List.mem_cons.mp hw with rfl | hw
            · rw [hkind]
              exact WordKind.noConfusion
            · exact hrest.isWord w hw
          · intro hcmd
            rw [keys_cons_option hkind]
            by_cases hkey : key = .p
            · rcases hrest.isEnd (by simp [hkey]) with hnil | hend
              · exact .inl hnil
              · exact .inr (.inl hend)
            · rcases hrest.isRest (by simp [hcmd, hkey]) with hnil | hend | ⟨w, ws, h, hw, hp⟩
              · exact .inl hnil
              · exact .inr (.inl hend)
              · refine .inr (.inr ⟨w, ws, h, hw, ?_⟩)
                intro hmem
                rcases List.mem_cons.mp hmem with heq | hmem
                · exact hkey heq.symm
                · exact hp hmem
          · intro hcmd
            exact hrest.isEnd (by simp [hcmd])
          · intro hcmd hle hp
            rw [keys_cons_option hkind, List.mem_cons, not_or] at hp
            have hkey : key ≠ .p := fun h => hp.1 h.symm
            have hle := hrest.atMostOne (by simp [hcmd, hkey]) hle hp.2
            rw [argumentsIn, List.filter_cons_of_neg]
            · exact hle
            · rw [hkind]
              exact of_decide_eq_false rfl
      | foreign own =>
          have hnone : argumentsIn kind [word] = [] := by simp [argumentsIn, hkind]
          refine IsSplit.cons (by simp [hkind]) (by simp [hkind]) ?_ ?_
          · rw [hnone]
            exact ih isCmd argNum
          · rw [hnone]
            exact fun _ h => h
      | endOfOptions =>
          exact ⟨fun _ h => (List.not_mem_nil h).elim,
            fun _ => .inr (.inl ⟨word, rest, rfl, hkind⟩), fun _ => .inr ⟨word, rest, rfl, hkind⟩,
            fun _ h _ => h⟩
      | argument =>
          have hsingle : argumentsIn kind [word] = [word] := by simp [argumentsIn, hkind]
          simp only []
          split_ifs with hstop
          · refine ⟨fun _ h => (List.not_mem_nil h).elim, ?_, ?_, fun _ h _ => h⟩
            · intro _
              exact .inr (.inr ⟨word, rest, rfl, hkind, List.not_mem_nil⟩)
            · intro hcmd
              rw [hcmd] at hstop
              cases hstop.1
          · refine IsSplit.cons (by simp [hkind]) (by simp [hkind]) ?_ ?_
            · rw [hsingle]
              exact ih isCmd (argNum + 1)
            · intro hcmd _
              have hzero : argNum = 0 := by
                by_contra hne
                exact hstop ⟨hcmd, hne⟩
              rw [hsingle, hzero]
              exact le_refl 1

/-! ## The outcome of an arrangement -/

theorem nvtaskset_options {options : List (List Char)} (h : Quiet kind options)
    (ws : List (List Char)) :
    nvtaskset kind gpu (options ++ ws) =
      if (listKeys (keys kind options)).length ≤ 1 then
        proceed kind gpu false (.after (keys kind options) 0) 0 ws
      else .error .usage := by
  have hnil : (listKeys []).length ≤ 1 := Nat.zero_le 1
  exact proceed_after h hnil 0 0 ws

/-- What becomes of the mask if only one argument is among the own words. -/
def onlyFirst (kind : List Char → WordKind) (ks : List Key) (rest : List (List Char))
    (mask : BitVec 128) : Except Exit Operation :=
  if (listKeys ks).length ≤ 1 then afterMask ks mask (behindOwn kind rest)
  else .error .usage

theorem nvtaskset_first {options : List (List Char)} (h : Quiet kind options)
    {arg : List Char} (harg : kind arg = .argument) {ws : List (List Char)} (hws : ws ≠ [])
    {f : BitVec 128 → Except Exit Operation}
    (hf : (listKeys (keys kind options)).length ≤ 1 → ∀ mask,
      proceed kind gpu false (.after (keys kind options) mask) 1 ws = f mask) :
    nvtaskset kind gpu (options ++ arg :: ws) =
      if (listKeys (keys kind options)).length ≤ 1 then
        (firstMask gpu arg (listKeys (keys kind options))).bind f
      else .error .usage := by
  rw [nvtaskset_options h]
  split_ifs with hone
  · rw [proceed_first (.inr harg) hone hws]
    exact congrArg _ (funext (hf hone))
  · rfl

theorem afterMask_congr {ks ks' : List Key} (h : ks.Perm ks') (mask : BitVec 128)
    (args : List (List Char)) : afterMask ks mask args = afterMask ks' mask args := by
  have hread (ks : List Key) := @proceed_quoted (fun _ => .argument) ⟨⟨0, none⟩, none⟩ ks mask args
  rw [← hread ks, Parser.after_congr h, hread ks']

theorem IsRest.congr {ks ks' : List Key} (h : ks.Perm ks') {rest : List (List Char)}
    (hrest : IsRest kind ks rest) : IsRest kind ks' rest := by
  rw [IsRest] at hrest ⊢
  simpa only [h.mem_iff] using hrest

theorem proceed_onlyFirst {ks ks' : List Key} {options rest : List (List Char)}
    (h : Quiet kind options) (hks : (listKeys ks).length ≤ 1)
    (hall : (ks ++ keys kind options).Perm ks') (hrest : IsRest kind ks' rest)
    (mask : BitVec 128) :
    proceed kind gpu false (.after ks mask) 1 (options ++ rest) =
      onlyFirst kind ks' rest mask := by
  rw [proceed_after h hks, onlyFirst, (listKeys_perm hall).length_eq]
  split_ifs
  · rw [proceed_rest (hrest.congr hall.symm), afterMask_congr hall]
  · rfl

/-- Either the mask is used, or the program complains whatever the mask is. -/
theorem onlyFirst_spec (ks : List Key) (rest : List (List Char)) :
    (UsesMask ks (behindOwn kind rest) →
      ∃ operation : BitVec 128 → Operation, Function.Injective operation ∧
        ∀ mask, onlyFirst kind ks rest mask = .ok (operation mask)) ∧
    (¬ UsesMask ks (behindOwn kind rest) →
      ∀ mask, onlyFirst kind ks rest mask = .error .usage) := by
  constructor
  · rintro ⟨hone, huse⟩
    by_cases hp : .p ∈ ks
    · rw [if_pos hp] at huse
      obtain ⟨arg, pid, hargs, hpid⟩ := huse
      refine ⟨fun mask => .change pid mask (listKeys ks ≠ []), ?_, ?_⟩
      · intro mask mask' h
        cases h
        rfl
      · intro mask
        rw [onlyFirst, if_pos hone, hargs, afterMask, if_neg (not_not.mpr hp), if_pos rfl, hpid]
        rfl
    · rw [if_neg hp] at huse
      obtain ⟨arg, args, hargs⟩ := List.exists_cons_of_ne_nil huse
      refine ⟨fun mask => .launch mask (arg :: args), ?_, ?_⟩
      · intro mask mask' h
        cases h
        rfl
      · intro mask
        rw [onlyFirst, if_pos hone, hargs, afterMask, if_pos hp]
  · intro huse mask
    rw [onlyFirst]
    split_ifs with hone
    · cases hargs : behindOwn kind rest with
      | nil => rfl
      | cons arg args =>
          rw [afterMask]
          by_cases hp : .p ∈ ks
          · rw [if_neg (not_not.mpr hp)]
            split_ifs with hnil
            · cases hpid : pidArgument arg with
              | none => rfl
              | some pid =>
                  refine absurd ⟨hone, ?_⟩ huse
                  rw [if_pos hp, hargs, hnil]
                  exact ⟨arg, pid, rfl, hpid⟩
            · rfl
          · refine absurd ⟨hone, ?_⟩ huse
            rw [if_neg hp, hargs]
            exact List.cons_ne_nil arg args
    · rfl

theorem usage_or_help {word : List Char} {e : Exit} (h : endsAt kind word = some e) :
    e = .usage ∨ e = .help := by
  rw [endsAt] at h
  split at h
  · cases h
    exact .inl rfl
  · cases h
    exact .inr rfl
  · cases h

theorem listMask_ne {e : Exit} (he : e = .usage ∨ e = .help) (key : Key) (arg : List Char) :
    listMask gpu key arg ≠ .error e := by
  unfold listMask listArgument
  split
  · intro h
    rcases he with rfl | rfl <;> cases h
  · rename_i x _
    intro h
    rcases he with rfl | rfl <;> cases hlist : parseList x arg <;> rw [hlist] at h <;> cases h

theorem firstMask_nil_bind (gpu : Gpu) (arg : List Char) :
    ((firstMask gpu arg []).bind fun _ => .error .usage) =
      (.error .usage : Except Exit Operation) := by
  rw [firstMask]
  cases maskArgument arg <;> rfl

/-- The first argument has the same outcome as a list and as a number. -/
theorem firstMask_bind_eq_iff {f : BitVec 128 → Except Exit Operation} {used : Prop}
    (hused : used → ∃ operation : BitVec 128 → Operation, Function.Injective operation ∧
      ∀ mask, f mask = .ok (operation mask))
    (hunused : ¬ used → ∀ mask, f mask = .error .usage) (key : Key) (arg : List Char) :
    (firstMask gpu arg [key]).bind f = (firstMask gpu arg []).bind f ↔
      ∃ mask, listMask gpu key arg = .ok mask ∧ (used → maskArgument arg = some mask) := by
  have hne : listMask gpu key arg ≠ .error .usage := listMask_ne (.inl rfl) key arg
  by_cases huse : used
  · obtain ⟨operation, hinj, hoperation⟩ := hused huse
    have hf : f = fun mask => .ok (operation mask) := funext hoperation
    rw [hf, firstMask, firstMask]
    cases hlist : listMask gpu key arg with
    | error e =>
        rw [hlist] at hne
        refine iff_of_false ?_ ?_
        · cases maskArgument arg with
          | none =>
              intro h
              cases h
              exact hne rfl
          | some mask => exact fun h => by cases h
        · rintro ⟨mask, h, -⟩
          cases h
    | ok mask =>
        cases hhex : maskArgument arg with
        | none =>
            refine iff_of_false (fun h => by cases h) ?_
            rintro ⟨mask', -, h⟩
            cases h huse
        | some mask' =>
            constructor
            · intro h
              have hmask : operation mask = operation mask' := Except.ok.inj h
              exact ⟨mask, rfl, fun _ => by rw [hinj hmask]⟩
            · rintro ⟨mask'', h, h'⟩
              cases h
              cases h' huse
              rfl
  · have hf : f = fun _ => .error .usage := funext (hunused huse)
    rw [hf, firstMask_nil_bind, firstMask]
    cases hlist : listMask gpu key arg with
    | error e =>
        rw [hlist] at hne
        refine iff_of_false ?_ ?_
        · intro h
          cases h
          exact hne rfl
        · rintro ⟨mask, h, -⟩
          cases h
    | ok mask => exact iff_of_true rfl ⟨mask, rfl, fun h => absurd h huse⟩

/-- A list has to be valid even when its mask is not used. -/
theorem firstMask_bind_usage_iff (key : Key) (arg : List Char) :
    ((firstMask gpu arg [key]).bind fun _ => .error .usage) =
      (.error .usage : Except Exit Operation) ↔ ∃ mask, listMask gpu key arg = .ok mask := by
  have hiff := @firstMask_bind_eq_iff gpu (fun _ => .error .usage) False False.elim
    (fun _ _ => rfl) key arg
  rw [firstMask_nil_bind] at hiff
  exact hiff.trans (exists_congr fun mask => and_iff_left False.elim)

theorem firstMask_bind_error_iff {e : Exit} (he : e = .usage ∨ e = .help) (key : Key)
    (arg : List Char) :
    ((firstMask gpu arg [key]).bind fun _ => .error e) =
      ((firstMask gpu arg []).bind fun _ => .error e : Except Exit Operation) ↔
        ∃ mask, listMask gpu key arg = .ok mask ∧ (e ≠ .usage → maskArgument arg ≠ none) := by
  have husage : listMask gpu key arg ≠ .error .usage := listMask_ne (.inl rfl) key arg
  have hne : listMask gpu key arg ≠ .error e := listMask_ne he key arg
  rw [firstMask, firstMask]
  cases hlist : listMask gpu key arg with
  | error x =>
      rw [hlist] at husage hne
      refine iff_of_false ?_ ?_
      · cases maskArgument arg with
        | none =>
            intro h
            cases h
            exact husage rfl
        | some mask =>
            intro h
            cases h
            exact hne rfl
      · rintro ⟨mask, h, -⟩
        cases h
  | ok mask =>
      cases maskArgument arg with
      | none =>
          constructor
          · intro h
            cases h
            exact ⟨mask, rfl, fun hself => absurd rfl hself⟩
          · rintro ⟨-, -, h⟩
            by_cases heq : e = .usage
            · rw [heq]
              rfl
            · exact absurd rfl (h heq)
      | some mask' => exact iff_of_true rfl ⟨mask, rfl, fun _ => Option.some_ne_none mask'⟩

/-! ## Arrangements -/

/-- The options among words. -/
def optionsIn (kind : List Char → WordKind) (ws : List (List Char)) : List (List Char) :=
  ws.filter fun word => !(optionKey kind word).isNone

theorem others_optionsIn (ws : List (List Char)) : others kind (optionsIn kind ws) = [] := by
  rw [others, optionsIn, List.filter_filter]
  simp

theorem quiet_optionsIn (ws : List (List Char)) : Quiet kind (optionsIn kind ws) := by
  apply quiet_of_others
  rw [others_optionsIn]
  exact quiet_nil

theorem others_idem (ws : List (List Char)) :
    others kind (others kind ws) = others kind ws := by
  rw [others, others, List.filter_filter]
  simp

theorem keys_others (ws : List (List Char)) : keys kind (others kind ws) = [] := by
  rw [keys, List.filterMap_eq_nil_iff]
  intro word hword
  exact Option.isNone_iff_eq_none.mp (List.mem_filter.mp hword).2

theorem others_nil_of_perm {ws ws' : List (List Char)} (h : ws.Perm ws')
    (hws : others kind ws' = []) : others kind ws = [] :=
  List.perm_nil.mp (hws ▸ h.filter _)

theorem moved_of_perm {own : List (List Char)} (front back : List (List Char))
    (h : (front ++ back).Perm (optionsIn kind own)) :
    Moved kind own (front ++ (others kind own ++ back)) := by
  have hnone := others_nil_of_perm h (others_optionsIn own)
  rw [others_append, List.append_eq_nil_iff] at hnone
  constructor
  · have hback : (front ++ (others kind own ++ back)).Perm (front ++ back ++ others kind own) := by
      rw [List.append_assoc]
      exact List.perm_append_comm.append_left front
    have hall : (optionsIn kind own ++ others kind own).Perm own :=
      List.perm_append_comm.trans (List.filter_append_perm _ own)
    exact hback.trans ((h.append_right _).trans hall)
  · rw [others_append, others_append, hnone.1, hnone.2, others_idem, List.append_nil]
    rfl

theorem keys_optionsIn (ws : List (List Char)) :
    (keys kind (optionsIn kind ws)).Perm (keys kind ws) := by
  have hall : (others kind ws ++ optionsIn kind ws).Perm ws := List.filter_append_perm _ ws
  have hkeys : (keys kind (others kind ws ++ optionsIn kind ws)).Perm (keys kind ws) :=
    keys_perm hall
  rwa [keys_append, keys_others, List.nil_append] at hkeys

/-- What is before and behind a word at which the program does not just go on. -/
theorem exists_before {ws after : List (List Char)} {word : List Char}
    (h : ws.dropWhile (passes kind) = word :: after) (hkeys : keys kind ws = []) :
    ∃ before, ws = before ++ word :: after ∧ Quiet kind before ∧ keys kind before = [] ∧
      keys kind after = [] := by
  have hall : ws = ws.takeWhile (passes kind) ++ word :: after := by
    rw [← h, List.takeWhile_append_dropWhile]
  have hnone := hkeys
  rw [hall, keys_append, List.append_eq_nil_iff,
    keys_cons_other (not_option_of_not_passes (not_passes_of_dropWhile h))] at hnone
  exact ⟨_, hall, fun _ hword => List.mem_takeWhile_imp hword, hnone.1, hnone.2⟩

/-- The options may be divided among the front and the back of all other words. -/
theorem exists_moved {own after : List (List Char)} {word : List Char}
    (h : (others kind own).dropWhile (passes kind) = word :: after) :
    ∃ before, Quiet kind before ∧ keys kind before = [] ∧ keys kind after = [] ∧
      ∀ front back, (front ++ back).Perm (optionsIn kind own) →
        Quiet kind (front ++ before) ∧ keys kind (front ++ before) = keys kind front ∧
          Moved kind own (front ++ before ++ word :: (after ++ back)) := by
  obtain ⟨before, hall, hquiet, hbefore, hafter⟩ := exists_before h (keys_others own)
  refine ⟨before, hquiet, hbefore, hafter, fun front back hperm => ⟨?_, ?_, ?_⟩⟩
  · refine Quiet.append (fun word hword => ?_) hquiet
    exact quiet_optionsIn own word (hperm.subset (List.mem_append_left back hword))
  · rw [keys_append, hbefore, List.append_nil]
  · have hmoved := moved_of_perm front back hperm
    rw [hall] at hmoved
    simpa only [List.append_assoc, List.cons_append] using hmoved

theorem exists_option_first {own : List (List Char)} {key : Key}
    (h : key ∈ listKeys (keys kind own)) :
    ∃ word back, keys kind [word] = [key] ∧ key ≠ .p ∧
      (word :: back).Perm (optionsIn kind own) := by
  obtain ⟨hkey, hlist⟩ := List.mem_filter.mp h
  obtain ⟨word, hword, hsome⟩ := List.mem_filterMap.mp hkey
  have hmem : word ∈ optionsIn kind own :=
    List.mem_filter.mpr ⟨hword, by rw [hsome]; rfl⟩
  refine ⟨word, (optionsIn kind own).erase word, ?_, of_decide_eq_true hlist,
    (List.perm_cons_erase hmem).symm⟩
  rw [keys_cons_option (optionKey_eq_some.mp hsome)]
  rfl

/-- The outcome is the same for all arrangements of the own words. -/
def Agree (kind : List Char → WordKind) (gpu : Gpu) (own rest : List (List Char)) : Prop :=
  ∀ own', Moved kind own own' →
    nvtaskset kind gpu (own' ++ rest) = nvtaskset kind gpu (own ++ rest)

theorem Agree.of_outcome {own rest : List (List Char)} (outcome : Except Exit Operation)
    (h : ∀ own', Moved kind own own' → nvtaskset kind gpu (own' ++ rest) = outcome) :
    Agree kind gpu own rest := by
  intro own' hmoved
  rw [h own' hmoved, h own ⟨List.Perm.refl own, rfl⟩]

theorem Agree.eq {own rest own₁ own₂ : List (List Char)} (h : Agree kind gpu own rest)
    (h₁ : Moved kind own own₁) (h₂ : Moved kind own own₂) :
    nvtaskset kind gpu (own₁ ++ rest) = nvtaskset kind gpu (own₂ ++ rest) :=
  (h own₁ h₁).trans (h own₂ h₂).symm

theorem others_cons {word : List Char} (h : ∀ key, kind word ≠ .option key)
    (ws : List (List Char)) : others kind (word :: ws) = word :: others kind ws :=
  List.filter_cons_of_pos (by rw [optionKey_eq_none.mpr h]; rfl)

/-- What stands behind the first word at which the program does not just go on. -/
theorem Moved.behind {own after options ws : List (List Char)} {word : List Char}
    (hmoved : Moved kind own (options ++ word :: ws))
    (h : (others kind own).dropWhile (passes kind) = word :: after)
    (hoptions : Quiet kind options) :
    others kind ws = after ∧ (keys kind options ++ keys kind ws).Perm (keys kind own) := by
  have hstops := not_passes_of_dropWhile h
  have hnot := not_option_of_not_passes hstops
  constructor
  · have hothers := congrArg (List.dropWhile (passes kind)) hmoved.2
    rw [h, others_append, others_cons hnot, List.dropWhile_append_of_pos hoptions.others,
      List.dropWhile_cons_of_neg (ne_true_of_eq_false hstops)] at hothers
    exact List.tail_eq_of_cons_eq hothers
  · have hkeys : (keys kind (options ++ word :: ws)).Perm (keys kind own) := keys_perm hmoved.1
    rwa [keys_append, keys_cons_other hnot] at hkeys

/-- Not more options about lists stand before some word than there are. -/
theorem length_listKeys_le {ks ks' all : List Key} (h : (ks ++ ks').Perm all) :
    (listKeys ks).length ≤ (listKeys all).length := by
  rw [← (listKeys_perm h).length_eq, listKeys_append, List.length_append]
  exact Nat.le_add_right _ _

/-- Without arguments only the number of options about lists matters. -/
theorem agree_of_options {own : List (List Char)}
    (h : (others kind own).dropWhile (passes kind) = []) (rest : List (List Char)) :
    Agree kind gpu own rest := by
  apply Agree.of_outcome (if (listKeys (keys kind own)).length ≤ 1 then
    proceed kind gpu false (.after (keys kind own) 0) 0 rest else .error .usage)
  intro own' hmoved
  have hkeys : (keys kind own').Perm (keys kind own) := keys_perm hmoved.1
  have hquiet : Quiet kind own' := by
    apply quiet_of_dropWhile_nil
    rw [hmoved.2, h]
  rw [nvtaskset_options hquiet, (listKeys_perm hkeys).length_eq, Parser.after_congr hkeys]

theorem agree_iff_of_ends {own after rest : List (List Char)} {word : List Char} {e : Exit}
    (h : (others kind own).dropWhile (passes kind) = word :: after)
    (hword : endsAt kind word = some e) :
    Agree kind gpu own rest ↔ (e ≠ .usage → (listKeys (keys kind own)).length ≤ 1) := by
  have houtcome {options ws : List (List Char)} (hoptions : Quiet kind options) :
      nvtaskset kind gpu (options ++ word :: ws ++ rest) =
        if (listKeys (keys kind options)).length ≤ 1 then .error e else .error .usage := by
    rw [List.append_assoc, List.cons_append, nvtaskset_options hoptions, proceed_endsAt hword]
  constructor
  · intro hagree hne
    by_contra hmany
    obtain ⟨before, hquiet, hbefore, -, hmoved⟩ := exists_moved h
    obtain ⟨hfrontQuiet, hfrontKeys, hfront⟩ :=
      hmoved (optionsIn kind own) [] (by rw [List.append_nil])
    obtain ⟨hbackQuiet, hbackKeys, hback⟩ := hmoved [] (optionsIn kind own) (List.Perm.refl _)
    have hempty : listKeys (keys kind ([] ++ before)) = [] := by
      rw [hbackKeys]
      rfl
    have hsame := hagree.eq hfront hback
    rw [houtcome hfrontQuiet, houtcome hbackQuiet, hfrontKeys, hempty,
      (listKeys_perm (keys_optionsIn own)).length_eq, if_neg hmany, List.length_nil,
      if_pos (Nat.zero_le 1)] at hsame
    cases hsame
    exact hne rfl
  · intro hone
    apply Agree.of_outcome (.error e)
    intro own' hmoved
    obtain ⟨options, ws, rfl, hoptions, -⟩ := exists_split (by rw [hmoved.2, h])
    obtain ⟨-, hkeys⟩ := hmoved.behind h hoptions
    rw [houtcome hoptions]
    by_cases heq : e = .usage
    · rw [heq, ite_self]
    · rw [if_pos ((length_listKeys_le hkeys).trans (hone heq))]

/-- The first argument is read as a mask wherever the options stand, and the rest of the
program does not depend on where they do. -/
theorem agree_iff_of_reads {own after rest : List (List Char)} {arg : List Char}
    (h : (others kind own).dropWhile (passes kind) = arg :: after)
    (harg : kind arg = .argument) {f : BitVec 128 → Except Exit Operation}
    (hreads : ∀ options ws, Moved kind own (options ++ arg :: ws) →
      Quiet kind options → (listKeys (keys kind options)).length ≤ 1 →
      ws ++ rest ≠ [] ∧ ∀ mask,
        proceed kind gpu false (.after (keys kind options) mask) 1 (ws ++ rest) = f mask)
    (hmany : 2 ≤ (listKeys (keys kind own)).length → ∀ mask, f mask = .error .usage) :
    Agree kind gpu own rest ↔ ∀ key ∈ listKeys (keys kind own),
      (firstMask gpu arg [key]).bind f = (firstMask gpu arg []).bind f := by
  have hread (options ws : List (List Char)) (hmoved : Moved kind own (options ++ arg :: ws))
      (hoptions : Quiet kind options)
      (hone : (listKeys (keys kind options)).length ≤ 1) :
      nvtaskset kind gpu (options ++ arg :: ws ++ rest) =
        (firstMask gpu arg (listKeys (keys kind options))).bind f := by
    obtain ⟨hne, hf⟩ := hreads options ws hmoved hoptions hone
    rw [List.append_assoc, List.cons_append, nvtaskset_first hoptions harg hne fun _ => hf,
      if_pos hone]
  constructor
  · intro hagree key hkey
    obtain ⟨word, back, hword, hnotp, hperm⟩ := exists_option_first hkey
    obtain ⟨before, -, -, -, hmoved⟩ := exists_moved h
    obtain ⟨hfrontQuiet, hfrontKeys, hfront⟩ := hmoved [word] back hperm
    obtain ⟨hbackQuiet, hbackKeys, hback⟩ := hmoved [] (optionsIn kind own) (List.Perm.refl _)
    have hkeys : listKeys (keys kind ([word] ++ before)) = [key] := by
      rw [hfrontKeys, hword]
      exact listKeys_cons hnotp []
    have hnone : listKeys (keys kind ([] ++ before)) = [] := by
      rw [hbackKeys]
      rfl
    have hsame := hagree.eq hfront hback
    rw [hread _ _ hfront hfrontQuiet (by rw [hkeys]; exact le_refl 1),
      hread _ _ hback hbackQuiet (by rw [hnone]; exact Nat.zero_le 1), hkeys, hnone] at hsame
    exact hsame
  · intro hkeys
    apply Agree.of_outcome ((firstMask gpu arg []).bind f)
    intro own' hmoved
    obtain ⟨options, ws, rfl, hoptions, -⟩ := exists_split (by rw [hmoved.2, h])
    obtain ⟨-, hall⟩ := hmoved.behind h hoptions
    by_cases hone : (listKeys (keys kind options)).length ≤ 1
    · rw [hread options ws hmoved hoptions hone]
      cases hlist : listKeys (keys kind options) with
      | nil => rfl
      | cons key more =>
          have hnil : more = [] := by
            rw [hlist, List.length_cons] at hone
            exact List.length_eq_zero_iff.mp (by omega)
          rw [hnil]
          apply hkeys
          apply (listKeys_perm hall).subset
          rw [listKeys_append, hlist]
          exact List.mem_append_left _ List.mem_cons_self
    · have hlength := length_listKeys_le hall
      have husage := funext (hmany (by omega))
      rw [List.append_assoc, nvtaskset_options hoptions, if_neg hone, husage,
        firstMask_nil_bind]

/-- There is something behind the first argument, but no other argument of nvtaskset. -/
theorem agree_iff_of_rest {own after rest : List (List Char)} {arg : List Char}
    (h : (others kind own).dropWhile (passes kind) = arg :: after)
    (hafter : Quiet kind after) (harg : kind arg = .argument)
    (hisRest : IsRest kind (keys kind own) rest) (hbehind : ¬ (after = [] ∧ rest = [])) :
    Agree kind gpu own rest ↔ FirstArgument kind gpu (keys kind own) arg after rest := by
  rw [FirstArgument, if_neg hbehind,
    @agree_iff_of_reads kind gpu own after rest arg h harg (onlyFirst kind (keys kind own) rest)]
  · obtain ⟨hused, hunused⟩ := @onlyFirst_spec kind (keys kind own) rest
    exact forall₂_congr fun key _ => firstMask_bind_eq_iff hused hunused key arg
  · intro options ws hmoved hoptions hone
    obtain ⟨hws, hkeys⟩ := hmoved.behind h hoptions
    have hquiet : Quiet kind ws := by
      apply quiet_of_others
      rw [hws]
      exact hafter
    refine ⟨?_, proceed_onlyFirst hquiet hone hkeys hisRest⟩
    intro hnil
    obtain ⟨rfl, hrest⟩ := List.append_eq_nil_iff.mp hnil
    exact hbehind ⟨hws.symm, hrest⟩
  · intro hmany mask
    rw [onlyFirst, if_neg (by omega)]

theorem agree_usage_of_front {own after rest : List (List Char)} {word : List Char}
    (h : (others kind own).dropWhile (passes kind) = word :: after)
    (hagree : Agree kind gpu own rest) (hmany : ¬ (listKeys (keys kind own)).length ≤ 1)
    {own' : List (List Char)} (hmoved : Moved kind own own') :
    nvtaskset kind gpu (own' ++ rest) = .error .usage := by
  obtain ⟨before, -, -, -, hmovedFront⟩ := exists_moved h
  obtain ⟨hquiet, hkeys, hfront⟩ := hmovedFront (optionsIn kind own) [] (by rw [List.append_nil])
  rw [hagree.eq hmoved hfront, List.append_assoc, nvtaskset_options hquiet, hkeys,
    (listKeys_perm (keys_optionsIn own)).length_eq, if_neg hmany]

theorem agree_iff_of_ends_behind {own after more rest : List (List Char)}
    {arg next : List Char} {e : Exit}
    (h : (others kind own).dropWhile (passes kind) = arg :: after)
    (harg : kind arg = .argument) (hafter : after.dropWhile (passes kind) = next :: more)
    (hnext : endsAt kind next = some e) :
    Agree kind gpu own rest ↔ ∀ key ∈ listKeys (keys kind own),
      ∃ mask, listMask gpu key arg = .ok mask ∧
        (e ≠ .usage → (listKeys (keys kind own)).length ≤ 1 ∧ maskArgument arg ≠ none) := by
  have he := usage_or_help hnext
  by_cases hmany : e ≠ .usage ∧ ¬ (listKeys (keys kind own)).length ≤ 1
  · have hne : listKeys (keys kind own) ≠ [] := by
      intro hnil
      rw [hnil] at hmany
      exact hmany.2 (Nat.zero_le 1)
    obtain ⟨key, hkey⟩ := List.exists_mem_of_ne_nil _ hne
    refine iff_of_false ?_ ?_
    · -- With one option in front, the program ends with something else.
      intro hagree
      obtain ⟨word, back, hword, hnotp, hperm⟩ := exists_option_first hkey
      obtain ⟨before, -, -, hnone, hmoved⟩ := exists_moved h
      obtain ⟨hquiet, hfrontKeys, hfront⟩ := hmoved [word] back hperm
      obtain ⟨between, hbetween, hbetweenQuiet, hbetweenKeys, -⟩ := exists_before hafter hnone
      have hkeys : listKeys (keys kind ([word] ++ before)) = [key] := by
        rw [hfrontKeys, hword]
        exact listKeys_cons hnotp []
      have hone : (listKeys (keys kind ([word] ++ before))).length ≤ 1 := by
        rw [hkeys]
        exact le_refl 1
      have husage := agree_usage_of_front h hagree hmany.2 hfront
      have hend : nvtaskset kind gpu ([word] ++ before ++ arg :: (after ++ back) ++ rest) =
          (firstMask gpu arg [key]).bind fun _ => .error e := by
        rw [List.append_assoc, List.cons_append (a := arg), nvtaskset_first hquiet harg
          (f := fun _ => .error e), if_pos hone, hkeys]
        · rw [hbetween]
          simp
        · intro _ mask
          rw [hbetween, List.append_assoc, List.append_assoc, proceed_after hbetweenQuiet hone,
            hbetweenKeys, List.append_nil, if_pos hone, List.cons_append (a := next),
            proceed_endsAt hnext]
      rw [hend, firstMask] at husage
      have hlist : listMask gpu key arg ≠ .error .usage := listMask_ne (.inl rfl) key arg
      cases hread : listMask gpu key arg with
      | error x =>
          rw [hread] at husage hlist
          cases husage
          exact hlist rfl
      | ok mask =>
          rw [hread] at husage
          cases husage
          exact hmany.1 rfl
    · intro hall
      obtain ⟨mask, -, hone⟩ := hall key hkey
      exact hmany.2 (hone hmany.1).1
  · have hfew (hne : e ≠ .usage) : (listKeys (keys kind own)).length ≤ 1 := by
      by_contra hlong
      exact hmany ⟨hne, hlong⟩
    rw [@agree_iff_of_reads kind gpu own after rest arg h harg fun _ => .error e]
    · refine forall₂_congr fun key _ => (firstMask_bind_error_iff he key arg).trans ?_
      exact exists_congr fun mask => and_congr_right fun _ =>
        forall_congr' fun hne => (and_iff_right (hfew hne)).symm
    · intro options ws hmoved hoptions hone
      obtain ⟨hws, hkeys⟩ := hmoved.behind h hoptions
      obtain ⟨options', ws', rfl, hoptions', -⟩ := exists_split (by rw [hws, hafter])
      refine ⟨by simp, fun mask => ?_⟩
      rw [List.append_assoc, List.cons_append, proceed_after hoptions' hone,
        proceed_endsAt hnext]
      by_cases heq : e = .usage
      · rw [heq, ite_self]
      · rw [keys_append, ← List.append_assoc] at hkeys
        rw [if_pos ((length_listKeys_le hkeys).trans (hfew heq))]
    · intro hlong mask
      have heq : e = .usage := by
        by_contra hne
        exact absurd (hfew hne) (by omega)
      rw [heq]

theorem nvtaskset_ne_launch {options : List (List Char)} (h : Quiet kind options)
    (hp : .p ∈ keys kind options) (ws : List (List Char)) (mask : BitVec 128)
    (argv : List (List Char)) :
    nvtaskset kind gpu (options ++ ws) ≠ .ok (.launch mask argv) := by
  rw [nvtaskset_options h]
  split_ifs
  · apply proceed_ne_launch
    simp [Parser.after, hp]
  · exact fun h => by cases h

/-- The second argument is a PID, or the sub-command if no `-p` is before it. -/
theorem agree_iff_of_second {own after more rest : List (List Char)} {arg next : List Char}
    (h : (others kind own).dropWhile (passes kind) = arg :: after)
    (harg : kind arg = .argument) (hafter : after.dropWhile (passes kind) = next :: more)
    (hnext : kind next = .argument) (hp : .p ∈ keys kind own) :
    Agree kind gpu own rest ↔ listKeys (keys kind own) = [] ∧ maskArgument arg = none := by
  obtain ⟨before, -, -, hnone, hmoved⟩ := exists_moved h
  obtain ⟨between, hbetween, hbetweenQuiet, hbetweenKeys, -⟩ := exists_before hafter hnone
  have hlaunch (front back : List (List Char)) (hfront : Quiet kind front)
      (hone : (listKeys (keys kind front)).length ≤ 1) (hnop : .p ∉ keys kind front) :
      nvtaskset kind gpu (front ++ arg :: (after ++ back) ++ rest) =
        (firstMask gpu arg (listKeys (keys kind front))).bind fun mask =>
          .ok (.launch mask (next :: (more ++ back ++ rest))) := by
    rw [List.append_assoc, List.cons_append, nvtaskset_first hfront harg
      (f := fun mask => .ok (.launch mask (next :: (more ++ back ++ rest)))), if_pos hone]
    · rw [hbetween]
      simp
    · intro _ mask
      rw [hbetween, List.append_assoc, List.append_assoc, proceed_after hbetweenQuiet hone,
        hbetweenKeys, List.append_nil, if_pos hone, List.cons_append,
        proceed_command (.inr hnext) hnop, List.append_assoc]
  constructor
  · intro hagree
    obtain ⟨hbackQuiet, hbackKeys, hback⟩ := hmoved [] (optionsIn kind own) (List.Perm.refl _)
    obtain ⟨hfrontQuiet, hfrontKeys, hfront⟩ :=
      hmoved (optionsIn kind own) [] (by rw [List.append_nil])
    have hempty : listKeys (keys kind ([] ++ before)) = [] := by
      rw [hbackKeys]
      rfl
    have hend := hlaunch ([] ++ before) (optionsIn kind own) hbackQuiet
      (by rw [hempty]; exact Nat.zero_le 1) (by rw [hbackKeys]; exact List.not_mem_nil)
    rw [hempty] at hend
    have hhex : maskArgument arg = none := by
      rw [Option.eq_none_iff_forall_not_mem]
      intro mask hmask
      have hread : firstMask gpu arg [] = .ok mask := by
        have hnumber : firstMask gpu arg [] = orUsage (maskArgument arg) := rfl
        exact hnumber.trans (by rw [hmask]; rfl)
      have hsame := hagree.eq hfront hback
      rw [hend, hread, List.append_assoc] at hsame
      refine nvtaskset_ne_launch hfrontQuiet ?_ _ mask _ hsame
      rw [hfrontKeys]
      exact (keys_optionsIn own).mem_iff.mpr hp
    refine ⟨?_, hhex⟩
    by_contra hne
    obtain ⟨key, hkey⟩ := List.exists_mem_of_ne_nil _ hne
    obtain ⟨word, back, hword, hnotp, hperm⟩ := exists_option_first hkey
    obtain ⟨hkeyQuiet, hkeyKeys, hkeyFirst⟩ := hmoved [word] back hperm
    have hkeys : listKeys (keys kind ([word] ++ before)) = [key] := by
      rw [hkeyKeys, hword]
      exact listKeys_cons hnotp []
    have hsame := hagree.eq hkeyFirst hback
    rw [hend, hlaunch ([word] ++ before) back hkeyQuiet (by rw [hkeys]; exact le_refl 1)
      (by rw [hkeyKeys, hword, List.mem_singleton]; exact hnotp.symm), hkeys] at hsame
    have husage : (firstMask gpu arg [key]).bind
        (fun mask => .ok (.launch mask (next :: (more ++ back ++ rest)))) =
          (.error .usage : Except Exit Operation) := by
      refine hsame.trans ?_
      have hnumber : firstMask gpu arg [] = orUsage (maskArgument arg) := rfl
      rw [hnumber, hhex]
      rfl
    have hlist : listMask gpu key arg ≠ .error .usage := listMask_ne (.inl rfl) key arg
    rw [firstMask] at husage
    cases hread : listMask gpu key arg with
    | error e =>
        rw [hread] at husage hlist
        cases husage
        exact hlist rfl
    | ok mask =>
        rw [hread] at husage
        cases husage
  · rintro ⟨hlist, hhex⟩
    apply Agree.of_outcome (.error .usage)
    intro own' hmoved
    obtain ⟨options, ws, rfl, hoptions, hws⟩ := exists_split (by rw [hmoved.2, h])
    obtain ⟨-, hkeys⟩ := hmoved.behind h hoptions
    have hnil : listKeys (keys kind options) = [] := by
      have hperm := listKeys_perm hkeys
      rw [hlist, listKeys_append] at hperm
      exact (List.append_eq_nil_iff.mp (List.perm_nil.mp hperm)).1
    have hone : (listKeys (keys kind options)).length ≤ 1 := by
      rw [hnil]
      exact Nat.zero_le 1
    have hne : ws ++ rest ≠ [] := by
      apply List.append_ne_nil_of_left_ne_nil
      rintro rfl
      rw [← hws] at hafter
      cases hafter
    rw [List.append_assoc, List.cons_append, nvtaskset_options hoptions, if_pos hone,
      proceed_first (.inr harg) hone hne, hnil, firstMask, hhex]
    rfl

theorem agree_iff_of_end {own : List (List Char)} {arg : List Char}
    (h : (others kind own).dropWhile (passes kind) = [arg]) (harg : kind arg = .argument) :
    Agree kind gpu own [] ↔ FirstArgument kind gpu (keys kind own) arg [] [] := by
  rw [FirstArgument, if_pos ⟨rfl, rfl⟩]
  have hread (options ws : List (List Char)) (hmoved : Moved kind own (options ++ arg :: ws))
      (hoptions : Quiet kind options)
      (hone : (listKeys (keys kind options)).length ≤ 1) (hne : ws ≠ []) :
      nvtaskset kind gpu (options ++ arg :: ws ++ []) =
        (firstMask gpu arg (listKeys (keys kind options))).bind fun _ => .error .usage := by
    obtain ⟨hws, hkeys⟩ := hmoved.behind h hoptions
    have hquiet : Quiet kind ws := by
      apply quiet_of_others
      rw [hws]
      exact quiet_nil
    rw [List.append_nil, nvtaskset_first hoptions harg hne, if_pos hone]
    intro _ mask
    have hmask := @proceed_onlyFirst kind gpu _ _ _ [] hquiet hone hkeys (.inl rfl) mask
    rw [List.append_nil, onlyFirst] at hmask
    exact hmask.trans (ite_self _)
  constructor
  · intro hagree
    obtain ⟨before, -, -, -, hmoved⟩ := exists_moved h
    obtain ⟨hbackQuiet, hbackKeys, hback⟩ := hmoved [] (optionsIn kind own) (List.Perm.refl _)
    have hempty : listKeys (keys kind ([] ++ before)) = [] := by
      rw [hbackKeys]
      rfl
    have husage (hne : optionsIn kind own ≠ []) (own' : List (List Char))
        (hmoved : Moved kind own own') : nvtaskset kind gpu (own' ++ []) = .error .usage := by
      rw [hagree.eq hmoved hback, hread _ _ hback hbackQuiet
        (by rw [hempty]; exact Nat.zero_le 1) (by simpa using hne), hempty]
      exact firstMask_nil_bind gpu arg
    have hne (hkeys : keys kind own ≠ []) : optionsIn kind own ≠ [] := by
      intro hnil
      have hperm := @keys_optionsIn kind own
      rw [hnil] at hperm
      exact hkeys (List.nil_perm.mp hperm)
    constructor
    · intro hp hone
      obtain ⟨hfrontQuiet, hfrontKeys, hfront⟩ :=
        hmoved (optionsIn kind own) [] (by rw [List.append_nil])
      have hlast := husage (hne (List.ne_nil_of_mem hp)) _ hfront
      have hperm := @keys_optionsIn kind own
      rw [List.append_nil, nvtaskset_options hfrontQuiet, hfrontKeys,
        if_pos ((listKeys_perm hperm).length_eq.trans_le hone), List.append_nil,
        proceed_last harg, if_pos (hperm.mem_iff.mpr hp)] at hlast
      cases hpid : pidArgument arg with
      | none => rfl
      | some pid =>
          rw [hpid] at hlast
          cases hlast
    · intro hmany key hkey
      obtain ⟨word, back, hword, hnotp, hperm⟩ := exists_option_first hkey
      obtain ⟨hfrontQuiet, hfrontKeys, hfront⟩ := hmoved [word] back hperm
      have hkeys : listKeys (keys kind ([word] ++ before)) = [key] := by
        rw [hfrontKeys, hword]
        exact listKeys_cons hnotp []
      have hbackne : back ≠ [] := by
        rintro rfl
        have hall := (@keys_perm kind _ _ hperm).trans (keys_optionsIn own)
        rw [hword] at hall
        rcases hmany with hp | htwo
        · exact hnotp (List.mem_singleton.mp (hall.symm.subset hp)).symm
        · rw [← (listKeys_perm hall).length_eq, listKeys_cons hnotp] at htwo
          exact absurd htwo (Nat.lt_irrefl 1)
      have hlast := husage (hne (List.ne_nil_of_mem (List.mem_filter.mp hkey).1)) _ hfront
      rw [hread _ _ hfront hfrontQuiet (by rw [hkeys]; exact le_refl 1)
        (by simpa using hbackne), hkeys] at hlast
      exact (firstMask_bind_usage_iff key arg).mp hlast
  · rintro ⟨hpid, hlists⟩
    apply Agree.of_outcome (.error .usage)
    intro own' hmoved
    obtain ⟨options, ws, rfl, hoptions, -⟩ := exists_split (by rw [hmoved.2, h])
    obtain ⟨hws, hkeys⟩ := hmoved.behind h hoptions
    by_cases hone : (listKeys (keys kind options)).length ≤ 1
    · by_cases hne : ws = []
      · rw [hne, keys, keys, List.filterMap_nil, List.append_nil] at hkeys
        rw [hne, List.append_nil, nvtaskset_options hoptions, if_pos hone, proceed_last harg]
        split_ifs with hp
        · rw [hpid (hkeys.subset hp) ((listKeys_perm hkeys).length_eq.symm.trans_le hone)]
          rfl
        · rfl
      · rw [hread options ws hmoved hoptions hone hne]
        cases hlist : listKeys (keys kind options) with
        | nil => exact firstMask_nil_bind gpu arg
        | cons key more =>
            have hnil : more = [] := by
              rw [hlist, List.length_cons] at hone
              exact List.length_eq_zero_iff.mp (by omega)
            have hperm := listKeys_perm hkeys
            rw [listKeys_append, hlist, hnil] at hperm
            rw [hnil, firstMask_bind_usage_iff]
            refine hlists ?_ key (hperm.subset List.mem_cons_self)
            obtain ⟨word, ws', rfl⟩ := List.exists_cons_of_ne_nil hne
            obtain ⟨key', hkey'⟩ := exists_key_of_others_nil hws List.mem_cons_self
            rw [keys_cons_option hkey'] at hkeys hperm
            by_cases hp : key' = .p
            · left
              rw [hp] at hkeys
              exact hkeys.subset (List.mem_append_right _ List.mem_cons_self)
            · right
              rw [← hperm.length_eq, listKeys_cons hp, List.length_append, List.length_cons,
                List.length_cons]
              omega
    · rw [List.append_assoc, nvtaskset_options hoptions, if_neg hone]

/-- What a word is that stops the program among its own words. -/
theorem argument_or_ends {own rest : List (List Char)} {isCmd : Bool} {argNum : ℕ}
    (h : IsSplit kind isCmd argNum own rest) {word : List Char}
    (hword : word ∈ others kind own) (hstops : passes kind word = false) :
    kind word = .argument ∧ endsAt kind word = none ∨ ∃ e, endsAt kind word = some e := by
  have hmem := (List.mem_filter.mp hword).1
  cases hkind : kind word with
  | option key => exact absurd hkind (not_option_of_not_passes hstops key)
  | argument =>
      left
      exact ⟨rfl, by rw [endsAt, hkind]⟩
  | endOfOptions => exact absurd hkind (h.isWord word hmem)
  | foreign own =>
      cases own with
      | goesOn =>
          rw [passes, hkind] at hstops
          cases hstops
      | usage => exact .inr ⟨.usage, by rw [endsAt, hkind]⟩
      | help => exact .inr ⟨.help, by rw [endsAt, hkind]⟩

theorem p_mem_of_two {own rest after more : List (List Char)} {arg next : List Char}
    (hsplit : IsSplit kind true 0 own rest)
    (h : (others kind own).dropWhile (passes kind) = arg :: after)
    (hafter : after.dropWhile (passes kind) = next :: more)
    (harg : kind arg = .argument) (hnext : kind next = .argument) : .p ∈ keys kind own := by
  by_contra hp
  have hle := hsplit.atMostOne rfl (Nat.zero_le 1) hp
  have hsub : (next :: more).Sublist after := hafter ▸ List.dropWhile_sublist _
  have hall : (arg :: after).Sublist own :=
    (h ▸ List.dropWhile_sublist _ : (arg :: after).Sublist (others kind own)).trans
      List.filter_sublist
  have htwo : [arg, next].Sublist own :=
    ((((List.nil_sublist more).cons_cons next).trans hsub).cons_cons arg).trans hall
  have hlength := (htwo.filter fun word => kind word = .argument).length_le
  simp only [List.filter_cons, harg, hnext, decide_true, if_true, List.filter_nil,
    List.length_cons, List.length_nil] at hlength
  rw [argumentsIn] at hle
  omega

/-- The order of the options is immaterial under the condition, and only then. -/
theorem orderImmaterial_iff (kind : List Char → WordKind) (gpu : Gpu)
    (argv : List (List Char)) :
    OrderImmaterial kind gpu argv ↔
      OrderCondition kind gpu (keys kind (splitOwn kind true 0 argv).1)
        (others kind (splitOwn kind true 0 argv).1) (splitOwn kind true 0 argv).2 := by
  have hsplit := @isSplit_splitOwn kind true 0 argv
  have hargv := @splitOwn_append kind true 0 argv
  have hagree : OrderImmaterial kind gpu argv ↔
      Agree kind gpu (splitOwn kind true 0 argv).1 (splitOwn kind true 0 argv).2 := by
    rw [Agree, hargv]
    rfl
  rw [hagree]
  generalize (splitOwn kind true 0 argv).1 = own at hsplit
  generalize (splitOwn kind true 0 argv).2 = rest at hsplit
  rw [OrderCondition]
  cases hothers : (others kind own).dropWhile (passes kind) with
  | nil => exact iff_of_true (agree_of_options hothers rest) trivial
  | cons arg after =>
      have hsub : ∀ word ∈ arg :: after, word ∈ others kind own := by
        rw [← hothers]
        exact (List.dropWhile_sublist _).subset
      rcases argument_or_ends hsplit (hsub arg List.mem_cons_self)
        (not_passes_of_dropWhile hothers) with ⟨harg, hnone⟩ | ⟨e, he⟩
      · simp only [hnone]
        cases hafter : after.dropWhile (passes kind) with
        | nil =>
            by_cases hbehind : after = [] ∧ rest = []
            · obtain ⟨rfl, rfl⟩ := hbehind
              exact agree_iff_of_end hothers harg
            · exact agree_iff_of_rest hothers (List.dropWhile_eq_nil_iff.mp hafter) harg
                (hsplit.isRest rfl) hbehind
        | cons next more =>
            have hnextMem : next ∈ others kind own := by
              apply hsub next (List.mem_cons_of_mem arg _)
              apply (List.dropWhile_sublist (passes kind)).subset
              rw [hafter]
              exact List.mem_cons_self
            rcases argument_or_ends hsplit hnextMem (not_passes_of_dropWhile hafter)
              with ⟨hnext, hnextNone⟩ | ⟨e, he⟩
            · simp only [hnextNone]
              exact agree_iff_of_second hothers harg hafter hnext
                (p_mem_of_two hsplit hothers hafter harg hnext)
            · simp only [he]
              exact agree_iff_of_ends_behind hothers harg hafter he
      · simp only [he]
        exact agree_iff_of_ends hothers he

/-- Two TPCs for the lists below. -/
def twoTpcs : Gpu := ⟨⟨2, none⟩, none⟩

/-- `-p 1` queries a process, and `1 -p` is a mistake; `-p 1 2` changes the mask of a
process, and `1 2 -p` launches `2`; `-t 1 2` launches it with another mask than `1 -t 2`. -/
theorem not_orderImmaterial :
    nvtaskset optsKind twoTpcs ["-p".toList, "1".toList] = .ok (.query 1 false false) ∧
      nvtaskset optsKind twoTpcs ["1".toList, "-p".toList] = .error .usage ∧
      nvtaskset optsKind twoTpcs ["-p".toList, "1".toList, "2".toList] =
        .ok (.change 2 1 false) ∧
      nvtaskset optsKind twoTpcs ["1".toList, "2".toList, "-p".toList] =
        .ok (.launch 1 ["2".toList, "-p".toList]) ∧
      nvtaskset optsKind twoTpcs ["-t".toList, "1".toList, "2".toList] =
        .ok (.launch 2 ["2".toList]) ∧
      nvtaskset optsKind twoTpcs ["1".toList, "-t".toList, "2".toList] =
        .ok (.launch 1 ["2".toList]) ∧
      ¬ ∀ argv, OrderImmaterial optsKind twoTpcs argv := by
  refine ⟨by decide, by decide, by decide, by decide,
    by decide, by decide, ?_⟩
  intro h
  have hsame := h ["-p".toList, "1".toList] ["1".toList, "-p".toList]
    ⟨List.Perm.swap _ _ _, by decide⟩
  revert hsame
  decide

end A100Partitioning.Nvtaskset
