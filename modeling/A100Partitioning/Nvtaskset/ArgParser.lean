import A100Partitioning.Nvtaskset.MaskArgument
import A100Partitioning.Nvtaskset.ParseList

/-!
# The arguments of `nvtaskset`

`argp` hands the options and arguments over in the order written.  What
`arg_parser` takes an argument for depends on the options before it and on
whether any word is left behind it.
-/

namespace A100Partitioning.Nvtaskset

open Libsmctrl

/-! ## Words -/

/-- The keys in `opts`. -/
inductive Key where
  | g
  | t
  | p
  deriving DecidableEq, Repr

/-- What `argp` does at an option of its own, or at one that it does not know: it goes on,
prints how the program is used and ends it, or prints what was asked for and ends it. -/
inductive OwnOption where
  | goesOn
  | usage
  | help
  deriving DecidableEq, Repr

/-- What `argp` takes a word for.  A word that bundles several options counts as several
words, and an option of `argp` with its separate value as one. -/
inductive WordKind where
  | option (key : Key)
  | argument
  | endOfOptions
  | foreign (own : OwnOption)
  deriving DecidableEq, Repr

/-- What the words of `opts` and of `argp` are, unless a long one is abbreviated. -/
def optsKind (word : List Char) : WordKind :=
  if word = "-g".toList ∨ word = "--gpc-list".toList then .option .g
  else if word = "-t".toList ∨ word = "--tpc-list".toList then .option .t
  else if word = "-p".toList ∨ word = "--pid".toList then .option .p
  else if word = "--".toList then .endOfOptions
  else if word ∈ ["-?".toList, "--help".toList, "--usage".toList, "-V".toList,
      "--version".toList] then .foreign .help
  else if "--program-name=".toList.isPrefixOf word ∨ word = "--HANG".toList ∨
      "--HANG=".toList.isPrefixOf word then .foreign .goesOn
  else if word.head? = some '-' ∧ word ≠ ['-'] then .foreign .usage
  else .argument

/-! ## The code -/

/-- `strtoul` for base 10: the result, and the rest from `*end` on. -/
def strtoul (nptr : List Char) : BitVec 64 × List Char :=
  let (negative, cs) := match nptr.dropWhile isSpace with
    | '-' :: cs => (true, cs)
    | '+' :: cs => (false, cs)
    | cs => (false, cs)
  let n := leadingNumber cs
  let rest := cs.dropWhile Char.isDigit
  if cs.takeWhile Char.isDigit = [] then (0, nptr)
  else if 2 ^ 64 ≤ n then (BitVec.allOnes 64, rest)
  else (if negative then -BitVec.ofNat 64 n else BitVec.ofNat 64 n, rest)

/-- `arg_parser` on a PID. -/
def pidArgument (arg : List Char) : Option (BitVec 32) :=
  let (pid, rest) := strtoul arg
  if rest ≠ [] then none else some (pid.setWidth 32)

/-- What the libraries say about the GPU.  Without its GPCs the program ends. -/
structure Gpu where
  tpcs : Xpcs
  gpcs : Option Xpcs

/-- How the program ends without an operation: with a message about its usage, with the
help that was asked for, because of a list, or because it cannot find out about the GPCs. -/
inductive Exit where
  | usage
  | help
  | list (e : Failure)
  | gpcInfo
  deriving DecidableEq, Repr

/-- What the program does at `ARGP_KEY_FINI`. -/
inductive Operation where
  | query (pid : BitVec 32) (isList useGpcs : Bool)
  | change (pid : BitVec 32) (mask : BitVec 128) (isList : Bool)
  | launch (mask : BitVec 128) (argv : List (List Char))
  deriving DecidableEq, Repr

/-- The call of `parse_list`. -/
def listArgument (gpu : Gpu) (useGpcs : Bool) (arg : List Char) :
    Except Exit (BitVec 128) :=
  match if useGpcs then gpu.gpcs else some gpu.tpcs with
  | none => .error .gpcInfo
  | some x => (parseList x arg).mapError .list

/-- The static variables of `arg_parser`. -/
structure Parser where
  isCmd : Bool := true
  isQuery : Bool := false
  isList : Bool := false
  useGpcs : Bool := false
  mask : BitVec 128 := 0
  targetPid : BitVec 32 := 0
  subArgv : List (List Char) := []

/-- `arg_parser` on an option. -/
def Parser.onOption (s : Parser) : Key → Except Exit Parser
  | .g =>
      if s.isList then .error .usage
      else .ok { s with useGpcs := true, isList := true }
  | .t => if s.isList then .error .usage else .ok { s with isList := true }
  | .p => .ok { s with isCmd := false }

/-- `argp_error` where a number did not end with its argument. -/
def orUsage {T : Type} (parsed : Option T) : Except Exit T :=
  parsed.elim (.error .usage) .ok

/-- `arg_parser` on `ARGP_KEY_ARG`, none where it returns `ARGP_ERR_UNKNOWN`.
`remaining` is `state->argc - state->next`. -/
def Parser.onArg (gpu : Gpu) (s : Parser) (argNum remaining : ℕ) (arg : List Char) :
    Except Exit (Option Parser) :=
  if s.isQuery ∨ argNum = 0 ∧ s.isCmd = false ∧ remaining = 0 then
    if argNum = 0 then do
      let pid ← orUsage (pidArgument arg)
      return some { s with isQuery := true, targetPid := pid }
    else .ok none
  else if argNum = 0 ∧ remaining ≠ 0 then do
    let mask ←
      if s.isList then listArgument gpu s.useGpcs arg else orUsage (maskArgument arg)
    return some { s with mask := mask }
  else if argNum = 1 ∧ s.isCmd = false then do
    let pid ← orUsage (pidArgument arg)
    return some { s with targetPid := pid }
  else .ok none

/-- `arg_parser` on `ARGP_KEY_ARGS`, none where it returns `ARGP_ERR_UNKNOWN`. -/
def Parser.onArgs (s : Parser) (argv : List (List Char)) : Option Parser :=
  if s.isCmd = false then none else some { s with subArgv := argv }

/-- `argp_parse` up to the last word, with what it counts as `arg_num`.  It offers an
argument that `ARGP_KEY_ARG` does not take, and all behind it, to `ARGP_KEY_ARGS`; what
that does not take either is too much. -/
def argpParse (kind : List Char → WordKind) (gpu : Gpu) (quoted : Bool) (s : Parser)
    (argNum : ℕ) : List (List Char) → Except Exit (Parser × ℕ)
  | [] => .ok (s, argNum)
  | word :: rest =>
      match if quoted then .argument else kind word with
      | .option key => do
          let s ← s.onOption key
          argpParse kind gpu quoted s argNum rest
      | .foreign .goesOn => argpParse kind gpu quoted s argNum rest
      | .foreign .usage => .error .usage
      | .foreign .help => .error .help
      | .endOfOptions => argpParse kind gpu true s argNum rest
      | .argument => do
          match ← s.onArg gpu argNum rest.length word with
          | some s => argpParse kind gpu quoted s (argNum + 1) rest
          | none =>
              match s.onArgs (word :: rest) with
              | some s => .ok (s, argNum + (word :: rest).length)
              | none => .error .usage

/-- `arg_parser` on `ARGP_KEY_END` and `ARGP_KEY_FINI`. -/
def Parser.finish (s : Parser) (argNum : ℕ) : Except Exit Operation :=
  if argNum < (if s.isQuery then 1 else 2) then .error .usage
  else if s.isQuery then
    if s.useGpcs ∧ s.isList = false then .error .usage
    else .ok (.query s.targetPid s.isList s.useGpcs)
  else if s.isCmd then .ok (.launch s.mask s.subArgv)
  else .ok (.change s.targetPid s.mask s.isList)

/-- `main`, up to the operation. -/
def nvtaskset (kind : List Char → WordKind) (gpu : Gpu) (argv : List (List Char)) :
    Except Exit Operation := do
  let (s, argNum) ← argpParse kind gpu false {} 0 argv
  s.finish argNum

end A100Partitioning.Nvtaskset
