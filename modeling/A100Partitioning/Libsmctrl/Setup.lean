import A100Partitioning.Libsmctrl.Process

/-!
# The supreme mask

The wrapper library takes the supreme mask from the environment when a program
starts.  From then on no launch enables a TPC that it disables, and only
`nvtaskset` changes it.
-/

namespace A100Partitioning.Libsmctrl

open Support

/-! ## The code -/

/-- The value of a hexadecimal digit. -/
def hexValue (c : Char) : Option ℕ :=
  if 'a' ≤ c ∧ c ≤ 'f' then some (c.toNat - 'a'.toNat + 10)
  else if 'A' ≤ c ∧ c ≤ 'F' then some (c.toNat - 'A'.toNat + 10)
  else if '0' ≤ c ∧ c ≤ '9' then some (c.toNat - '0'.toNat)
  else none

/-- The loop of `strtou128`, which goes on until an invalid character. -/
def hexDigits : BitVec 128 → List Char → BitVec 128 × List Char
  | result, [] => (result, [])
  | result, c :: cs =>
      match hexValue c with
      | some digit => hexDigits (result <<< 4 ||| BitVec.ofNat 128 digit) cs
      | none => (result, c :: cs)

/-- `strtou128` for base 16: the result, and the rest from `*endptr` on. -/
def strtou128 (nptr : List Char) : BitVec 128 × List Char :=
  match nptr with
  | '0' :: 'x' :: cs | '0' :: 'X' :: cs => hexDigits 0 cs
  | cs => hexDigits 0 cs

/-- What `setup` finds: the value of `LIBSMCTRL_MASK`, and whether it can set
`CUDA_DEVICE_MAX_CONNECTIONS`. -/
structure Environment where
  mask : Option (List Char)
  setenv : Bool
  deriving DecidableEq, Repr

/-- The part of `setup` that determines the mask. -/
def setupMask (env : Environment) : Except Abort (BitVec 128) :=
  let maskStr := env.mask.getD ['0']
  let (invert, maskStr) := match maskStr with
    | '~' :: cs => (true, cs)
    | cs => (false, cs)
  let (mask, rest) := strtou128 maskStr
  if rest ≠ [] then .error .defaultMask
  else if env.setenv = false then .error .environment
  else .ok (if invert then ~~~ mask else mask)

/-- `setup`: the process that starts, whose streams are yet to be created.  The
supreme mask is the same whether or not it could be put where `nvtaskset` can
write it. -/
def setup {T S : Type} (env : Environment) (streams : S → StreamStruct) :
    Except Abort (Process T S) := do
  let mask ← setupMask env
  return ⟨⟨0, fun _ => 0⟩, streams, some mask⟩

/-! ## Nobody overrides the supreme mask -/

variable {T S : Type} [DecidableEq T] [DecidableEq S]

/-- The event leaves the supreme mask to itself: a call of the library, or a
launch during which `nvtaskset` does not write. -/
def Event.IsLocal : Event T S → Prop
  | .nvtaskset _ => False
  | .launch _ _ _ writes => ∀ k, writes k = none
  | _ => True

theorem readsAmong_of_none {writes : ℕ → Option (BitVec 128)}
    (h : ∀ k, writes k = none) (supreme : BitVec 128) (k : ℕ) :
    readsAmong writes supreme k = supreme := by
  induction k with
  | zero => rw [readsAmong, h 0, Option.getD_none]
  | succ k ih => rw [readsAmong, h (k + 1), Option.getD_none, ih]

/-- A mask read without interference is the supreme mask. -/
theorem readBack_of_none {writes : ℕ → Option (BitVec 128)}
    (h : ∀ k, writes k = none) (supreme : BitVec 128) :
    readBack (some (readsAmong writes supreme)) = supreme := by
  rw [readBack, ← ofWords_word supreme]
  exact ofWords_congr fun k _ => by rw [readsAmong_of_none h, ofWords_word]

theorem Process.supreme_step {d : Driver} {p p' : Process T S} {e : Event T S}
    {tmd : Option Tmd} (hlocal : e.IsLocal) (hstep : p.step d e = .ok (p', tmd)) :
    p'.supreme = p.supreme := by
  cases e with
  | setGlobalMask mask =>
      cases hstep
      rfl
  | setNextMask thread mask =>
      cases hstep
      rfl
  | setStreamMask stream mask =>
      rw [Process.step] at hstep
      cases hset : setStreamMask d (p.streams stream) mask <;> rw [hset] at hstep
      · cases hstep
      · cases hstep
        rfl
  | setStreamMaskExt stream mask =>
      rw [Process.step] at hstep
      cases hset : setStreamMaskExt d (p.streams stream) mask <;>
        rw [hset] at hstep
      · cases hstep
      · cases hstep
        rfl
  | nvtaskset mask => exact hlocal.elim
  | launch thread stream inParams writes =>
      obtain ⟨globals, tmd', -, -, rfl⟩ := exists_callback_of_launch hstep
      cases hsupreme : p.supreme with
      | none => rfl
      | some supreme => simp [readsAmong_of_none hlocal]

theorem or_eq_of_or {w : ℕ} {chosen supreme mask : BitVec w}
    (h : mask = chosen ||| supreme) : supreme ||| mask = mask := by
  rw [h, BitVec.or_comm chosen, ← BitVec.or_assoc, BitVec.or_self]

/-- What the callback uploads contains the supreme mask as the callback has read
it. -/
theorem supreme_or_of_callback {supreme : Option (ℕ → BitVec 128)} {thread : T}
    {g g' : Globals T} {size : BitVec 32} {tmd tmd' : Tmd}
    (h : controlCallbackV2 supreme thread g ⟨size, some tmd⟩ = .ok (g', tmd')) :
    (0x40 ≤ tmd.version.toNat →
      readBack supreme ||| tmd'.mask 128 304 = tmd'.mask 128 304) ∧
    (tmd.version.toNat < 0x40 →
      (readBack supreme).setWidth 64 ||| tmd'.mask 64 84 = tmd'.mask 64 84) := by
  obtain ⟨tmd₀, htmd, -, -, hlower, hupper⟩ := controlCallbackV2_spec h
  cases htmd
  refine ⟨fun hver => ?_, fun hver => ?_⟩
  · have hoff : maskOff tmd.version = 304 := if_pos hver
    rw [hoff] at hlower
    rw [← ofWords_word (readBack supreme), Tmd.mask, ofWords_or]
    refine ofWords_congr fun k hk => ?_
    by_cases hk2 : k < 2
    · rw [hlower k hk2]
      exact or_eq_of_or rfl
    · rw [hupper hver k (by omega)]
      exact BitVec.or_allOnes
  · have hoff : maskOff tmd.version = 84 := if_neg (by omega)
    rw [hoff] at hlower
    rw [← ofWords_word ((readBack supreme).setWidth 64), Tmd.mask, ofWords_or]
    refine ofWords_congr fun k hk => ?_
    have hk : k < 2 := by omega
    rw [word_setWidth _ (by omega), hlower k hk]
    exact or_eq_of_or rfl

/-- There is always a supreme mask in a process that started with one. -/
theorem Run.exists_supreme {d : Driver} {p₀ p : Process T S}
    {events : List (Event T S)} (hrun : Run d p₀ events p)
    (hstart : ∃ supreme, p₀.supreme = some supreme) :
    ∃ supreme, p.supreme = some supreme := by
  induction hrun with
  | start => exact hstart
  | @step events p p' e tmd before copies step ih =>
      obtain ⟨supreme, hsupreme⟩ := ih
      by_cases hlocal : e.IsLocal
      · exact ⟨supreme, (Process.supreme_step hlocal step).trans hsupreme⟩
      · cases e with
        | nvtaskset mask =>
            cases step
            exact ⟨mask, by rw [hsupreme]; rfl⟩
        | launch thread stream inParams writes =>
            obtain ⟨globals, tmd', -, -, rfl⟩ := exists_callback_of_launch step
            exact ⟨_, by rw [hsupreme]; rfl⟩
        | setGlobalMask mask => exact absurd trivial hlocal
        | setNextMask thread mask => exact absurd trivial hlocal
        | setStreamMask stream mask => exact absurd trivial hlocal
        | setStreamMaskExt stream mask => exact absurd trivial hlocal

theorem exists_supreme_of_setup {T S : Type} {env : Environment}
    {streams : S → StreamStruct} {p : Process T S} (h : setup env streams = .ok p) :
    ∃ supreme, p.supreme = some supreme := by
  rw [setup] at h
  cases hmask : setupMask env with
  | error e =>
      rw [hmask] at h
      cases h
  | ok mask =>
      rw [hmask] at h
      cases h
      exact ⟨mask, rfl⟩

/-- In every state of a process that was started with the wrapper, a launch
disables all TPCs that the supreme mask disables, as the callback has read it,
and only `nvtaskset` changes the supreme mask. -/
theorem supreme_respected (env : Environment) (streams : S → StreamStruct)
    (d : Driver) (p₀ p : Process T S) (hsetup : setup env streams = .ok p₀)
    (events : List (Event T S)) (hrun : Run d p₀ events p) :
    (∀ thread stream size tmd writes p' tmd',
      p.step d (.launch thread stream ⟨size, some tmd⟩ writes) =
        .ok (p', some tmd') →
      ∃ supreme, p.supreme = some supreme ∧
        let read := readBack (some (readsAmong writes supreme))
        ((∀ k, writes k = none) → read = supreme) ∧
        (0x40 ≤ tmd.version.toNat →
          read ||| tmd'.mask 128 304 = tmd'.mask 128 304) ∧
        (tmd.version.toNat < 0x40 →
          read.setWidth 64 ||| tmd'.mask 64 84 = tmd'.mask 64 84)) ∧
    ∀ e p' tmd', e.IsLocal → p.step d e = .ok (p', tmd') →
      p'.supreme = p.supreme := by
  refine ⟨fun thread stream size tmd writes p' tmd' hlaunch => ?_,
    fun e p' tmd' hlocal hstep => Process.supreme_step hlocal hstep⟩
  obtain ⟨supreme, hsupreme⟩ := hrun.exists_supreme (exists_supreme_of_setup hsetup)
  obtain ⟨globals, tmd'', hcallback, htmd, -⟩ := exists_callback_of_launch hlaunch
  cases htmd
  rw [hsupreme] at hcallback
  exact ⟨supreme, hsupreme, fun hnone => readBack_of_none hnone supreme,
    supreme_or_of_callback hcallback⟩

/-- Only TPC 0 is enabled for the process; a next mask that disables it leaves no
TPC to the launch. -/
theorem supreme_respected_next :
    ∃ p₀ p p' : Process Unit Unit, ∃ tmd',
      setup ⟨some ['~', '0', 'x', '1'], true⟩ (fun _ _ => 0) = .ok p₀ ∧
      Run ⟨.x86_64, 12080, none⟩ p₀ [.setNextMask () 1] p ∧
      p.step ⟨.x86_64, 12080, none⟩
        (.launch () () ⟨0x28, some fun _ => 0x40⟩ fun _ => none) =
          .ok (p', some tmd') ∧
      ~~~ 1 ||| tmd'.mask 128 304 = tmd'.mask 128 304 ∧
      p'.supreme = p.supreme := by
  have hrun : Run (T := Unit) (S := Unit) ⟨.x86_64, 12080, none⟩
      ⟨⟨0, fun _ => 0⟩, fun _ _ => 0, some (~~~ 1)⟩ [.setNextMask () 1] _ :=
    .step .start trivial rfl
  obtain ⟨hlaunch, hlocal⟩ := supreme_respected
    ⟨some ['~', '0', 'x', '1'], true⟩ (fun _ _ => 0) _ _ _ rfl _ hrun
  obtain ⟨supreme, hsupreme, hread, hcovers, -⟩ :=
    hlaunch () () 0x28 (fun _ => 0x40) (fun _ => none) _ _ rfl
  cases hsupreme
  have hmask := hcovers (by decide)
  rw [hread fun _ => rfl] at hmask
  exact ⟨_, _, _, _, rfl, hrun, rfl, hmask,
    hlocal (.launch () () ⟨0x28, some fun _ => 0x40⟩ fun _ => none) _ _
      (fun _ => rfl) rfl⟩

end A100Partitioning.Libsmctrl
