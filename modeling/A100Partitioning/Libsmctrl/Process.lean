import A100Partitioning.Libsmctrl.Callback

/-!
# Setting masks

A process sets the global mask, its threads' next masks and its streams' masks,
and launches kernels, in any order; `nvtaskset` changes the supreme mask from
outside.  `Run` collects such a history, from which one can read off which masks
were set last.
-/

namespace A100Partitioning.Libsmctrl

open Support

/-! ## Stream masks -/

/-- A CUDA stream struct, as 32-bit words by their byte offset. -/
abbrev StreamStruct := ℕ → BitVec 32

/-- The layouts of the mask in the stream struct, with its offset: up through
CUDA 11.8 `upper` and `lower`, then `enabled` and `mask[4]`. -/
inductive HwMask where
  | v1 (off : ℕ)
  | v2 (off : ℕ)
  deriving DecidableEq, Repr

/-- The platform that the library was built for.  On aarch64, the result of
`detect_parker_soc`, which is `none` if a CUDA call fails. -/
inductive Platform where
  | x86_64
  | aarch64 (isParker : Option Bool)
  deriving DecidableEq, Repr

/-- The CUDA driver version, and the value of the environment variable
`MASK_OFF`, if it is set. -/
structure Driver where
  platform : Platform
  version : ℕ
  maskOff : Option ℤ
  deriving DecidableEq, Repr

/-- The `switch` over the driver version. -/
def hwMask : Platform → ℕ → Except Abort (Option HwMask)
  -- The case for 8000 has no `break` and ends up with the offset for 9000.
  | .x86_64, 8000 | .x86_64, 9000 | .x86_64, 9010 => .ok (some (.v1 0x130))
  | .x86_64, 9020 => .ok (some (.v1 0x140))
  | .x86_64, 10000 | .x86_64, 10010 | .x86_64, 10020 => .ok (some (.v1 0x244))
  | .x86_64, 11000 => .ok (some (.v1 0x274))
  | .x86_64, 11010 => .ok (some (.v1 0x2c4))
  | .x86_64, 11020 | .x86_64, 11030 | .x86_64, 11040 | .x86_64, 11050 =>
      .ok (some (.v1 0x37c))
  | .x86_64, 11060 => .ok (some (.v1 0x38c))
  | .x86_64, 11070 => .ok (some (.v1 0x3c4))
  | .x86_64, 11080 => .ok (some (.v1 0x47c))
  | .x86_64, 12000 | .x86_64, 12010 => .ok (some (.v2 0x4cc))
  | .x86_64, 12020 => .ok (some (.v2 0x4e4))
  | .x86_64, 12030 => .ok (some (.v2 0x49c))
  | .x86_64, 12040 => .ok (some (.v2 0x4ac))
  | .x86_64, 12050 | .x86_64, 12060 => .ok (some (.v2 0x4ec))
  | .x86_64, 12070 | .x86_64, 12080 => .ok (some (.v2 0x4fc))
  | .x86_64, 13000 => .ok (some (.v2 0x51c))
  | .aarch64 none, 9000 => .error .detectParkerSoc
  | .aarch64 (some false), 9000 => .error .nonJetson
  | .aarch64 (some true), 9000 => .ok (some (.v1 0x128))
  | .aarch64 _, 10020 => .ok (some (.v1 0x24c))
  | .aarch64 _, 11040 => .ok (some (.v1 0x394))
  | .aarch64 _, 12020 => .ok (some (.v2 0x50c))
  | .aarch64 _, 12040 => .ok (some (.v2 0x4c4))
  | .aarch64 _, 12050 => .ok (some (.v2 0x50c))
  | .aarch64 _, 12060 => .ok (some (.v2 0x514))
  | _, _ => .ok none

/-- Where `libsmctrl_set_stream_mask_ext` writes.  `MASK_OFF` sets the pointer
to the newer layout, but a pointer to the older one takes precedence. -/
def Driver.hwMask (d : Driver) : Except Abort HwMask := do
  let hw ← Libsmctrl.hwMask d.platform d.version
  let hw ← match d.maskOff with
    | none => pure hw
    | some off =>
        if 0x4e4 + off < 0 then .error .negativeOffset
        else pure <| match hw with
          | some (.v1 base) => some (.v1 base)
          | _ => some (.v2 (0x4e4 + off).toNat)
  match hw with
  | none => .error (.streamMasking d.version)
  | some hw => .ok hw

/-- Writing a mask to the stream struct. -/
def HwMask.write (hw : HwMask) (stream : StreamStruct) (mask : BitVec 128) :
    StreamStruct := fun off =>
  match hw with
  | .v1 base =>
      if off = base then word mask 1
      else if off = base + 4 then word mask 0
      else stream off
  | .v2 base =>
      if off = base then 1
      else if off = base + 4 then word mask 0
      else if off = base + 8 then word mask 1
      else if off = base + 12 then word mask 2
      else if off = base + 16 then word mask 3
      else stream off

/-- `libsmctrl_set_stream_mask_ext`. -/
def setStreamMaskExt (d : Driver) (stream : StreamStruct) (mask : BitVec 128) :
    Except Abort StreamStruct := do
  let hw ← d.hwMask
  return hw.write stream mask

/-- The 128-bit mask for `libsmctrl_set_stream_mask`: all TPCs from 64 on are
disabled. -/
def fullMask (mask : BitVec 64) : BitVec 128 :=
  ((-1 : BitVec 128) <<< 64) ||| mask.setWidth 128

/-- `libsmctrl_set_stream_mask`. -/
def setStreamMask (d : Driver) (stream : StreamStruct) (mask : BitVec 64) :
    Except Abort StreamStruct :=
  setStreamMaskExt d stream (fullMask mask)

/-- The mask that CUDA finds in a stream struct, which is zero when none was
set. -/
def HwMask.read (hw : HwMask) (stream : StreamStruct) (k : ℕ) : BitVec 32 :=
  match hw with
  | .v1 base => if k = 0 then stream (base + 4) else if k = 1 then stream base else 0
  | .v2 base => if stream base = 0 ∨ 4 ≤ k then 0 else stream (base + 4 + 4 * k)

/-- CUDA's view of the mask of a stream; without stream masking there is none. -/
def Driver.read (d : Driver) (stream : StreamStruct) (k : ℕ) : BitVec 32 :=
  match d.hwMask with
  | .error _ => 0
  | .ok hw => hw.read stream k

/-! ## Processes -/

/-- The masks of a process: the globals, the streams and, if there is one, the
supreme mask. -/
structure Process (T S : Type) where
  globals : Globals T
  streams : S → StreamStruct
  supreme : Option (BitVec 128)

/-- What happens: a thread of the process calls the library or launches a
kernel, or `nvtaskset` writes the supreme mask.  It may also do so while the
callback runs, before any of the callback's reads. -/
inductive Event (T S : Type) where
  | setGlobalMask (mask : BitVec 64)
  | setNextMask (thread : T) (mask : BitVec 64)
  | setStreamMask (stream : S) (mask : BitVec 64)
  | setStreamMaskExt (stream : S) (mask : BitVec 128)
  | nvtaskset (mask : BitVec 128)
  | launch (thread : T) (stream : S) (inParams : InParams)
      (writes : ℕ → Option (BitVec 128))

/-- The values of successive reads of the supreme mask. -/
def readsAmong (writes : ℕ → Option (BitVec 128)) (supreme : BitVec 128) :
    ℕ → BitVec 128
  | 0 => (writes 0).getD supreme
  | k + 1 => (writes (k + 1)).getD (readsAmong writes supreme k)

variable {T S : Type} [DecidableEq T] [DecidableEq S]

/-- A process after an event, and what a launch uploads. -/
def Process.step (d : Driver) (p : Process T S) :
    Event T S → Except Abort (Process T S × Option Tmd)
  | .setGlobalMask mask =>
      .ok ({ p with globals := { p.globals with smMask := mask } }, none)
  | .setNextMask thread mask =>
      .ok ({ p with globals := { p.globals with
        nextSmMask := Function.update p.globals.nextSmMask thread mask } }, none)
  | .setStreamMask stream mask => do
      let struct ← setStreamMask d (p.streams stream) mask
      return ({ p with streams := Function.update p.streams stream struct }, none)
  | .setStreamMaskExt stream mask => do
      let struct ← setStreamMaskExt d (p.streams stream) mask
      return ({ p with streams := Function.update p.streams stream struct }, none)
  | .nvtaskset mask =>
      .ok ({ p with supreme := p.supreme.map fun _ => mask }, none)
  | .launch thread _ inParams writes => do
      let (globals, tmd) ← controlCallbackV2 (p.supreme.map (readsAmong writes))
        thread p.globals inParams
      return ({ p with
        globals := globals
        supreme := p.supreme.map fun m => readsAmong writes m 3 }, some tmd)

theorem exists_callback_of_launch {d : Driver} {p p' : Process T S} {thread : T}
    {stream : S} {inParams : InParams} {writes : ℕ → Option (BitVec 128)}
    {tmd : Option Tmd}
    (h : p.step d (.launch thread stream inParams writes) = .ok (p', tmd)) :
    ∃ globals tmd', controlCallbackV2 (p.supreme.map (readsAmong writes)) thread
        p.globals inParams = .ok (globals, tmd') ∧ tmd = some tmd' ∧
      p' = ⟨globals, p.streams, p.supreme.map fun m => readsAmong writes m 3⟩ := by
  rw [Process.step] at h
  cases hcallback : controlCallbackV2 (p.supreme.map (readsAmong writes)) thread
      p.globals inParams with
  | error e =>
      rw [hcallback] at h
      cases h
  | ok r =>
      rw [hcallback] at h
      cases h
      exact ⟨r.1, r.2, rfl, rfl, rfl⟩

/-- CUDA copies the mask words of the stream into the TMD of a launch. -/
def Event.Copies (d : Driver) (p : Process T S) : Event T S → Prop
  | .launch _ stream inParams _ =>
      ∀ tmd, inParams.tmd = some tmd →
        ∀ k, k < (if 0x40 ≤ tmd.version.toNat then 4 else 2) →
          tmd (maskOff tmd.version + 4 * k) = d.read (p.streams stream) k
  | _ => True

/-- `Run d p₀ events p`: the events, newest first, lead from `p₀` to `p`. -/
inductive Run (d : Driver) (p₀ : Process T S) :
    List (Event T S) → Process T S → Prop where
  | start : Run d p₀ [] p₀
  | step {events : List (Event T S)} {p p' : Process T S} {e : Event T S}
      {tmd : Option Tmd} (before : Run d p₀ events p) (copies : e.Copies d p)
      (step : p.step d e = .ok (p', tmd)) : Run d p₀ (e :: events) p'

/-- No mask has been set yet, other than perhaps the supreme mask. -/
structure Process.IsFresh (d : Driver) (p : Process T S) : Prop where
  smMask : p.globals.smMask = 0
  nextSmMask : ∀ thread, p.globals.nextSmMask thread = 0
  streams : ∀ stream k, d.read (p.streams stream) k = 0

end A100Partitioning.Libsmctrl
