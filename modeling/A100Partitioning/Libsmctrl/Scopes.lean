import A100Partitioning.Libsmctrl.Process

/-!
# Next, stream and global masks

What a launch should use is read off the history: the thread's next mask, else
the stream's mask, else the global mask.  The library infers from a mask of 0
that no mask was set, so it uses a mask of 0 only if no other mask is there to
take its place.
-/

namespace A100Partitioning.Libsmctrl

open Support

variable {T S : Type} [DecidableEq T] [DecidableEq S]

/-! ## What was set last -/

/-- The next mask that a thread has set since its last launch. -/
def nextMask (thread : T) : List (Event T S) → Option (BitVec 64)
  | [] => none
  | .setNextMask t mask :: events =>
      if t = thread then some mask else nextMask thread events
  | .launch t _ _ _ :: events =>
      if t = thread then none else nextMask thread events
  | _ :: events => nextMask thread events

/-- The mask last set on a stream. -/
def streamMask (stream : S) : List (Event T S) → Option (BitVec 128)
  | [] => none
  | .setStreamMask s mask :: events =>
      if s = stream then some (fullMask mask) else streamMask stream events
  | .setStreamMaskExt s mask :: events =>
      if s = stream then some mask else streamMask stream events
  | _ :: events => streamMask stream events

/-- The global mask, which is 0 at first. -/
def globalMask : List (Event T S) → BitVec 64
  | [] => 0
  | .setGlobalMask mask :: _ => mask
  | _ :: events => globalMask events

/-- The mask that a launch should use. -/
def intendedMask (thread : T) (stream : S) (events : List (Event T S)) :
    BitVec 64 :=
  match nextMask thread events, streamMask stream events with
  | some mask, _ => mask
  | none, some mask => mask.setWidth 64
  | none, none => globalMask events

/-- The mask that takes the place of a mask of 0. -/
def standIn (stream : S) (events : List (Event T S)) : BitVec 64 :=
  if ((streamMask stream events).getD 0).setWidth 64 = 0 then globalMask events
  else ((streamMask stream events).getD 0).setWidth 64

/-! ## The library follows the history -/

/-- The variables hold what was set last, or 0. -/
structure Tracks (d : Driver) (events : List (Event T S)) (p : Process T S) :
    Prop where
  smMask : p.globals.smMask = globalMask events
  nextSmMask : ∀ thread,
    p.globals.nextSmMask thread = (nextMask thread events).getD 0
  streams : ∀ stream k, k < 2 →
    d.read (p.streams stream) k = word ((streamMask stream events).getD 0) k

theorem HwMask.read_write (hw : HwMask) (stream : StreamStruct)
    (mask : BitVec 128) {k : ℕ} (hk : k < 2) :
    hw.read (hw.write stream mask) k = word mask k := by
  cases hw with
  | v1 base =>
      obtain rfl | rfl : k = 0 ∨ k = 1 := by omega
      all_goals simp [HwMask.read, HwMask.write]
  | v2 base =>
      have hne : base + 4 + 4 ≠ base := by omega
      obtain rfl | rfl : k = 0 ∨ k = 1 := by omega
      all_goals simp [HwMask.read, HwMask.write, hne]

theorem read_setStreamMaskExt {d : Driver} {stream stream' : StreamStruct}
    {mask : BitVec 128} (h : setStreamMaskExt d stream mask = .ok stream') {k : ℕ}
    (hk : k < 2) : d.read stream' k = word mask k := by
  rw [setStreamMaskExt] at h
  rw [Driver.read]
  cases hhw : d.hwMask with
  | error e =>
      rw [hhw] at h
      cases h
  | ok hw =>
      rw [hhw] at h
      cases h
      exact hw.read_write stream mask hk

theorem Tracks.start {d : Driver} {p : Process T S} (h : p.IsFresh d) :
    Tracks d [] p where
  smMask := h.smMask
  nextSmMask := h.nextSmMask
  streams stream k _ := (h.streams stream k).trans (word_zero k).symm

theorem Tracks.setStream {d : Driver} {events : List (Event T S)}
    {p : Process T S} (h : Tracks d events p) {stream : S} {mask : BitVec 128}
    {struct : StreamStruct}
    (hset : setStreamMaskExt d (p.streams stream) mask = .ok struct) (stream' : S)
    {k : ℕ} (hk : k < 2) :
    d.read (Function.update p.streams stream struct stream') k =
      word ((if stream = stream' then some mask
        else streamMask stream' events).getD 0) k := by
  by_cases hstream : stream = stream'
  · subst hstream
    rw [Function.update_self, if_pos rfl]
    exact read_setStreamMaskExt hset hk
  · rw [Function.update_of_ne (Ne.symm hstream), if_neg hstream]
    exact h.streams stream' k hk

theorem Tracks.step {d : Driver} {events : List (Event T S)} {p p' : Process T S}
    {e : Event T S} {tmd : Option Tmd} (h : Tracks d events p)
    (hstep : p.step d e = .ok (p', tmd)) : Tracks d (e :: events) p' := by
  cases e with
  | setGlobalMask mask =>
      cases hstep
      exact ⟨rfl, h.nextSmMask, h.streams⟩
  | setNextMask thread mask =>
      cases hstep
      refine ⟨h.smMask, fun thread' => ?_, h.streams⟩
      rw [nextMask]
      by_cases hthread : thread = thread'
      · subst hthread
        simp
      · simp only [if_neg hthread, ← h.nextSmMask,
          Function.update_of_ne (Ne.symm hthread)]
  | setStreamMask stream mask =>
      rw [Process.step, setStreamMask] at hstep
      cases hset : setStreamMaskExt d (p.streams stream) (fullMask mask) with
      | error e =>
          rw [hset] at hstep
          cases hstep
      | ok struct =>
          rw [hset] at hstep
          cases hstep
          exact ⟨h.smMask, h.nextSmMask, fun stream' k hk =>
            h.setStream hset stream' hk⟩
  | setStreamMaskExt stream mask =>
      rw [Process.step] at hstep
      cases hset : setStreamMaskExt d (p.streams stream) mask with
      | error e =>
          rw [hset] at hstep
          cases hstep
      | ok struct =>
          rw [hset] at hstep
          cases hstep
          exact ⟨h.smMask, h.nextSmMask, fun stream' k hk =>
            h.setStream hset stream' hk⟩
  | nvtaskset mask =>
      cases hstep
      exact ⟨h.smMask, h.nextSmMask, h.streams⟩
  | launch thread stream inParams writes =>
      obtain ⟨globals, tmd', hcallback, -, rfl⟩ := exists_callback_of_launch hstep
      obtain ⟨-, -, -, rfl, -⟩ := controlCallbackV2_spec hcallback
      refine ⟨h.smMask, fun thread' => ?_, h.streams⟩
      rw [nextMask]
      by_cases hthread : thread = thread'
      · subst hthread
        simp
      · simp only [if_neg hthread, ← h.nextSmMask,
          Function.update_of_ne (Ne.symm hthread)]

theorem Run.tracks {d : Driver} {p₀ p : Process T S} {events : List (Event T S)}
    (hrun : Run d p₀ events p) (hfresh : p₀.IsFresh d) : Tracks d events p := by
  induction hrun with
  | start => exact .start hfresh
  | step before copies step ih => exact ih.step step

/-! ## Small histories -/

/-- CUDA 12.8 on x86_64. -/
def driver128 : Driver := ⟨.x86_64, 12080, none⟩

/-- A process with one thread and one stream, in which no mask was set. -/
def freshProcess (supreme : Option (BitVec 128)) : Process Unit Unit where
  globals := ⟨0, fun _ => 0⟩
  streams _ _ := 0
  supreme := supreme

theorem isFresh_freshProcess (supreme : Option (BitVec 128)) :
    (freshProcess supreme).IsFresh driver128 where
  smMask := rfl
  nextSmMask _ := rfl
  streams _ k := by
    have hhw : driver128.hwMask = .ok (.v2 0x4fc) := by decide
    rw [Driver.read, hhw]
    simp [HwMask.read, freshProcess]

/-- A launch on the only stream, with the mask that CUDA copied and a TMD of the
given version. -/
def launchOf (p : Process Unit Unit) (tmdVer : BitVec 8) : Event Unit Unit :=
  .launch () () ⟨0x28, some fun off =>
    if off = 72 then tmdVer.setWidth 32
    else driver128.read (p.streams ()) ((off - maskOff tmdVer) / 4)⟩ fun _ => none

theorem copies_launchOf (p : Process Unit Unit) (tmdVer : BitVec 8) :
    (launchOf p tmdVer).Copies driver128 p := by
  intro tmd htmd k _
  cases htmd
  have hver : Tmd.version (fun off => if off = 72 then tmdVer.setWidth 32
      else driver128.read (p.streams ()) ((off - maskOff tmdVer) / 4)) = tmdVer := by
    simp [Tmd.version]
  have hoff : maskOff tmdVer + 4 * k ≠ 72 := by
    rw [maskOff]
    split_ifs <;> omega
  rw [hver]
  refine (if_neg hoff).trans ?_
  congr 1
  omega

/-! ## What a launch uploads -/

/-- The chosen mask is the intended one unless that is 0. -/
theorem Tracks.chosen_eq {d : Driver} {events : List (Event T S)}
    {p : Process T S} (h : Tracks d events p) (thread : T) (stream : S) :
    p.globals.chosen thread
        (((streamMask stream events).getD 0).setWidth 64) =
      if intendedMask thread stream events = 0 then standIn stream events
      else intendedMask thread stream events := by
  rw [Globals.chosen, h.nextSmMask, h.smMask, intendedMask, standIn]
  cases nextMask thread events with
  | some mask =>
      by_cases hmask : mask = 0
      · rw [Option.getD_some, if_neg (not_not.mpr hmask), if_pos hmask]
      · rw [Option.getD_some, if_pos hmask, if_neg hmask]
  | none =>
      rw [Option.getD_none, if_neg (not_not.mpr rfl)]
      cases streamMask stream events with
      | some mask =>
          by_cases hmask : mask.setWidth 64 = 0
          · rw [Option.getD_some, if_pos hmask, if_pos hmask]
          · rw [Option.getD_some, if_neg hmask, if_neg hmask]
      | none =>
          rw [Option.getD_none, if_pos (by decide)]
          split_ifs <;> rfl

theorem Run.launch_spec {d : Driver} {p₀ p p' : Process T S}
    {events : List (Event T S)} (hrun : Run d p₀ events p)
    (hfresh : p₀.IsFresh d) {thread : T} {stream : S} {inParams : InParams}
    {writes : ℕ → Option (BitVec 128)} {tmd : Option Tmd}
    (hcopies : (Event.launch thread stream inParams writes).Copies d p)
    (hlaunch : p.step d (.launch thread stream inParams writes) = .ok (p', tmd)) :
    ∃ tmd₀ tmd', inParams.tmd = some tmd₀ ∧ tmd = some tmd' ∧
      tmd'.mask 64 (maskOff tmd₀.version) =
        (if intendedMask thread stream events = 0 then standIn stream events
          else intendedMask thread stream events) |||
          (readBack (p.supreme.map (readsAmong writes))).setWidth 64 ∧
      (0x40 ≤ tmd₀.version.toNat → ∀ k, k = 2 ∨ k = 3 → tmd' (304 + 4 * k) = -1) := by
  have htracks := hrun.tracks hfresh
  obtain ⟨globals, tmd', hcallback, rfl, -⟩ := exists_callback_of_launch hlaunch
  obtain ⟨tmd₀, htmd, -, -, hlower, hupper⟩ := controlCallbackV2_spec hcallback
  refine ⟨tmd₀, tmd', htmd, rfl, ?_, hupper⟩
  have hstream : tmd₀.mask 64 (maskOff tmd₀.version) =
      ((streamMask stream events).getD 0).setWidth 64 := by
    rw [← ofWords_word (((streamMask stream events).getD 0).setWidth 64)]
    refine ofWords_congr fun k hk => ?_
    have hk : k < 2 := by omega
    rw [word_setWidth _ (by omega), ← htracks.streams stream k hk]
    apply hcopies tmd₀ htmd
    split_ifs <;> omega
  rw [← htracks.chosen_eq, ← hstream, ← ofWords_word (_ ||| _)]
  refine ofWords_congr fun k hk => ?_
  have hk : k < 2 := by omega
  rw [hlower k hk, word_or, word_setWidth _ (by omega)]

/-- In any history, a launch uploads the intended mask with the supreme mask
added if and only if that mask is not 0, or the mask that takes its place
disables only TPCs that the supreme mask disables. -/
theorem launch_mask_iff (d : Driver) (p₀ p p' : Process T S)
    (events : List (Event T S)) (hrun : Run d p₀ events p)
    (hfresh : p₀.IsFresh d) (thread : T) (stream : S) (inParams : InParams)
    (writes : ℕ → Option (BitVec 128)) (tmd : Option Tmd)
    (hcopies : (Event.launch thread stream inParams writes).Copies d p)
    (hlaunch : p.step d (.launch thread stream inParams writes) = .ok (p', tmd)) :
    let supreme := (readBack (p.supreme.map (readsAmong writes))).setWidth 64
    ∃ tmd₀ tmd', inParams.tmd = some tmd₀ ∧ tmd = some tmd' ∧
      (tmd'.mask 64 (maskOff tmd₀.version) =
          intendedMask thread stream events ||| supreme ↔
        (intendedMask thread stream events = 0 →
          standIn stream events ||| supreme = supreme)) := by
  intro supreme
  obtain ⟨tmd₀, tmd', htmd, htmd', hmask, -⟩ :=
    hrun.launch_spec hfresh hcopies hlaunch
  refine ⟨tmd₀, tmd', htmd, htmd', ?_⟩
  rw [hmask]
  by_cases hzero : intendedMask thread stream events = 0
  · rw [if_pos hzero, hzero]
    simp [supreme]
  · rw [if_neg hzero]
    exact ⟨fun _ h => absurd h hzero, fun _ => rfl⟩

/-- The next mask applies over the global mask. -/
theorem launch_mask_iff_next :
    ∃ p p' tmd, Run driver128 (freshProcess none)
        [.setNextMask () 2, .setGlobalMask 1] p ∧
      p.step driver128 (launchOf p 0x16) = .ok (p', some tmd) ∧
      tmd.mask 64 84 = 2 := by
  have hrun : Run driver128 (freshProcess none)
      [.setNextMask () 2, .setGlobalMask 1] _ :=
    .step (.step .start trivial rfl) trivial rfl
  obtain ⟨tmd₀, tmd', htmd, htmd', hmask⟩ := launch_mask_iff driver128 _ _ _ _
    hrun (isFresh_freshProcess none) () () _ _ _ (copies_launchOf _ 0x16) rfl
  cases htmd
  cases htmd'
  exact ⟨_, _, _, hrun, rfl, hmask.mpr fun h => absurd h (by decide)⟩

set_option maxRecDepth 30000 in
/-- A next mask of 0 does not apply: the launch uses the global mask. -/
theorem not_launch_mask_zero :
    ∃ p p' tmd, Run driver128 (freshProcess none)
        [.setNextMask () 0, .setGlobalMask 1] p ∧
      p.step driver128 (launchOf p 0x16) = .ok (p', some tmd) ∧
      intendedMask () () ([.setNextMask () 0, .setGlobalMask 1] :
        List (Event Unit Unit)) = 0 ∧
      tmd.mask 64 84 = 1 :=
  ⟨_, _, _, .step (.step .start trivial rfl) trivial rfl, rfl, rfl,
    by decide⟩

/-! ## 128-bit masks -/

/-- All TPCs from 64 on are disabled. -/
def UpperDisabled (mask : BitVec 128) : Prop := word mask 2 = -1 ∧ word mask 3 = -1

instance (mask : BitVec 128) : Decidable (UpperDisabled mask) :=
  inferInstanceAs (Decidable (_ ∧ _))

/-- The event sets a next, stream or global mask. -/
def Event.SetsMask : Event T S → Prop
  | .nvtaskset _ | .launch _ _ _ _ => False
  | _ => True

theorem unset_of_not_setsMask {events : List (Event T S)}
    (h : ∀ e ∈ events, ¬ e.SetsMask) (thread : T) (stream : S) :
    nextMask thread events = none ∧ streamMask stream events = none ∧
      globalMask events = 0 := by
  induction events with
  | nil => exact ⟨rfl, rfl, rfl⟩
  | cons e events ih =>
      obtain ⟨hnext, hstream, hglobal⟩ := ih fun e he => h e (by simp [he])
      have he := h e (by simp)
      cases e with
      | nvtaskset mask => exact ⟨hnext, hstream, hglobal⟩
      | launch t s inParams writes =>
          refine ⟨?_, hstream, hglobal⟩
          rw [nextMask]
          split_ifs
          · rfl
          · exact hnext
      | setGlobalMask mask => exact absurd trivial he
      | setNextMask t mask => exact absurd trivial he
      | setStreamMask s mask => exact absurd trivial he
      | setStreamMaskExt s mask => exact absurd trivial he

theorem Tmd.mask128_eq_iff (tmd : Tmd) (off : ℕ) (mask : BitVec 128) :
    tmd.mask 128 off = mask ↔ tmd.mask 64 off = mask.setWidth 64 ∧
      tmd (off + 4 * 2) = word mask 2 ∧ tmd (off + 4 * 3) = word mask 3 := by
  constructor
  · rintro rfl
    refine ⟨?_, (tmd.word_mask off (by omega)).symm, (tmd.word_mask off (by omega)).symm⟩
    rw [← ofWords_word ((tmd.mask 128 off).setWidth 64)]
    refine ofWords_congr fun k hk => ?_
    rw [word_setWidth _ (by omega), tmd.word_mask off (by omega)]
  · rintro ⟨hlower, h2, h3⟩
    rw [← ofWords_word mask]
    refine ofWords_congr fun k hk => ?_
    by_cases hk2 : k < 2
    · rw [← word_setWidth (v := 64) mask (by omega), ← hlower, tmd.word_mask off (by omega)]
    · obtain rfl | rfl : k = 2 ∨ k = 3 := by omega
      · exact h2
      · exact h3

end A100Partitioning.Libsmctrl
