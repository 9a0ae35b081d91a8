import A100Partitioning.TaskHost.GlobalTimer
import Mathlib.Data.Nat.SuccPred
import Mathlib.Data.Rat.Star
import Mathlib.Tactic.Linarith
import Mathlib.Tactic.Ring
import Mathlib.Tactic.NormNum

/-!
# Reading the clock of the GPU

The host and a kernel read their clocks one after the other: the kernel reads its own between
two readings of the host, whose middle is taken for the time of the kernel's.  Three words of
shared memory keep the order.  A first kernel runs before that, to warm up the GPU.
-/

namespace A100Partitioning.TaskHost.ClockSync

open Relation (ReflTransGen)

/-! ## The code -/

/-- Where the host is in `InternalReadGPUNanoseconds`. -/
inductive CpuPoint where
  /-- Before the first launch. -/
  | setup
  | openFirst
  | synchronize
  | clearStart
  | clearEnd
  | clearReady
  | launch
  | waitReady
  | readStart
  | openStart
  | waitEnd
  | readEnd
  | copy
  | done
  /-- Left with `goto out`. -/
  | failed
  deriving DecidableEq, Repr

/-- Where the kernel `GetTime` is, with the times at which it has read its clock. -/
inductive GpuPoint where
  | idle
  | launched
  | spinning
  | readHi
  | readLo (t₁ : ℕ)
  | readHi2 (t₁ t₂ : ℕ)
  | store (t₁ t₂ t₃ : ℕ)
  | signal
  deriving DecidableEq, Repr

/-- The time, what the host and the kernel share, and the variables of the host. -/
structure SyncState where
  now : ℕ
  cpu : CpuPoint
  gpu : GpuPoint
  startBarrier : BitVec 32
  endBarrier : BitVec 32
  readyBarrier : BitVec 32
  deviceTime : BitVec 64
  cpuStart : ℚ
  cpuEnd : ℚ
  cpuTime : ℚ
  gpuTime : BitVec 64

/-- The shared memory is not initialized. -/
structure SyncState.IsInitial (s : SyncState) : Prop where
  cpu : s.cpu = .setup
  gpu : s.gpu = .idle
  cpuTime : s.cpuTime = 0
  gpuTime : s.gpuTime = 0

section Code

variable (cpuClock : ℕ → ℚ) (gpuClock : ℕ → BitVec 64)

/-- A step of the host or of the kernel.  Time passes between them, and in their loops. -/
inductive Step : SyncState → SyncState → Prop where
  | pass {s : SyncState} : Step s { s with now := s.now + 1 }
  | setup {s : SyncState} (cpu : s.cpu = .setup) (gpu : s.gpu = .idle) :
      Step s { s with cpu := .openFirst, gpu := .launched }
  | openFirst {s : SyncState} (cpu : s.cpu = .openFirst) :
      Step s { s with cpu := .synchronize, startBarrier := 1 }
  | synchronize {s : SyncState} (cpu : s.cpu = .synchronize) (gpu : s.gpu = .idle) :
      Step s { s with cpu := .clearStart }
  | clearStart {s : SyncState} (cpu : s.cpu = .clearStart) :
      Step s { s with cpu := .clearEnd, startBarrier := 0 }
  | clearEnd {s : SyncState} (cpu : s.cpu = .clearEnd) :
      Step s { s with cpu := .clearReady, endBarrier := 0 }
  | clearReady {s : SyncState} (cpu : s.cpu = .clearReady) :
      Step s { s with cpu := .launch, readyBarrier := 0 }
  | launch {s : SyncState} (cpu : s.cpu = .launch) (gpu : s.gpu = .idle) :
      Step s { s with cpu := .waitReady, gpu := .launched }
  | waitReady {s : SyncState} (cpu : s.cpu = .waitReady) (ready : s.readyBarrier ≠ 0) :
      Step s { s with cpu := .readStart }
  | readStart {s : SyncState} (cpu : s.cpu = .readStart) :
      Step s { s with cpu := .openStart, cpuStart := cpuClock s.now }
  | openStart {s : SyncState} (cpu : s.cpu = .openStart) :
      Step s { s with cpu := .waitEnd, startBarrier := 1 }
  | waitEnd {s : SyncState} (cpu : s.cpu = .waitEnd) (ended : s.endBarrier ≠ 0) :
      Step s { s with cpu := .readEnd }
  | readEnd {s : SyncState} (cpu : s.cpu = .readEnd) :
      Step s { s with
        cpu := .copy
        cpuEnd := cpuClock s.now
        cpuTime := (cpuClock s.now - s.cpuStart) / 2 + s.cpuStart }
  | copy {s : SyncState} (cpu : s.cpu = .copy) (gpu : s.gpu = .idle) :
      Step s { s with cpu := .done, gpuTime := s.deviceTime }
  | fail {s : SyncState} (cpu : s.cpu = .setup ∨ s.cpu = .synchronize ∨ s.cpu = .copy) :
      Step s { s with cpu := .failed }
  | ready {s : SyncState} (gpu : s.gpu = .launched) :
      Step s { s with gpu := .spinning, readyBarrier := 1 }
  | started {s : SyncState} (gpu : s.gpu = .spinning) (start : s.startBarrier ≠ 0) :
      Step s { s with gpu := .readHi }
  | readHi {s : SyncState} (gpu : s.gpu = .readHi) : Step s { s with gpu := .readLo s.now }
  | readLo {s : SyncState} {t₁ : ℕ} (gpu : s.gpu = .readLo t₁) :
      Step s { s with gpu := .readHi2 t₁ s.now }
  | readHi2 {s : SyncState} {t₁ t₂ : ℕ} (gpu : s.gpu = .readHi2 t₁ t₂) :
      Step s { s with gpu := .store t₁ t₂ s.now }
  | store {s : SyncState} {t₁ t₂ t₃ : ℕ} (gpu : s.gpu = .store t₁ t₂ t₃) :
      Step s { s with gpu := .signal, deviceTime := globalTimer64 gpuClock t₁ t₂ t₃ }
  | signal {s : SyncState} (gpu : s.gpu = .signal) :
      Step s { s with gpu := .idle, endBarrier := 1 }

/-- States that are reached from uninitialized memory. -/
def Reachable (s : SyncState) : Prop :=
  ∃ s₀ : SyncState, s₀.IsInitial ∧ ReflTransGen (Step cpuClock gpuClock) s₀ s

end Code

/-! ## The invariant -/

section Invariant

variable {cpuClock : ℕ → ℚ} {gpuClock : ℕ → BitVec 64} {s s' : SyncState}

/-- The value is a reading of the clock between two times. -/
def Stamped (gpuClock : ℕ → BitVec 64) (value : BitVec 64) (a b : ℕ) : Prop :=
  ∃ t₁ t₂ t₃, a ≤ t₁ ∧ t₁ ≤ t₂ ∧ t₂ ≤ t₃ ∧ t₃ ≤ b ∧ value = globalTimer64 gpuClock t₁ t₂ t₃

/-- The second kernel, which has been let go at `a`. -/
def Running (gpuClock : ℕ → BitVec 64) (s : SyncState) (a : ℕ) : Prop :=
  match s.gpu with
  | .launched => False
  | .spinning | .readHi => s.endBarrier = 0
  | .readLo t₁ => a ≤ t₁ ∧ t₁ ≤ s.now ∧ s.endBarrier = 0
  | .readHi2 t₁ t₂ => a ≤ t₁ ∧ t₁ ≤ t₂ ∧ t₂ ≤ s.now ∧ s.endBarrier = 0
  | .store t₁ t₂ t₃ => a ≤ t₁ ∧ t₁ ≤ t₂ ∧ t₂ ≤ t₃ ∧ t₃ ≤ s.now ∧ s.endBarrier = 0
  | .signal => Stamped gpuClock s.deviceTime a s.now ∧ s.endBarrier = 0
  | .idle => Stamped gpuClock s.deviceTime a s.now ∧ s.endBarrier ≠ 0

/-- The readings of the host, between which the kernel has read its clock. -/
structure Bracketed (cpuClock : ℕ → ℚ) (gpuClock : ℕ → BitVec 64) (s : SyncState) (a b : ℕ) :
    Prop where
  cpuStart : s.cpuStart = cpuClock a
  cpuEnd : s.cpuEnd = cpuClock b
  cpuTime : s.cpuTime = (cpuClock b - cpuClock a) / 2 + cpuClock a
  stamped : Stamped gpuClock s.deviceTime a b

/-- What holds at a point of the host. -/
def AtPoint (cpuClock : ℕ → ℚ) (gpuClock : ℕ → BitVec 64) (s : SyncState) : Prop :=
  match s.cpu with
  | .setup | .clearStart => s.gpu = .idle
  | .openFirst | .failed => True
  | .synchronize => s.startBarrier = 1
  | .clearEnd => s.gpu = .idle ∧ s.startBarrier = 0
  | .clearReady => s.gpu = .idle ∧ s.startBarrier = 0 ∧ s.endBarrier = 0
  | .launch => s.gpu = .idle ∧ s.startBarrier = 0 ∧ s.endBarrier = 0 ∧ s.readyBarrier = 0
  | .waitReady =>
      s.startBarrier = 0 ∧ s.endBarrier = 0 ∧
        (s.gpu = .launched ∧ s.readyBarrier = 0 ∨ s.gpu = .spinning ∧ s.readyBarrier ≠ 0)
  | .readStart => s.startBarrier = 0 ∧ s.endBarrier = 0 ∧ s.gpu = .spinning
  | .openStart =>
      s.startBarrier = 0 ∧ s.endBarrier = 0 ∧ s.gpu = .spinning ∧
        ∃ a ≤ s.now, s.cpuStart = cpuClock a
  | .waitEnd => s.startBarrier = 1 ∧ ∃ a ≤ s.now, s.cpuStart = cpuClock a ∧ Running gpuClock s a
  | .readEnd =>
      s.gpu = .idle ∧ ∃ a, s.cpuStart = cpuClock a ∧ Stamped gpuClock s.deviceTime a s.now
  | .copy => s.gpu = .idle ∧ ∃ a b, Bracketed cpuClock gpuClock s a b
  | .done => ∃ a b, Bracketed cpuClock gpuClock s a b ∧ s.gpuTime = s.deviceTime ∧ s.gpu = .idle

/-- What is always true. -/
structure SyncInv (cpuClock : ℕ → ℚ) (gpuClock : ℕ → BitVec 64) (s : SyncState) : Prop where
  atPoint : AtPoint cpuClock gpuClock s
  gpuTime : s.cpu ≠ .done → s.gpuTime = 0

theorem Stamped.mono {value : BitVec 64} {a b b' : ℕ} (h : Stamped gpuClock value a b)
    (hle : b ≤ b') : Stamped gpuClock value a b' := by
  obtain ⟨t₁, t₂, t₃, ha, h₁₂, h₂₃, hb, hvalue⟩ := h
  exact ⟨t₁, t₂, t₃, ha, h₁₂, h₂₃, hb.trans hle, hvalue⟩

theorem Running.pass {a : ℕ} (h : Running gpuClock s a) :
    Running gpuClock { s with now := s.now + 1 } a := by
  have hlater := Nat.le_succ s.now
  cases hgpu : s.gpu with
  | launched => simp only [Running, hgpu] at h
  | spinning | readHi =>
      simp only [Running, hgpu] at h ⊢
      exact h
  | readLo t₁ =>
      simp only [Running, hgpu] at h ⊢
      exact ⟨h.1, h.2.1.trans hlater, h.2.2⟩
  | readHi2 t₁ t₂ =>
      simp only [Running, hgpu] at h ⊢
      exact ⟨h.1, h.2.1, h.2.2.1.trans hlater, h.2.2.2⟩
  | store t₁ t₂ t₃ =>
      simp only [Running, hgpu] at h ⊢
      exact ⟨h.1, h.2.1, h.2.2.1, h.2.2.2.1.trans hlater, h.2.2.2.2⟩
  | signal | idle =>
      simp only [Running, hgpu] at h ⊢
      exact ⟨h.1.mono hlater, h.2⟩

theorem AtPoint.pass (h : AtPoint cpuClock gpuClock s) :
    AtPoint cpuClock gpuClock { s with now := s.now + 1 } := by
  have hlater := Nat.le_succ s.now
  cases hcpu : s.cpu with
  | openStart =>
      simp only [AtPoint, hcpu] at h ⊢
      obtain ⟨hstart, hend, hgpu, a, ha, hcpuStart⟩ := h
      exact ⟨hstart, hend, hgpu, a, ha.trans hlater, hcpuStart⟩
  | waitEnd =>
      simp only [AtPoint, hcpu] at h ⊢
      obtain ⟨hstart, a, ha, hcpuStart, hrunning⟩ := h
      exact ⟨hstart, a, ha.trans hlater, hcpuStart, hrunning.pass⟩
  | readEnd =>
      simp only [AtPoint, hcpu] at h ⊢
      obtain ⟨hgpu, a, hcpuStart, hstamped⟩ := h
      exact ⟨hgpu, a, hcpuStart, hstamped.mono hlater⟩
  | copy =>
      simp only [AtPoint, hcpu] at h ⊢
      obtain ⟨hgpu, a, b, hstart, hend, hmiddle, hstamped⟩ := h
      exact ⟨hgpu, a, b, hstart, hend, hmiddle, hstamped⟩
  | done =>
      simp only [AtPoint, hcpu] at h ⊢
      obtain ⟨a, b, ⟨hstart, hend, hmiddle, hstamped⟩, hrest⟩ := h
      exact ⟨a, b, ⟨hstart, hend, hmiddle, hstamped⟩, hrest⟩
  | openFirst | failed => simp only [AtPoint]
  | _ =>
      simp only [AtPoint, hcpu] at h ⊢
      exact h

/-- A kernel that runs is the first one, or the second one, which waits for the host before it
reads its clock. -/
theorem AtPoint.kernel (h : AtPoint cpuClock gpuClock s) (hbusy : s.gpu ≠ .idle)
    (hcpu : s'.cpu = s.cpu) (hstart : s'.startBarrier = s.startBarrier)
    (hcpuStart : s'.cpuStart = s.cpuStart) (hnow : s'.now = s.now)
    (hwait : s.startBarrier = 0 → s.gpu = .launched ∨ s.gpu = .spinning →
      s.gpu = .launched ∧ s'.gpu = .spinning ∧ s'.endBarrier = s.endBarrier ∧
        s'.readyBarrier ≠ 0)
    (hrunning : ∀ a ≤ s.now, Running gpuClock s a → Running gpuClock s' a) :
    AtPoint cpuClock gpuClock s' := by
  have hspins (hzero : s.startBarrier = 0) (hgpu : s.gpu = .spinning) : False := by
    have hlaunched := (hwait hzero (.inr hgpu)).1
    rw [hgpu] at hlaunched
    cases hlaunched
  cases hpoint : s.cpu with
  | openFirst | failed => simp only [AtPoint, hcpu, hpoint]
  | synchronize =>
      simp only [AtPoint, hpoint] at h
      simpa only [AtPoint, hcpu, hpoint, hstart] using h
  | waitReady =>
      simp only [AtPoint, hpoint] at h
      simp only [AtPoint, hcpu, hpoint]
      obtain ⟨hzero, hend, hgpu⟩ := h
      rcases hgpu with ⟨hgpu, -⟩ | ⟨hgpu, -⟩
      · obtain ⟨-, hgpu', hend', hready⟩ := hwait hzero (.inl hgpu)
        exact ⟨hstart.trans hzero, hend'.trans hend, .inr ⟨hgpu', hready⟩⟩
      · exact (hspins hzero hgpu).elim
  | readStart =>
      simp only [AtPoint, hpoint] at h
      exact (hspins h.1 h.2.2).elim
  | openStart =>
      simp only [AtPoint, hpoint] at h
      exact (hspins h.1 h.2.2.1).elim
  | waitEnd =>
      simp only [AtPoint, hpoint] at h
      simp only [AtPoint, hcpu, hpoint]
      obtain ⟨hone, a, ha, hcpuStartA, hrun⟩ := h
      exact ⟨hstart.trans hone, a, hnow ▸ ha, hcpuStart.trans hcpuStartA, hrunning a ha hrun⟩
  | setup | clearStart =>
      simp only [AtPoint, hpoint] at h
      exact absurd h hbusy
  | clearEnd | clearReady | launch | readEnd | copy =>
      simp only [AtPoint, hpoint] at h
      exact absurd h.1 hbusy
  | done =>
      simp only [AtPoint, hpoint] at h
      obtain ⟨a, b, -, -, hidle⟩ := h
      exact absurd hidle hbusy

theorem SyncInv.step (h : SyncInv cpuClock gpuClock s) (hstep : Step cpuClock gpuClock s s') :
    SyncInv cpuClock gpuClock s' := by
  obtain ⟨hpoint, hgpuTime⟩ := h
  -- the kernel does not write what the host returns
  have hkernel (hcpu : s'.cpu = s.cpu) (htime : s'.gpuTime = s.gpuTime)
      (hnext : AtPoint cpuClock gpuClock s') : SyncInv cpuClock gpuClock s' :=
    ⟨hnext, by rw [hcpu, htime]; exact hgpuTime⟩
  cases hstep with
  | pass => exact ⟨hpoint.pass, hgpuTime⟩
  | setup cpu gpu => exact ⟨trivial, fun _ => hgpuTime (by simp [cpu])⟩
  | openFirst cpu => exact ⟨rfl, fun _ => hgpuTime (by simp [cpu])⟩
  | synchronize cpu gpu => exact ⟨gpu, fun _ => hgpuTime (by simp [cpu])⟩
  | clearStart cpu =>
      simp only [AtPoint, cpu] at hpoint
      exact ⟨⟨hpoint, rfl⟩, fun _ => hgpuTime (by simp [cpu])⟩
  | clearEnd cpu =>
      simp only [AtPoint, cpu] at hpoint
      exact ⟨⟨hpoint.1, hpoint.2, rfl⟩, fun _ => hgpuTime (by simp [cpu])⟩
  | clearReady cpu =>
      simp only [AtPoint, cpu] at hpoint
      exact ⟨⟨hpoint.1, hpoint.2.1, hpoint.2.2, rfl⟩, fun _ => hgpuTime (by simp [cpu])⟩
  | launch cpu gpu =>
      simp only [AtPoint, cpu] at hpoint
      obtain ⟨-, hstart, hend, hready⟩ := hpoint
      exact ⟨⟨hstart, hend, .inl ⟨rfl, hready⟩⟩, fun _ => hgpuTime (by simp [cpu])⟩
  | waitReady cpu ready =>
      simp only [AtPoint, cpu] at hpoint
      obtain ⟨hstart, hend, hgpu⟩ := hpoint
      have hspinning := hgpu.resolve_left fun h => ready h.2
      exact ⟨⟨hstart, hend, hspinning.1⟩, fun _ => hgpuTime (by simp [cpu])⟩
  | readStart cpu =>
      simp only [AtPoint, cpu] at hpoint
      obtain ⟨hstart, hend, hgpu⟩ := hpoint
      exact ⟨⟨hstart, hend, hgpu, s.now, le_rfl, rfl⟩, fun _ => hgpuTime (by simp [cpu])⟩
  | openStart cpu =>
      simp only [AtPoint, cpu] at hpoint
      obtain ⟨-, hend, hgpu, a, ha, hcpuStart⟩ := hpoint
      refine ⟨⟨rfl, a, ha, hcpuStart, ?_⟩, fun _ => hgpuTime (by simp [cpu])⟩
      simp only [Running, hgpu]
      exact hend
  | waitEnd cpu ended =>
      simp only [AtPoint, cpu] at hpoint
      obtain ⟨-, a, -, hcpuStart, hrunning⟩ := hpoint
      have hidle : s.gpu = .idle ∧ Stamped gpuClock s.deviceTime a s.now := by
        cases hgpu : s.gpu with
        | idle =>
            simp only [Running, hgpu] at hrunning
            exact ⟨rfl, hrunning.1⟩
        | launched =>
            simp only [Running, hgpu] at hrunning
        | _ =>
            simp only [Running, hgpu] at hrunning
            exact absurd (by simp [hrunning]) ended
      exact ⟨⟨hidle.1, a, hcpuStart, hidle.2⟩, fun _ => hgpuTime (by simp [cpu])⟩
  | readEnd cpu =>
      simp only [AtPoint, cpu] at hpoint
      obtain ⟨hgpu, a, hcpuStart, hstamped⟩ := hpoint
      refine ⟨⟨hgpu, a, s.now, hcpuStart, rfl, ?_, hstamped⟩, fun _ => hgpuTime (by simp [cpu])⟩
      simp only [hcpuStart]
  | copy cpu gpu =>
      simp only [AtPoint, cpu] at hpoint
      obtain ⟨hgpu, a, b, hstart, hend, hmiddle, hstamped⟩ := hpoint
      exact ⟨⟨a, b, ⟨hstart, hend, hmiddle, hstamped⟩, rfl, hgpu⟩, fun h => absurd rfl h⟩
  | fail cpu =>
      refine ⟨trivial, fun _ => hgpuTime ?_⟩
      rcases cpu with cpu | cpu | cpu <;> simp [cpu]
  | ready gpu =>
      refine hkernel rfl rfl (hpoint.kernel (by simp [gpu]) rfl rfl rfl rfl
        (fun _ _ => ⟨gpu, rfl, rfl, by simp⟩) fun a _ h => ?_)
      simp only [Running, gpu] at h
  | started gpu start =>
      refine hkernel rfl rfl (hpoint.kernel (by simp [gpu]) rfl rfl rfl rfl
        (fun hzero => absurd hzero start) fun a _ h => ?_)
      simpa only [Running, gpu] using h
  | readHi gpu =>
      refine hkernel rfl rfl (hpoint.kernel (by simp [gpu]) rfl rfl rfl rfl
        (fun _ hwait => by simp [gpu] at hwait) fun a ha h => ?_)
      simp only [Running, gpu] at h ⊢
      exact ⟨ha, le_rfl, h⟩
  | readLo gpu =>
      refine hkernel rfl rfl (hpoint.kernel (by simp [gpu]) rfl rfl rfl rfl
        (fun _ hwait => by simp [gpu] at hwait) fun a ha h => ?_)
      simp only [Running, gpu] at h ⊢
      exact ⟨h.1, h.2.1, le_rfl, h.2.2⟩
  | readHi2 gpu =>
      refine hkernel rfl rfl (hpoint.kernel (by simp [gpu]) rfl rfl rfl rfl
        (fun _ hwait => by simp [gpu] at hwait) fun a ha h => ?_)
      simp only [Running, gpu] at h ⊢
      exact ⟨h.1, h.2.1, h.2.2.1, le_rfl, h.2.2.2⟩
  | store gpu =>
      refine hkernel rfl rfl (hpoint.kernel (by simp [gpu]) rfl rfl rfl rfl
        (fun _ hwait => by simp [gpu] at hwait) fun a ha h => ?_)
      simp only [Running, gpu] at h ⊢
      obtain ⟨hfirst, h₁₂, h₂₃, hlast, hend⟩ := h
      exact ⟨⟨_, _, _, hfirst, h₁₂, h₂₃, hlast, rfl⟩, hend⟩
  | signal gpu =>
      refine hkernel rfl rfl (hpoint.kernel (by simp [gpu]) rfl rfl rfl rfl
        (fun _ hwait => by simp [gpu] at hwait) fun a ha h => ?_)
      simp only [Running, gpu] at h ⊢
      exact ⟨h.1, by decide⟩

theorem Reachable.syncInv (hs : Reachable cpuClock gpuClock s) :
    SyncInv cpuClock gpuClock s := by
  obtain ⟨s₀, hinitial, hrun⟩ := hs
  induction hrun with
  | refl =>
      refine ⟨?_, fun _ => hinitial.gpuTime⟩
      simp only [AtPoint, hinitial.cpu]
      exact hinitial.gpu
  | tail _ hstep ih => exact SyncInv.step ih hstep

end Invariant

/-! ## The end of a run -/

section Progress

variable {cpuClock : ℕ → ℚ} {gpuClock : ℕ → BitVec 64} {s s' : SyncState}

/-- The steps that the host has yet to take. -/
def CpuPoint.rest : CpuPoint → ℕ
  | .setup => 13
  | .openFirst => 12
  | .synchronize => 11
  | .clearStart => 10
  | .clearEnd => 9
  | .clearReady => 8
  | .launch => 7
  | .waitReady => 6
  | .readStart => 5
  | .openStart => 4
  | .waitEnd => 3
  | .readEnd => 2
  | .copy => 1
  | .done | .failed => 0

/-- The steps that a kernel has yet to take. -/
def GpuPoint.rest : GpuPoint → ℕ
  | .launched => 7
  | .spinning => 6
  | .readHi => 5
  | .readLo _ => 4
  | .readHi2 _ _ => 3
  | .store _ _ _ => 2
  | .signal => 1
  | .idle => 0

/-- What has yet to be done; a launch gives the kernel at most seven steps. -/
def SyncState.rest (s : SyncState) : ℕ := 8 * s.cpu.rest + s.gpu.rest

theorem exists_kernel_step (hbusy : s.gpu ≠ .idle)
    (hstart : s.gpu = .spinning → s.startBarrier ≠ 0) :
    ∃ s', Step cpuClock gpuClock s s' ∧ s'.cpu = s.cpu ∧ s'.rest < s.rest := by
  cases hgpu : s.gpu with
  | idle => exact absurd hgpu hbusy
  | launched => exact ⟨_, .ready hgpu, rfl, by simp [SyncState.rest, hgpu, GpuPoint.rest]⟩
  | spinning =>
      exact ⟨_, .started hgpu (hstart hgpu), rfl, by simp [SyncState.rest, hgpu, GpuPoint.rest]⟩
  | readHi => exact ⟨_, .readHi hgpu, rfl, by simp [SyncState.rest, hgpu, GpuPoint.rest]⟩
  | readLo t₁ => exact ⟨_, .readLo hgpu, rfl, by simp [SyncState.rest, hgpu, GpuPoint.rest]⟩
  | readHi2 t₁ t₂ => exact ⟨_, .readHi2 hgpu, rfl, by simp [SyncState.rest, hgpu, GpuPoint.rest]⟩
  | store t₁ t₂ t₃ => exact ⟨_, .store hgpu, rfl, by simp [SyncState.rest, hgpu, GpuPoint.rest]⟩
  | signal => exact ⟨_, .signal hgpu, rfl, by simp [SyncState.rest, hgpu, GpuPoint.rest]⟩

theorem rest_lt_of_cpu (hcpu : s'.cpu.rest < s.cpu.rest) (hgpu : s'.gpu.rest ≤ s.gpu.rest + 7) :
    s'.rest < s.rest := by
  simp only [SyncState.rest]
  omega

theorem SyncInv.exists_step (h : SyncInv cpuClock gpuClock s) (hdone : s.cpu ≠ .done)
    (hfailed : s.cpu ≠ .failed) :
    ∃ s', Step cpuClock gpuClock s s' ∧ s'.cpu ≠ .failed ∧ s'.rest < s.rest := by
  have hpoint := h.atPoint
  have hkernel (hbusy : s.gpu ≠ .idle) (hstart : s.gpu = .spinning → s.startBarrier ≠ 0) :
      ∃ s', Step cpuClock gpuClock s s' ∧ s'.cpu ≠ .failed ∧ s'.rest < s.rest := by
    obtain ⟨s', hstep, hcpu, hless⟩ := exists_kernel_step hbusy hstart
    exact ⟨s', hstep, hcpu ▸ hfailed, hless⟩
  cases hcpu : s.cpu with
  | done => exact absurd hcpu hdone
  | failed => exact absurd hcpu hfailed
  | setup =>
      simp only [AtPoint, hcpu] at hpoint
      refine ⟨_, .setup hcpu hpoint, by simp, ?_⟩
      apply rest_lt_of_cpu <;> simp [hcpu, hpoint, CpuPoint.rest, GpuPoint.rest]
  | openFirst =>
      refine ⟨_, .openFirst hcpu, by simp, ?_⟩
      apply rest_lt_of_cpu <;> simp [hcpu, CpuPoint.rest]
  | synchronize =>
      simp only [AtPoint, hcpu] at hpoint
      by_cases hidle : s.gpu = .idle
      · refine ⟨_, .synchronize hcpu hidle, by simp, ?_⟩
        apply rest_lt_of_cpu <;> simp [hcpu, CpuPoint.rest]
      · exact hkernel hidle fun _ => by simp [hpoint]
  | clearStart =>
      refine ⟨_, .clearStart hcpu, by simp, ?_⟩
      apply rest_lt_of_cpu <;> simp [hcpu, CpuPoint.rest]
  | clearEnd =>
      refine ⟨_, .clearEnd hcpu, by simp, ?_⟩
      apply rest_lt_of_cpu <;> simp [hcpu, CpuPoint.rest]
  | clearReady =>
      refine ⟨_, .clearReady hcpu, by simp, ?_⟩
      apply rest_lt_of_cpu <;> simp [hcpu, CpuPoint.rest]
  | launch =>
      simp only [AtPoint, hcpu] at hpoint
      refine ⟨_, .launch hcpu hpoint.1, by simp, ?_⟩
      apply rest_lt_of_cpu <;> simp [hcpu, hpoint.1, CpuPoint.rest, GpuPoint.rest]
  | waitReady =>
      simp only [AtPoint, hcpu] at hpoint
      rcases hpoint.2.2 with ⟨hgpu, -⟩ | ⟨-, hready⟩
      · exact hkernel (by simp [hgpu]) fun hspinning => by simp [hgpu] at hspinning
      · refine ⟨_, .waitReady hcpu hready, by simp, ?_⟩
        apply rest_lt_of_cpu <;> simp [hcpu, CpuPoint.rest]
  | readStart =>
      refine ⟨_, .readStart hcpu, by simp, ?_⟩
      apply rest_lt_of_cpu <;> simp [hcpu, CpuPoint.rest]
  | openStart =>
      refine ⟨_, .openStart hcpu, by simp, ?_⟩
      apply rest_lt_of_cpu <;> simp [hcpu, CpuPoint.rest]
  | waitEnd =>
      simp only [AtPoint, hcpu] at hpoint
      obtain ⟨hone, a, -, -, hrunning⟩ := hpoint
      by_cases hidle : s.gpu = .idle
      · simp only [Running, hidle] at hrunning
        refine ⟨_, .waitEnd hcpu hrunning.2, by simp, ?_⟩
        apply rest_lt_of_cpu <;> simp [hcpu, CpuPoint.rest]
      · exact hkernel hidle fun _ => by simp [hone]
  | readEnd =>
      refine ⟨_, .readEnd hcpu, by simp, ?_⟩
      apply rest_lt_of_cpu <;> simp [hcpu, CpuPoint.rest]
  | copy =>
      simp only [AtPoint, hcpu] at hpoint
      refine ⟨_, .copy hcpu hpoint.1, by simp, ?_⟩
      apply rest_lt_of_cpu <;> simp [hcpu, CpuPoint.rest]

theorem Reachable.tail (hs : Reachable cpuClock gpuClock s)
    (hstep : Step cpuClock gpuClock s s') : Reachable cpuClock gpuClock s' := by
  obtain ⟨s₀, hinitial, hrun⟩ := hs
  exact ⟨s₀, hinitial, hrun.tail hstep⟩

theorem run_pass (s : SyncState) (d : ℕ) :
    ReflTransGen (Step cpuClock gpuClock) s { s with now := s.now + d } := by
  induction d with
  | zero => exact .refl
  | succ d ih => exact ih.tail .pass

theorem globalTimer64_self (clock : ℕ → BitVec 64) (t : ℕ) :
    globalTimer64 clock t t t = clock t := by
  apply BitVec.eq_of_toNat_eq
  rw [globalTimer64, if_neg (not_not.mpr rfl), toNat_halves, toNat_globaltimerHi,
    toNat_globaltimerLo, Nat.div_add_mod']

/-- Memory that was used before. -/
def garbage : SyncState where
  now := 0
  cpu := .setup
  gpu := .idle
  startBarrier := 0xffffffff
  endBarrier := 0xffffffff
  readyBarrier := 0xffffffff
  deviceTime := 0xffffffff
  cpuStart := 0
  cpuEnd := 0
  cpuTime := 0
  gpuTime := 0

theorem isInitial_garbage : garbage.IsInitial := ⟨rfl, rfl, rfl, rfl⟩

/-- The kernel reads its clock at some time between the two readings of the host. -/
theorem exists_reading (cpuClock : ℕ → ℚ) (gpuClock : ℕ → BitVec 64) (a e d : ℕ) :
    ∃ s, Reachable cpuClock gpuClock s ∧ s.cpu = .done ∧ s.cpuStart = cpuClock a ∧
      s.cpuEnd = cpuClock (a + e + d) ∧
      s.cpuTime = (cpuClock (a + e + d) - cpuClock a) / 2 + cpuClock a ∧
      s.gpuTime = gpuClock (a + e) := by
  have hfirst : ReflTransGen (Step cpuClock gpuClock) garbage
      { garbage with
        cpu := .waitReady, gpu := .launched, startBarrier := 0, endBarrier := 0, readyBarrier := 0
        deviceTime := globalTimer64 gpuClock 0 0 0 } := by
    have hsetup : ReflTransGen (Step cpuClock gpuClock) garbage
        { garbage with cpu := .openFirst, gpu := .launched } := .single (.setup rfl rfl)
    have hkernel := hsetup.tail (.openFirst rfl) |>.tail (.ready rfl) |>.tail
      (.started rfl (by simp)) |>.tail (.readHi rfl)
      |>.tail (.readLo rfl) |>.tail (.readHi2 rfl) |>.tail (.store rfl) |>.tail (.signal rfl)
    exact hkernel.tail (.synchronize rfl rfl) |>.tail (.clearStart rfl) |>.tail (.clearEnd rfl)
      |>.tail (.clearReady rfl) |>.tail (.launch rfl rfl)
  have hstart := (hfirst.tail (.ready rfl)).tail (.waitReady rfl (by simp))
    |>.trans (run_pass _ a) |>.tail (.readStart rfl) |>.tail (.openStart rfl)
    |>.tail (.started rfl (by simp)) |>.trans (run_pass _ e)
  have hend := (hstart.tail (.readHi rfl)).tail (.readLo rfl) |>.tail (.readHi2 rfl)
    |>.tail (.store rfl) |>.tail (.signal rfl) |>.tail (.waitEnd rfl (by simp))
    |>.trans (run_pass _ d) |>.tail (.readEnd rfl) |>.tail (.copy rfl rfl)
  have htimes : garbage.now + a = a := Nat.zero_add a
  refine ⟨_, ⟨garbage, isInitial_garbage, hend⟩, rfl, ?_, ?_, ?_, ?_⟩
  · exact congrArg cpuClock htimes
  · exact congrArg (fun t => cpuClock (t + e + d)) htimes
  · exact congrArg (fun t => (cpuClock (t + e + d) - cpuClock t) / 2 + cpuClock t) htimes
  · exact (globalTimer64_self gpuClock _).trans (congrArg (fun t => gpuClock (t + e)) htimes)

end Progress

/-! ## Results -/

/-- Whatever the shared memory holds at first, the host can always come to an end unless a call
fails. -/
theorem clockSync_ends (cpuClock : ℕ → ℚ) (gpuClock : ℕ → BitVec 64) (s : SyncState)
    (hs : Reachable cpuClock gpuClock s) (hfailed : s.cpu ≠ .failed) :
    ∃ s', ReflTransGen (Step cpuClock gpuClock) s s' ∧ s'.cpu = .done := by
  induction hn : s.rest using Nat.strong_induction_on generalizing s with
  | _ n ih =>
      by_cases hdone : s.cpu = .done
      · exact ⟨s, .refl, hdone⟩
      · obtain ⟨next, hstep, hnext, hless⟩ := hs.syncInv.exists_step hdone hfailed
        obtain ⟨s', hrun, hend⟩ := ih _ (hn ▸ hless) next (hs.tail hstep) hnext rfl
        exact ⟨s', .head hstep hrun, hend⟩

/-- So can it with memory that was used before. -/
theorem clockSync_ends_garbage :
    ∃ s, ReflTransGen (Step (fun _ => 0) (fun _ => 0)) garbage s ∧ s.cpu = .done :=
  clockSync_ends (fun _ => 0) (fun _ => 0) garbage ⟨garbage, isInitial_garbage, .refl⟩ (by decide)

/-- The time of the kernel is one between those of its clock at the two readings of the host,
and the host takes the middle of these.  Where the clock of the host gives a unit to the values of
the other one, the middle is off by no more than half the time between the readings.  If a call
fails, the time of the kernel is 0. -/
theorem clockSync_error (cpuClock : ℕ → ℚ) (gpuClock : ℕ → BitVec 64)
    (hgpu : IsMonotone gpuClock) (s : SyncState) (hs : Reachable cpuClock gpuClock s) :
    (s.cpu = .done →
      (∃ a b, a ≤ b ∧ s.cpuStart = cpuClock a ∧ s.cpuEnd = cpuClock b ∧
        (gpuClock a).toNat ≤ s.gpuTime.toNat ∧ s.gpuTime.toNat ≤ (gpuClock b).toNat) ∧
      s.cpuTime = (s.cpuEnd - s.cpuStart) / 2 + s.cpuStart ∧
      ∀ seconds : ℕ → ℚ, Monotone seconds → (∀ t, seconds (gpuClock t).toNat = cpuClock t) →
        |s.cpuTime - seconds s.gpuTime.toNat| ≤ (s.cpuEnd - s.cpuStart) / 2) ∧
      (s.cpu = .failed → s.gpuTime = 0) := by
  refine ⟨fun hdone => ?_, fun hfailed => hs.syncInv.gpuTime (by simp [hfailed])⟩
  have hpoint := hs.syncInv.atPoint
  simp only [AtPoint, hdone] at hpoint
  obtain ⟨a, b, h, hgpuTime, -⟩ := hpoint
  obtain ⟨t₁, t₂, t₃, ha, h₁₂, h₂₃, hb, hvalue⟩ := h.stamped
  have hlow : (gpuClock a).toNat ≤ s.gpuTime.toNat := by
    rw [hgpuTime, hvalue]
    exact (hgpu ha).trans (le_globalTimer64 hgpu h₁₂ h₂₃)
  have hhigh : s.gpuTime.toNat ≤ (gpuClock b).toNat := by
    rw [hgpuTime, hvalue]
    exact (globalTimer64_le hgpu h₁₂ h₂₃).trans (hgpu hb)
  have hmiddle : s.cpuTime = (s.cpuEnd - s.cpuStart) / 2 + s.cpuStart := by
    rw [h.cpuTime, h.cpuStart, h.cpuEnd]
  refine ⟨⟨a, b, (ha.trans h₁₂).trans (h₂₃.trans hb), h.cpuStart, h.cpuEnd, hlow, hhigh⟩,
    hmiddle, fun seconds hseconds hagree => ?_⟩
  have hstart : s.cpuStart ≤ seconds s.gpuTime.toNat := by
    rw [h.cpuStart, ← hagree a]
    exact hseconds hlow
  have hend : seconds s.gpuTime.toNat ≤ s.cpuEnd := by
    rw [h.cpuEnd, ← hagree b]
    exact hseconds hhigh
  rw [hmiddle, abs_le]
  constructor <;> linarith

/-- The lower half of the clock rolls over between the readings of the host. -/
theorem clockSync_error_rollover :
    ∃ s : SyncState, s.cpu = .done ∧ s.gpuTime = rollover 1 ∧
      |s.cpuTime - s.gpuTime.toNat| ≤ (s.cpuEnd - s.cpuStart) / 2 := by
  obtain ⟨s, hs, hdone, -, -, -, hgpuTime⟩ :=
    exists_reading (fun t => ((rollover t).toNat : ℚ)) rollover 0 1 1
  have herror := (clockSync_error (fun t => ((rollover t).toNat : ℚ)) rollover isMonotone_rollover
    s hs).1 hdone
  exact ⟨s, hdone, hgpuTime, herror.2.2 (fun n => (n : ℚ)) Nat.mono_cast fun _ => rfl⟩

/-- The readings of the host say no more: with the same ones, the kernel may have read its clock
at the first as well as at the second. -/
theorem clockSync_error_attained (cpuClock : ℕ → ℚ) (gpuClock : ℕ → BitVec 64) (a d : ℕ) :
    ∃ s s', Reachable cpuClock gpuClock s ∧ Reachable cpuClock gpuClock s' ∧
      s.cpu = .done ∧ s'.cpu = .done ∧
      (s.cpuStart = cpuClock a ∧ s'.cpuStart = cpuClock a) ∧
      (s.cpuEnd = cpuClock (a + d) ∧ s'.cpuEnd = cpuClock (a + d)) ∧
      s.cpuTime = s'.cpuTime ∧ s.gpuTime = gpuClock a ∧ s'.gpuTime = gpuClock (a + d) := by
  obtain ⟨s, hs, hdone, hstart, hend, htime, hgpu⟩ := exists_reading cpuClock gpuClock a 0 d
  obtain ⟨s', hs', hdone', hstart', hend', htime', hgpu'⟩ := exists_reading cpuClock gpuClock a d 0
  exact ⟨s, s', hs, hs', hdone, hdone', ⟨hstart, hstart'⟩, ⟨hend, hend'⟩, htime.trans htime'.symm,
    hgpu, hgpu'⟩

end A100Partitioning.TaskHost.ClockSync
