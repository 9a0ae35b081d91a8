import A100Partitioning.Nvdebug.Machine

/-!
# The `copy_topology` file (`copy_topology_procfs.c`)

The file tells which physical copy engine, or which other logical one, each
logical copy engine (LCE) is mapped to.
-/

namespace A100Partitioning.Nvdebug

open Support

/-- `lce2pce_entry_t`: its type, and its `ce`. -/
inductive Lce2pceEntry where
  | invalidCe
  | sharedLce (ce : ℕ)
  | pce (ce : ℕ)
  deriving DecidableEq, Repr

/-- `get_lce_for_pce`. -/
def Machine.getLceForPce (s : Machine) (pceId : ℕ) : ℤ :=
  let check (res : ℤ) : ℤ := if res = 0xf then -enodev else res
  if s.chipId < 0x130 then -eopnotsupp
  else if s.chipId < 0x140 then
    let config := s.readlValue 0x0010402c
    if config = BitVec.allOnes 32 then -eio
    else if Bitfield.get (pceId * 4) 4 config = 0x7 then -enodev
    else check (Bitfield.get (pceId * 4) 4 config)
  else if s.chipId < 0x170 then
    let res := s.readlValue (0x00104040 + pceId * 4)
    if res = BitVec.allOnes 32 ∨ res = 0xbadf3000 then -eio else check res.toInt
  else
    let res := s.readlValue (0x00104100 + pceId * 4)
    if res = BitVec.allOnes 32 then -eio else check res.toInt

/-- `get_shared_lce_for_grce`. -/
def Machine.getSharedLceForGrce (s : Machine) (grceId : ℕ) : ℤ :=
  let check (config : BitVec 32) : ℤ :=
    if config = BitVec.allOnes 32 then -eio
    else if Bitfield.get 0 4 config = 0xf then -enodev
    else (Bitfield.get 0 4 config : ℤ)
  if s.chipId < 0x130 then -eopnotsupp
  else if s.chipId < 0x140 then
    let config := s.readlValue 0x00104034
    if config = BitVec.allOnes 32 then -eio
    else if config.getLsbD (grceId * 8 + 3) = false then -enodev
    else Bitfield.get (grceId * 8) 3 config
  else if s.chipId < 0x170 then
    check (s.readlValue (0x00104034 + grceId * 4))
  else check (s.readlValue (0x001041c0 + grceId * 4))

/-- The loop of `get_pces_for_lces` over PCEs.  The result is the error or 0;
`none` is a write past the end of the table, which has 32 entries. -/
def directLces (s : Machine) (cePceMap : BitVec 32) :
    List ℕ → List Lce2pceEntry → Option ℤ × List Lce2pceEntry
  | [], lce2pce => (some 0, lce2pce)
  | pceId :: pceIds, lce2pce =>
      let lce := s.getLceForPce pceId
      if cePceMap.getLsbD pceId = false ∨ lce = -enodev then
        directLces s cePceMap pceIds lce2pce
      else if lce < 0 then (some lce, lce2pce)
      else if 32 < lce then (some (-erange), lce2pce)
      else if lce = 32 then (none, lce2pce)
      else directLces s cePceMap pceIds (lce2pce.set lce.toNat (.pce pceId))

/-- The loop of `get_pces_for_lces` over GRCEs. -/
def sharedLces (s : Machine) :
    List ℕ → List Lce2pceEntry → Option ℤ × List Lce2pceEntry
  | [], lce2pce => (some 0, lce2pce)
  | grceId :: grceIds, lce2pce =>
      let sharedLce := s.getSharedLceForGrce grceId
      if lce2pce[grceId]? ≠ some .invalidCe ∨ sharedLce = -enodev then
        sharedLces s grceIds lce2pce
      else if sharedLce < 0 then (some sharedLce, lce2pce)
      else sharedLces s grceIds (lce2pce.set grceId (.sharedLce sharedLce.toNat))

/-- `get_pces_for_lces`. -/
def Machine.getPcesForLces (s : Machine) : Option ℤ × List Lce2pceEntry :=
  let lce2pce := List.replicate 32 .invalidCe
  let cePceMap := s.readlValue 0x00104028
  if cePceMap = BitVec.allOnes 32 then (some (-eio), lce2pce)
  else
    let direct := directLces s cePceMap (List.range 32) lce2pce
    if direct.1 = some 0 then sharedLces s (List.range 2) direct.2 else direct

/-- What the file prints for one LCE. -/
inductive CopyTopologyText where
  | pce (idx ce : ℕ)
  | lce (idx ce : ℕ)
  deriving DecidableEq, Repr

/-- `copy_topology_file_seq_start`, on the index and the table of the iterator.
`none` is the overrun in `get_pces_for_lces`. -/
def copyTopologyFileSeqStart (s : Machine) (pos idx : ℕ) :
    Option (Except ℤ Bool) × ℕ × List Lce2pceEntry :=
  let idx := if pos = 0 then 0 else idx
  let found := s.getPcesForLces
  (found.1.map fun err =>
    if err < 0 then .error err else .ok (decide (idx < 32)), idx, found.2)

/-- `copy_topology_file_seq_next`. -/
def copyTopologyFileSeqNext (idx : ℕ) : Bool × ℕ :=
  (decide (idx + 1 < 32), idx + 1)

/-- `copy_topology_file_seq_show`; `none` is a read past the end of the table. -/
def copyTopologyFileSeqShow (idx : ℕ) (lce2pce : List Lce2pceEntry) :
    Option (List CopyTopologyText) :=
  lce2pce[idx]?.map fun entry =>
    match entry with
    | .invalidCe => []
    | .sharedLce ce => [.lce idx ce]
    | .pce ce => [.pce idx ce]

end A100Partitioning.Nvdebug
