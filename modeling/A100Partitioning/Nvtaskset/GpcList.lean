import A100Partitioning.Nvtaskset.ComposeList

/-!
# Printing the GPCs of a process

For `-g`, `nvtaskset` takes the enabled TPCs apart into GPCs.  It fails when
TPCs are left over, also when these are no TPCs of the GPU.
-/

namespace A100Partitioning.Nvtaskset

/-! ## The code -/

/-- The masks of the GPCs of a GPU. -/
structure Topology where
  gpcs : List (BitVec 128)
  disjoint : gpcs.Pairwise fun a b => a &&& b = 0
  nonempty : ∀ gpc ∈ gpcs, gpc ≠ 0

/-- The loop of `compose_gpc_list` from a GPC on: the mask of GPCs, and what is
left of the mask of TPCs.  The shift of an `int` is defined up to 30. -/
def findGpcs : ℕ → List (BitVec 128) → BitVec 128 → BitVec 128 →
    Except Failure (BitVec 128 × BitVec 128)
  | _, [], gpcMask, mask => .ok (gpcMask, mask)
  | gpc, bits :: rest, gpcMask, mask =>
      if bits &&& mask = bits then
        if gpc < 31 then
          findGpcs (gpc + 1) rest (gpcMask ||| (1 : BitVec 128) <<< gpc)
            (mask &&& ~~~ bits)
        else .error .undefined
      else findGpcs (gpc + 1) rest gpcMask mask

/-- `compose_gpc_list`.  Its process has not called `compose_list` before. -/
def composeGpcList (masks : List (BitVec 128)) (inRange : Bool)
    (mask : BitVec 128) : Except Failure (List Char) := do
  let (gpcMask, mask) ← findGpcs 0 masks 0 mask
  if mask ≠ 0 then .error .notGpcs
  else .ok (composeList [] inRange gpcMask)

/-- What `-g -p` prints for a process with a supreme mask. -/
def queryGpcs (t : Topology) (inRange : Bool) (supreme : BitVec 128) :
    Except Failure (List Char) :=
  composeGpcList t.gpcs inRange (~~~ supreme)

/-! ## Taking a mask apart -/

theorem and_eq_left_iff {a b : BitVec 128} :
    a &&& b = a ↔ ∀ i, a.getLsbD i = true → b.getLsbD i = true := by
  constructor
  · intro h i ha
    rw [← h, BitVec.getLsbD_and, Bool.and_eq_true] at ha
    exact ha.2
  · intro h
    refine BitVec.eq_of_getLsbD_eq fun i _ => ?_
    rw [BitVec.getLsbD_and]
    cases ha : a.getLsbD i with
    | false => rfl
    | true => rw [h i ha, Bool.true_and]

theorem and_eq_zero_iff {a b : BitVec 128} :
    a &&& b = 0 ↔ ∀ i, a.getLsbD i = true → b.getLsbD i = false := by
  constructor
  · intro h i ha
    have hbit : (a &&& b).getLsbD i = false := by
      rw [h]
      exact BitVec.getLsbD_zero
    rwa [BitVec.getLsbD_and, ha, Bool.true_and] at hbit
  · intro h
    refine BitVec.eq_of_getLsbD_eq fun i _ => ?_
    rw [BitVec.getLsbD_and]
    cases ha : a.getLsbD i with
    | false => exact BitVec.getLsbD_zero.symm
    | true =>
        rw [h i ha, Bool.true_and]
        exact BitVec.getLsbD_zero.symm

/-- Taking a GPC away does not change whether another one is enabled. -/
theorem enabled_diff {bits other mask : BitVec 128} (h : bits &&& other = 0) :
    other &&& (mask &&& ~~~ bits) = other ↔ other &&& mask = other := by
  rw [and_eq_left_iff, and_eq_left_iff]
  refine forall_congr' fun i => imp_congr_right fun hother => ?_
  rw [BitVec.getLsbD_and, Bool.and_eq_true, and_iff_left_iff_imp]
  intro hmask
  have hi : i < 128 := BitVec.lt_of_getLsbD hother
  rw [BitVec.getLsbD_not, decide_eq_true hi, Bool.true_and, Bool.not_eq_true']
  cases hbits : bits.getLsbD i with
  | false => rfl
  | true =>
      have hclear := and_eq_zero_iff.mp h i hbits
      exact absurd (hclear.symm.trans hother) Bool.false_ne_true

/-- A GPC of a list is wholly enabled. -/
def EnabledAt (masks : List (BitVec 128)) (mask : BitVec 128) (k : ℕ) : Prop :=
  ∃ bits, masks[k]? = some bits ∧ bits &&& mask = bits

theorem enabledAt_zero {bits : BitVec 128} {rest : List (BitVec 128)}
    {mask : BitVec 128} :
    EnabledAt (bits :: rest) mask 0 ↔ bits &&& mask = bits := by
  rw [EnabledAt, List.getElem?_cons_zero]
  exact ⟨fun ⟨_, heq, h⟩ => Option.some.inj heq ▸ h, fun h => ⟨bits, rfl, h⟩⟩

theorem enabledAt_succ {bits : BitVec 128} {rest : List (BitVec 128)}
    {mask : BitVec 128} {k : ℕ} :
    EnabledAt (bits :: rest) mask (k + 1) ↔ EnabledAt rest mask k := Iff.rfl

theorem enabledAt_diff {bits mask : BitVec 128} {rest : List (BitVec 128)}
    (h : ∀ other ∈ rest, bits &&& other = 0) (k : ℕ) :
    EnabledAt rest (mask &&& ~~~ bits) k ↔ EnabledAt rest mask k := by
  rw [EnabledAt, EnabledAt]
  refine exists_congr fun other => and_congr_right fun hother => ?_
  exact enabled_diff (h other (List.mem_of_getElem? hother))

/-- What the loop finds: the enabled GPCs, and the TPCs of no enabled GPC. -/
structure Finds (gpc : ℕ) (masks : List (BitVec 128)) (gpcMask mask : BitVec 128)
    (found : BitVec 128 × BitVec 128) : Prop where
  gpcs : ∀ i, i < 128 → (found.1.getLsbD i = true ↔
    gpcMask.getLsbD i = true ∨ ∃ k, EnabledAt masks mask k ∧ gpc + k = i)
  rest : ∀ i, found.2.getLsbD i = true ↔ mask.getLsbD i = true ∧
    ¬ ∃ bits ∈ masks, bits &&& mask = bits ∧ bits.getLsbD i = true

theorem findGpcs_ok {gpc : ℕ} {masks : List (BitVec 128)}
    (hdisjoint : masks.Pairwise fun a b => a &&& b = 0) {gpcMask mask : BitVec 128}
    (hshift : ∀ k, EnabledAt masks mask k → gpc + k < 31) :
    ∃ found, findGpcs gpc masks gpcMask mask = .ok found ∧
      Finds gpc masks gpcMask mask found := by
  induction masks generalizing gpc gpcMask mask with
  | nil =>
      refine ⟨_, rfl, fun i _ => ⟨.inl, ?_⟩, fun i => ⟨fun h => ⟨h, ?_⟩, And.left⟩⟩
      · rintro (h | ⟨k, ⟨bits, hbits, -⟩, -⟩)
        · exact h
        · cases hbits
      · rintro ⟨bits, hbits, -⟩
        cases hbits
  | cons bits rest ih =>
      obtain ⟨hfirst, hrest⟩ := List.pairwise_cons.mp hdisjoint
      by_cases henabled : bits &&& mask = bits
      · have hlt : gpc < 31 := hshift 0 (enabledAt_zero.mpr henabled)
        obtain ⟨found, hfound, hgpcs, hleft⟩ := @ih (gpc + 1) hrest _ _
          fun k hk => by
            have hnext := hshift (k + 1)
              (enabledAt_succ.mpr ((enabledAt_diff hfirst k).mp hk))
            omega
        refine ⟨found, ?_, fun i hi => ?_, fun i => ?_⟩
        · rw [findGpcs, if_pos henabled, if_pos hlt, hfound]
        · have hone : ((1 : BitVec 128) <<< gpc).getLsbD i = true ↔ gpc = i :=
            (getLsbD_bits_none 0 gpc i).trans (and_iff_left hi)
          rw [hgpcs i hi, BitVec.getLsbD_or, Bool.or_eq_true, hone, or_assoc]
          refine or_congr_right ⟨?_, ?_⟩
          · rintro (rfl | ⟨k, hk, hki⟩)
            · exact ⟨0, enabledAt_zero.mpr henabled, rfl⟩
            · exact ⟨k + 1, enabledAt_succ.mpr ((enabledAt_diff hfirst k).mp hk),
                by omega⟩
          · rintro ⟨k, hk, hki⟩
            cases k with
            | zero => exact .inl hki
            | succ k =>
                exact .inr ⟨k, (enabledAt_diff hfirst k).mpr (enabledAt_succ.mp hk),
                  by omega⟩
        · rw [hleft, BitVec.getLsbD_and, Bool.and_eq_true, and_assoc]
          refine and_congr_right fun hmask => ?_
          have hi : i < 128 := BitVec.lt_of_getLsbD hmask
          rw [BitVec.getLsbD_not, decide_eq_true hi, Bool.true_and,
            Bool.not_eq_true', ← Bool.not_eq_true, ← not_or]
          refine not_congr ?_
          simp only [List.mem_cons, exists_eq_or_imp]
          refine or_congr (and_iff_right henabled).symm
            (exists_congr fun other => and_congr_right fun hother => ?_)
          rw [enabled_diff (hfirst other hother)]
      · obtain ⟨found, hfound, hgpcs, hleft⟩ := @ih (gpc + 1) hrest _ _
          fun k hk => by
            have hnext := hshift (k + 1) (enabledAt_succ.mpr hk)
            omega
        refine ⟨found, ?_, fun i hi => ?_, fun i => ?_⟩
        · rw [findGpcs, if_neg henabled, hfound]
        · rw [hgpcs i hi]
          refine or_congr_right ⟨?_, ?_⟩
          · rintro ⟨k, hk, hki⟩
            exact ⟨k + 1, enabledAt_succ.mpr hk, by omega⟩
          · rintro ⟨k, hk, hki⟩
            cases k with
            | zero => exact absurd (enabledAt_zero.mp hk) henabled
            | succ k => exact ⟨k, enabledAt_succ.mp hk, by omega⟩
        · rw [hleft]
          simp only [List.mem_cons, exists_eq_or_imp, henabled, false_and, false_or]

theorem findGpcs_undefined {gpc : ℕ} {masks : List (BitVec 128)}
    (hdisjoint : masks.Pairwise fun a b => a &&& b = 0) {gpcMask mask : BitVec 128}
    {k : ℕ} (hk : EnabledAt masks mask k) (hle : 31 ≤ gpc + k) :
    findGpcs gpc masks gpcMask mask = .error .undefined := by
  induction masks generalizing gpc gpcMask mask k with
  | nil =>
      obtain ⟨bits, hbits, -⟩ := hk
      cases hbits
  | cons bits rest ih =>
      obtain ⟨hfirst, hrest⟩ := List.pairwise_cons.mp hdisjoint
      rw [findGpcs]
      by_cases henabled : bits &&& mask = bits
      · rw [if_pos henabled]
        split_ifs with hlt
        · cases k with
          | zero => omega
          | succ k =>
              exact ih hrest
                ((enabledAt_diff hfirst k).mpr (enabledAt_succ.mp hk)) (by omega)
        · rfl
      · rw [if_neg henabled]
        cases k with
        | zero => exact absurd (enabledAt_zero.mp hk) henabled
        | succ k => exact ih hrest (enabledAt_succ.mp hk) (by omega)

/-! ## The query -/

/-- The enabled TPCs that exist are those of whole GPCs. -/
def WholeGpcs (t : Topology) (supreme : BitVec 128) : Prop :=
  ∀ gpc ∈ t.gpcs, gpc &&& ~~~ supreme = gpc ∨ gpc &&& ~~~ supreme = 0

/-- All enabled TPCs exist. -/
def AllExist (t : Topology) (supreme : BitVec 128) : Prop :=
  ∀ i, (~~~ supreme).getLsbD i = true → ∃ gpc ∈ t.gpcs, gpc.getLsbD i = true

/-- The query prints exactly the enabled GPCs, and nothing when there are
none. -/
def PrintsGpcs (t : Topology) (inRange : Bool) (supreme : BitVec 128) : Prop :=
  ∃ list, queryGpcs t inRange supreme = .ok list ∧
    ((∃ k, EnabledAt t.gpcs (~~~ supreme) k) →
      WellFormed t.gpcs.length list ∧
        ∀ id, Lists list id ↔ EnabledAt t.gpcs (~~~ supreme) id) ∧
    ((¬ ∃ k, EnabledAt t.gpcs (~~~ supreme) k) → list = [])

/-- Nothing is left of the mask exactly when all enabled TPCs exist. -/
theorem rest_eq_zero_iff {t : Topology} {supreme gpcMask : BitVec 128}
    {found : BitVec 128 × BitVec 128} (hwhole : WholeGpcs t supreme)
    (h : Finds 0 t.gpcs gpcMask (~~~ supreme) found) :
    found.2 = 0 ↔ AllExist t supreme := by
  constructor
  · intro hzero i hi
    by_contra hnone
    have hbit := (h.rest i).mpr ⟨hi, fun ⟨bits, hbits, _, hset⟩ =>
      hnone ⟨bits, hbits, hset⟩⟩
    rw [hzero] at hbit
    exact Bool.false_ne_true (BitVec.getLsbD_zero.symm.trans hbit)
  · intro hall
    refine BitVec.eq_of_getLsbD_eq fun i _ => ?_
    refine Eq.trans (Bool.eq_false_iff.mpr fun hbit => ?_) BitVec.getLsbD_zero.symm
    obtain ⟨hi, hnone⟩ := (h.rest i).mp hbit
    obtain ⟨gpc, hgpc, hset⟩ := hall i hi
    rcases hwhole gpc hgpc with henabled | hdisabled
    · exact hnone ⟨gpc, hgpc, henabled, hset⟩
    · exact Bool.false_ne_true ((and_eq_zero_iff.mp hdisabled i hset).symm.trans hi)

theorem lt_length_of_enabledAt {masks : List (BitVec 128)} {mask : BitVec 128}
    {k : ℕ} (h : EnabledAt masks mask k) : k < masks.length := by
  obtain ⟨bits, hbits, -⟩ := h
  exact (List.getElem?_eq_some_iff.mp hbits).1

theorem Finds.getLsbD_iff {masks : List (BitVec 128)} {mask : BitVec 128}
    {found : BitVec 128 × BitVec 128} (h : Finds 0 masks 0 mask found)
    (hshift : ∀ k, EnabledAt masks mask k → k < 31) (id : ℕ) :
    found.1.getLsbD id = true ↔ EnabledAt masks mask id := by
  by_cases hid : id < 128
  · have hzero : (0 : BitVec 128).getLsbD id = false := BitVec.getLsbD_zero
    rw [h.gpcs id hid, hzero, or_iff_right Bool.false_ne_true]
    exact ⟨fun ⟨k, hk, heq⟩ => (Nat.zero_add k).symm.trans heq ▸ hk,
      fun hk => ⟨id, hk, Nat.zero_add id⟩⟩
  · refine iff_of_false ?_ fun hk => absurd (hshift id hk) (by omega)
    rw [BitVec.getLsbD_of_ge found.1 id (not_lt.mp hid)]
    exact Bool.false_ne_true

/-- When the query prints the enabled GPCs of a process that is restricted to
whole GPCs. -/
theorem printsGpcs_iff {t : Topology} {supreme : BitVec 128}
    (hwhole : WholeGpcs t supreme) (inRange : Bool) :
    PrintsGpcs t inRange supreme ↔
      AllExist t supreme ∧
      (∀ k, EnabledAt t.gpcs (~~~ supreme) k → k < 31) ∧
      (inRange = true → EnabledAt t.gpcs (~~~ supreme) 0 ∧
        ¬ EnabledAt t.gpcs (~~~ supreme) 1) := by
  by_cases hshift : ∀ k, EnabledAt t.gpcs (~~~ supreme) k → k < 31
  · obtain ⟨found, hfound, hfinds⟩ := @findGpcs_ok 0 _ t.disjoint 0 (~~~ supreme)
      fun k hk => by
        have hlt := hshift k hk
        omega
    have hgpcs := hfinds.getLsbD_iff hshift
    have hquery : queryGpcs t inRange supreme =
        if found.2 ≠ 0 then .error .notGpcs
        else .ok (composeList [] inRange found.1) := by
      rw [queryGpcs, composeGpcList, hfound]
      rfl
    rw [← rest_eq_zero_iff hwhole hfinds, and_iff_right hshift, PrintsGpcs, hquery]
    by_cases hrest : found.2 = 0
    · rw [if_neg (not_not_intro hrest), and_iff_right hrest]
      by_cases hnone : ∃ k, EnabledAt t.gpcs (~~~ supreme) k
      · obtain ⟨k, hk⟩ := hnone
        have hmask : found.1 ≠ 0 := by
          intro hzero
          have hbit := (hgpcs k).mpr hk
          rw [hzero] at hbit
          exact Bool.false_ne_true (BitVec.getLsbD_zero.symm.trans hbit)
        have hends : ¬ EndsInRange found.1 := fun hends =>
          absurd (hshift 126 ((hgpcs 126).mp hends.1)) (by decide)
        have hlists := composeList_listsBits_iff hmask hends
          (fun id hid => lt_length_of_enabledAt ((hgpcs id).mp hid)) [] inRange
        rw [ListsBits, hgpcs 0, ← Bool.not_eq_true, hgpcs 1] at hlists
        rw [← hlists]
        simp only [hgpcs]
        refine ⟨fun ⟨list, hlist, hexact, _⟩ => ?_,
          fun hexact => ⟨_, rfl, fun _ => hexact, fun h => absurd ⟨k, hk⟩ h⟩⟩
        rw [Except.ok.inj hlist]
        exact hexact ⟨k, hk⟩
      · have hmask : found.1 = 0 := by
          refine BitVec.eq_of_getLsbD_eq fun i _ => ?_
          exact (Bool.eq_false_iff.mpr fun hbit =>
            hnone ⟨i, (hgpcs i).mp hbit⟩).trans BitVec.getLsbD_zero.symm
        rw [hmask]
        cases inRange with
        | false =>
            refine iff_of_true ⟨_, rfl, fun h => absurd h hnone, fun _ => ?_⟩
              fun h => (nomatch h)
            exact composeList_zero []
        | true =>
            refine iff_of_false ?_ fun h => hnone ⟨0, (h rfl).1⟩
            rintro ⟨list, hlist, -, hempty⟩
            rw [composeList_true_zero] at hlist
            cases hlist
            cases hempty hnone
    · rw [if_pos hrest]
      refine iff_of_false ?_ fun h => hrest h.1
      rintro ⟨list, hlist, -⟩
      cases hlist
  · refine iff_of_false ?_ fun h => hshift h.2.1
    rintro ⟨list, hlist, -⟩
    simp only [not_forall, not_lt] at hshift
    obtain ⟨k, hk, hle⟩ := hshift
    rw [queryGpcs, composeGpcList, findGpcs_undefined t.disjoint hk (by omega)]
      at hlist
    cases hlist

/-! ## After setting GPCs -/

/-- The GPCs that `parse_list` looks up. -/
def Topology.xpcs (t : Topology) : Xpcs :=
  ⟨BitVec.ofNat 32 t.gpcs.length, some fun id => t.gpcs.getD id 0⟩

theorem Topology.getLsbD_unique (t : Topology) {k l : ℕ} {a b : BitVec 128}
    (ha : t.gpcs[k]? = some a) (hb : t.gpcs[l]? = some b) {i : ℕ}
    (hai : a.getLsbD i = true) (hbi : b.getLsbD i = true) : k = l := by
  obtain ⟨hk, rfl⟩ := List.getElem?_eq_some_iff.mp ha
  obtain ⟨hl, rfl⟩ := List.getElem?_eq_some_iff.mp hb
  have hdisjoint := List.pairwise_iff_getElem.mp t.disjoint
  rcases Nat.lt_trichotomy k l with hlt | heq | hlt
  · have hclear := and_eq_zero_iff.mp (hdisjoint k l hk hl hlt) i hai
    exact absurd (hclear.symm.trans hbi) Bool.false_ne_true
  · exact heq
  · have hclear := and_eq_zero_iff.mp (hdisjoint l k hl hk hlt) i hbi
    exact absurd (hclear.symm.trans hai) Bool.false_ne_true

/-- A list of GPCs that is accepted leaves whole GPCs enabled, and no TPC that
does not exist. -/
theorem wholeGpcs_of_parseList {t : Topology} {list : List Char}
    {mask : BitVec 128} (h : parseList t.xpcs list = .ok mask) :
    WholeGpcs t (~~~ mask) ∧ AllExist t (~~~ mask) := by
  have hlisted : ∀ i, mask.getLsbD i = true ↔ ∃ item ∈ list.splitOn ',',
      ∃ id, (itemStart item).toNat ≤ id ∧ id < (itemEnd item).toNat + 1 ∧
        ∃ gpc, t.gpcs[id]? = some gpc ∧ gpc.getLsbD i = true := by
    intro i
    rw [getLsbD_of_parseList_ok h]
    refine exists_congr fun item => and_congr_right fun _ => exists_congr fun id =>
      and_congr_right fun _ => and_congr_right fun _ => ?_
    change (t.gpcs.getD id 0).getLsbD i = true ↔ _
    rw [List.getD_eq_getElem?_getD]
    cases hgpc : t.gpcs[id]? with
    | none =>
        refine iff_of_false (fun hbit => ?_) fun ⟨_, hsome, _⟩ => by cases hsome
        exact Bool.false_ne_true (BitVec.getLsbD_zero.symm.trans hbit)
    | some gpc =>
        exact ⟨fun hbit => ⟨gpc, rfl, hbit⟩,
          fun ⟨_, hsome, hbit⟩ => Option.some.inj hsome ▸ hbit⟩
  rw [WholeGpcs, AllExist, BitVec.not_not]
  refine ⟨fun gpc hgpc => ?_, fun i hi => ?_⟩
  · obtain ⟨k, hk⟩ := List.getElem?_of_mem hgpc
    by_cases hnamed : ∃ item ∈ list.splitOn ',',
        (itemStart item).toNat ≤ k ∧ k < (itemEnd item).toNat + 1
    · obtain ⟨item, hitem, hfirst, hlast⟩ := hnamed
      exact .inl (and_eq_left_iff.mpr fun i hi =>
        (hlisted i).mpr ⟨item, hitem, k, hfirst, hlast, gpc, hk, hi⟩)
    · refine .inr (and_eq_zero_iff.mpr fun i hi => Bool.eq_false_iff.mpr fun hmask => ?_)
      obtain ⟨item, hitem, id, hfirst, hlast, other, hid, hother⟩ :=
        (hlisted i).mp hmask
      have heq := t.getLsbD_unique hk hid hi hother
      exact hnamed ⟨item, hitem, by omega, by omega⟩
  · obtain ⟨item, -, id, -, -, gpc, hgpc, hbit⟩ := (hlisted i).mp hi
    exact ⟨gpc, List.mem_of_getElem? hgpc, hbit⟩

/-- When the query prints the enabled GPCs of a process that is restricted to
whole GPCs.  A mask that was set with `-g` is such a restriction, and has no
enabled TPCs that do not exist. -/
theorem queryGpcs_prints_iff (t : Topology) :
    (∀ supreme inRange, WholeGpcs t supreme →
      (PrintsGpcs t inRange supreme ↔
        AllExist t supreme ∧
        (∀ k, EnabledAt t.gpcs (~~~ supreme) k → k < 31) ∧
        (inRange = true → EnabledAt t.gpcs (~~~ supreme) 0 ∧
          ¬ EnabledAt t.gpcs (~~~ supreme) 1))) ∧
    ∀ list mask, parseList t.xpcs list = .ok mask →
      WholeGpcs t (~~~ mask) ∧ AllExist t (~~~ mask) :=
  ⟨fun _ inRange hwhole => printsGpcs_iff hwhole inRange,
    fun _ _ h => wholeGpcs_of_parseList h⟩

/-- A GPU with two GPCs of four TPCs. -/
def twoGpcs : Topology where
  gpcs := [0x0f, 0xf0]
  disjoint := by simp
  nonempty := by simp

/-- Without any restriction, the query fails. -/
theorem queryGpcs_zero :
    queryGpcs twoGpcs false 0 = .error .notGpcs ∧ WholeGpcs twoGpcs 0 ∧
      ¬ PrintsGpcs twoGpcs false 0 := by
  have hquery : queryGpcs twoGpcs false 0 = .error .notGpcs := by decide
  refine ⟨hquery, fun gpc _ => .inl ?_, ?_⟩
  · rw [show ~~~ (0 : BitVec 128) = BitVec.allOnes 128 from BitVec.not_zero,
      BitVec.and_allOnes]
  · rintro ⟨list, hlist, -⟩
    rw [hquery] at hlist
    cases hlist

/-- After `-g 1` it prints that GPC. -/
theorem queryGpcs_prints_one : PrintsGpcs twoGpcs false (~~~ 0xf0) := by
  have hset : parseList twoGpcs.xpcs ['1'] = .ok 0xf0 := by decide
  obtain ⟨hwhole, hexist⟩ := (queryGpcs_prints_iff twoGpcs).2 ['1'] 0xf0 hset
  refine ((queryGpcs_prints_iff twoGpcs).1 _ false hwhole).mpr
    ⟨hexist, fun k hk => ?_, fun h => (nomatch h)⟩
  have hlt : k < 2 := lt_length_of_enabledAt hk
  omega

end A100Partitioning.Nvtaskset
