import A100Partitioning.Nvtaskset.ComposeList
import A100Partitioning.Support.WriteLog

/-!
# The buffer for lists

`compose_list` prints into a static buffer of fixed size, one number, dash or comma at a time,
and looks at the byte before its position at the end.  Here it prints into a memory that has
this buffer somewhere.
-/

namespace A100Partitioning.Nvtaskset

open Support (Logged)

/-! ## The code -/

/-- The size of `list`. -/
def listSize : ℕ := 10 + 90 * 2 + 28 * 3 + 128

/-- The variables of `compose_list`, and the memory. -/
structure ComposeBuf where
  inRange : Bool
  lastEnabled : ℤ
  tail : ℕ
  memory : Logged Char

/-- `tail += sprintf(tail, ..)`, which prints this text. -/
def ComposeBuf.sprintf (b : ComposeBuf) (text : List Char) : ComposeBuf :=
  { b with
    tail := b.tail + text.length
    memory := b.memory.putAll b.tail (text ++ ['\x00']) }

/-- One turn of the loop. -/
def ComposeBuf.step (mask : BitVec 128) (b : ComposeBuf) (i : ℕ) : ComposeBuf :=
  let enabled := mask.getLsbD i
  if b.inRange then
    if enabled then { b with lastEnabled := i }
    else { b.sprintf (decimal b.lastEnabled ++ [',']) with inRange := false }
  else if enabled then
    if b.lastEnabled = i - 1 then
      { { b with inRange := true }.sprintf ['-'] with lastEnabled := i }
    else { b.sprintf (decimal i) with lastEnabled := i }
  else if b.lastEnabled = i - 1 then b.sprintf [',']
  else b

/-- The variables after some turns, with the buffer at address `list`. -/
def composeBufAt (list : ℕ) (mem : ℕ → Char) (mask : BitVec 128) (turns : ℕ) : ComposeBuf :=
  (List.range turns).foldl (ComposeBuf.step mask) ⟨false, -2, list, ⟨mem, []⟩⟩

/-- The trailing comma is stripped. -/
def ComposeBuf.strip (b : ComposeBuf) : Logged Char :=
  if b.memory.mem (b.tail - 1) = ',' then b.memory.put (b.tail - 1) '\x00' else b.memory

/-- `compose_list`. -/
def composeListInto (list : ℕ) (mem : ℕ → Char) (mask : BitVec 128) : Logged Char :=
  (composeBufAt list mem mask 128).strip

/-! ## What is meant -/

/-- A string ends within the buffer. -/
def EndsWithin (list : ℕ) (mem : ℕ → Char) : Prop := ∃ e < listSize, mem (list + e) = '\x00'

/-- The function writes only to the buffer, and the string it returns ends there. -/
structure StaysInList (list : ℕ) (mem : ℕ → Char) (mask : BitVec 128) : Prop where
  within : ∀ p ∈ (composeListInto list mem mask).log, list ≤ p ∧ p < list + listSize
  ends : EndsWithin list (composeListInto list mem mask).mem

/-- Memories in which the static buffer was only used by the function.  It is zero in the
beginning; what is outside changes as it likes. -/
inductive Used (list : ℕ) : (ℕ → Char) → Prop where
  | start {mem : ℕ → Char} (zero : ∀ k < listSize, mem (list + k) = '\x00') : Used list mem
  | call {mem : ℕ → Char} (before : Used list mem) (mask : BitVec 128) :
      Used list (composeListInto list mem mask).mem
  | other {mem mem' : ℕ → Char} (before : Used list mem)
      (same : ∀ k < listSize, mem' (list + k) = mem (list + k)) : Used list mem'

/-! ## What is printed -/

/-- The memory shows what has been printed. -/
structure Shows (list : ℕ) (mem : ℕ → Char) (s : Compose) (b : ComposeBuf) : Prop where
  inRange : b.inRange = s.inRange
  lastEnabled : b.lastEnabled = s.lastEnabled
  tail : b.tail = list + s.text.length
  text : ∀ k (hk : k < s.text.length), b.memory.mem (list + k) = s.text[k]
  terminated : s.text ≠ [] → b.memory.mem b.tail = '\x00'
  log : ∀ p ∈ b.memory.log, list ≤ p ∧ p ≤ b.tail
  blank : s.text = [] → b.memory = ⟨mem, []⟩

section Shows

variable {list : ℕ} {mem : ℕ → Char} {s : Compose} {b : ComposeBuf} {mask : BitVec 128}

theorem Shows.sprintf (h : Shows list mem s b) {text : List Char} (htext : text ≠ []) :
    Shows list mem { s with text := s.text ++ text } (b.sprintf text) := by
  have htail : b.tail + text.length = list + (s.text ++ text).length := by
    rw [h.tail, List.length_append, Nat.add_assoc]
  refine ⟨h.inRange, h.lastEnabled, htail, fun k hk => ?_, fun _ => ?_, fun p hp => ?_,
    fun hnil => absurd (List.append_eq_nil_iff.mp hnil).2 htext⟩
  · by_cases hold : k < s.text.length
    · rw [List.getElem_append_left hold, ← h.text k hold]
      exact Logged.putAll_of_outside _ (.inl (h.tail ▸ Nat.add_lt_add_left hold list))
    · obtain ⟨j, rfl⟩ := Nat.exists_eq_add_of_le (not_lt.mp hold)
      rw [List.length_append] at hk
      have hj : j < text.length := by omega
      have hplace := Logged.putAll_mem b.memory b.tail (text ++ ['\x00']) j
        (by rw [List.length_append]; omega)
      rw [h.tail, Nat.add_assoc, List.getElem_append_left hj] at hplace
      rw [List.getElem_append_right (Nat.le_add_right _ _)]
      simp only [Nat.add_sub_cancel_left]
      rw [← hplace, ← h.tail]
      rfl
  · have hplace := Logged.putAll_mem b.memory b.tail (text ++ ['\x00']) text.length
      (by rw [List.length_append, List.length_singleton]; omega)
    rw [List.getElem_concat_length rfl] at hplace
    exact hplace
  · rcases (Logged.mem_log_putAll _ _ _ _).mp hp with hold | ⟨hle, hlt⟩
    · obtain ⟨hle, hlt⟩ := h.log p hold
      exact ⟨hle, hlt.trans (Nat.le_add_right _ _)⟩
    · rw [List.length_append, List.length_singleton] at hlt
      rw [h.tail] at hle hlt
      rw [ComposeBuf.sprintf, h.tail]
      dsimp only
      omega

theorem Shows.of_vars (h : Shows list mem s b) {s' : Compose} {b' : ComposeBuf}
    (htext : s'.text = s.text) (htail : b'.tail = b.tail) (hmemory : b'.memory = b.memory)
    (hrange : b'.inRange = s'.inRange) (hlast : b'.lastEnabled = s'.lastEnabled) :
    Shows list mem s' b' := by
  cases s'
  cases b'
  subst htext htail hmemory
  exact ⟨hrange, hlast, h.tail, h.text, h.terminated, h.log, h.blank⟩

theorem decimal_ne_nil (n : ℤ) : decimal n ≠ [] := by
  cases n with
  | ofNat n => exact Nat.toDigits_ne_nil
  | negSucc n => exact List.cons_ne_nil _ _

theorem Shows.step (h : Shows list mem s b) (i : ℕ) :
    Shows list mem (s.step mask i) (b.step mask i) := by
  have hcomma := List.cons_ne_nil ',' []
  rw [Compose.step, ComposeBuf.step, h.inRange, h.lastEnabled]
  by_cases hrange : s.inRange = true
  · rw [if_pos hrange, if_pos hrange]
    by_cases henabled : mask.getLsbD i = true
    · rw [if_pos henabled, if_pos henabled]
      exact h.of_vars rfl rfl rfl rfl rfl
    · rw [if_neg henabled, if_neg henabled, List.append_assoc]
      have hprinted := h.sprintf (List.append_ne_nil_of_right_ne_nil
        (decimal s.lastEnabled) hcomma)
      exact hprinted.of_vars rfl rfl rfl rfl h.lastEnabled
  · rw [if_neg hrange, if_neg hrange]
    by_cases henabled : mask.getLsbD i = true
    · rw [if_pos henabled, if_pos henabled]
      by_cases hnext : s.lastEnabled = i - 1
      · rw [if_pos hnext, if_pos hnext]
        exact (h.sprintf (List.cons_ne_nil '-' [])).of_vars rfl rfl rfl rfl rfl
      · rw [if_neg hnext, if_neg hnext]
        exact (h.sprintf (decimal_ne_nil i)).of_vars rfl rfl rfl h.inRange rfl
    · rw [if_neg henabled, if_neg henabled]
      by_cases hlast : s.lastEnabled = i - 1
      · rw [if_pos hlast, if_pos hlast]
        exact (h.sprintf hcomma).of_vars rfl rfl rfl h.inRange h.lastEnabled
      · rw [if_neg hlast, if_neg hlast]
        exact h

/-- After any number of turns, the memory shows what `compose_list` has printed. -/
theorem shows_composeBufAt (list : ℕ) (mem : ℕ → Char) (mask : BitVec 128) (turns : ℕ) :
    Shows list mem (composeAt mask false turns) (composeBufAt list mem mask turns) := by
  induction turns with
  | zero =>
      exact ⟨rfl, rfl, rfl, fun k hk => absurd hk (Nat.not_lt_zero k), fun h => absurd rfl h,
        fun p hp => absurd hp List.not_mem_nil, fun _ => rfl⟩
  | succ turns ih =>
      rw [composeAt_succ, composeBufAt, List.range_succ, List.foldl_append]
      exact ih.step turns

end Shows

/-! ## How much is printed -/

/-- Room for the numbers below `i`, with a character behind each. -/
def room (i : ℕ) : ℕ := ((List.range i).map fun j => (Nat.toDigits 10 j).length + 1).sum

theorem room_succ (i : ℕ) : room (i + 1) = room i + ((Nat.toDigits 10 i).length + 1) := by
  rw [room, List.range_succ, List.map_append, List.sum_append, room, List.map_singleton,
    List.sum_singleton]

set_option maxRecDepth 4000 in
theorem room_eq_listSize : room 128 = listSize := by
  decide

/-- Within a range there is room for its end and a comma; otherwise one character is left
over. -/
structure HasRoom (s : Compose) (i : ℕ) : Prop where
  last : s.lastEnabled = -2 ∨ ∃ j < i, s.lastEnabled = j
  outside : s.inRange = false → s.text.length ≤ room i - 1
  inside : s.inRange = true → ∃ j, i = j + 1 ∧ s.lastEnabled = j ∧ s.text.length ≤ room j

section Room

variable {s : Compose} {mask : BitVec 128} {i : ℕ}

theorem HasRoom.step (h : HasRoom s i) : HasRoom (s.step mask i) (i + 1) := by
  have hroom := room_succ i
  have hlast : s.lastEnabled = -2 ∨ ∃ j < i + 1, s.lastEnabled = j := by
    rcases h.last with hnone | ⟨j, hj, heq⟩
    · exact .inl hnone
    · exact .inr ⟨j, hj.trans (Nat.lt_succ_self i), heq⟩
  have hnew : (i : ℤ) = -2 ∨ ∃ j < i + 1, (i : ℤ) = j := .inr ⟨i, Nat.lt_succ_self i, rfl⟩
  have hseen (hnext : s.lastEnabled = i - 1) : 0 < room i := by
    obtain ⟨j, hj, -⟩ := h.last.resolve_left (by omega)
    obtain ⟨k, rfl⟩ := Nat.exists_eq_add_of_lt hj
    rw [room_succ]
    omega
  have hstill {s' : Compose} (heq : s'.inRange = s.inRange) (hrange : ¬ s.inRange = true)
      (hinside : s'.inRange = true) : ∃ j, i + 1 = j + 1 ∧ s'.lastEnabled = j ∧
        s'.text.length ≤ room j := absurd (heq.symm.trans hinside) hrange
  rw [Compose.step]
  by_cases hrange : s.inRange = true
  · rw [if_pos hrange]
    obtain ⟨j, rfl, heq, hle⟩ := h.inside hrange
    have hj := room_succ j
    by_cases henabled : mask.getLsbD (j + 1) = true
    · rw [if_pos henabled]
      refine ⟨hnew, fun hfalse => ?_, fun _ => ⟨j + 1, rfl, rfl, ?_⟩⟩
      · exact absurd (hfalse.symm.trans hrange) Bool.false_ne_true
      · dsimp only
        omega
    · rw [if_neg henabled]
      refine ⟨hlast, fun _ => ?_, fun htrue => absurd htrue Bool.false_ne_true⟩
      rw [heq, decimal_natCast, List.length_append, List.length_append, List.length_singleton]
      omega
  · rw [if_neg hrange]
    have hle := h.outside (Bool.eq_false_iff.mpr hrange)
    by_cases henabled : mask.getLsbD i = true
    · rw [if_pos henabled]
      by_cases hnext : s.lastEnabled = i - 1
      · rw [if_pos hnext]
        refine ⟨hnew, fun hfalse => absurd hfalse.symm Bool.false_ne_true,
          fun _ => ⟨i, rfl, rfl, ?_⟩⟩
        have hpos := hseen hnext
        rw [List.length_append, List.length_singleton]
        omega
      · rw [if_neg hnext]
        refine ⟨hnew, fun _ => ?_, hstill rfl hrange⟩
        rw [List.length_append, decimal_natCast]
        omega
    · rw [if_neg henabled]
      by_cases hnext : s.lastEnabled = i - 1
      · rw [if_pos hnext]
        have hpos := hseen hnext
        refine ⟨hlast, fun _ => ?_, hstill rfl hrange⟩
        rw [List.length_append, List.length_singleton]
        omega
      · rw [if_neg hnext]
        exact ⟨hlast, fun _ => by omega, hstill rfl hrange⟩

theorem hasRoom_composeAt (mask : BitVec 128) (i : ℕ) : HasRoom (composeAt mask false i) i := by
  induction i with
  | zero => exact ⟨.inl rfl, fun _ => le_rfl, fun htrue => (nomatch htrue)⟩
  | succ i ih =>
      rw [composeAt_succ]
      exact ih.step

theorem length_composeAt_lt (mask : BitVec 128) :
    (composeAt mask false 128).text.length < listSize := by
  have h := hasRoom_composeAt mask 128
  have hsize := room_eq_listSize
  have hpos : 0 < listSize := by decide
  cases hrange : (composeAt mask false 128).inRange with
  | true =>
      obtain ⟨j, hj, -, hle⟩ := h.inside hrange
      have hroom := room_succ j
      rw [← hj] at hroom
      omega
  | false =>
      have hle := h.outside hrange
      omega

end Room

/-! ## The end of the list -/

theorem composeAt_of_text_eq_nil {mask : BitVec 128} {i : ℕ}
    (h : (composeAt mask false i).text = []) :
    composeAt mask false i = ⟨false, -2, []⟩ ∧ ∀ j < i, mask.getLsbD j = false := by
  induction i with
  | zero => exact ⟨rfl, fun j hj => absurd hj (Nat.not_lt_zero j)⟩
  | succ i ih =>
      rw [composeAt_succ] at h ⊢
      have hbefore : (composeAt mask false i).text = [] := by
        rw [Compose.step] at h
        split_ifs at h
        · exact h
        · exact absurd h (List.append_ne_nil_of_right_ne_nil _ (List.cons_ne_nil _ _))
        · exact absurd h (List.append_ne_nil_of_right_ne_nil _ (List.cons_ne_nil _ _))
        · exact absurd h (List.append_ne_nil_of_right_ne_nil _ (decimal_ne_nil _))
        · exact absurd h (List.append_ne_nil_of_right_ne_nil _ (List.cons_ne_nil _ _))
        · exact h
      obtain ⟨hstate, hclear⟩ := ih hbefore
      rw [hstate, Compose.step, if_neg Bool.false_ne_true] at h ⊢
      have hlast : ¬ (-2 : ℤ) = i - 1 := by omega
      by_cases hbit : mask.getLsbD i = true
      · rw [if_pos hbit, if_neg hlast] at h
        exact absurd h (decimal_ne_nil i)
      · rw [if_neg hbit, if_neg hlast]
        refine ⟨rfl, fun j hj => ?_⟩
        rcases Nat.lt_succ_iff_lt_or_eq.mp hj with hj | rfl
        · exact hclear j hj
        · exact Bool.eq_false_iff.mpr hbit

theorem composeAt_zero (i : ℕ) : composeAt 0 false i = ⟨false, -2, []⟩ := by
  induction i with
  | zero => rfl
  | succ i ih =>
      have hclear : (0 : BitVec 128).getLsbD i = false := BitVec.getLsbD_zero
      have hlast : ¬ (-2 : ℤ) = i - 1 := by omega
      rw [composeAt_succ, ih, Compose.step, if_neg Bool.false_ne_true, hclear,
        if_neg Bool.false_ne_true, if_neg hlast]

/-- The code prints nothing of the empty mask, and something of any other. -/
theorem text_eq_nil_iff (mask : BitVec 128) :
    (composeAt mask false 128).text = [] ↔ mask = 0 := by
  constructor
  · intro h
    apply BitVec.eq_of_getLsbD_eq
    intro j hj
    rw [(composeAt_of_text_eq_nil h).2 j hj]
    exact BitVec.getLsbD_zero.symm
  · rintro rfl
    rw [composeAt_zero]

theorem ComposeBuf.mem_log_strip {b : ComposeBuf} {p : ℕ} (hp : p ∈ b.strip.log) :
    p = b.tail - 1 ∨ p ∈ b.memory.log := by
  rw [ComposeBuf.strip] at hp
  split_ifs at hp
  · exact List.mem_cons.mp hp
  · exact .inr hp

theorem ComposeBuf.mem_strip {b : ComposeBuf} {p : ℕ} (hp : p ≠ b.tail - 1) :
    b.strip.mem p = b.memory.mem p := by
  rw [ComposeBuf.strip]
  split_ifs
  · exact Function.update_of_ne hp _ _
  · rfl

section Into

variable {list : ℕ} {mem : ℕ → Char} {mask : BitVec 128}

/-- Where nothing is printed, only the byte before the buffer may change. -/
theorem composeListInto_zero (list : ℕ) (mem : ℕ → Char) :
    composeListInto list mem 0 =
      if mem (list - 1) = ',' then Logged.put ⟨mem, []⟩ (list - 1) '\x00' else ⟨mem, []⟩ := by
  have hshows := shows_composeBufAt list mem 0 128
  have hnil := (text_eq_nil_iff 0).mpr rfl
  rw [composeListInto, ComposeBuf.strip, hshows.blank hnil, hshows.tail, hnil]
  rfl

theorem log_composeListInto (hmask : mask ≠ 0) {p : ℕ}
    (hp : p ∈ (composeListInto list mem mask).log) : list ≤ p ∧ p < list + listSize := by
  have hshows := shows_composeBufAt list mem mask 128
  have hlt := length_composeAt_lt mask
  have hpos := List.length_pos_iff.mpr (mt (text_eq_nil_iff mask).mp hmask)
  rw [composeListInto] at hp
  generalize composeBufAt list mem mask 128 = b at hshows hp
  rcases ComposeBuf.mem_log_strip hp with rfl | hp
  · rw [hshows.tail]
    omega
  · obtain ⟨hle, htail⟩ := hshows.log p hp
    rw [hshows.tail] at htail
    omega

theorem EndsWithin.composeListInto (hlist : 0 < list) (h : EndsWithin list mem)
    (mask : BitVec 128) : EndsWithin list (composeListInto list mem mask).mem := by
  have hshows := shows_composeBufAt list mem mask 128
  by_cases hnil : (composeAt mask false 128).text = []
  · obtain ⟨e, he, hzero⟩ := h
    refine ⟨e, he, ?_⟩
    have hplace : list + e ≠ (composeBufAt list mem mask 128).tail - 1 := by
      rw [hshows.tail, hnil, List.length_nil]
      omega
    rw [Nvtaskset.composeListInto, ComposeBuf.mem_strip hplace, hshows.blank hnil]
    exact hzero
  · have hpos := List.length_pos_iff.mpr hnil
    refine ⟨_, length_composeAt_lt mask, ?_⟩
    have hplace : list + (composeAt mask false 128).text.length ≠
        (composeBufAt list mem mask 128).tail - 1 := by
      rw [hshows.tail]
      omega
    rw [Nvtaskset.composeListInto, ComposeBuf.mem_strip hplace, ← hshows.tail]
    exact hshows.terminated hnil

theorem Used.endsWithin (hlist : 0 < list) (h : Used list mem) : EndsWithin list mem := by
  induction h with
  | start zero => exact ⟨0, by decide, zero 0 (by decide)⟩
  | call before mask ih => exact ih.composeListInto hlist mask
  | other before same ih =>
      obtain ⟨e, he, hzero⟩ := ih
      exact ⟨e, he, (same e he).trans hzero⟩

theorem composeListInto_text (hlist : 0 < list) (hmask : mask ≠ 0) (stale : List Char) :
    (∀ k (hk : k < (composeList stale false mask).length),
      (composeListInto list mem mask).mem (list + k) = (composeList stale false mask)[k]) ∧
    (composeListInto list mem mask).mem
      (list + (composeList stale false mask).length) = '\x00' := by
  have hshows := shows_composeBufAt list mem mask 128
  have hnil := mt (text_eq_nil_iff mask).mp hmask
  rw [composeListInto, composeList, if_neg hnil, ComposeBuf.strip]
  generalize composeAt mask false 128 = s at hshows hnil
  generalize composeBufAt list mem mask 128 = b at hshows
  have hpos := List.length_pos_iff.mpr hnil
  have hindex : b.tail - 1 = list + (s.text.length - 1) := by
    rw [hshows.tail]
    omega
  have hlast : s.text.getLast? = some (b.memory.mem (b.tail - 1)) := by
    rw [List.getLast?_eq_getElem?, hindex, hshows.text _ (by omega),
      List.getElem?_eq_getElem (by omega)]
  by_cases hcomma : b.memory.mem (b.tail - 1) = ','
  · rw [if_pos hcomma, if_pos (hlast.trans (congrArg some hcomma))]
    refine ⟨fun k hk => ?_, ?_⟩
    · rw [List.length_dropLast] at hk
      rw [List.getElem_dropLast]
      have hplace : list + k ≠ b.tail - 1 := by omega
      exact (Function.update_of_ne hplace _ _).trans (hshows.text k (by omega))
    · rw [List.length_dropLast, ← hindex]
      exact Function.update_self _ _ _
  · rw [if_neg hcomma, if_neg fun h => hcomma (Option.some.inj (hlast.symm.trans h)),
      ← hshows.tail]
    exact ⟨hshows.text, hshows.terminated hnil⟩

end Into

/-- The function stays in its buffer, but for the empty mask when the byte before the buffer
is a comma. -/
theorem staysInList_iff (list : ℕ) (mem : ℕ → Char) (mask : BitVec 128) (hlist : 0 < list)
    (hused : Used list mem) :
    StaysInList list mem mask ↔ mask ≠ 0 ∨ mem (list - 1) ≠ ',' := by
  constructor
  · rintro ⟨hwithin, -⟩
    by_contra! hcomma
    obtain ⟨rfl, hcomma⟩ := hcomma
    rw [composeListInto_zero, if_pos hcomma] at hwithin
    have hfirst := hwithin (list - 1) List.mem_cons_self
    omega
  · intro hmask
    refine ⟨fun p hp => ?_, (hused.endsWithin hlist).composeListInto hlist mask⟩
    by_cases hzero : mask = 0
    · subst hzero
      rw [composeListInto_zero, if_neg (hmask.resolve_left (not_not.mpr rfl))] at hp
      exact absurd hp List.not_mem_nil
    · exact log_composeListInto hzero hp

theorem staysInList_sevenTpcs : StaysInList 1 (fun _ => '\x00') 0x7f :=
  (staysInList_iff 1 (fun _ => '\x00') 0x7f Nat.one_pos (.start fun _ _ => rfl)).mpr
    (.inl (by decide))

/-- A comma right before the buffer is overwritten. -/
theorem not_staysInList :
    ∃ mem : ℕ → Char, Used 1 mem ∧ ¬ StaysInList 1 mem 0 := by
  refine ⟨fun p => if p = 0 then ',' else '\x00', .start fun k _ => ?_, fun h => ?_⟩
  · exact if_neg (by omega)
  · have hwithin := h.within
    rw [composeListInto_zero, if_pos (if_pos rfl)] at hwithin
    exact absurd (hwithin 0 List.mem_cons_self).1 (by decide)

end A100Partitioning.Nvtaskset
