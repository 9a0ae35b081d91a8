import Mathlib.Data.List.Basic
import Mathlib.Tactic.Common

/-!
# Sequence files

A sequence file is read record by record through three callbacks that share an
iterator: `start` finds the record at a position, `showRecord` prints it, and
`next` goes on to the one after it.  The kernel decides when they are called.  A
record that does not fit the buffer is printed again, after another `start`, and
a read can end before a record, which the next read then starts from.
-/

namespace A100Partitioning.Support.SeqFile

universe u v w

/-- The callbacks.  `start` and `next` tell whether there is a record. -/
structure Ops (ι : Type u) (τ : Type v) (ε : Type w) where
  start : ℕ → ι → Except ε Bool × ι
  next : ι → Bool × ι
  showRecord : ι → Except ε τ × ι

variable {ι : Type u} {τ : Type v} {ε : Type w}

/-- What is printed from the record at a position on, in some sequence of
reads. -/
inductive Reads (ops : Ops ι τ ε) : ℕ → ι → List τ → Prop where
  | failed {pos : ℕ} {it it' : ι} {e : ε}
      (shown : ops.showRecord it = (.error e, it')) : Reads ops pos it []
  | last {pos : ℕ} {it it' it'' : ι} {text : τ}
      (shown : ops.showRecord it = (.ok text, it'))
      (next : ops.next it' = (false, it'')) : Reads ops pos it [text]
  | next {pos : ℕ} {it it' it'' : ι} {text : τ} {texts : List τ}
      (shown : ops.showRecord it = (.ok text, it'))
      (next : ops.next it' = (true, it'')) (rest : Reads ops (pos + 1) it'' texts) :
      Reads ops pos it (text :: texts)
  | again {pos : ℕ} {it it' it'' : ι} {text : τ} {texts : List τ}
      (shown : ops.showRecord it = (.ok text, it'))
      (start : ops.start pos it' = (.ok true, it''))
      (rest : Reads ops pos it'' texts) : Reads ops pos it texts
  | againFailed {pos : ℕ} {it it' it'' : ι} {text : τ} {found : Except ε Bool}
      (shown : ops.showRecord it = (.ok text, it'))
      (start : ops.start pos it' = (found, it''))
      (notFound : ∀ b, found = .ok b → b = false) : Reads ops pos it []
  | resume {pos : ℕ} {it it' : ι} {texts : List τ}
      (start : ops.start pos it = (.ok true, it'))
      (rest : Reads ops pos it' texts) : Reads ops pos it texts
  | resumeFailed {pos : ℕ} {it it' : ι} {found : Except ε Bool}
      (start : ops.start pos it = (found, it'))
      (notFound : ∀ b, found = .ok b → b = false) : Reads ops pos it []

/-- What is printed by reading a file to its end, from the iterator `init`. -/
inductive Reading (ops : Ops ι τ ε) (init : ι) : List τ → Prop where
  | records {it : ι} {texts : List τ} (start : ops.start 0 init = (.ok true, it))
      (rest : Reads ops 0 it texts) : Reading ops init texts
  | nothing {it : ι} {found : Except ε Bool}
      (start : ops.start 0 init = (found, it))
      (notFound : ∀ b, found = .ok b → b = false) : Reading ops init []

/-- The callbacks go over `n` records with these texts.  `before` holds of the
iterator until a record is printed, and `after` from then until `next`. -/
structure Prints (ops : Ops ι τ ε) (n : ℕ) (text : ℕ → τ)
    (before after : ℕ → ι → Prop) : Prop where
  showRecord : ∀ {pos it}, pos < n → before pos it →
    ∃ it', ops.showRecord it = (.ok (text pos), it') ∧ after pos it'
  next : ∀ {pos it}, pos < n → after pos it →
    ∃ it', ops.next it = (decide (pos + 1 < n), it') ∧
      (pos + 1 < n → before (pos + 1) it')
  again : ∀ {pos it}, pos < n → after pos it →
    ∃ it', ops.start pos it = (.ok true, it') ∧ before pos it'
  resume : ∀ {pos it}, pos < n → before pos it →
    ∃ it', ops.start pos it = (.ok true, it') ∧ before pos it'

namespace Prints

variable {ops : Ops ι τ ε} {n : ℕ} {text : ℕ → τ} {before after : ℕ → ι → Prop}

/-- However the reads go, the rest of the records is printed once and in
order. -/
theorem texts_eq (h : Prints ops n text before after) {pos : ℕ} {it : ι}
    {texts : List τ} (hreads : Reads ops pos it texts) (hpos : pos < n)
    (hbefore : before pos it) :
    texts = (List.range' pos (n - pos)).map text := by
  have hstart : ∀ {pos : ℕ} {it it' : ι} {found : Except ε Bool},
      (∃ it', ops.start pos it = (.ok true, it') ∧ before pos it') →
      ops.start pos it = (found, it') → found = .ok true ∧ before pos it' := by
    rintro pos it it' found ⟨_, hok, hbefore⟩ hstart
    rw [hok] at hstart
    cases hstart
    exact ⟨rfl, hbefore⟩
  induction hreads with
  | failed shown =>
      obtain ⟨_, hok, -⟩ := h.showRecord hpos hbefore
      rw [hok] at shown
      cases shown
  | @last pos it it' it'' _ shown next =>
      obtain ⟨_, hok, hafter⟩ := h.showRecord hpos hbefore
      rw [hok] at shown
      cases shown
      obtain ⟨_, hnext, -⟩ := h.next hpos hafter
      rw [hnext] at next
      have hlast : ¬ pos + 1 < n := of_decide_eq_false (Prod.mk.inj next).1
      have hone : n - pos = 1 := by omega
      rw [hone]
      rfl
  | @next pos it it' it'' _ texts shown next _ ih =>
      obtain ⟨_, hok, hafter⟩ := h.showRecord hpos hbefore
      rw [hok] at shown
      cases shown
      obtain ⟨_, hnext, hbefore'⟩ := h.next hpos hafter
      rw [hnext] at next
      obtain ⟨hdecide, rfl⟩ := Prod.mk.inj next
      have hmore : pos + 1 < n := of_decide_eq_true hdecide
      have hsub : n - pos = n - (pos + 1) + 1 := by omega
      rw [ih hmore (hbefore' hmore), hsub, List.range'_succ, List.map_cons]
  | again shown start _ ih =>
      obtain ⟨_, hok, hafter⟩ := h.showRecord hpos hbefore
      rw [hok] at shown
      cases shown
      exact ih hpos (hstart (h.again hpos hafter) start).2
  | againFailed shown start notFound =>
      obtain ⟨_, hok, hafter⟩ := h.showRecord hpos hbefore
      rw [hok] at shown
      cases shown
      have hfound := notFound true (hstart (h.again hpos hafter) start).1
      cases hfound
  | resume start _ ih =>
      exact ih hpos (hstart (h.resume hpos hbefore) start).2
  | resumeFailed start notFound =>
      have hfound := notFound true (hstart (h.resume hpos hbefore) start).1
      cases hfound

theorem exists_reads (h : Prints ops n text before after) {pos : ℕ} {it : ι}
    (hpos : pos < n) (hbefore : before pos it) :
    ∃ texts, Reads ops pos it texts := by
  induction hm : n - pos generalizing pos it with
  | zero => omega
  | succ m ih =>
      obtain ⟨it', hshow, hafter⟩ := h.showRecord hpos hbefore
      obtain ⟨it'', hnext, hbefore'⟩ := h.next hpos hafter
      by_cases hmore : pos + 1 < n
      · obtain ⟨texts, hrest⟩ := ih hmore (hbefore' hmore) (by omega)
        rw [decide_eq_true hmore] at hnext
        exact ⟨_, .next hshow hnext hrest⟩
      · rw [decide_eq_false hmore] at hnext
        exact ⟨_, .last hshow hnext⟩

/-- A file is read to its end with the same result, whatever the sizes of the
buffers. -/
theorem reading_iff (h : Prints ops n text before after) {init : ι}
    (hstart : ∃ it, ops.start 0 init = (.ok (decide (0 < n)), it) ∧
      (0 < n → before 0 it)) {texts : List τ} :
    Reading ops init texts ↔ texts = (List.range n).map text := by
  obtain ⟨it, hstart, hbefore⟩ := hstart
  constructor
  · intro hreading
    cases hreading with
    | records start rest =>
        rw [hstart] at start
        obtain ⟨hfound, rfl⟩ := Prod.mk.inj start
        have hpos : 0 < n := of_decide_eq_true (Except.ok.inj hfound)
        rw [h.texts_eq rest hpos (hbefore hpos), Nat.sub_zero,
          List.range_eq_range']
    | nothing start notFound =>
        rw [hstart] at start
        have hpos := notFound _ (Prod.mk.inj start).1.symm
        have hzero : n = 0 := Nat.eq_zero_of_not_pos (of_decide_eq_false hpos)
        rw [hzero]
        rfl
  · rintro rfl
    by_cases hpos : 0 < n
    · obtain ⟨texts, hreads⟩ := h.exists_reads hpos (hbefore hpos)
      have htexts := h.texts_eq hreads hpos (hbefore hpos)
      rw [Nat.sub_zero, ← List.range_eq_range'] at htexts
      rw [decide_eq_true hpos] at hstart
      exact .records hstart (htexts ▸ hreads)
    · rw [decide_eq_false hpos] at hstart
      rw [Nat.eq_zero_of_not_pos hpos]
      refine .nothing hstart ?_
      intro b hb
      cases hb
      rfl

end Prints

end A100Partitioning.Support.SeqFile
