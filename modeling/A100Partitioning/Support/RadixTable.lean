import Mathlib.Tactic

/-!
# Walking and searching a radix table

A radix table is a graph of nodes whose slots, selected by keys, hold a further
node, a leaf, or nothing usable.  A forward walk consumes one key per level.
The reverse search enumerates the keys of every level in order and returns the
first leaf it accepts; a slot it cannot get past either is skipped or blocks the
whole search.

Nothing here fixes what a node, a key or a leaf is.  The main result,
`find_spec`, characterizes the search by forward walks: whatever it returns was
met on a path before which every walk is idle.
-/

namespace A100Partitioning.Support.RadixTable

universe u

/-- The contents of one slot: a further node, a leaf, or the reason why the
walk cannot continue. -/
inductive Slot (ν ε μ : Type u) where
  | table (next : ν)
  | leaf (entry : ε)
  | miss (reason : μ)

variable {ν κ ε μ : Type u}

/-! ## Forward walks -/

section Walk

variable (slot : ν → κ → Slot ν ε μ) (bottom : μ)

/-- Follow one key per level; `bottom` is the outcome of a walk that runs out
of keys at a node. -/
def walk : List κ → ν → Except μ ε
  | [], _ => .error bottom
  | k :: ks, n =>
      match slot n k with
      | .table m => walk ks m
      | .leaf x => .ok x
      | .miss r => .error r

/-- `Path slot n ks m`: the keys `ks` lead from `n` to `m` through nodes only. -/
inductive Path : ν → List κ → ν → Prop where
  | nil (n : ν) : Path n [] n
  | cons {n m o : ν} {k : κ} {ks : List κ}
      (step : slot n k = .table m) (rest : Path m ks o) : Path n (k :: ks) o

variable {slot bottom}

theorem Path.append {n m o : ν} {pre post : List κ}
    (hpre : Path slot n pre m) (hpost : Path slot m post o) :
    Path slot n (pre ++ post) o := by
  induction hpre with
  | nil n => exact hpost
  | cons step rest ih => exact .cons step (ih hpost)

theorem Path.snoc {n m o : ν} {pre : List κ} {k : κ}
    (hpre : Path slot n pre m) (hstep : slot m k = .table o) :
    Path slot n (pre ++ [k]) o :=
  hpre.append (.cons hstep (.nil o))

theorem Path.unique {n m m' : ν} {ks : List κ}
    (h : Path slot n ks m) (h' : Path slot n ks m') : m = m' := by
  induction h with
  | nil n => cases h'; rfl
  | cons step rest ih =>
      cases h' with
      | cons step' rest' =>
          rw [step] at step'
          cases step'
          exact ih rest'

theorem exists_path_of_walk_ok {keys : List κ} {n : ν} {x : ε}
    (h : walk slot bottom keys n = .ok x) :
    ∃ pre k post m, keys = pre ++ k :: post ∧
      Path slot n pre m ∧ slot m k = .leaf x := by
  induction keys generalizing n with
  | nil => cases h
  | cons k ks ih =>
      cases hslot : slot n k with
      | table m =>
          rw [walk, hslot] at h
          obtain ⟨pre, k', post, o, rfl, hpath, hleaf⟩ := ih h
          exact ⟨k :: pre, k', post, o, rfl, .cons hslot hpath, hleaf⟩
      | leaf y =>
          rw [walk, hslot] at h
          cases h
          exact ⟨[], k, ks, n, rfl, .nil n, hslot⟩
      | miss r =>
          rw [walk, hslot] at h
          cases h

/-- A walk that fails either meets a miss or runs out of keys. -/
theorem exists_path_of_walk_error {keys : List κ} {n : ν} {r : μ}
    (h : walk slot bottom keys n = .error r) :
    (∃ pre k post m, keys = pre ++ k :: post ∧
      Path slot n pre m ∧ slot m k = .miss r) ∨
      (r = bottom ∧ ∃ m, Path slot n keys m) := by
  induction keys generalizing n with
  | nil =>
      cases h
      exact .inr ⟨rfl, n, .nil n⟩
  | cons k ks ih =>
      cases hslot : slot n k with
      | table m =>
          rw [walk, hslot] at h
          rcases ih h with ⟨pre, k', post, o, rfl, hpath, hmiss⟩ | ⟨hr, o, hpath⟩
          · exact .inl ⟨k :: pre, k', post, o, rfl, .cons hslot hpath, hmiss⟩
          · exact .inr ⟨hr, o, .cons hslot hpath⟩
      | leaf y =>
          rw [walk, hslot] at h
          cases h
      | miss r' =>
          rw [walk, hslot] at h
          cases h
          exact .inl ⟨[], k, ks, n, rfl, .nil n, hslot⟩

/-- Paths survive a change of the table that keeps every link on them. -/
theorem Path.mono {slot' : ν → κ → Slot ν ε μ} {root n m : ν} {pre ks : List κ}
    (hkeep : ∀ p k p' pre', pre' ++ [k] <+: pre ++ ks →
      Path slot root pre' p → slot p k = .table p' → slot' p k = .table p')
    (hroot : Path slot root pre n) (hpath : Path slot n ks m) :
    Path slot' n ks m := by
  induction hpath generalizing pre with
  | nil n => exact .nil n
  | @cons n p m k ks step rest ih =>
      have hinitial : pre ++ [k] <+: pre ++ k :: ks :=
        ⟨ks, by simp⟩
      refine .cons (hkeep n k p pre hinitial hroot step) ?_
      apply ih _ (hroot.snoc step)
      intro q k' q' pre' hq
      exact hkeep q k' q' pre' (by simpa using hq)

/-- Two tables give the same walk when they agree on every slot it reads. -/
theorem walk_congr {slot' : ν → κ → Slot ν ε μ} {root n : ν}
    {pre keys : List κ}
    (hkeep : ∀ p k pre', pre' ++ [k] <+: pre ++ keys →
      Path slot root pre' p → slot' p k = slot p k)
    (hroot : Path slot root pre n) :
    walk slot' bottom keys n = walk slot bottom keys n := by
  induction keys generalizing n pre with
  | nil => rfl
  | cons k ks ih =>
      have hinitial : pre ++ [k] <+: pre ++ k :: ks := ⟨ks, by simp⟩
      rw [walk, walk, hkeep n k pre hinitial hroot]
      cases hslot : slot n k with
      | table m =>
          apply ih _ (hroot.snoc hslot)
          intro p k' pre' hp
          exact hkeep p k' pre' (by simpa using hp)
      | leaf x => rfl
      | miss r => rfl

/-- Two tables that agree on each slot, unless one of them fails for an excuse there, give
the same walk, unless one of the walks fails for an excuse. -/
theorem walk_eq_or_excused {slot' : ν → κ → Slot ν ε μ} {excuse : μ → Prop}
    (h : ∀ n k, slot' n k = slot n k ∨ (∃ r, excuse r ∧ slot n k = .miss r) ∨
      ∃ r, excuse r ∧ slot' n k = .miss r) (keys : List κ) (n : ν) :
    walk slot' bottom keys n = walk slot bottom keys n ∨
      (∃ r, excuse r ∧ walk slot bottom keys n = .error r) ∨
      ∃ r, excuse r ∧ walk slot' bottom keys n = .error r := by
  induction keys generalizing n with
  | nil => exact .inl rfl
  | cons k ks ih =>
      rw [walk, walk]
      rcases h n k with heq | ⟨r, hr, hmiss⟩ | ⟨r, hr, hmiss⟩
      · rw [heq]
        cases slot n k with
        | table m => exact ih m
        | leaf x => exact .inl rfl
        | miss r => exact .inl rfl
      · rw [hmiss]
        exact .inr (.inl ⟨r, hr, rfl⟩)
      · rw [hmiss]
        exact .inr (.inr ⟨r, hr, rfl⟩)

end Walk

/-! ## Depth-first search -/

/-- The outcome of a search: an accepted leaf with its path, nothing, or a slot
that the search could not get past. -/
inductive Found (κ ε μ : Type u) where
  | hit (path : List κ) (entry : ε)
  | none
  | blocked (reason : μ)

namespace Found

/-- Prefix the path of a hit by one key. -/
def under (k : κ) : Found κ ε μ → Found κ ε μ
  | .hit path x => .hit (k :: path) x
  | r => r

end Found

/-- The first outcome that ends the search, trying the keys in order. -/
def firstFound (f : κ → Found κ ε μ) : List κ → Found κ ε μ
  | [] => .none
  | k :: ks =>
      match f k with
      | .none => firstFound f ks
      | r => r

theorem firstFound_eq_none_iff {f : κ → Found κ ε μ} {ks : List κ} :
    firstFound f ks = .none ↔ ∀ k ∈ ks, f k = .none := by
  induction ks with
  | nil => simp [firstFound]
  | cons k ks ih =>
      cases hk : f k with
      | hit path x => simp [firstFound, hk]
      | none => simp [firstFound, hk, ih]
      | blocked r => simp [firstFound, hk]

theorem firstFound_split {f : κ → Found κ ε μ} {ks : List κ}
    (h : firstFound f ks ≠ .none) :
    ∃ pre k post, ks = pre ++ k :: post ∧ f k = firstFound f ks ∧
      ∀ k' ∈ pre, f k' = .none := by
  induction ks with
  | nil => simp [firstFound] at h
  | cons k ks ih =>
      cases hk : f k with
      | none =>
          have hrest : firstFound f (k :: ks) = firstFound f ks := by
            simp [firstFound, hk]
          rw [hrest] at h ⊢
          obtain ⟨pre, k', post, rfl, hfound, hpre⟩ := ih h
          refine ⟨k :: pre, k', post, rfl, hfound, ?_⟩
          simpa [hk] using hpre
      | hit path x => exact ⟨[], k, ks, rfl, by simp [firstFound, hk], by simp⟩
      | blocked r => exact ⟨[], k, ks, rfl, by simp [firstFound, hk], by simp⟩

section Search

variable (slot : ν → κ → Slot ν ε μ) (bottom : μ)
variable (accept : ε → Bool) (skip : μ → Bool)

/-- What the search makes of one slot, given the search of the level below. -/
def look (below : ν → Found κ ε μ) (n : ν) (k : κ) : Found κ ε μ :=
  match slot n k with
  | .table m => (below m).under k
  | .leaf x => if accept x then .hit [k] x else .none
  | .miss r => if skip r then .none else .blocked r

/-- Depth-first search below `n`, trying at each level the given keys. -/
def find : List (List κ) → ν → Found κ ε μ
  | [], _ => if skip bottom then .none else .blocked bottom
  | ks :: kss, n => firstFound (look slot accept skip (find kss) n) ks

/-- A walk outcome that the search passes over. -/
def Idle : Except μ ε → Prop
  | .ok x => accept x = false
  | .error r => skip r = true

/-- Keys taken from successive levels, possibly stopping early. -/
inductive Valid : List κ → List (List κ) → Prop where
  | nil (kss : List (List κ)) : Valid [] kss
  | cons {k : κ} {ks : List κ} {path : List κ} {kss : List (List κ)}
      (mem : k ∈ ks) (rest : Valid path kss) : Valid (k :: path) (ks :: kss)

variable (rank : κ → ℕ)

/-- Lexicographic order of paths; a path is not before its own extensions. -/
inductive Before : List κ → List κ → Prop where
  | head {k k' : κ} {ks ks' : List κ} (lt : rank k < rank k') :
      Before (k :: ks) (k' :: ks')
  | tail {k : κ} {ks ks' : List κ} (rest : Before ks ks') :
      Before (k :: ks) (k :: ks')

/-- The search ends at `path` with the walk outcome `r`: every walk through
`path` has that outcome, and every complete walk before it is idle. -/
structure EndsAt (kss : List (List κ)) (n : ν) (path : List κ)
    (r : Except μ ε) : Prop where
  valid : Valid path kss
  walk_eq : ∀ rest, path.length + rest.length = kss.length →
    walk slot bottom (path ++ rest) n = r
  idle_before : ∀ keys, Valid keys kss → keys.length = kss.length →
    Before rank keys path → Idle accept skip (walk slot bottom keys n)

variable {slot bottom accept skip rank}

/-- In a list sorted by rank, a smaller element stands earlier. -/
theorem mem_pre_of_rank_lt {k k' : κ} {pre post : List κ}
    (hsorted : (pre ++ k :: post).Pairwise (rank · < rank ·))
    (hmem : k' ∈ pre ++ k :: post) (hlt : rank k' < rank k) : k' ∈ pre := by
  rcases List.mem_append.mp hmem with hpre | hpost
  · exact hpre
  · exfalso
    rcases List.mem_cons.mp hpost with rfl | hpost
    · exact lt_irrefl _ hlt
    · have hpair := (List.pairwise_append.mp hsorted).2.1
      have := (List.pairwise_cons.mp hpair).1 k' hpost
      omega

theorem eq_of_rank_eq {k k' : κ} {ks : List κ}
    (hsorted : ks.Pairwise (rank · < rank ·)) (hk : k ∈ ks) (hk' : k' ∈ ks)
    (heq : rank k = rank k') : k = k' := by
  obtain ⟨pre, post, rfl⟩ := List.append_of_mem hk'
  obtain ⟨-, hpost, hcross⟩ := List.pairwise_append.mp hsorted
  rcases List.mem_append.mp hk with hpre | htail
  · have := hcross k hpre k' (by simp)
    omega
  · rcases List.mem_cons.mp htail with rfl | htail
    · rfl
    · have := (List.pairwise_cons.mp hpost).1 k htail
      omega

/-- The outcome at one key describes the walks through that key. -/
theorem EndsAt.under {k : κ} {pre post : List κ} {kss : List (List κ)}
    {n m : ν} {path : List κ} {r : Except μ ε}
    (hsorted : (pre ++ k :: post).Pairwise (rank · < rank ·))
    (hslot : slot n k = .table m)
    (hpre : ∀ k' ∈ pre, ∀ keys, Valid keys kss → keys.length = kss.length →
      Idle accept skip (walk slot bottom (k' :: keys) n))
    (h : EndsAt slot bottom accept skip rank kss m path r) :
    EndsAt slot bottom accept skip rank ((pre ++ k :: post) :: kss) n
      (k :: path) r where
  valid := .cons (by simp) h.valid
  walk_eq rest hlen := by
    rw [List.cons_append, walk, hslot]
    exact h.walk_eq rest (by simp at hlen; omega)
  idle_before keys hvalid hlen hbefore := by
    cases hvalid with
    | nil => simp at hlen
    | @cons k' _ keys _ hmem hrest =>
        cases hbefore with
        | head hlt =>
            apply hpre k' _ keys hrest (by simpa using hlen)
            exact mem_pre_of_rank_lt hsorted hmem hlt
        | tail hbefore =>
            rw [walk, hslot]
            exact h.idle_before keys hrest (by simpa using hlen) hbefore

/-- A leaf or a miss that the search stops at ends it right there. -/
theorem EndsAt.here {k : κ} {pre post : List κ} {kss : List (List κ)} {n : ν}
    {r : Except μ ε}
    (hsorted : (pre ++ k :: post).Pairwise (rank · < rank ·))
    (hslot : ∀ keys, walk slot bottom (k :: keys) n = r)
    (hpre : ∀ k' ∈ pre, ∀ keys, Valid keys kss → keys.length = kss.length →
      Idle accept skip (walk slot bottom (k' :: keys) n)) :
    EndsAt slot bottom accept skip rank ((pre ++ k :: post) :: kss) n [k] r where
  valid := .cons (by simp) (.nil kss)
  walk_eq rest _ := hslot rest
  idle_before keys hvalid hlen hbefore := by
    cases hvalid with
    | nil => simp at hlen
    | @cons k' _ keys _ hmem hrest =>
        cases hbefore with
        | head hlt =>
            apply hpre k' _ keys hrest (by simpa using hlen)
            exact mem_pre_of_rank_lt hsorted hmem hlt
        | tail hbefore => cases hbefore

/-- What each outcome of the search says about forward walks. -/
def FindSpec (slot : ν → κ → Slot ν ε μ) (bottom : μ) (accept : ε → Bool)
    (skip : μ → Bool) (rank : κ → ℕ) (kss : List (List κ)) (n : ν) :
    Found κ ε μ → Prop
  | .none => ∀ keys, Valid keys kss → keys.length = kss.length →
      Idle accept skip (walk slot bottom keys n)
  | .hit path x => accept x = true ∧
      EndsAt slot bottom accept skip rank kss n path (.ok x)
  | .blocked r => skip r = false ∧ ∃ path,
      EndsAt slot bottom accept skip rank kss n path (.error r)

/-- A slot the search passes over makes every walk through it idle. -/
theorem idle_of_look_eq_none {below : ν → Found κ ε μ} {kss : List (List κ)}
    {n : ν} {k : κ}
    (hbelow : ∀ m, FindSpec slot bottom accept skip rank kss m (below m))
    (hk : look slot accept skip below n k = .none) (keys : List κ)
    (hvalid : Valid keys kss) (hlen : keys.length = kss.length) :
    Idle accept skip (walk slot bottom (k :: keys) n) := by
  rw [walk]
  rw [look] at hk
  cases hslot : slot n k with
  | table m =>
      have hspec := hbelow m
      simp only [hslot] at hk
      cases hfind : below m with
      | none =>
          rw [hfind] at hspec
          exact hspec keys hvalid hlen
      | hit path x => simp [hfind, Found.under] at hk
      | blocked r => simp [hfind, Found.under] at hk
  | leaf x =>
      simp only [hslot] at hk
      by_cases hx : accept x = true
      · simp [hx] at hk
      · exact Bool.eq_false_of_not_eq_true hx
  | miss r =>
      simp only [hslot] at hk
      by_cases hr : skip r = true
      · exact hr
      · simp [hr] at hk

/-- The slot that ends the search settles what the search says. -/
theorem findSpec_of_look_ne_none {below : ν → Found κ ε μ}
    {kss : List (List κ)} {n : ν} {k : κ} {pre post : List κ}
    (hbelow : ∀ m, FindSpec slot bottom accept skip rank kss m (below m))
    (hsorted : (pre ++ k :: post).Pairwise (rank · < rank ·))
    (hpre : ∀ k' ∈ pre, look slot accept skip below n k' = .none)
    (hk : look slot accept skip below n k ≠ .none) :
    FindSpec slot bottom accept skip rank ((pre ++ k :: post) :: kss) n
      (look slot accept skip below n k) := by
  have hidle := fun k' h => idle_of_look_eq_none hbelow (hpre k' h)
  rw [look] at hk ⊢
  cases hslot : slot n k with
  | table m =>
      have hspec := hbelow m
      simp only [hslot] at hk ⊢
      cases hfind : below m with
      | none => simp [hfind, Found.under] at hk
      | hit path x =>
          rw [hfind] at hspec
          simp only [Found.under]
          exact ⟨hspec.1, hspec.2.under hsorted hslot hidle⟩
      | blocked r =>
          rw [hfind] at hspec
          obtain ⟨hr, path, hends⟩ := hspec
          simp only [Found.under]
          exact ⟨hr, k :: path, hends.under hsorted hslot hidle⟩
  | leaf x =>
      simp only [hslot] at hk ⊢
      by_cases hx : accept x = true
      · rw [if_pos hx]
        refine ⟨hx, EndsAt.here hsorted (fun keys => ?_) hidle⟩
        rw [walk, hslot]
      · simp [hx] at hk
  | miss r =>
      simp only [hslot] at hk ⊢
      by_cases hr : skip r = true
      · simp [hr] at hk
      · rw [if_neg hr]
        refine ⟨Bool.eq_false_of_not_eq_true hr, [k],
          EndsAt.here hsorted (fun keys => ?_) hidle⟩
        rw [walk, hslot]

/-- The search returns what the first walk that is not idle ends in. -/
theorem find_spec {kss : List (List κ)}
    (hsorted : ∀ ks ∈ kss, ks.Pairwise (rank · < rank ·)) (n : ν) :
    FindSpec slot bottom accept skip rank kss n
      (find slot bottom accept skip kss n) := by
  induction kss generalizing n with
  | nil =>
      by_cases hskip : skip bottom = true
      · rw [find, if_pos hskip]
        intro keys hvalid _
        cases hvalid
        exact hskip
      · rw [find, if_neg hskip]
        refine ⟨Bool.eq_false_of_not_eq_true hskip, [], .nil [], ?_, ?_⟩
        · intro rest hlen
          have hnil : rest = [] := by
            simpa using hlen
          rw [hnil]
          rfl
        · intro keys _ _ hbefore
          cases hbefore
  | cons ks kss ih =>
      have hbelow := ih (fun ks' h => hsorted ks' (by simp [h]))
      rw [find]
      by_cases hnone : firstFound
          (look slot accept skip (find slot bottom accept skip kss) n) ks = .none
      · rw [hnone]
        intro keys hvalid hlen
        cases hvalid with
        | nil => simp at hlen
        | @cons k _ keys _ hmem hrest =>
            exact idle_of_look_eq_none hbelow
              (firstFound_eq_none_iff.mp hnone k hmem) keys hrest
              (by simpa using hlen)
      · obtain ⟨pre, k, post, rfl, hfound, hpre⟩ := firstFound_split hnone
        rw [← hfound] at hnone ⊢
        exact findSpec_of_look_ne_none hbelow (hsorted _ (by simp)) hpre hnone

theorem valid_of_find_eq_hit {kss : List (List κ)}
    (hsorted : ∀ ks ∈ kss, ks.Pairwise (rank · < rank ·)) {n : ν}
    {path : List κ} {x : ε}
    (h : find slot bottom accept skip kss n = .hit path x) :
    Valid path kss := by
  have hspec : FindSpec slot bottom accept skip rank kss n
      (find slot bottom accept skip kss n) := find_spec hsorted n
  rw [h] at hspec
  exact hspec.2.valid

end Search

theorem Valid.length_le {ks : List κ} {kss : List (List κ)} (h : Valid ks kss) :
    ks.length ≤ kss.length := by
  induction h with
  | nil kss => exact Nat.zero_le _
  | cons mem rest ih => simpa using ih

theorem Valid.of_initial {ks keys : List κ} {kss : List (List κ)}
    (hvalid : Valid keys kss) (hinitial : ks <+: keys) : Valid ks kss := by
  induction hvalid generalizing ks with
  | nil kss =>
      rw [List.prefix_nil.mp hinitial]
      exact .nil kss
  | cons mem rest ih =>
      cases ks with
      | nil => exact .nil _
      | cons k ks =>
          obtain ⟨rfl, hks⟩ := List.cons_prefix_cons.mp hinitial
          exact .cons mem (ih hks)

/-! ## Linking in an empty node -/

section Link

variable {slot slot' : ν → κ → Slot ν ε μ} {bottom : μ}
variable {kss : List (List κ)} {root new : ν}

theorem path_snoc_iff {n m : ν} {ks : List κ} {k : κ} :
    Path slot n (ks ++ [k]) m ↔ ∃ p, Path slot n ks p ∧ slot p k = .table m := by
  constructor
  · intro h
    induction ks generalizing n with
    | nil =>
        cases h with
        | cons step rest =>
            cases rest
            exact ⟨n, .nil n, step⟩
    | cons k' ks ih =>
        cases h with
        | cons step rest =>
            obtain ⟨p, hp, hstep⟩ := ih rest
            exact ⟨p, .cons step hp, hstep⟩
  · rintro ⟨p, hp, hstep⟩
    exact hp.snoc hstep

/-- `slot'` is `slot` with the empty node `new` linked in at missing slots. -/
structure LinkedIn (slot slot' : ν → κ → Slot ν ε μ) (kss : List (List κ))
    (root new : ν) : Prop where
  keep : ∀ ks n k, Valid (ks ++ [k]) kss → Path slot root ks n →
    slot' n k = slot n k ∨ slot' n k = .table new ∧ ∃ r, slot n k = .miss r
  empty : ∀ ks k, Valid (ks ++ [k]) kss → ∃ r, slot' new k = .miss r

theorem LinkedIn.path (h : LinkedIn slot slot' kss root new) {ks : List κ}
    {m : ν} (hvalid : Valid ks kss) (hpath : Path slot root ks m) :
    Path slot' root ks m := by
  induction ks using List.reverseRecOn generalizing m with
  | nil =>
      cases hpath
      exact .nil root
  | append_singleton ks k ih =>
      obtain ⟨p, hp, hstep⟩ := path_snoc_iff.mp hpath
      refine (ih (hvalid.of_initial (List.prefix_append ks [k])) hp).snoc ?_
      rcases h.keep ks p k hvalid hp with hkeep | ⟨-, r, hmiss⟩
      · rw [hkeep, hstep]
      · rw [hstep] at hmiss
        cases hmiss

theorem LinkedIn.path_or (h : LinkedIn slot slot' kss root new) {ks : List κ}
    {m : ν} (hvalid : Valid ks kss) (hpath : Path slot' root ks m) :
    Path slot root ks m ∨ m = new ∧ ∃ pre p k r, ks = pre ++ [k] ∧
      Path slot root pre p ∧ slot' p k = .table new ∧ slot p k = .miss r := by
  induction ks using List.reverseRecOn generalizing m with
  | nil =>
      cases hpath
      exact .inl (.nil root)
  | append_singleton ks k ih =>
      obtain ⟨p, hp, hstep⟩ := path_snoc_iff.mp hpath
      rcases ih (hvalid.of_initial (List.prefix_append ks [k])) hp with
        hold | ⟨rfl, -⟩
      · rcases h.keep ks p k hvalid hold with hkeep | ⟨hlink, r, hmiss⟩
        · rw [hkeep] at hstep
          exact .inl (hold.snoc hstep)
        · rw [hlink] at hstep
          cases hstep
          exact .inr ⟨rfl, ks, p, k, r, rfl, hold, hlink, hmiss⟩
      · obtain ⟨r, hmiss⟩ := h.empty ks k hvalid
        rw [hstep] at hmiss
        cases hmiss

/-- A walk is unchanged, or it used to end at the slot of the link and now goes
on from the empty node. -/
theorem LinkedIn.walk_or (h : LinkedIn slot slot' kss root new) {keys : List κ}
    (hvalid : Valid keys kss) :
    walk slot' bottom keys root = walk slot bottom keys root ∨
      ∃ pre k post p r, keys = pre ++ k :: post ∧
        walk slot bottom keys root = .error r ∧ Path slot root pre p ∧
        slot p k = .miss r ∧ slot' p k = .table new ∧
        walk slot' bottom keys root = walk slot' bottom post new := by
  have hstep : ∀ post pre n, Valid (pre ++ post) kss → Path slot root pre n →
      walk slot' bottom post n = walk slot bottom post n ∨
        ∃ mid k rest p r, post = mid ++ k :: rest ∧
          walk slot bottom post n = .error r ∧ Path slot root (pre ++ mid) p ∧
          slot p k = .miss r ∧ slot' p k = .table new ∧
          walk slot' bottom post n = walk slot' bottom rest new := by
    intro post
    induction post with
    | nil => exact fun _ _ _ _ => .inl rfl
    | cons k post ih =>
        intro pre n hvalid hpath
        have hvalid' : Valid ((pre ++ [k]) ++ post) kss := by
          simpa using hvalid
        rcases h.keep pre n k (hvalid'.of_initial (List.prefix_append _ _)) hpath
          with hkeep | ⟨hlink, r, hmiss⟩
        · rw [RadixTable.walk, RadixTable.walk, hkeep]
          cases hslot : slot n k with
          | leaf x => exact .inl rfl
          | miss r => exact .inl rfl
          | table m =>
              rcases ih (pre ++ [k]) m hvalid' (hpath.snoc hslot) with
                heq | ⟨mid, k', rest, p, r, rfl, hwalk, hmid, hsteps⟩
              · exact .inl heq
              · exact .inr ⟨k :: mid, k', rest, p, r, rfl, hwalk,
                  by simpa using hmid, hsteps⟩
        · refine .inr ⟨[], k, post, n, r, rfl, ?_, by simpa using hpath, hmiss,
            hlink, ?_⟩
          · rw [RadixTable.walk, hmiss]
          · rw [RadixTable.walk, hlink]
  have htop := hstep keys [] root hvalid (.nil root)
  simpa only [List.nil_append] using htop

end Link

/-! ## Paths as addresses -/

section Address

variable (weight : κ → ℕ) (rank : κ → ℕ)

/-- The address of a path: the sum of the weights of its keys. -/
def address (path : List κ) : ℕ :=
  (path.map weight).sum

/-- At every level the weights are multiples of one unit, by rank, and no
choice of keys further down reaches that unit. -/
inductive Graded : List (List κ) → Prop where
  | nil : Graded []
  | cons {ks : List κ} {kss : List (List κ)} (unit : ℕ)
      (scaled : ∀ k ∈ ks, weight k = rank k * unit)
      (small : ∀ path, Valid path kss → address weight path < unit)
      (rest : Graded kss) : Graded (ks :: kss)

variable {weight rank}

/-- In a graded table a smaller address lies on an earlier path. -/
theorem before_of_address_lt {kss : List (List κ)} {keys path : List κ}
    (hgraded : Graded weight rank kss)
    (hsorted : ∀ ks ∈ kss, ks.Pairwise (rank · < rank ·))
    (hkeys : Valid keys kss) (hlen : keys.length = kss.length)
    (hpath : Valid path kss)
    (hlt : address weight keys < address weight path) :
    Before rank keys path := by
  induction hpath generalizing keys with
  | nil kss => simp [address] at hlt
  | @cons p ks path kss hp hrest ih =>
      cases hkeys with
      | nil => simp at hlen
      | @cons k _ keys _ hk hkeys =>
          cases hgraded with
          | cons unit scaled small rest =>
              simp only [address, List.map_cons, List.sum_cons,
                scaled k hk, scaled p hp] at hlt
              have hsmall := small path hrest
              rw [address] at hsmall
              rcases lt_trichotomy (rank k) (rank p) with hkp | hkp | hkp
              · exact .head hkp
              · have heq : k = p :=
                  eq_of_rank_eq (hsorted ks (by simp)) hk hp hkp
                subst heq
                refine .tail (ih rest (fun ks' h => hsorted ks' (by simp [h]))
                  hkeys (by simpa using hlen) ?_)
                simp only [address]
                omega
              · exfalso
                have hmul : (rank p + 1) * unit ≤ rank k * unit :=
                  Nat.mul_le_mul_right unit hkp
                rw [Nat.add_mul] at hmul
                omega

/-- `digits` turns an address into keys for all levels, and undoes `address`. -/
structure Digits (weight : κ → ℕ) (kss : List (List κ))
    (digits : ℕ → List κ) : Prop where
  valid : ∀ a, Valid (digits a) kss
  length_eq : ∀ a, (digits a).length = kss.length
  address_le : ∀ a, address weight (digits a) ≤ a
  extends_path : ∀ path, Valid path kss →
    path <+: digits (address weight path)

section Digits

variable {slot : ν → κ → Slot ν ε μ} {bottom : μ}
variable {accept : ε → Bool} {skip : μ → Bool}
variable {kss : List (List κ)} {digits : ℕ → List κ} {n : ν}

/-- Where the search ends, the walk for the address of its path ends alike. -/
theorem EndsAt.walk_digits {path : List κ} {r : Except μ ε}
    (hdigits : Digits weight kss digits)
    (h : EndsAt slot bottom accept skip rank kss n path r) :
    walk slot bottom (digits (address weight path)) n = r := by
  obtain ⟨rest, hrest⟩ := hdigits.extends_path path h.valid
  have hlen := hdigits.length_eq (address weight path)
  rw [← hrest, List.length_append] at hlen
  rw [← hrest]
  exact h.walk_eq rest hlen

/-- Below the address where the search ends, every walk is idle. -/
theorem EndsAt.idle_of_lt {path : List κ} {r : Except μ ε} {a : ℕ}
    (hgraded : Graded weight rank kss)
    (hsorted : ∀ ks ∈ kss, ks.Pairwise (rank · < rank ·))
    (hdigits : Digits weight kss digits)
    (h : EndsAt slot bottom accept skip rank kss n path r)
    (hlt : a < address weight path) :
    Idle accept skip (walk slot bottom (digits a) n) := by
  apply h.idle_before _ (hdigits.valid a) (hdigits.length_eq a)
  exact before_of_address_lt hgraded hsorted (hdigits.valid a)
    (hdigits.length_eq a) h.valid
    (lt_of_le_of_lt (hdigits.address_le a) hlt)

theorem walk_of_find_eq_hit {path : List κ} {x : ε}
    (hsorted : ∀ ks ∈ kss, ks.Pairwise (rank · < rank ·))
    (hdigits : Digits weight kss digits)
    (h : find slot bottom accept skip kss n = .hit path x) :
    accept x = true ∧
      walk slot bottom (digits (address weight path)) n = .ok x := by
  have hspec : FindSpec slot bottom accept skip rank kss n
      (find slot bottom accept skip kss n) := find_spec hsorted n
  rw [h] at hspec
  exact ⟨hspec.1, hspec.2.walk_digits hdigits⟩

/-- The walk for an address reaches an accepted leaf. -/
def Matches (slot : ν → κ → Slot ν ε μ) (bottom : μ) (accept : ε → Bool)
    (digits : ℕ → List κ) (n : ν) (a : ℕ) : Prop :=
  ∃ x, walk slot bottom (digits a) n = .ok x ∧ accept x = true

/-- The walk for an address fails in a way that the search cannot skip. -/
def Blocks (slot : ν → κ → Slot ν ε μ) (bottom : μ) (skip : μ → Bool)
    (digits : ℕ → List κ) (n : ν) (a : ℕ) : Prop :=
  ∃ r, walk slot bottom (digits a) n = .error r ∧ skip r = false

/-- The search finds a nonzero address exactly when address 0 does not match,
and some address matches that no blocking address precedes. -/
theorem exists_hit_address_ne_zero_iff (hgraded : Graded weight rank kss)
    (hsorted : ∀ ks ∈ kss, ks.Pairwise (rank · < rank ·))
    (hdigits : Digits weight kss digits) :
    (∃ path x, find slot bottom accept skip kss n = .hit path x ∧
        address weight path ≠ 0) ↔
      ¬ Matches slot bottom accept digits n 0 ∧
        ∃ a, Matches slot bottom accept digits n a ∧
          ∀ b < a, ¬ Blocks slot bottom skip digits n b := by
  have hspec : FindSpec slot bottom accept skip rank kss n
      (find slot bottom accept skip kss n) := find_spec hsorted n
  constructor
  · rintro ⟨path, x, hfind, hne⟩
    rw [hfind] at hspec
    obtain ⟨hx, hends⟩ := hspec
    have hidle : ∀ a < address weight path,
        Idle accept skip (walk slot bottom (digits a) n) :=
      fun a => hends.idle_of_lt hgraded hsorted hdigits
    refine ⟨?_, address weight path, ⟨x, hends.walk_digits hdigits, hx⟩, ?_⟩
    · rintro ⟨y, hwalk, hy⟩
      have hzero := hidle 0 (Nat.pos_of_ne_zero hne)
      rw [hwalk, Idle, hy] at hzero
      cases hzero
    · rintro b hb ⟨r, hwalk, hr⟩
      have hskip := hidle b hb
      rw [hwalk, Idle, hr] at hskip
      cases hskip
  · rintro ⟨hzero, a, ⟨x, hwalk, hx⟩, hfree⟩
    cases hfind : find slot bottom accept skip kss n with
    | none =>
        rw [hfind] at hspec
        have hidle := hspec _ (hdigits.valid a) (hdigits.length_eq a)
        rw [hwalk, Idle, hx] at hidle
        cases hidle
    | blocked r =>
        rw [hfind] at hspec
        obtain ⟨hr, path, hends⟩ := hspec
        have hpath := hends.walk_digits hdigits
        rcases lt_trichotomy a (address weight path) with hlt | rfl | hlt
        · have hidle := hends.idle_of_lt hgraded hsorted hdigits hlt
          rw [hwalk, Idle, hx] at hidle
          cases hidle
        · rw [hwalk] at hpath
          cases hpath
        · exact absurd ⟨r, hpath, hr⟩ (hfree _ hlt)
    | hit path y =>
        refine ⟨path, y, rfl, ?_⟩
        intro hpath
        apply hzero
        rw [hfind] at hspec
        have hends := hspec.2.walk_digits hdigits
        rw [hpath] at hends
        exact ⟨y, hends, hspec.1⟩

/-- The search is blocked exactly when some address blocks and no address before it
matches. -/
theorem exists_find_eq_blocked_iff (hgraded : Graded weight rank kss)
    (hsorted : ∀ ks ∈ kss, ks.Pairwise (rank · < rank ·))
    (hdigits : Digits weight kss digits) :
    (∃ r, find slot bottom accept skip kss n = .blocked r) ↔
      ∃ b, Blocks slot bottom skip digits n b ∧
        ∀ a < b, ¬ Matches slot bottom accept digits n a := by
  have hspec : FindSpec slot bottom accept skip rank kss n
      (find slot bottom accept skip kss n) := find_spec hsorted n
  constructor
  · rintro ⟨r, hfind⟩
    rw [hfind] at hspec
    obtain ⟨hr, path, hends⟩ := hspec
    refine ⟨address weight path, ⟨r, hends.walk_digits hdigits, hr⟩, ?_⟩
    rintro a ha ⟨x, hwalk, hx⟩
    have hidle := hends.idle_of_lt hgraded hsorted hdigits ha
    rw [hwalk, Idle, hx] at hidle
    cases hidle
  · rintro ⟨b, ⟨r, hwalk, hr⟩, hfree⟩
    cases hfind : find slot bottom accept skip kss n with
    | none =>
        rw [hfind] at hspec
        have hidle := hspec _ (hdigits.valid b) (hdigits.length_eq b)
        rw [hwalk, Idle, hr] at hidle
        cases hidle
    | blocked r' => exact ⟨r', rfl⟩
    | hit path x =>
        rw [hfind] at hspec
        obtain ⟨hx, hends⟩ := hspec
        have hpath := hends.walk_digits hdigits
        rcases lt_trichotomy b (address weight path) with hlt | rfl | hlt
        · have hidle := hends.idle_of_lt hgraded hsorted hdigits hlt
          rw [hwalk, Idle, hr] at hidle
          cases hidle
        · rw [hwalk] at hpath
          cases hpath
        · exact absurd ⟨x, hpath, hx⟩ (hfree _ hlt)

end Digits

end Address

end A100Partitioning.Support.RadixTable
