/-
  Clarity/Heap.lean
  =================
  **A heap of blocks**: computations that allocate, read, write and free by address, and
  that can throw.

  What a computation must not do (touch an address that is not allocated, or take a block
  for what it is not) is undefined behaviour, and has no outcome.  An allocator may use an
  address again as soon as it is free.

    * `during_run` — a block for the time of a computation, freed on every way out;
    * `Represents` — the blocks of a heap are the objects of a table, no more and no less.
-/
import Mathlib.Data.List.Basic
import Mathlib.Logic.Function.Basic

namespace Clarity

/-- What is allocated, by address. -/
abbrev Heap (V : Type) := Std.ExtTreeMap Nat V

/-- An allocator gives out addresses that are free; 0 is the null pointer, and 1 is what
    an empty slice points to. -/
structure Allocator (V : Type) where
  fresh : Heap V → Nat
  unused : ∀ h : Heap V, h[fresh h]? = none
  two_le : ∀ h : Heap V, 2 ≤ fresh h

/-- A computation: a result or what it throws, and the heap after it; `none` is undefined
    behaviour. -/
def Native (V ε α : Type) := Heap V → Option (Except ε α × Heap V)

namespace Native

variable {V ε α β : Type}

/-! ## 1. Computations -/

protected def bind (m : Native V ε α) (k : α → Native V ε β) : Native V ε β := fun h =>
  match m h with
  | none => none
  | some (.error e, h) => some (.error e, h)
  | some (.ok a, h) => k a h

instance : Monad (Native V ε) where
  pure a := fun h => some (.ok a, h)
  bind := Native.bind

def throw (e : ε) : Native V ε α := fun h => some (.error e, h)

def alloc (A : Allocator V) (v : V) : Native V ε Nat :=
  fun h => some (.ok (A.fresh h), h.insert (A.fresh h) v)

/-- Look at the block at `p`, as what it is expected to be. -/
def load (view : V → Option β) (p : Nat) : Native V ε β := fun h =>
  match (h[p]?).bind view with
  | none => none
  | some b => some (.ok b, h)

/-- Replace the block at `p`. -/
def store (view : V → Option β) (p : Nat) (v : V) : Native V ε Unit := fun h =>
  match (h[p]?).bind view with
  | none => none
  | some _ => some (.ok (), h.insert p v)

/-- Free the block at `p`. -/
def release (view : V → Option β) (p : Nat) : Native V ε Unit := fun h =>
  match (h[p]?).bind view with
  | none => none
  | some _ => some (.ok (), h.erase p)

/-- `try { body } finally { cleanup }`. -/
def tryFinally (body : Native V ε α) (cleanup : Native V ε Unit) : Native V ε α := fun h =>
  match body h with
  | none => none
  | some (r, h) =>
    match cleanup h with
    | none => none
    | some (.error e, h) => some (.error e, h)
    | some (.ok (), h) => some (r, h)

/-! ## 2. How they run -/

variable {h h' : Heap V} {p : Nat} {v w : V} {b : β}

@[simp] theorem pure_run (a : α) (h : Heap V) : (pure a : Native V ε α) h = some (.ok a, h) := rfl

@[simp] theorem throw_run (e : ε) (h : Heap V) :
    (throw e : Native V ε α) h = some (.error e, h) := rfl

theorem bind_run {m : Native V ε α} {a : α} (hm : m h = some (.ok a, h')) (k : α → Native V ε β) :
    (m >>= k) h = k a h' := by
  show Native.bind m k h = _
  rw [Native.bind, hm]

theorem bind_throws {m : Native V ε α} {e : ε} (hm : m h = some (.error e, h'))
    (k : α → Native V ε β) : (m >>= k) h = some (.error e, h') := by
  show Native.bind m k h = _
  rw [Native.bind, hm]

theorem bind_undefined {m : Native V ε α} (hm : m h = none) (k : α → Native V ε β) :
    (m >>= k) h = none := by
  show Native.bind m k h = _
  rw [Native.bind, hm]

theorem bind_assoc {γ : Type} (m : Native V ε α) (k : α → Native V ε β) (l : β → Native V ε γ) :
    m >>= k >>= l = m >>= fun a => k a >>= l := by
  funext h
  show Native.bind (Native.bind m k) l h = Native.bind m (fun a => Native.bind (k a) l) h
  unfold Native.bind
  rcases m h with _ | ⟨_ | a, h'⟩ <;> rfl

theorem pure_bind (a : α) (k : α → Native V ε β) : (pure a : Native V ε α) >>= k = k a := rfl

theorem alloc_run (A : Allocator V) (v : V) (h : Heap V) :
    (alloc A v : Native V ε Nat) h = some (.ok (A.fresh h), h.insert (A.fresh h) v) := rfl

theorem load_run (view : V → Option β) (hp : h[p]? = some v) (hv : view v = some b) :
    (load view p : Native V ε β) h = some (.ok b, h) := by
  rw [load, hp, Option.bind_some, hv]

theorem store_run (view : V → Option β) (hp : h[p]? = some v) (hv : view v = some b) :
    (store view p w : Native V ε Unit) h = some (.ok (), h.insert p w) := by
  rw [store, hp, Option.bind_some, hv]

theorem release_run (view : V → Option β) (hp : h[p]? = some v) (hv : view v = some b) :
    (release view p : Native V ε Unit) h = some (.ok (), h.erase p) := by
  rw [release, hp, Option.bind_some, hv]

theorem load_undefined {view : V → Option β} (hp : h[p]? = some v) (hv : view v = none) :
    (load view p : Native V ε β) h = none := by
  rw [load, hp, Option.bind_some, hv]

theorem tryFinally_run {body : Native V ε α} {cleanup : Native V ε Unit} {r : Except ε α}
    {h'' : Heap V} (hbody : body h = some (r, h')) (hcleanup : cleanup h' = some (.ok (), h'')) :
    tryFinally body cleanup h = some (r, h'') := by
  rw [tryFinally, hbody]
  simp only [hcleanup]

theorem tryFinally_undefined {body : Native V ε α} (hbody : body h = none)
    (cleanup : Native V ε Unit) : tryFinally body cleanup h = none := by
  rw [tryFinally, hbody]

end Native

/-! ## 3. Blocks that come and go -/

namespace Heap

variable {V : Type} {h : Heap V} {p q : Nat} {v w : V}

theorem get_insert_self (h : Heap V) (p : Nat) (v : V) : (h.insert p v)[p]? = some v :=
  Std.ExtTreeMap.getElem?_insert_self

theorem get_insert_of_ne (h : Heap V) (hne : p ≠ q) (v : V) : (h.insert p v)[q]? = h[q]? := by
  rw [Std.ExtTreeMap.getElem?_insert, if_neg (by simpa using hne)]

theorem get_erase_of_ne (h : Heap V) (hne : p ≠ q) : (h.erase p)[q]? = h[q]? := by
  rw [Std.ExtTreeMap.getElem?_erase, if_neg (by simpa using hne)]

theorem erase_insert (hp : h[p]? = none) (v : V) : (h.insert p v).erase p = h := by
  apply Std.ExtTreeMap.ext_getElem?
  intro q
  by_cases hq : p = q
  · subst hq
    rw [Std.ExtTreeMap.getElem?_erase_self, hp]
  · rw [get_erase_of_ne _ hq, get_insert_of_ne _ hq]

theorem insert_comm (h : Heap V) (hne : p ≠ q) (v w : V) :
    (h.insert p v).insert q w = (h.insert q w).insert p v := by
  apply Std.ExtTreeMap.ext_getElem?
  intro r
  by_cases hr : q = r
  · subst hr
    rw [get_insert_self, get_insert_of_ne _ hne, get_insert_self]
  · rw [get_insert_of_ne _ hr]
    by_cases hr' : p = r
    · subst hr'
      rw [get_insert_self, get_insert_self]
    · rw [get_insert_of_ne _ hr', get_insert_of_ne _ hr', get_insert_of_ne _ hr]

theorem insert_insert (h : Heap V) (p : Nat) (v w : V) : (h.insert p v).insert p w = h.insert p w := by
  apply Std.ExtTreeMap.ext_getElem?
  intro r
  by_cases hr : p = r
  · subst hr
    rw [get_insert_self, get_insert_self]
  · rw [get_insert_of_ne _ hr, get_insert_of_ne _ hr, get_insert_of_ne _ hr]

theorem insert_of_get (hp : h[p]? = some v) : h.insert p v = h := by
  apply Std.ExtTreeMap.ext_getElem?
  intro r
  by_cases hr : p = r
  · subst hr
    rw [get_insert_self, hp]
  · rw [get_insert_of_ne _ hr]

/-- A block that is there is not where a free one will be. -/
theorem ne_of_get (hp : h[p]? = some v) (hq : h[q]? = none) : p ≠ q := by
  rintro rfl
  rw [hp] at hq
  cases hq

end Heap

namespace Native

variable {V ε α β : Type} {h h' : Heap V}

/-- A block for the time of a computation. -/
def during (A : Allocator V) (v : V) (view : V → Option β) (body : Nat → Native V ε α) :
    Native V ε α := do
  let p ← alloc A v
  tryFinally (body p) (release view p)

/-- Whatever the body does, it works on a heap with one more block, and what it leaves is
    freed of that block. -/
theorem during_run {A : Allocator V} {v v' : V} {view : V → Option β} {b : β}
    {body : Nat → Native V ε α} {r : Except ε α} (hview : view v' = some b)
    (hunused : h'[A.fresh h]? = none)
    (hbody : body (A.fresh h) (h.insert (A.fresh h) v) = some (r, h'.insert (A.fresh h) v')) :
    during A v view body h = some (r, h') := by
  have hfree := release_run (ε := ε) view (Heap.get_insert_self h' (A.fresh h) v') hview
  rw [Heap.erase_insert hunused] at hfree
  rw [during, bind_run (alloc_run A v h)]
  exact tryFinally_run hbody hfree

theorem during_undefined {A : Allocator V} {v : V} {view : V → Option β}
    {body : Nat → Native V ε α}
    (hbody : body (A.fresh h) (h.insert (A.fresh h) v) = none) : during A v view body h = none := by
  rw [during, bind_run (alloc_run A v h)]
  exact tryFinally_undefined hbody _

end Native

/-! ## 4. Tables of objects -/

/-- The blocks of the heap are the objects of a table: every object has its own block, and
    every block is an object's. -/
structure Represents {ι V : Type} (ptr : ι → Option Nat) (val : ι → Option V) (h : Heap V) :
    Prop where
  block : ∀ i, val i = (ptr i).bind fun p => h[p]?
  live : ∀ {i p}, ptr i = some p → (h[p]?).isSome
  distinct : ∀ {i j p}, ptr i = some p → ptr j = some p → i = j
  owned : ∀ {p v}, h[p]? = some v → ∃ i, ptr i = some p
  valid : ∀ {p v}, h[p]? = some v → 2 ≤ p

namespace Represents

variable {ι V : Type} {ptr : ι → Option Nat} {val : ι → Option V} {h : Heap V} {i : ι} {p : Nat}

theorem empty : Represents (fun _ : ι => none) (fun _ => none) (∅ : Heap V) where
  block _ := rfl
  live hi := nomatch hi
  distinct hi := nomatch hi
  owned hp := by
    rw [Std.ExtTreeMap.getElem?_empty] at hp
    cases hp
  valid hp := by
    rw [Std.ExtTreeMap.getElem?_empty] at hp
    cases hp

theorem get (hr : Represents ptr val h) (hi : ptr i = some p) : h[p]? = val i := by
  rw [hr.block, hi, Option.bind_some]

/-- An object without a pointer has no value, and one with a pointer has one. -/
theorem cases (hr : Represents ptr val h) (i : ι) :
    ptr i = none ∧ val i = none ∨ ∃ p v, ptr i = some p ∧ val i = some v ∧ h[p]? = some v := by
  cases hi : ptr i with
  | none =>
    refine .inl ⟨rfl, ?_⟩
    rw [hr.block, hi, Option.bind_none]
  | some p =>
    obtain ⟨v, hv⟩ := Option.isSome_iff_exists.mp (hr.live hi)
    exact .inr ⟨p, v, rfl, (hr.get hi).symm.trans hv, hv⟩

/-- As many blocks as objects. -/
theorem size_eq (hr : Represents ptr val h) {live : List ι} (hnodup : live.Nodup)
    (hlive : ∀ i, i ∈ live ↔ (val i).isSome) : h.size = live.length := by
  have hptr : ∀ i ∈ live, ∃ p v, ptr i = some p ∧ h[p]? = some v := by
    intro i hi
    rcases hr.cases i with ⟨-, hval⟩ | ⟨p, v, hp, -, hv⟩
    · rw [hlive, hval] at hi
      cases hi
    · exact ⟨p, v, hp, hv⟩
  have hperm : (live.filterMap ptr).Perm h.keys := by
    refine (List.perm_ext_iff_of_nodup ?_ Std.ExtTreeMap.nodup_keys).mpr ?_
    · refine List.Pairwise.filterMap ptr ?_ hnodup
      intro i j hne p hi q hj heq
      exact hne (hr.distinct hi (heq ▸ hj))
    · intro p
      rw [Std.ExtTreeMap.mem_keys, List.mem_filterMap]
      refine ⟨?_, ?_⟩
      · rintro ⟨i, -, hi⟩
        have hsome := hr.live hi
        rwa [Std.ExtTreeMap.isSome_getElem?_iff_mem] at hsome
      · intro hp
        obtain ⟨v, hv⟩ := Option.isSome_iff_exists.mp
          (Std.ExtTreeMap.isSome_getElem?_iff_mem.mpr hp)
        obtain ⟨i, hi⟩ := hr.owned hv
        refine ⟨i, ?_, hi⟩
        rw [hlive, ← hr.get hi, hv]
        rfl
  have hlength : (live.filterMap ptr).length = live.length := by
    rw [List.length_filterMap_eq_countP, List.countP_eq_length]
    intro i hi
    obtain ⟨p, v, hp, -⟩ := hptr i hi
    rw [hp]
    rfl
  rw [← Std.ExtTreeMap.length_keys, ← hperm.length_eq, hlength]

variable [DecidableEq ι]

/-- An object changes. -/
theorem update (hr : Represents ptr val h) (hi : ptr i = some p) (v : V) :
    Represents ptr (Function.update val i (some v)) (h.insert p v) where
  block j := by
    by_cases hj : j = i
    · subst hj
      rw [Function.update_self, hi, Option.bind_some, Heap.get_insert_self]
    · rw [Function.update_of_ne hj, hr.block]
      cases hptr : ptr j with
      | none => rfl
      | some q =>
        have hne : p ≠ q := fun heq => hj (hr.distinct hptr (heq ▸ hi))
        rw [Option.bind_some, Option.bind_some, Heap.get_insert_of_ne _ hne]
  live {j q} hj := by
    by_cases hq : p = q
    · rw [hq, Heap.get_insert_self]
      rfl
    · rw [Heap.get_insert_of_ne _ hq]
      exact hr.live hj
  distinct := hr.distinct
  owned {q w} hq := by
    by_cases heq : p = q
    · exact ⟨i, heq ▸ hi⟩
    · rw [Heap.get_insert_of_ne _ heq] at hq
      exact hr.owned hq
  valid {q w} hq := by
    by_cases heq : p = q
    · obtain ⟨u, hu⟩ := Option.isSome_iff_exists.mp (hr.live hi)
      exact heq ▸ hr.valid hu
    · rw [Heap.get_insert_of_ne _ heq] at hq
      exact hr.valid hq

/-- An object is made. -/
theorem add (hr : Represents ptr val h) (hi : ptr i = none) (hp : h[p]? = none) (hvalid : 2 ≤ p)
    (v : V) :
    Represents (Function.update ptr i (some p)) (Function.update val i (some v)) (h.insert p v) where
  block j := by
    by_cases hj : j = i
    · subst hj
      rw [Function.update_self, Function.update_self, Option.bind_some, Heap.get_insert_self]
    · rw [Function.update_of_ne hj, Function.update_of_ne hj, hr.block]
      cases hptr : ptr j with
      | none => rfl
      | some q =>
        obtain ⟨u, hu⟩ := Option.isSome_iff_exists.mp (hr.live hptr)
        rw [Option.bind_some, Option.bind_some, Heap.get_insert_of_ne _ (Heap.ne_of_get hu hp).symm]
  live {j q} hj := by
    by_cases hq : p = q
    · rw [hq, Heap.get_insert_self]
      rfl
    · rw [Heap.get_insert_of_ne _ hq]
      by_cases hji : j = i
      · subst hji
        rw [Function.update_self] at hj
        exact absurd (Option.some.inj hj) hq
      · rw [Function.update_of_ne hji] at hj
        exact hr.live hj
  distinct {j k q} hj hk := by
    have hfree : ∀ {l}, ptr l = some p → False := by
      intro l hl
      have hlive := hr.live hl
      rw [hp] at hlive
      cases hlive
    by_cases hji : j = i
    · subst hji
      rw [Function.update_self] at hj
      obtain rfl := Option.some.inj hj
      by_cases hki : k = j
      · exact hki.symm
      · rw [Function.update_of_ne hki] at hk
        exact (hfree hk).elim
    · rw [Function.update_of_ne hji] at hj
      by_cases hki : k = i
      · subst hki
        rw [Function.update_self] at hk
        obtain rfl := Option.some.inj hk
        exact (hfree hj).elim
      · rw [Function.update_of_ne hki] at hk
        exact hr.distinct hj hk
  owned {q w} hq := by
    by_cases heq : p = q
    · exact ⟨i, by rw [Function.update_self, heq]⟩
    · rw [Heap.get_insert_of_ne _ heq] at hq
      obtain ⟨j, hj⟩ := hr.owned hq
      refine ⟨j, ?_⟩
      rw [Function.update_of_ne]
      · exact hj
      · rintro rfl
        rw [hi] at hj
        cases hj
  valid {q w} hq := by
    by_cases heq : p = q
    · exact heq ▸ hvalid
    · rw [Heap.get_insert_of_ne _ heq] at hq
      exact hr.valid hq

/-- An object goes away. -/
theorem remove (hr : Represents ptr val h) (hi : ptr i = some p) :
    Represents (Function.update ptr i none) (Function.update val i none) (h.erase p) where
  block j := by
    by_cases hj : j = i
    · subst hj
      rw [Function.update_self, Function.update_self, Option.bind_none]
    · rw [Function.update_of_ne hj, Function.update_of_ne hj, hr.block]
      cases hptr : ptr j with
      | none => rfl
      | some q =>
        have hne : p ≠ q := fun heq => hj (hr.distinct hptr (heq ▸ hi))
        rw [Option.bind_some, Option.bind_some, Heap.get_erase_of_ne _ hne]
  live {j q} hj := by
    by_cases hji : j = i
    · subst hji
      rw [Function.update_self] at hj
      cases hj
    · rw [Function.update_of_ne hji] at hj
      have hne : p ≠ q := fun heq => hji (hr.distinct hj (heq ▸ hi))
      rw [Heap.get_erase_of_ne _ hne]
      exact hr.live hj
  distinct {j k q} hj hk := by
    by_cases hji : j = i
    · subst hji
      rw [Function.update_self] at hj
      cases hj
    · by_cases hki : k = i
      · subst hki
        rw [Function.update_self] at hk
        cases hk
      · rw [Function.update_of_ne hji] at hj
        rw [Function.update_of_ne hki] at hk
        exact hr.distinct hj hk
  owned {q w} hq := by
    by_cases heq : p = q
    · subst heq
      rw [Std.ExtTreeMap.getElem?_erase_self] at hq
      cases hq
    · rw [Heap.get_erase_of_ne _ heq] at hq
      obtain ⟨j, hj⟩ := hr.owned hq
      refine ⟨j, ?_⟩
      rw [Function.update_of_ne]
      · exact hj
      · rintro rfl
        exact heq (Option.some.inj (hi.symm.trans hj))
  valid {q w} hq := by
    by_cases heq : p = q
    · subst heq
      rw [Std.ExtTreeMap.getElem?_erase_self] at hq
      cases hq
    · rw [Heap.get_erase_of_ne _ heq] at hq
      exact hr.valid hq

end Represents

end Clarity
