import Mathlib.Data.List.Basic

/- Arrays that are allocated and freed, and pointers into them. Nothing can be done to an array
   that has been freed, past its end, or with what was never stored in it. -/
namespace memory

/-- A pointer: null, or to a place in an array, which is known by its number. -/
inductive Pointer where
  | null
  | into (array index : Nat)
  deriving DecidableEq

namespace Pointer

/-- A null pointer stays one: nothing looks at where it would point. -/
def add : Pointer → Nat → Pointer
  | null, _ => null
  | into b i, n => into b (i + n)

def sub : Pointer → Nat → Pointer
  | null, _ => null
  | into b i, n => into b (i - n)

/-- How far `q` stands behind `p`, if they stand in one array and in that order. -/
def distance : Pointer → Pointer → Option Nat
  | null, null => some 0
  | into b i, into c j => if b = c ∧ i ≤ j then some (j - i) else none
  | _, _ => none

@[simp] theorem add_into (b i n : Nat) : (into b i).add n = into b (i + n) := rfl
@[simp] theorem sub_into (b i n : Nat) : (into b i).sub n = into b (i - n) := rfl

@[simp] theorem distance_into (b i n : Nat) : distance (into b i) (into b (i + n)) = some n := by
  rw [distance, if_pos ⟨rfl, Nat.le_add_right i n⟩, Nat.add_sub_cancel_left]

end Pointer

/-- The arrays allocated so far, each with its cells until it is freed. A cell nothing has been
    stored in is `none`. -/
structure Heap (α : Type) where
  arrays : List (Option (List (Option α)))

namespace Heap

variable {α : Type}

def empty : Heap α := ⟨[]⟩

def cells (h : Heap α) (b : Nat) : Option (List (Option α)) := h.arrays[b]?.join

/-- `new T[n]`. -/
def new (h : Heap α) (n : Nat) : Pointer × Heap α :=
  (.into h.arrays.length 0, ⟨h.arrays ++ [some (List.replicate n none)]⟩)

/-- `delete[]`, which takes null, or the first place of an array that has not been freed. -/
def delete (h : Heap α) : Pointer → Option (Heap α)
  | .null => some h
  | .into b 0 => (h.cells b).map fun _ => ⟨h.arrays.set b none⟩
  | .into _ (_ + 1) => none

def load (h : Heap α) : Pointer → Option α
  | .null => none
  | .into b i => (h.cells b).bind fun cells => cells[i]?.join

def store (h : Heap α) (p : Pointer) (a : α) : Option (Heap α) :=
  match p with
  | .null => none
  | .into b i => (h.cells b).bind fun cells =>
      if i < cells.length then some ⟨h.arrays.set b (some (cells.set i (some a)))⟩ else none

def loads (h : Heap α) (p : Pointer) : Nat → Option (List α)
  | 0 => some []
  | n + 1 => (h.load p).bind fun a => (loads h (p.add 1) n).map fun as => a :: as

def stores (h : Heap α) (p : Pointer) : List α → Option (Heap α)
  | [] => some h
  | a :: as => (h.store p a).bind fun h => stores h (p.add 1) as

/-- `memmove`, whose two ranges may overlap. -/
def move (h : Heap α) (dst src : Pointer) (n : Nat) : Option (Heap α) :=
  (h.loads src n).bind fun as => h.stores dst as

/-- The array is allocated, with room for `n`. -/
def Live (h : Heap α) (b n : Nat) : Prop := ∃ cells, h.cells b = some cells ∧ cells.length = n

/-- From `p` on stand the elements of `as`. -/
def Holds (h : Heap α) (p : Pointer) (as : List α) : Prop := ∀ k < as.length, h.load (p.add k) = as[k]?

/-- What a store of `as` from `p` on leaves. -/
structure Stored (h h' : Heap α) (p : Pointer) (as : List α) : Prop where
  holds : h'.Holds p as
  frame : ∀ q, (∀ k < as.length, q ≠ p.add k) → h'.load q = h.load q
  live : ∀ b n, h'.Live b n ↔ h.Live b n

/-- The array `p` points into is in `h'` what it is in `h`. -/
def Same (h h' : Heap α) (p : Pointer) : Prop :=
  ∀ b i, p = .into b i → (∀ j, h'.load (.into b j) = h.load (.into b j)) ∧ ∀ n, h.Live b n → h'.Live b n

/-- Nothing is allocated or freed, and no array is changed but the one `p` points into. -/
structure Within (h h' : Heap α) (p : Pointer) : Prop where
  live : ∀ b n, h'.Live b n ↔ h.Live b n
  same : ∀ q, (∀ b i j, p = .into b i → q ≠ .into b j) → Same h h' q

section
variable {h h' : Heap α} {b i n : Nat} {p q : Pointer} {as bs : List α}

/-- Replacing one array leaves the others where they were. -/
theorem cells_of_set (hb : b < h.arrays.length) (cells : Option (List (Option α))) (c : Nat) :
    (⟨h.arrays.set b cells⟩ : Heap α).cells c = if c = b then cells else h.cells c := by
  unfold Heap.cells
  by_cases hc : c = b
  · subst hc
    rw [if_pos rfl, List.getElem?_set_self hb, Option.join_some]
  · rw [if_neg hc, List.getElem?_set_ne (Ne.symm hc)]

/-- An array that has cells is one of those that were allocated. -/
theorem lt_of_cells {cells : List (Option α)} (hcells : h.cells b = some cells) : b < h.arrays.length := by
  by_contra hb
  rw [Heap.cells, List.getElem?_eq_none (by omega)] at hcells
  cases hcells

/-- Storing in a live array succeeds, and is seen at that place only. No array comes or goes. -/
theorem store_into (hlive : h.Live b n) (hi : i < n) (a : α) : ∃ h', h.store (.into b i) a = some h' ∧
    h'.load (.into b i) = some a ∧ (∀ q, q ≠ .into b i → h'.load q = h.load q) ∧
    ∀ c m, h'.Live c m ↔ h.Live c m := by
  obtain ⟨cells, hcells, rfl⟩ := hlive
  have hset := cells_of_set (lt_of_cells hcells) (some (cells.set i (some a)))
  refine ⟨⟨h.arrays.set b (some (cells.set i (some a)))⟩, ?_, ?_, ?_, ?_⟩
  · rw [store, hcells, Option.bind_some, if_pos hi]
  · rw [load, hset b, if_pos rfl, Option.bind_some, List.getElem?_set_self hi, Option.join_some]
  · rintro (_ | ⟨c, j⟩) hq
    · rfl
    · rw [load, load, hset c]
      by_cases hc : c = b
      · subst hc
        have hj : i ≠ j := fun hij => hq (by rw [hij])
        rw [if_pos rfl, hcells, Option.bind_some, Option.bind_some, List.getElem?_set_ne hj]
      · rw [if_neg hc]
  · intro c m
    rw [Live, Live, hset c]
    by_cases hc : c = b
    · subst hc
      rw [if_pos rfl, hcells]
      simp
    · rw [if_neg hc]

@[simp] theorem Holds.nil : h.Holds p [] := fun _ hk => absurd hk (Nat.not_lt_zero _)

/-- The rest of what an array holds begins one place further on. -/
theorem Holds.tail {a : α} (hp : h.Holds (.into b i) (a :: as)) : h.Holds (.into b (i + 1)) as := by
  intro k hk
  have hnext := hp (k + 1) (by rw [List.length_cons]; omega)
  rw [List.getElem?_cons_succ] at hnext
  rw [← hnext, Pointer.add_into, Pointer.add_into, Nat.add_assoc, Nat.add_comm 1]

/-- The first of what an array holds can be loaded. -/
theorem Holds.head {a : α} (hp : h.Holds p (a :: as)) : h.load p = some a := by
  have hfirst := hp 0 (Nat.zero_lt_succ _)
  cases p <;> exact hfirst

/-- What two neighbouring parts of an array hold, they hold together. -/
theorem Holds.append (has : h.Holds (.into b i) as) (hbs : h.Holds (.into b (i + as.length)) bs) :
    h.Holds (.into b i) (as ++ bs) := by
  intro k hk
  by_cases hlt : k < as.length
  · rw [List.getElem?_append_left hlt]
    exact has k hlt
  · rw [List.getElem?_append_right (by omega)]
    rw [List.length_append] at hk
    have hright := hbs (k - as.length) (by omega)
    rw [Pointer.add_into] at hright ⊢
    rwa [show i + as.length + (k - as.length) = i + k by omega] at hright

/-- The first part of what is held stays at its place. -/
theorem Holds.left (hp : h.Holds p (as ++ bs)) : h.Holds p as := by
  intro k hk
  rw [hp k (by rw [List.length_append]; omega), List.getElem?_append_left hk]

/-- The second part of what is held begins where the first one ends. -/
theorem Holds.right (hp : h.Holds (.into b i) (as ++ bs)) : h.Holds (.into b (i + as.length)) bs := by
  intro k hk
  have hboth := hp (as.length + k) (by rw [List.length_append]; omega)
  rw [List.getElem?_append_right (by omega), Nat.add_sub_cancel_left] at hboth
  rw [← hboth, Pointer.add_into, Pointer.add_into, Nat.add_assoc]

/-- Everything an array holds is loaded in one go, as `memcpy` and `write` do it. -/
theorem Holds.loads (hp : h.Holds (.into b i) as) : h.loads (.into b i) as.length = some as := by
  induction as generalizing i with
  | nil => rfl
  | cons a as ih =>
    rw [List.length_cons, Heap.loads, hp.head, Option.bind_some, Pointer.add_into, ih hp.tail]
    rfl

theorem stores_singleton (h : Heap α) (p : Pointer) (a : α) : h.stores p [a] = h.store p a := by
  rw [stores]
  cases h.store p a <;> rfl

theorem Stored.refl (h : Heap α) (p : Pointer) : Stored h h p [] := ⟨.nil, fun _ _ => rfl, fun _ _ => Iff.rfl⟩

/-- A store into an allocated array, within its bounds, goes well. -/
theorem stores_into (hlive : h.Live b n) (hroom : i + as.length ≤ n) :
    ∃ h', h.stores (.into b i) as = some h' ∧ Stored h h' (.into b i) as := by
  induction as generalizing h i with
  | nil => exact ⟨h, rfl, .refl h _⟩
  | cons a as ih =>
    rw [List.length_cons] at hroom
    obtain ⟨h₁, hstore, hload, hframe, hkeep⟩ := store_into hlive (show i < n by omega) a
    obtain ⟨h', hstores, hrest⟩ := ih ((hkeep b n).mpr hlive) (show i + 1 + as.length ≤ n by omega)
    refine ⟨h', ?_, ?_, ?_, fun c m => (hrest.live c m).trans (hkeep c m)⟩
    · rw [stores, hstore, Option.bind_some, Pointer.add_into, hstores]
    · intro k hk
      cases k with
      | zero =>
        rw [List.getElem?_cons_zero, ← hload]
        apply hrest.frame
        intro j _ heq
        rw [Pointer.add_into, Pointer.add_into, Pointer.into.injEq] at heq
        omega
      | succ k =>
        rw [List.length_cons] at hk
        rw [List.getElem?_cons_succ, ← hrest.holds k (by omega), Pointer.add_into, Pointer.add_into,
          Nat.add_assoc, Nat.add_comm 1]
    · intro q hq
      rw [hrest.frame q, hframe q]
      · exact hq 0 (Nat.zero_lt_succ _)
      · intro k hk
        have hne := hq (k + 1) (by rw [List.length_cons]; omega)
        rwa [Pointer.add_into, Nat.add_assoc, Nat.add_comm 1]

/-- `memmove` to a live array stores what stood at the source, also where the two overlap. -/
theorem move_into {c j : Nat} (has : h.Holds (.into c j) as) (hlive : h.Live b n) (hroom : i + as.length ≤ n) :
    ∃ h', h.move (.into b i) (.into c j) as.length = some h' ∧ Stored h h' (.into b i) as := by
  rw [move, has.loads, Option.bind_some]
  exact stores_into hlive hroom

/-- What stands somewhere else is still there after a store. -/
theorem Stored.keeps (hstored : Stored h h' (.into b i) as) {c j : Nat} (hp : h.Holds (.into c j) bs)
    (happart : c ≠ b ∨ j + bs.length ≤ i ∨ i + as.length ≤ j) : h'.Holds (.into c j) bs := by
  intro k hk
  rw [hstored.frame, hp k hk]
  intro l hl heq
  rw [Pointer.add_into, Pointer.add_into, Pointer.into.injEq] at heq
  omega

/-- Storing into one array changes no other. -/
theorem Stored.same (hstored : Stored h h' (.into b i) as) (hp : ∀ j, p ≠ .into b j) : Same h h' p := by
  rintro c j rfl
  refine ⟨fun l => hstored.frame _ fun k _ heq => ?_, fun n hlive => (hstored.live c n).mpr hlive⟩
  rw [Pointer.add_into, Pointer.into.injEq] at heq
  exact hp j (by rw [heq.1])

/-- Storing stays within its array. -/
theorem Stored.within (hstored : Stored h h' (.into b i) as) (j : Nat) : Within h h' (.into b j) where
  live := hstored.live
  same _ hq := hstored.same fun l => hq b j l rfl

theorem Within.refl (h : Heap α) (p : Pointer) : Within h h p where
  live _ _ := Iff.rfl
  same _ _ _ _ _ := ⟨fun _ => rfl, fun _ => id⟩

/-- Two changes within one array are one. -/
theorem Within.trans {h'' : Heap α} (hfirst : Within h h' p) (hnext : Within h' h'' p) : Within h h'' p where
  live b n := (hnext.live b n).trans (hfirst.live b n)
  same q hq b i hb :=
    have hfirst := hfirst.same q hq b i hb
    have hnext := hnext.same q hq b i hb
    ⟨fun j => (hnext.1 j).trans (hfirst.1 j), fun n hlive => hnext.2 n (hfirst.2 n hlive)⟩

/-- An array that is unchanged is as long as it was. -/
theorem Same.live (hsame : Same h h' (.into b i)) (hlive : h.Live b n) : h'.Live b n :=
  (hsame b i rfl).2 n hlive

/-- An array that is unchanged holds what it held, from any place on. -/
theorem Same.holds {j : Nat} (hsame : Same h h' (.into b i)) (hp : h.Holds (.into b j) as) :
    h'.Holds (.into b j) as := by
  intro k hk
  rw [← hp k hk]
  exact (hsame b i rfl).1 (j + k)

/-- A live array is one of those that were allocated. -/
theorem live_lt (hlive : h.Live b n) : b < h.arrays.length := by
  obtain ⟨cells, hcells, -⟩ := hlive
  exact lt_of_cells hcells

/-- A new array comes after all others, and nothing has been stored in it. -/
theorem cells_new (h : Heap α) (n c : Nat) : (h.new n).2.cells c =
    if c = h.arrays.length then some (List.replicate n none) else h.cells c := by
  rw [new, Heap.cells, Heap.cells]
  by_cases hc : c = h.arrays.length
  · subst hc
    rw [if_pos rfl, List.getElem?_concat_length, Option.join_some]
  · rw [if_neg hc]
    by_cases hlt : c < h.arrays.length
    · rw [List.getElem?_append_left hlt]
    · rw [List.getElem?_eq_none (by rw [List.length_append, List.length_singleton]; omega),
        List.getElem?_eq_none (by omega)]

/-- The arrays that are live after an allocation: the new one, and those that were. -/
theorem live_new (h : Heap α) (n c m : Nat) : (h.new n).2.Live c m ↔
      c = h.arrays.length ∧ m = n ∨ h.Live c m := by
  rw [Live, Live, cells_new]
  by_cases hc : c = h.arrays.length
  · subst hc
    have hnone : h.cells h.arrays.length = none := by
      rw [Heap.cells, List.getElem?_eq_none (Nat.le_refl _), Option.join_none]
    simp [hnone, eq_comm]
  · simp [hc]

/-- No load can tell that another array has been allocated. -/
theorem load_new (h : Heap α) (n : Nat) (q : Pointer) : (h.new n).2.load q = h.load q := by
  cases q with
  | null => rfl
  | into c j =>
    rw [load, load, cells_new]
    by_cases hc : c = h.arrays.length
    · subst hc
      have hnone : h.cells h.arrays.length = none := by
        rw [Heap.cells, List.getElem?_eq_none (Nat.le_refl _), Option.join_none]
      rw [if_pos rfl, hnone, Option.bind_some, List.getElem?_replicate]
      split <;> rfl
    · rw [if_neg hc]

/-- Nothing can be loaded where nothing is allocated. -/
theorem load_of_dead (hdead : ∀ b n, ¬h.Live b n) (q : Pointer) : h.load q = none := by
  cases q with
  | null => rfl
  | into c j =>
    cases hcells : h.cells c with
    | none => rw [load, hcells, Option.bind_none]
    | some cells => exact absurd ⟨cells, hcells, rfl⟩ (hdead c cells.length)

/-- An allocation changes none of the arrays there are. -/
theorem same_new (h : Heap α) (n : Nat) (p : Pointer) : Same h (h.new n).2 p := fun b _ _ =>
  ⟨fun j => load_new h n (.into b j), fun m hlive => (live_new h n b m).mpr (.inr hlive)⟩

/-- An array that is freed is gone, and no other is touched. -/
structure Freed (h h' : Heap α) (b : Nat) : Prop where
  live : ∀ c n, h'.Live c n ↔ c ≠ b ∧ h.Live c n
  gone : h'.cells b = none
  frame : ∀ c j, c ≠ b → h'.load (.into c j) = h.load (.into c j)

/-- `delete[]` of the pointer to the beginning of a live array succeeds. -/
theorem delete_into (hlive : h.Live b n) : ∃ h', h.delete (.into b 0) = some h' ∧ Freed h h' b := by
  obtain ⟨cells, hcells, rfl⟩ := hlive
  have hset := cells_of_set (lt_of_cells hcells) (none : Option (List (Option α)))
  refine ⟨⟨h.arrays.set b none⟩, ?_, ?_, ?_, ?_⟩
  · rw [delete, hcells, Option.map_some]
  · intro c m
    rw [Live, Live, hset c]
    by_cases hc : c = b <;> simp [hc]
  · rw [hset b, if_pos rfl]
  · intro c j hc
    rw [load, load, hset c, if_neg hc]

/-- Freeing one array changes no other. -/
theorem Freed.same (hfreed : Freed h h' b) (hp : ∀ j, p ≠ .into b j) : Same h h' p := by
  rintro c j rfl
  have hc : c ≠ b := fun hcb => hp j (by rw [hcb])
  exact ⟨fun l => hfreed.frame c l hc, fun n hlive => (hfreed.live c n).mpr ⟨hc, hlive⟩⟩

end

end Heap

end memory
