/-
**The graph of threads that wait for each other.**

A thread with a waiting record points at the owner of the construction that it waits for.  A thread
has one record at most, so the graph is a function, and a walk along it either ends or comes back.
The walk that decides whether a call may go to sleep is bounded by the number of records; here that
bound is shown never to cut a walk short, and the ways in which the graph grows are shown to keep it
free of cycles.

Main definitions:

* `Table.WaitsFor` — an edge of the graph;
* `Table.waitsAfter` — the thread at the end of a walk of given length;
* `Table.Acyclic` — no thread waits for itself, through however many others.

Main results:

* `Table.exists_repeat` — a walk that is longer than the number of records repeats itself;
* `Table.waitWalk_iff_of_lt`, `Table.closesWaitCycle_iff` — so a walk with more hops than there are
  records meets whatever there is a path to;
* `Table.bounded_walk_exact` — **the bounded walk is exact**, and its bound cuts off no path;
* `Table.Acyclic.of_sink`, `Table.Acyclic.of_edge` — edges that close no cycle;
* `Table.Acyclic.exists_end` — without cycles, every walk ends within the number of records.
-/

import Mathlib.Data.Fintype.Card
import Mathlib.Logic.Relation
import SchemaGraph.Registry.Table

set_option autoImplicit false

namespace SchemaGraph.Registry.Table

open Relation (ReflTransGen TransGen)

variable {T T' : Table} {t u v w : ThreadId}

/-! ### Edges and walks -/

/-- A thread waits for a key that another thread is constructing. -/
def WaitsFor (T : Table) (t u : ThreadId) : Prop :=
  ∃ (k : Key) (q : SlotId), Dictionary.find? t T.waiting = some k ∧
    Dictionary.find? k T.entries = some (.pending u q)

theorem owner?_eq_some_iff {k : Key} :
    T.owner? k = some u ↔ ∃ q, Dictionary.find? k T.entries = some (.pending u q) := by
  unfold owner?
  cases Dictionary.find? k T.entries with
  | none => simp
  | some e => cases e <;> simp

theorem waitsFor_eq_some_iff : T.waitsFor t = some u ↔ T.WaitsFor t u := by
  simp only [waitsFor, Option.bind_eq_some_iff, owner?_eq_some_iff, WaitsFor]
  constructor
  · rintro ⟨k, hk, q, hq⟩
    exact ⟨k, q, hk, hq⟩
  · rintro ⟨k, q, hk, hq⟩
    exact ⟨k, hk, q, hq⟩

/-- The thread at the end of a walk of so many hops. -/
def waitsAfter (T : Table) : Nat → ThreadId → Option ThreadId
  | 0, t => some t
  | n + 1, t => (T.waitsFor t).bind (T.waitsAfter n)

@[simp] theorem waitsAfter_zero (T : Table) (t : ThreadId) : T.waitsAfter 0 t = some t := rfl

theorem waitsAfter_add (T : Table) (m n : Nat) (t : ThreadId) :
    T.waitsAfter (m + n) t = (T.waitsAfter m t).bind (T.waitsAfter n) := by
  induction m generalizing t with
  | zero => simp
  | succ m ih =>
      rw [Nat.succ_add]
      cases h : T.waitsFor t with
      | none => simp [waitsAfter, h]
      | some u => simpa [waitsAfter, h] using ih u

theorem waitsAfter_succ (T : Table) (n : Nat) (t : ThreadId) :
    T.waitsAfter (n + 1) t = (T.waitsAfter n t).bind T.waitsFor := by
  rw [waitsAfter_add]
  congr 1
  funext u
  cases h : T.waitsFor u <;> simp [waitsAfter, h]

/-- The walks are the paths of the graph. -/
theorem reflTransGen_iff : ReflTransGen T.WaitsFor t u ↔ ∃ n, T.waitsAfter n t = some u := by
  constructor
  · intro h
    induction h with
    | refl => exact ⟨0, rfl⟩
    | tail _ hvu ih =>
        obtain ⟨n, hn⟩ := ih
        exact ⟨n + 1, by rw [waitsAfter_succ, hn, Option.bind_some, waitsFor_eq_some_iff.2 hvu]⟩
  · rintro ⟨n, hn⟩
    induction n generalizing u with
    | zero =>
        obtain rfl : t = u := by simpa using hn
        exact .refl
    | succ n ih =>
        rw [waitsAfter_succ, Option.bind_eq_some_iff] at hn
        obtain ⟨v, hv, hvu⟩ := hn
        exact (ih hv).tail (waitsFor_eq_some_iff.1 hvu)

/-! ### The bounded walk -/

theorem waitWalk_iff (me : ThreadId) (n : Nat) :
    T.waitWalk me n t = true ↔ ∃ m < n, T.waitsAfter m t = some me := by
  induction n generalizing t with
  | zero => simp
  | succ n ih =>
      rw [waitWalk_succ, Bool.or_eq_true, decide_eq_true_eq, Option.any_eq_true_iff_get]
      constructor
      · rintro (rfl | ⟨hs, hw⟩)
        · exact ⟨0, Nat.succ_pos n, rfl⟩
        · obtain ⟨m, hm, he⟩ := ih.1 hw
          refine ⟨m + 1, by omega, ?_⟩
          rw [waitsAfter, ← Option.some_get hs, Option.bind_some, he]
      · rintro ⟨m, hm, he⟩
        cases m with
        | zero => exact Or.inl (by simpa using he)
        | succ m =>
            right
            rw [waitsAfter, Option.bind_eq_some_iff] at he
            obtain ⟨u, hu, he⟩ := he
            refine ⟨by simp [hu], ?_⟩
            simp only [hu, Option.get_some]
            exact ih.2 ⟨m, by omega, he⟩

/-- A walk along more threads than there are waiting records meets a thread twice. -/
theorem exists_repeat {n : Nat} (hn : T.waiting.length ≤ n)
    (h : ∀ i ≤ n, ∃ u v, T.waitsAfter i t = some u ∧ T.WaitsFor u v) :
    ∃ i j, i < j ∧ j ≤ n ∧ T.waitsAfter i t = T.waitsAfter j t := by
  -- every thread on the way has a record, so two of the `n + 1` places hold the same thread
  have hmaps : ∀ i ∈ Finset.range (n + 1),
      T.waitsAfter i t ∈ ((Dictionary.names T.waiting).map some).toFinset := by
    intro i hi
    obtain ⟨u, v, hu, k, q, hk, -⟩ := h i (by simpa [Nat.lt_succ_iff] using hi)
    have hmem : u ∈ Dictionary.names T.waiting :=
      (Dictionary.find?_isSome_iff u T.waiting).1 (by rw [hk]; rfl)
    rw [hu, List.mem_toFinset]
    exact List.mem_map_of_mem hmem
  have hcard : ((Dictionary.names T.waiting).map some).toFinset.card
      < (Finset.range (n + 1)).card := by
    have hle := List.toFinset_card_le ((Dictionary.names T.waiting).map some)
    simp only [Dictionary.names, List.length_map] at hle
    rw [Finset.card_range]
    exact Nat.lt_succ_of_le (hle.trans hn)
  obtain ⟨i, hi, j, hj, hij, he⟩ := Finset.exists_ne_map_eq_of_card_lt_of_maps_to hcard hmaps
  simp only [Finset.mem_range, Nat.lt_succ_iff] at hi hj
  rcases Nat.lt_or_gt_of_ne hij with hlt | hlt
  · exact ⟨i, j, hlt, hj, he⟩
  · exact ⟨j, i, hlt, hi, he.symm⟩

/-- A thread that some walk meets is met within the number of waiting records. -/
theorem exists_short {m : Nat} (h : T.waitsAfter m t = some u) :
    ∃ n ≤ T.waiting.length, T.waitsAfter n t = some u := by
  induction m using Nat.strong_induction_on with
  | _ m ih =>
      by_cases hm : m ≤ T.waiting.length
      · exact ⟨m, hm, h⟩
      · -- every place before the last is left, so there is a loop, which the walk can do without
        have hleft : ∀ i ≤ m - 1, ∃ v w, T.waitsAfter i t = some v ∧ T.WaitsFor v w := by
          intro i hi
          obtain ⟨d, rfl⟩ : ∃ d, m = i + (d + 1) := ⟨m - i - 1, by omega⟩
          rw [waitsAfter_add, Option.bind_eq_some_iff] at h
          obtain ⟨v, hv, hvu⟩ := h
          rw [waitsAfter, Option.bind_eq_some_iff] at hvu
          obtain ⟨w, hw, -⟩ := hvu
          exact ⟨v, w, hv, waitsFor_eq_some_iff.1 hw⟩
        obtain ⟨i, j, hij, hj, he⟩ := exists_repeat (by omega) hleft
        obtain ⟨d, rfl⟩ : ∃ d, m = j + d := ⟨m - j, by omega⟩
        refine ih (i + d) (by omega) ?_
        rw [waitsAfter_add, he, ← waitsAfter_add, h]

/-- More hops than there are waiting records meet whatever any walk meets. -/
theorem waitWalk_iff_of_lt {hops : Nat} (h : T.waiting.length < hops) :
    T.waitWalk u hops t = true ↔ ReflTransGen T.WaitsFor t u := by
  rw [waitWalk_iff, reflTransGen_iff]
  constructor
  · rintro ⟨m, -, hm⟩
    exact ⟨m, hm⟩
  · rintro ⟨m, hm⟩
    obtain ⟨n, hn, he⟩ := exists_short hm
    exact ⟨n, Nat.lt_of_le_of_lt hn h, he⟩

theorem closesWaitCycle_iff (owner me : ThreadId) :
    T.closesWaitCycle owner me = true ↔ ReflTransGen T.WaitsFor owner me :=
  waitWalk_iff_of_lt (Nat.lt_succ_self _)

/-- **The bounded walk is exact**, in every table, also in one whose threads wait in a circle: it
meets a thread exactly when a path of hops leads there, each from a thread with a waiting record to
the owner of the construction that it waits for.  A thread on some walk is met within the bound, and
no longer walk meets another. -/
theorem bounded_walk_exact (T : Table) (owner me : ThreadId) :
    (T.closesWaitCycle owner me = true ↔ ReflTransGen T.WaitsFor owner me)
      ∧ (∀ n, T.waitsAfter n owner = some me →
          ∃ m < T.waiting.length + 1, T.waitsAfter m owner = some me)
      ∧ ∀ hops, T.waiting.length + 1 ≤ hops →
          T.waitWalk me hops owner = T.closesWaitCycle owner me := by
  refine ⟨closesWaitCycle_iff owner me, ?_, ?_⟩
  · intro n hn
    obtain ⟨m, hm, he⟩ := exists_short hn
    exact ⟨m, Nat.lt_succ_of_le hm, he⟩
  · intro hops h
    rw [Bool.eq_iff_iff, closesWaitCycle_iff, waitWalk_iff_of_lt h]

-- a chain through all waiting threads needs the bound in full: one hop less misses its end
example :
    let first : Key := ⟨⟨1, 0⟩⟩
    let second : Key := ⟨⟨2, 0⟩⟩
    let T : Table :=
      { entries := [(first, .pending 1 0), (second, .pending 2 1)]
        waiting := [(0, first), (1, second)] }
    T.closesWaitCycle 0 2 = true ∧ T.waitWalk 2 T.waiting.length 0 = false := by
  decide

/-! ### Cycles -/

/-- No thread waits for itself, be it through others. -/
def Acyclic (T : Table) : Prop := ∀ t, ¬ TransGen T.WaitsFor t t

/-- Fewer edges close no cycle. -/
theorem Acyclic.mono (ha : T.Acyclic) (h : ∀ t u, T'.WaitsFor t u → T.WaitsFor t u) :
    T'.Acyclic :=
  fun t ht => ha t (TransGen.mono h t t ht)

/-- New edges into a thread that waits for nobody close no cycle. -/
theorem Acyclic.of_sink (ha : T.Acyclic) (hv : ∀ u, ¬ T'.WaitsFor v u)
    (h : ∀ t u, T'.WaitsFor t u → u = v ∨ T.WaitsFor t u) : T'.Acyclic := by
  -- a path that goes on after its end never met `v`
  have hpath : ∀ {t u w}, TransGen T'.WaitsFor t u → T'.WaitsFor u w →
      TransGen T.WaitsFor t u := by
    intro t u w htu
    induction htu generalizing w with
    | single htu =>
        intro huw
        refine .single ((h _ _ htu).resolve_left ?_)
        rintro rfl
        exact hv _ huw
    | tail _ hxu ih =>
        intro huw
        refine (ih hxu).tail ((h _ _ hxu).resolve_left ?_)
        rintro rfl
        exact hv _ huw
  intro t ht
  obtain ⟨u, htu, -⟩ := TransGen.head'_iff.1 ht
  exact ha t (hpath ht htu)

/-- A new edge closes no cycle when no path leads back. -/
theorem Acyclic.of_edge (ha : T.Acyclic) (hvw : ¬ ReflTransGen T.WaitsFor w v)
    (h : ∀ t u, T'.WaitsFor t u → (t = v ∧ u = w) ∨ T.WaitsFor t u) : T'.Acyclic := by
  -- a path either does without the new edge, or leads to its start and goes on from its end
  have hpath : ∀ {t u}, TransGen T'.WaitsFor t u → TransGen T.WaitsFor t u ∨
      (ReflTransGen T.WaitsFor t v ∧ ReflTransGen T.WaitsFor w u) := by
    intro t u htu
    induction htu with
    | single htu =>
        rcases h _ _ htu with ⟨rfl, rfl⟩ | htu
        · exact Or.inr ⟨.refl, .refl⟩
        · exact Or.inl (.single htu)
    | tail _ hxu ih =>
        rcases h _ _ hxu with ⟨rfl, rfl⟩ | hxu
        · rcases ih with hx | ⟨hx, -⟩
          · exact Or.inr ⟨hx.to_reflTransGen, .refl⟩
          · exact Or.inr ⟨hx, .refl⟩
        · rcases ih with hx | ⟨hx, hwx⟩
          · exact Or.inl (hx.tail hxu)
          · exact Or.inr ⟨hx, hwx.tail hxu⟩
  intro t ht
  rcases hpath ht with hcycle | ⟨htv, hwt⟩
  · exact ha t hcycle
  · exact hvw (hwt.trans htv)

theorem Acyclic.ne (ha : T.Acyclic) (h : T.WaitsFor t u) : u ≠ t := by
  rintro rfl
  exact ha u (.single h)

/-- Without cycles every walk ends within the number of waiting records. -/
theorem Acyclic.exists_end (ha : T.Acyclic) (t : ThreadId) :
    ∃ n ≤ T.waiting.length, ∃ u, T.waitsAfter n t = some u ∧ T.waitsFor u = none := by
  by_contra hno
  -- otherwise the walk goes on after each of its first places
  have hgo : ∀ i ≤ T.waiting.length, ∃ u, T.waitsAfter i t = some u := by
    intro i
    induction i with
    | zero => exact fun _ => ⟨t, rfl⟩
    | succ i ih =>
        intro hi
        obtain ⟨u, hu⟩ := ih (by omega)
        cases hw : T.waitsFor u with
        | none => exact absurd ⟨i, by omega, u, hu, hw⟩ hno
        | some v => exact ⟨v, by rw [waitsAfter_succ, hu, Option.bind_some, hw]⟩
  have hleft : ∀ i ≤ T.waiting.length, ∃ u v, T.waitsAfter i t = some u ∧ T.WaitsFor u v := by
    intro i hi
    obtain ⟨u, hu⟩ := hgo i hi
    cases hw : T.waitsFor u with
    | none => exact absurd ⟨i, hi, u, hu, hw⟩ hno
    | some v => exact ⟨u, v, hu, waitsFor_eq_some_iff.1 hw⟩
  obtain ⟨i, j, hij, hj, he⟩ := exists_repeat le_rfl hleft
  obtain ⟨u, hu⟩ := hgo i (by omega)
  obtain ⟨d, rfl⟩ : ∃ d, j = i + (d + 1) := ⟨j - i - 1, by omega⟩
  rw [waitsAfter_add, hu, Option.bind_some, waitsAfter, eq_comm, Option.bind_eq_some_iff] at he
  obtain ⟨v, hv, hvu⟩ := he
  exact ha u (.head' (waitsFor_eq_some_iff.1 hv) (reflTransGen_iff.2 ⟨d, hvu⟩))

end SchemaGraph.Registry.Table
