/-
**Dictionaries in order of first entry.**

A dictionary is a list of pairs.  Setting a name that is present replaces its value in place; a new
name goes to the end.  Options, tables and named stores all are dictionaries; what they have in
common is stated here once.

Main definitions:

* `Dictionary` — pairs of a name and a value;
* `Dictionary.find?`, `Dictionary.set`, `Dictionary.erase`, `Dictionary.names`;
* `Dictionary.sorted` — the pairs of a dictionary with text names, by name.

Main results:

* `Dictionary.find?_set`, `Dictionary.find?_erase` — what is found after a change;
* `Dictionary.mem_iff_find?` — what is listed, when names are distinct;
* `Dictionary.names_set`, `Dictionary.nodup_names_set` — the order of names after a change, and that
  names stay distinct;
* `Dictionary.find?_isSome_iff` — a name is found exactly when it is among the names;
* `Dictionary.eq_sorted_of_perm`, `Dictionary.sorted_eq_of_find?` — there is one order by name, and
  it depends on what is found alone.
-/

set_option autoImplicit false

namespace SchemaGraph

/-- Pairs of a name and a value, in order of the first entry of the name. -/
abbrev Dictionary (κ α : Type) := List (κ × α)

namespace Dictionary

variable {κ α : Type} [DecidableEq κ]

/-! ### Operations -/

/-- The value entered under a name. -/
def find? (k : κ) : Dictionary κ α → Option α
  | [] => none
  | (n, v) :: d => if n = k then some v else find? k d

/-- Enters a value under a name, in place of the value entered there before. -/
def set (k : κ) (v : α) : Dictionary κ α → Dictionary κ α
  | [] => [(k, v)]
  | (n, w) :: d => if n = k then (n, v) :: d else (n, w) :: set k v d

/-- Removes what is entered under a name. -/
def erase (k : κ) (d : Dictionary κ α) : Dictionary κ α := d.filter fun p => p.1 ≠ k

/-- The names in order of their first entry. -/
def names (d : Dictionary κ α) : List κ := d.map Prod.fst

/-- The dictionary that results from entering pairs one by one. -/
def ofPairs (pairs : List (κ × α)) : Dictionary κ α :=
  pairs.foldl (fun d p => set p.1 p.2 d) []

/-- The pairs of a dictionary with text names, by name. -/
def sorted (d : Dictionary String α) : List (String × α) := d.mergeSort fun p q => p.1 ≤ q.1

/-! ### What is found -/

@[simp] theorem find?_nil (k : κ) : find? k ([] : Dictionary κ α) = none := rfl

theorem find?_cons (k n : κ) (v : α) (d : Dictionary κ α) :
    find? k ((n, v) :: d) = if n = k then some v else find? k d := rfl

theorem find?_set (k j : κ) (v : α) (d : Dictionary κ α) :
    find? j (set k v d) = if k = j then some v else find? j d := by
  induction d with
  | nil => simp [set, find?]
  | cons p d ih =>
      obtain ⟨n, w⟩ := p
      by_cases hn : n = k
      · subst hn
        by_cases hj : n = j <;> simp [set, find?, hj]
      · by_cases hj : n = j
        · subst hj
          simp [set, find?, hn, Ne.symm hn]
        · simp [set, find?, hn, hj, ih]

@[simp] theorem find?_set_self (k : κ) (v : α) (d : Dictionary κ α) :
    find? k (set k v d) = some v := by
  simp [find?_set]

theorem find?_set_of_ne {k j : κ} (h : k ≠ j) (v : α) (d : Dictionary κ α) :
    find? j (set k v d) = find? j d := by
  simp [find?_set, h]

theorem find?_erase (k j : κ) (d : Dictionary κ α) :
    find? j (erase k d) = if k = j then none else find? j d := by
  induction d with
  | nil => simp [erase]
  | cons p d ih =>
      obtain ⟨n, w⟩ := p
      by_cases hn : n = k
      · subst hn
        have he : erase n ((n, w) :: d) = erase n d := by simp [erase]
        rw [he, ih]
        by_cases hj : n = j <;> simp [find?, hj]
      · have he : erase k ((n, w) :: d) = (n, w) :: erase k d := by simp [erase, hn]
        rw [he, find?_cons, find?_cons, ih]
        by_cases hj : n = j
        · subst hj
          simp [Ne.symm hn]
        · simp [hj]

@[simp] theorem find?_erase_self (k : κ) (d : Dictionary κ α) : find? k (erase k d) = none := by
  simp [find?_erase]

theorem find?_erase_of_ne {k j : κ} (h : k ≠ j) (d : Dictionary κ α) :
    find? j (erase k d) = find? j d := by
  simp [find?_erase, h]

@[simp] theorem set_set (k : κ) (v w : α) (d : Dictionary κ α) :
    set k w (set k v d) = set k w d := by
  induction d with
  | nil => simp [set]
  | cons p d ih =>
      obtain ⟨n, u⟩ := p
      by_cases hn : n = k <;> simp [set, hn, ih]

theorem find?_map {β : Type} (f : α → β) (k : κ) (d : Dictionary κ α) :
    find? k (d.map fun p => (p.1, f p.2)) = (find? k d).map f := by
  induction d with
  | nil => rfl
  | cons p d ih =>
      obtain ⟨n, v⟩ := p
      by_cases hn : n = k <;> simp [find?, hn, ih]

/-! ### Names -/

theorem find?_isSome_iff (k : κ) (d : Dictionary κ α) :
    (find? k d).isSome = true ↔ k ∈ names d := by
  induction d with
  | nil => simp [names]
  | cons p d ih =>
      obtain ⟨n, w⟩ := p
      by_cases hn : n = k
      · simp [find?, names, hn]
      · simpa [find?, names, hn, Ne.symm hn] using ih

theorem find?_eq_none_iff (k : κ) (d : Dictionary κ α) : find? k d = none ↔ k ∉ names d := by
  rw [← find?_isSome_iff]
  simp

theorem mem_of_find? {k : κ} {v : α} {d : Dictionary κ α} (h : find? k d = some v) :
    (k, v) ∈ d := by
  induction d with
  | nil => simp at h
  | cons p d ih =>
      obtain ⟨n, w⟩ := p
      by_cases hn : n = k
      · simp_all [find?]
      · simp only [find?, hn, if_false] at h
        exact List.mem_cons_of_mem _ (ih h)

/-- When the names are distinct, what is found is what is listed. -/
theorem mem_iff_find? {d : Dictionary κ α} (h : (names d).Nodup) (k : κ) (v : α) :
    (k, v) ∈ d ↔ find? k d = some v := by
  induction d with
  | nil => simp
  | cons p d ih =>
      obtain ⟨n, w⟩ := p
      have hd : n ∉ names d ∧ (names d).Nodup := List.nodup_cons.1 h
      by_cases hn : n = k
      · subst hn
        have hmem : (n, v) ∉ d := fun hv => hd.1 (List.mem_map_of_mem hv)
        simp [find?, hmem, eq_comm]
      · simp [find?, hn, Ne.symm hn, ih hd.2]

theorem names_set (k : κ) (v : α) (d : Dictionary κ α) :
    names (set k v d) = if k ∈ names d then names d else names d ++ [k] := by
  induction d with
  | nil => simp [set, names]
  | cons p d ih =>
      obtain ⟨n, w⟩ := p
      simp only [names] at ih
      by_cases hn : n = k
      · simp [set, names, hn]
      · by_cases hk : k ∈ d.map Prod.fst
        · simp_all [set, names]
        · simp_all [set, names, Ne.symm hn]

theorem names_subset_set (k : κ) (v : α) (d : Dictionary κ α) :
    names d ⊆ names (set k v d) := by
  rw [names_set]
  split
  · exact List.Subset.refl _
  · exact List.subset_append_left _ _

theorem nodup_names_set {d : Dictionary κ α} (h : (names d).Nodup) (k : κ) (v : α) :
    (names (set k v d)).Nodup := by
  rw [names_set]
  split
  · exact h
  · rename_i hk
    refine List.nodup_append.2 ⟨h, by simp, ?_⟩
    intro a ha b hb hab
    rw [List.mem_singleton.1 hb] at hab
    exact hk (hab ▸ ha)

theorem nodup_names_erase {d : Dictionary κ α} (h : (names d).Nodup) (k : κ) :
    (names (erase k d)).Nodup :=
  List.Nodup.sublist (List.Sublist.map _ List.filter_sublist) h

omit [DecidableEq κ] in
theorem nodup_of_names {d : Dictionary κ α} (h : (names d).Nodup) : d.Nodup := by
  rw [List.nodup_iff_pairwise_ne] at h ⊢
  exact (List.pairwise_map.1 h).imp fun hne heq => hne (congrArg Prod.fst heq)

/-- Dictionaries with distinct names in which the same is found list the same. -/
theorem perm_of_find? {d e : Dictionary κ α} (hd : (names d).Nodup)
    (he : (names e).Nodup) (h : ∀ n, find? n d = find? n e) : d.Perm e := by
  refine (List.perm_ext_iff_of_nodup (nodup_of_names hd) (nodup_of_names he)).2 fun p => ?_
  rw [mem_iff_find? hd p.1 p.2, mem_iff_find? he p.1 p.2, h]

/-! ### Order by name -/

theorem sorted_perm (d : Dictionary String α) : (sorted d).Perm d := List.mergeSort_perm d _

theorem mem_sorted {d : Dictionary String α} {p : String × α} : p ∈ sorted d ↔ p ∈ d :=
  (sorted_perm d).mem_iff

theorem pairwise_sorted (d : Dictionary String α) :
    (sorted d).Pairwise fun p q => p.1 ≤ q.1 := by
  have htrans : ∀ p q r : String × α, decide (p.1 ≤ q.1) = true → decide (q.1 ≤ r.1) = true →
      decide (p.1 ≤ r.1) = true := by
    intro p q r hpq hqr
    rw [decide_eq_true_eq] at *
    exact String.le_trans hpq hqr
  have htotal : ∀ p q : String × α, (decide (p.1 ≤ q.1) || decide (q.1 ≤ p.1)) = true := by
    intro p q
    rw [Bool.or_eq_true, decide_eq_true_eq, decide_eq_true_eq]
    exact String.le_total p.1 q.1
  exact (List.pairwise_mergeSort htrans htotal d).imp of_decide_eq_true

theorem sorted_map {β : Type} (f : α → β) (d : Dictionary String α) :
    sorted (d.map fun p => (p.1, f p.2)) = (sorted d).map fun p => (p.1, f p.2) := by
  unfold sorted
  rw [List.map_mergeSort]
  intro p _ q _
  rfl

theorem find?_sorted {d : Dictionary String α} (h : (names d).Nodup) (n : String) :
    find? n (sorted d) = find? n d := by
  have hs : (names (sorted d)).Nodup := ((sorted_perm d).map Prod.fst).nodup_iff.2 h
  refine Option.ext fun v => ?_
  rw [← mem_iff_find? hs, ← mem_iff_find? h, mem_sorted]

/-- A dictionary with distinct names has one order by name, whichever way it is found. -/
theorem eq_sorted_of_perm {d l : Dictionary String α} (h : (names d).Nodup) (hl : l.Perm d)
    (hs : l.Pairwise fun p q => p.1 ≤ q.1) : l = sorted d := by
  refine (hl.trans (sorted_perm d).symm).eq_of_pairwise ?_ hs (pairwise_sorted d)
  intro p q hp hq hpq hqp
  -- an entry is determined by its name
  have hname : p.1 = q.1 := String.le_antisymm hpq hqp
  have hfp := (mem_iff_find? h p.1 p.2).1 (hl.mem_iff.1 hp)
  have hfq := (mem_iff_find? h q.1 q.2).1 (mem_sorted.1 hq)
  rw [hname, hfq, Option.some.injEq] at hfp
  exact Prod.ext hname hfp.symm

/-- Dictionaries with distinct names in which the same is found have one order by name. -/
theorem sorted_eq_of_find? {d e : Dictionary String α} (hd : (names d).Nodup)
    (he : (names e).Nodup) (h : ∀ n, find? n d = find? n e) : sorted d = sorted e :=
  eq_sorted_of_perm he ((sorted_perm d).trans (perm_of_find? hd he h)) (pairwise_sorted d)

end Dictionary

end SchemaGraph
