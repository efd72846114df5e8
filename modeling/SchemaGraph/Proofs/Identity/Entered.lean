/-
**Options are what was entered.**

A configuration keeps its options in a list that is never checked for names that stand in it twice.
Here one insertion is shown to preserve what the list stands for, and so a configuration is a record
of the whole history of insertions: each name that was ever entered stands in it once, at the place
of its first entry, with the value of its last.  Since names are distinct there is one order of the
options by name, whichever algorithm finds it, and it is the order of the bytes of the names.

Main definitions:

* `Dictionary.Records` — a dictionary records a history of entries;
* `Config.Inserted` — the configurations that come of inserting options one by one.

Main results:

* `Dictionary.Records.set` — one insertion extends the recorded history;
* `Config.Inserted.records`, `Config.inserted_iff` — so every run of insertions is recorded, and it
  is the same to build the configuration from all entries at once;
* `Dictionary.pairwise_bytes_sorted`, `Dictionary.eq_sorted_of_bytes` — the order by name ascends
  strictly by bytes, and nothing else does;
* `inserted_options` — **a configuration represents what was inserted**.
-/

import Mathlib.Data.Finset.Card
import Mathlib.Data.List.Induction
import SchemaGraph.Proofs.Identity.MapEquality
import SchemaGraph.Proofs.Text.ByteOrder

set_option autoImplicit false

namespace SchemaGraph

open Text (bytes)

namespace Dictionary

section History

variable {κ α : Type} [DecidableEq κ] {d : Dictionary κ α} {entries : List (κ × α)}

/-! ### Recorded histories -/

/-- The dictionary records a history of entries. -/
structure Records (d : Dictionary κ α) (entries : List (κ × α)) : Prop where
  /-- the names that were entered are listed -/
  listed : ∀ n, n ∈ names d ↔ n ∈ names entries
  /-- in the order of their first entries -/
  ordered : (names d).Pairwise fun m n => (names entries).idxOf m < (names entries).idxOf n
  /-- with the values that were entered last -/
  found : ∀ n v, find? n d = some v ↔
    ∃ before after, entries = before ++ (n, v) :: after ∧ n ∉ names after

theorem Records.nil : Records ([] : Dictionary κ α) [] :=
  ⟨fun _ => Iff.rfl, .nil, by simp⟩

omit [DecidableEq κ] in
theorem names_concat (entries : List (κ × α)) (k : κ) (v : α) :
    names (entries ++ [(k, v)]) = names entries ++ [k] := List.map_append

/-- The last of a history is its last entry, and what comes before that is as it was. -/
theorem exists_last_concat_iff (entries : List (κ × α)) (k n : κ) (w v : α) :
    (∃ before after, entries ++ [(k, w)] = before ++ (n, v) :: after ∧ n ∉ names after) ↔
      if k = n then w = v
      else ∃ before after, entries = before ++ (n, v) :: after ∧ n ∉ names after := by
  constructor
  · rintro ⟨before, after, heq, hn⟩
    rcases List.eq_nil_or_concat after with rfl | ⟨after, p, rfl⟩
    · obtain ⟨-, hp⟩ := List.append_inj' heq rfl
      obtain ⟨rfl, rfl⟩ : k = n ∧ w = v := by simpa using hp
      rw [if_pos rfl]
    · rw [List.concat_eq_append, ← List.cons_append, ← List.append_assoc] at heq
      obtain ⟨rfl, hp⟩ := List.append_inj' heq rfl
      obtain rfl : (k, w) = p := by simpa using hp
      rw [List.concat_eq_append, names_concat, List.mem_append, List.mem_singleton, not_or] at hn
      rw [if_neg (Ne.symm hn.2)]
      exact ⟨before, after, rfl, hn.1⟩
  · intro h
    by_cases hk : k = n
    · rw [if_pos hk] at h
      exact ⟨entries, [], by rw [hk, h], List.not_mem_nil⟩
    · rw [if_neg hk] at h
      obtain ⟨before, after, rfl, hn⟩ := h
      refine ⟨before, after ++ [(k, w)], by simp, ?_⟩
      rw [names_concat, List.mem_append, List.mem_singleton, not_or]
      exact ⟨hn, Ne.symm hk⟩

/-- **One insertion extends the recorded history**: a new name goes to the end, and a name that is
listed keeps its place. -/
theorem Records.set (h : Records d entries) (k : κ) (v : α) :
    Records (Dictionary.set k v d) (entries ++ [(k, v)]) := by
  have hplace : ∀ n ∈ names d,
      (names entries ++ [k]).idxOf n = (names entries).idxOf n :=
    fun n hn => List.idxOf_append_of_mem ((h.listed n).1 hn)
  have hordered : (names d).Pairwise fun m n =>
      (names entries ++ [k]).idxOf m < (names entries ++ [k]).idxOf n := by
    refine h.ordered.imp_of_mem fun {m n} hm hn hmn => ?_
    rwa [hplace m hm, hplace n hn]
  refine ⟨fun n => ?_, ?_, fun n w => ?_⟩
  · rw [names_set, names_concat, List.mem_append, ← h.listed, List.mem_singleton]
    split
    · rename_i hk
      exact ⟨Or.inl, fun hn => hn.elim id fun he => he ▸ hk⟩
    · rw [List.mem_append, List.mem_singleton]
  · rw [names_set, names_concat]
    split
    · exact hordered
    · rename_i hk
      refine List.pairwise_append.2 ⟨hordered, List.pairwise_singleton _ _, ?_⟩
      intro m hm n hn
      obtain rfl : n = k := List.mem_singleton.1 hn
      have hn : n ∉ names entries := fun hn => hk ((h.listed n).2 hn)
      rw [hplace m hm, List.idxOf_append_of_notMem hn]
      exact Nat.lt_add_right _ (List.idxOf_lt_length_of_mem ((h.listed m).1 hm))
  · rw [find?_set, exists_last_concat_iff, ← h.found]
    split
    · exact Option.some_inj
    · rfl

theorem Records.nodup (h : Records d entries) : (names d).Nodup := by
  refine List.nodup_iff_pairwise_ne.2 (h.ordered.imp ?_)
  rintro m _ hlt rfl
  exact Nat.lt_irrefl _ hlt

theorem Records.find?_eq_none_iff (h : Records d entries) (n : κ) :
    find? n d = none ↔ n ∉ names entries := by
  rw [Dictionary.find?_eq_none_iff, h.listed]

/-- There are as many options as distinct names. -/
theorem Records.length_eq (h : Records d entries) :
    d.length = (names entries).toFinset.card := by
  have hnames : (names entries).toFinset = (names d).toFinset := by
    ext n
    rw [List.mem_toFinset, List.mem_toFinset, h.listed]
  rw [hnames, List.toFinset_card_of_nodup h.nodup, names, List.length_map]

end History

/-! ### The order of bytes -/

variable {α : Type} {d e : Dictionary String α}

/-- The names of the ordered options ascend strictly by bytes. -/
theorem pairwise_bytes_sorted (h : (names d).Nodup) :
    (sorted d).Pairwise fun p q => bytes p.1 < bytes q.1 := by
  have hne : (sorted d).Pairwise fun p q => p.1 ≠ q.1 :=
    List.pairwise_map.1 (((sorted_perm d).map Prod.fst).nodup_iff.2 h)
  refine ((pairwise_sorted d).and hne).imp fun hpq => ?_
  exact Text.bytes_lt_iff.2 (lt_of_le_of_ne hpq.1 hpq.2)

/-- Whatever arranges the options so that no name has greater bytes than a later one is the order
by name. -/
theorem eq_sorted_of_bytes (h : (names d).Nodup) {l : List (String × α)} (hl : l.Perm d)
    (hs : l.Pairwise fun p q => ¬ bytes q.1 < bytes p.1) : l = sorted d := by
  refine eq_sorted_of_perm h hl (hs.imp fun hpq => ?_)
  rwa [Text.bytes_lt_iff, String.not_lt] at hpq

/-- Options have the same order by name exactly when they are the same options in some order. -/
theorem sorted_eq_iff_perm (hd : (names d).Nodup) : sorted e = sorted d ↔ e.Perm d := by
  constructor
  · intro h
    exact (sorted_perm e).symm.trans (h ▸ sorted_perm d)
  · intro h
    exact eq_sorted_of_perm hd ((sorted_perm e).trans h) (pairwise_sorted e)

theorem sorted_eq_iff_find? (hd : (names d).Nodup) (he : (names e).Nodup) :
    sorted e = sorted d ↔ ∀ n, find? n e = find? n d := by
  constructor
  · intro h n
    rw [← find?_sorted he, h, find?_sorted hd]
  · exact sorted_eq_of_find? he hd

end Dictionary

/-! ### Configurations -/

/-- The configurations that come of inserting options one by one, in a given order. -/
inductive Config.Inserted : List (String × Value) → Config → Prop where
  | new : Inserted [] []
  | insert {entries : List (String × Value)} {c : Config} (name : String) (value : Value) :
      Inserted entries c → Inserted (entries ++ [(name, value)]) (Dictionary.set name value c)

variable {entries : List (String × Value)} {c : Config}

theorem Config.Inserted.records (h : Config.Inserted entries c) : Dictionary.Records c entries := by
  induction h with
  | new => exact .nil
  | insert name value _ ih => exact ih.set name value

/-- Inserting options one by one is building the configuration from all of them. -/
theorem Config.inserted_iff : Config.Inserted entries c ↔ c = Dictionary.ofPairs entries := by
  constructor
  · intro h
    induction h with
    | new => rfl
    | insert name value _ ih => rw [ih, Dictionary.ofPairs, Dictionary.ofPairs, List.foldl_concat]
  · rintro rfl
    induction entries using List.reverseRecOn with
    | nil => exact .new
    | append_singleton entries p ih =>
        rw [Dictionary.ofPairs, List.foldl_concat]
        exact ih.insert p.1 p.2

/-- **A configuration represents what was inserted.**

However often options are inserted, and under whatever names, the names of the options are distinct
and stand in the order of their first insertions; what is found under a name is what was inserted
last under it, and nothing is found under a name that was never inserted; and there are as many
options as distinct names.  The order by name lists the same options with the bytes of their names
strictly ascending, is the only such list, and so is the same for configurations that hold the same
options. -/
theorem inserted_options (h : Config.Inserted entries c) :
    c = Dictionary.ofPairs entries
      ∧ (Dictionary.names c).Nodup
      ∧ (∀ n, n ∈ Dictionary.names c ↔ n ∈ Dictionary.names entries)
      ∧ ((Dictionary.names c).Pairwise fun m n =>
          (Dictionary.names entries).idxOf m < (Dictionary.names entries).idxOf n)
      ∧ (∀ n v, Dictionary.find? n c = some v ↔
          ∃ before after, entries = before ++ (n, v) :: after ∧ n ∉ Dictionary.names after)
      ∧ (∀ n, Dictionary.find? n c = none ↔ n ∉ Dictionary.names entries)
      ∧ c.length = (Dictionary.names entries).toFinset.card
      ∧ (Dictionary.sorted c).Perm c
      ∧ ((Dictionary.sorted c).Pairwise fun p q => bytes p.1 < bytes q.1)
      ∧ (∀ l : List (String × Value), l.Perm c →
          (l.Pairwise fun p q => ¬ bytes q.1 < bytes p.1) → l = Dictionary.sorted c)
      ∧ ∀ (entries' : List (String × Value)) (c' : Config), Config.Inserted entries' c' →
          (Dictionary.sorted c' = Dictionary.sorted c ↔ c'.Perm c)
            ∧ (Dictionary.sorted c' = Dictionary.sorted c
              ↔ ∀ n, Dictionary.find? n c' = Dictionary.find? n c) := by
  have hc := h.records
  refine ⟨Config.inserted_iff.1 h, hc.nodup, hc.listed, hc.ordered, hc.found, hc.find?_eq_none_iff,
    hc.length_eq, Dictionary.sorted_perm c, Dictionary.pairwise_bytes_sorted hc.nodup,
    fun l => Dictionary.eq_sorted_of_bytes hc.nodup, fun entries' c' h' => ?_⟩
  exact ⟨Dictionary.sorted_eq_iff_perm hc.nodup,
    Dictionary.sorted_eq_iff_find? hc.nodup h'.records.nodup⟩

/-- A bound that is set, and set again after two other options. -/
def boundEntered : List (String × Value) :=
  [("max", .int 3), ("größe", .int 1), ("item", .text "Int"), ("max", .int 5)]

/-- What comes of it. -/
def boundSet : Config := [("max", .int 5), ("größe", .int 1), ("item", .text "Int")]

/-- The bound keeps its place with the value set last, and comes last by name. -/
theorem bound_kept : Config.Inserted boundEntered boundSet
    ∧ Dictionary.find? "max" boundSet = some (.int 5)
    ∧ Dictionary.sorted boundSet = [("größe", .int 1), ("item", .text "Int"), ("max", .int 5)] := by
  have hinserted : Config.Inserted boundEntered boundSet := Config.inserted_iff.2 rfl
  obtain ⟨-, -, -, -, hfound, -, -, -, -, hsorted, -⟩ := inserted_options hinserted
  refine ⟨hinserted, (hfound _ _).2 ?_, (hsorted _ ?_ ?_).symm⟩
  · exact ⟨boundEntered.take 3, [], rfl, List.not_mem_nil⟩
  · exact @List.perm_append_comm _ [_, _] [_]
  · decide +kernel

end SchemaGraph
